import SharedSlab.Proofs.HostSteps
import SharedSlab.Proofs.InUse

set_option autoImplicit false

namespace SharedSlab

open Slab

variable {H H' : Host} {h : SharedPool} {c : Counters} {self : Caller} {m : Memory} {size : Nat}

/-- The object `id` has the bytes of `m` now but for the word of the lock, which is free; all else
is as it was. -/
def Host.Writes (H H' : Host) (id : Nat) (m : Memory) : Prop :=
  ∃ m', H.Stored H' id m' ∧ m.AgreeFrom 1 m' ∧ m'.word 0 = 0

namespace SharedPool

theorem run_run {α : Type} {act : SharedM α} {o : MemoryObject} {a : α} {s : Session}
    (object : H.objects[h.mapping.id]? = some o)
    (run : act ⟨⟨o.memory, H.journal⟩, c⟩ = .ok a s) :
    ∃ H', h.run c act H = .ok (a, s.counters) H' ∧ H.Stored H' h.mapping.id s.arena.memory := by
  apply Host.onMemory_run object
  simp only [run]

/-- The handle works on a pool in use, which fills an object of the host. -/
structure Open (h : SharedPool) (H : Host) (m : Memory) : Prop where
  object : H.objects[h.mapping.id]? = some ⟨h.mapping.len, m⟩
  region : h.pool.region = ⟨h.mapping.base, h.mapping.len⟩
  use : h.pool.InUse m

structure Works (h : SharedPool) (me : Caller) (H : Host) (c : Counters) (m : Memory) :
    Prop where
  nothing : ∃ H', h.run c (h.alloc me 0) H = .ok (none, c) H' ∧ H.Writes H' h.mapping.id m
  alloc : ∀ size, 0 < size → ∃ found t H', h.pool.alloc size ⟨m, H.journal⟩ = .ok found t ∧
    h.run c (h.alloc me size) H =
      .ok (found.map (h.mapping.base + ·), c.count (.offset found)) H' ∧
    H.Writes H' h.mapping.id t.memory ∧ h.pool.InUse t.memory
  free : ∀ address, ∃ outcome t H',
    h.pool.freeAddress address ⟨m, H.journal⟩ = .ok outcome t ∧
    h.run c (h.free me address) H = .ok (outcome, c.count (.freed outcome)) H' ∧
    H.Writes H' h.mapping.id t.memory ∧ h.pool.InUse t.memory
  snapshot : ∃ snap H', h.pool.snapshot ⟨m, H.journal⟩ = .ok snap ⟨m, H.journal⟩ ∧
    h.run c (h.snapshot me) H = .ok (snap, c) H' ∧ H.Writes H' h.mapping.id m

namespace Open

variable (v : h.Open H m)
include v

theorem len_eq : h.pool.region.len = h.mapping.len := by rw [v.region]

theorem finish_le : h.pool.finish ≤ h.pool.region.len := v.use.placed.finish_le

theorem locked_writes {α : Type} {act : SharedM α} {a : α} {w t : Arena} {d : Counters}
    (run : act (Session.withLock ⟨⟨m, H.journal⟩, c⟩ self.word) = .ok a ⟨w, d⟩)
    (held : w.memory.word 0 = self.word) (agree : t.memory.AgreeFrom 1 w.memory) :
    ∃ H', h.run c (locked self act) H = .ok (a, d) H' ∧ H.Writes H' h.mapping.id t.memory := by
  have done := locked_run (s := ⟨⟨m, H.journal⟩, c⟩) self v.use.unlocked run held
  obtain ⟨H', hrun, stored⟩ := run_run v.object done
  refine ⟨H', hrun, w.memory.setWord 0 0, stored, ?_, Memory.word_setWord_self w.memory 0 0⟩
  intro x hx
  rw [agree x hx]
  exact (Memory.word_setWord_of_ne _ _ (by omega)).symm

theorem alloc_works (self : Caller) (c : Counters) (pos : 0 < size) :
    ∃ found t H', h.pool.alloc size ⟨m, H.journal⟩ = .ok found t ∧
      h.run c (h.alloc self size) H =
        .ok (found.map (h.mapping.base + ·), c.count (.offset found)) H' ∧
      H.Writes H' h.mapping.id t.memory ∧ h.pool.InUse t.memory := by
  have u : h.pool.InUse (⟨m, H.journal⟩ : Arena).memory := v.use
  obtain ⟨answer, t, run, use, inside, underLock⟩ := u.call (.alloc size pos)
  obtain ⟨found, t₁, alloc, hanswer⟩ := PoolM.of_bind run
  cases hanswer
  obtain ⟨w, runHeld, agree, held⟩ := underLock self.word
    (Session.withLock ⟨⟨m, H.journal⟩, c⟩ self.word).arena rfl
  obtain ⟨found', w₁, allocHeld, hanswer⟩ := PoolM.of_bind runHeld
  cases hanswer
  have locked := allocLocked_of_alloc (t := Session.withLock ⟨⟨m, H.journal⟩, c⟩ self.word)
    (Memory.word_setWord_self ..) pos (fun off heq => inside off (congrArg Answer.offset heq))
    allocHeld
  obtain ⟨H', hrun, writes⟩ := v.locked_writes locked held agree
  have hlock : h.alloc self size = SharedPool.locked self (h.allocLocked self size) :=
    if_neg pos.ne'
  have base : h.pool.region.base = h.mapping.base := by rw [v.region]
  rw [← hlock, base] at hrun
  exact ⟨found, t, H', alloc, hrun, writes, use⟩

theorem free_works (self : Caller) (c : Counters) (address : Nat) :
    ∃ outcome t H', h.pool.freeAddress address ⟨m, H.journal⟩ = .ok outcome t ∧
      h.run c (h.free self address) H = .ok (outcome, c.count (.freed outcome)) H' ∧
      H.Writes H' h.mapping.id t.memory ∧ h.pool.InUse t.memory := by
  have u : h.pool.InUse (⟨m, H.journal⟩ : Arena).memory := v.use
  -- an address past the region stands for an offset past it
  obtain ⟨off, seen⟩ : ∃ off, h.pool.region.offsetOf? address =
      if off < h.pool.region.len then some off else none := by
    cases hseen : h.pool.region.offsetOf? address with
    | none => exact ⟨h.pool.region.len, (if_neg (Nat.lt_irrefl _)).symm⟩
    | some off => exact ⟨off, (if_pos (Region.offsetOf?_eq_some_iff.1 hseen).2).symm⟩
  obtain ⟨answer, t, run, use, _, underLock⟩ := u.call (.free off)
  obtain ⟨outcome, t₁, free, hanswer⟩ := PoolM.of_bind run
  cases hanswer
  obtain ⟨w, runHeld, agree, held⟩ := underLock self.word
    (Session.withLock ⟨⟨m, H.journal⟩, c⟩ self.word).arena rfl
  obtain ⟨outcome', w₁, freeHeld, hanswer⟩ := PoolM.of_bind runHeld
  cases hanswer
  obtain ⟨t₂, freeAddress, same⟩ := Pool.freeAddress_of_free v.finish_le seen free
  obtain ⟨w₂, locked, sameHeld⟩ := freeLocked_of_free
    (t := Session.withLock ⟨⟨m, H.journal⟩, c⟩ self.word) (Memory.word_setWord_self m 0 self.word)
    v.finish_le seen freeHeld
  rw [← sameHeld] at held agree
  rw [← same] at agree use
  obtain ⟨H', hrun, writes⟩ := v.locked_writes locked held agree
  exact ⟨outcome, t₂, H', freeAddress, hrun, writes, use⟩

theorem snapshot_works (self : Caller) (c : Counters) :
    ∃ snap H', h.pool.snapshot ⟨m, H.journal⟩ = .ok snap ⟨m, H.journal⟩ ∧
      h.run c (h.snapshot self) H = .ok (snap, c) H' ∧ H.Writes H' h.mapping.id m := by
  obtain ⟨snap, read⟩ := v.use.snapshot
  have agree : m.AgreeFrom 1 (m.setWord 0 self.word) := fun x hx =>
    (Memory.word_setWord_of_ne _ _ (by omega)).symm
  have run := SharedM.onPool_run (s := Session.withLock ⟨⟨m, H.journal⟩, c⟩ self.word)
    (read h.pool ⟨m.setWord 0 self.word, H.journal⟩ v.use agree)
  have done := guarded_run (s := ⟨⟨m, H.journal⟩, c⟩) self v.use.unlocked run
    (Memory.word_setWord_self m 0 self.word)
  obtain ⟨H', hrun, stored⟩ := run_run v.object done
  refine ⟨snap, H', read h.pool _ v.use fun _ _ => rfl, hrun, _, stored, ?_,
    Memory.word_setWord_self (m.setWord 0 self.word) 0 0⟩
  intro x hx
  rw [agree x hx]
  exact (Memory.word_setWord_of_ne _ _ (by omega)).symm

theorem works (self : Caller) (c : Counters) : h.Works self H c m where
  nothing := by
    obtain ⟨H', hrun, stored⟩ := run_run (c := c) v.object (h.empty_requests self _).1
    exact ⟨H', hrun, m, stored, fun _ _ => rfl, v.use.unlocked⟩
  alloc _ pos := v.alloc_works self c pos
  free address := v.free_works self c address
  snapshot := v.snapshot_works self c

end Open

end SharedPool

end SharedSlab
