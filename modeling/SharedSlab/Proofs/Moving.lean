import SharedSlab.Proofs.FreeDecisions
import SharedSlab.Proofs.HeapBlocks

set_option autoImplicit false

namespace SharedSlab

open Slab

theorem Region.exists_offset (r : Region) (address : Nat) :
    ∃ off, r.offsetOf? address = (if off < r.len then some off else none) ∧
      (off < r.len → address = r.base + off) := by
  cases hseen : r.offsetOf? address with
  | none =>
    exact ⟨r.len, by rw [if_neg (lt_irrefl _)], fun hlt => absurd hlt (lt_irrefl _)⟩
  | some off =>
    obtain ⟨haddress, hlt⟩ := Region.offsetOf?_eq_some_iff.1 hseen
    exact ⟨off, by rw [if_pos hlt], fun _ => haddress⟩

namespace Slab

variable {p : Pool} {a : Ledger} {live : List Block} {m : Memory} {dst len : Nat}

theorem Follows.copy (f : Follows p a live m) (hp : p.Placed) (src : Nat)
    (owned : ∀ x, dst ≤ x → x < dst + len → p.Owned live x) :
    Follows p a live (m.copy src dst len) ∧
      ∀ y < 9, (m.copy src dst len).word y = m.word y := by
  refine f.overwrite hp fun x none => m.byte_copy_of_outside ?_
  by_contra inside
  exact none (owned x (by omega) (by omega))

section Move

variable {m₁ m₂ : Memory} {b c : Block} {n : Nat} (apart : ∀ d ∈ live, p.Apart c d)
  (fits : n ≤ p.chunkSize c.size) (taken : p.Keeps live (c :: live) m m₁)
  (given : p.Keeps (c :: live) (c :: live.filter (·.off ≠ b.off)) (m₁.copy b.off c.off n) m₂)
  (hb : b ∈ live) (fits' : n ≤ p.chunkSize b.size)
include apart fits taken given hb fits'

theorem Pool.Keeps.byte_moved {k : Nat} (hk : k < n) :
    m₂.byte (c.off + k) = m.byte (b.off + k) := by
  have disjoint := apart b hb
  rw [Pool.Apart] at disjoint
  calc m₂.byte (c.off + k)
      = (m₁.copy b.off c.off n).byte (c.off + k) :=
        given.user c List.mem_cons_self List.mem_cons_self _ (Nat.le_add_right _ _) (by omega)
    _ = m₁.byte (b.off + k) := by
        rw [Memory.byte_copy _ (by omega), if_pos (by omega), Nat.add_sub_cancel_left]
    _ = m.byte (b.off + k) :=
        taken.user b hb (List.mem_cons_of_mem c hb) _ (Nat.le_add_right _ _) (by omega)

theorem Pool.Keeps.byte_unmoved {d : Block} (hd : d ∈ live) (hne : d.off ≠ b.off) {x : Nat}
    (low : d.off ≤ x) (high : x < d.off + p.chunkSize d.size) : m₂.byte x = m.byte x := by
  have disjoint := apart b hb
  have disjoint' := apart d hd
  rw [Pool.Apart] at disjoint disjoint'
  have kept : d ∈ live.filter (·.off ≠ b.off) := List.mem_filter.2 ⟨hd, by simpa using hne⟩
  calc m₂.byte x
      = (m₁.copy b.off c.off n).byte x :=
        given.user d (List.mem_cons_of_mem c hd) (List.mem_cons_of_mem c kept) x low high
    _ = m₁.byte x := by rw [Memory.byte_copy _ (by omega), if_neg (by omega)]
    _ = m.byte x := taken.user d hd (List.mem_cons_of_mem c hd) x low high

end Move

end Slab

namespace SharedPool

variable {h : SharedPool} {a : Ledger} {live : List Block} {m : Memory} {s : Session}
  {b : Block} {size : Nat} {shape : BlockShape}

/-- These allocations are live and no others: they lie apart, and a free is done just where one of
them starts. The lock is free. -/
structure Holds (h : SharedPool) (live : List Block) (s : Session) : Prop where
  separated : h.pool.Separated live s.arena.memory
  frees : ∀ (self : Caller) (address : Nat), (∃ u, h.free self address s = .ok (.ok ()) u) ↔
    ∃ b ∈ live, address = h.pool.region.base + b.off
  unlocked : s.arena.memory.word 0 = 0

namespace Idle

theorem free_live (i : h.Idle a live s.arena.memory) (self : Caller) (hb : b ∈ live) :
    ∃ a' u, h.free self (h.pool.region.base + b.off) s =
        .ok (.ok ()) ⟨u, s.counters.count (.freed (.ok ()))⟩ ∧
      h.Idle a' (live.filter (·.off ≠ b.off)) u.memory ∧
      h.pool.Framed a a' s.arena.memory u.memory := by
  obtain ⟨u, run, idle, framed⟩ := i.free_run self h.pool.region.offsetOf?_base_add_eq
  rw [(i.follows.free_done_iff i.placed b.off).2 ⟨b, hb, rfl⟩] at run idle
  exact ⟨_, u, run, idle, framed⟩

theorem holds (i : h.Idle a live s.arena.memory) : h.Holds live s := by
  refine ⟨i.follows.separated i.placed, fun self address => ⟨?_, ?_⟩, i.unlocked⟩
  · rintro ⟨u, run⟩
    obtain ⟨off, seen, found⟩ := h.pool.region.exists_offset address
    obtain ⟨v, run', _⟩ := i.free_run self seen
    have done : (a.free h.pool off).1 = .ok () := (EStateM.Result.ok.inj (run'.symm.trans run)).1
    obtain ⟨b, hb, rfl⟩ := (i.follows.free_done_iff i.placed off).1 done
    exact ⟨b, hb, found (i.follows.off_lt i.placed hb)⟩
  · rintro ⟨b, hb, rfl⟩
    obtain ⟨_, _, run, _⟩ := i.free_live self hb
    exact ⟨_, run⟩

theorem copy (i : h.Idle a live m) (src : Nat) {dst len : Nat}
    (owned : ∀ x, dst ≤ x → x < dst + len → h.pool.Owned live x) :
    h.Idle a live (m.copy src dst len) := by
  obtain ⟨f, same⟩ := i.follows.copy i.placed src owned
  exact ⟨i.placed, f, (same 0 (by decide)).trans i.unlocked⟩

end Idle

theorem deallocate_run {self : Caller} {address : Nat} {u : Session}
    {outcome : Except PoolError Unit} (run : h.free self address s = .ok outcome u) :
    h.deallocate self address s = .ok () u :=
  SharedM.bind_run run

theorem reallocate_invalid (self : Caller) (old : Option Nat)
    (invalid : BlockShape.of? size shape.align = none) :
    h.reallocate self old shape size s = .ok none s := by
  rw [reallocate, invalid]
  rfl

theorem reallocate_null (self : Caller) (h : SharedPool) (shape : BlockShape) (size : Nat) :
    h.reallocate self none shape size = match BlockShape.of? size shape.align with
      | none => pure none
      | some wanted => h.allocate self wanted := by
  rw [reallocate]
  cases BlockShape.of? size shape.align with
  | none => rfl
  | some wanted =>
    refine (bind_congr fun found => ?_).trans (bind_pure _)
    cases found <;> rfl

section Valid

variable {self : Caller} {u : Session}
  (valid : BlockShape.of? size shape.align = some ⟨size, shape.align⟩)
include valid

theorem reallocate_refused (run : h.allocate self ⟨size, shape.align⟩ s = .ok none u)
    (old : Option Nat) : h.reallocate self old shape size s = .ok none u := by
  rw [reallocate, valid]
  dsimp only
  rw [SharedM.bind_run run]
  rfl

theorem reallocate_given {old new : Nat} {t : Session}
    (run : h.allocate self ⟨size, shape.align⟩ s = .ok (some new) t)
    (freed : h.deallocate self old ⟨t.arena.withMemory (t.arena.memory.copy
      (old - h.pool.region.base) (new - h.pool.region.base) (min shape.size size)), t.counters⟩ =
      .ok () u) :
    h.reallocate self (some old) shape size s = .ok (some new) u := by
  have copied : SharedM.onPool (PoolM.onMemory fun m => m.copy (old - h.pool.region.base)
      (new - h.pool.region.base) (min shape.size size)) t =
      .ok () ⟨t.arena.withMemory (t.arena.memory.copy (old - h.pool.region.base)
        (new - h.pool.region.base) (min shape.size size)), t.counters⟩ := rfl
  rw [reallocate, valid]
  dsimp only
  rw [SharedM.bind_run run]
  dsimp only
  rw [SharedM.bind_run copied, SharedM.bind_run freed]
  rfl

theorem reallocate_moved {old new : Nat} {t : Session} {outcome : Except PoolError Unit}
    (run : h.allocate self ⟨size, shape.align⟩ s = .ok (some (h.pool.region.base + new)) t)
    (freed : h.free self (h.pool.region.base + old) ⟨t.arena.withMemory
      (t.arena.memory.copy old new (min shape.size size)), t.counters⟩ = .ok outcome u) :
    h.reallocate self (some (h.pool.region.base + old)) shape size s =
      .ok (some (h.pool.region.base + new)) u := by
  apply reallocate_given valid run
  rw [Nat.add_sub_cancel_left, Nat.add_sub_cancel_left]
  exact deallocate_run freed

end Valid

/-- What becomes of the block `b`: all stays as it was, since no other block is to be had; or a new
block, apart from all that was live, has the bytes that both have room for and takes the place of
`b`. -/
inductive Moved (h : SharedPool) (live : List Block) (b : Block) (shape : BlockShape) (size : Nat)
    (s : Session) : Option Nat → Session → Prop
  | refused {u : Arena} (cause : BlockShape.of? size shape.align = none ∨
        h.config.pageSize < shape.align ∨
        h.pool.Exhausted (table s.arena.memory) live (max size shape.align))
      (same : ∀ x, u.memory.word x = s.arena.memory.word x)
      (holds : h.Holds live ⟨u, s.counters⟩) : Moved h live b shape size s none ⟨u, s.counters⟩
  | moved {c : Block} {u : Arena} (room : c.size = max size shape.align)
      (apart : ∀ d ∈ live, h.pool.Apart c d)
      (copied : ∀ k < min shape.size size,
        u.memory.byte (c.off + k) = s.arena.memory.byte (b.off + k))
      (others : ∀ d ∈ live, d ≠ b → ∀ x, d.off ≤ x → x < d.off + h.pool.chunkSize d.size →
        u.memory.byte x = s.arena.memory.byte x)
      (holds : h.Holds (c :: live.filter (·.off ≠ b.off))
        ⟨u, s.counters.allocations + 1, s.counters.deallocations + 1⟩) :
      Moved h live b shape size s (some (h.pool.region.base + c.off))
        ⟨u, s.counters.allocations + 1, s.counters.deallocations + 1⟩

namespace Idle

theorem congr {n : Memory} (i : h.Idle a live m) (same : ∀ x, n.word x = m.word x) :
    h.Idle a live n :=
  ⟨i.placed, i.follows.congr i.placed fun x _ => (same x).symm, (same 0).trans i.unlocked⟩

theorem reallocate_run (i : h.Idle a live s.arena.memory) (self : Caller) (hb : b ∈ live)
    (hsize : shape.size ≤ b.size) (size : Nat) : ∃ found u,
      h.reallocate self (some (h.pool.region.base + b.off)) shape size s = .ok found u ∧
      h.Moved live b shape size s found u := by
  cases valid : BlockShape.of? size shape.align with
  | none =>
    exact ⟨none, s, reallocate_invalid self _ valid, .refused (.inl valid) (fun _ => rfl) i.holds⟩
  | some wanted =>
    obtain ⟨⟨k, hk⟩, _, rfl⟩ := BlockShape.of?_eq_some_iff.1 valid
    have pos : 0 < (⟨size, shape.align⟩ : BlockShape).align := hk ▸ Nat.two_pow_pos k
    obtain ⟨answer, found, t, run, allotted, refused_iff⟩ := i.allocate_run self pos
    cases allotted with
    | refused same =>
      exact ⟨none, _, reallocate_refused valid run _,
        .refused (.inr (refused_iff.1 rfl)) same (i.congr same).holds⟩
    | @given off a₁ t₁ i₁ framed₁ =>
      have apart : ∀ d ∈ live, h.pool.Apart ⟨off, max size shape.align⟩ d :=
        (List.pairwise_cons.1 i₁.follows.apart).1
      have new := Pool.le_chunkSize i.placed (i₁.follows.fits _ List.mem_cons_self)
      have old := Pool.le_chunkSize i.placed (i.follows.fits b hb)
      dsimp only at new
      have owned : ∀ x, off ≤ x → x < off + min shape.size size →
          h.pool.Owned (⟨off, max size shape.align⟩ :: live) x := fun x low high =>
        ⟨_, List.mem_cons_self, low, by dsimp only; omega⟩
      have i₂ := i₁.copy b.off owned
      obtain ⟨a₂, u, freed, i₃, framed₂⟩ := i₂.free_live
        (s := ⟨t₁.withMemory _, s.counters.count (.offset (some off))⟩) self
        (List.mem_cons_of_mem _ hb)
      have hne : off ≠ b.off := fun heq =>
        (List.nodup_cons.1 i₁.follows.nodup).1 (List.mem_map.2 ⟨b, hb, heq.symm⟩)
      rw [List.filter_cons_of_pos (by simpa using hne)] at i₃
      have taken := i.follows.keeps i₁.follows i.placed framed₁
      have given := i₂.follows.keeps i₃.follows i.placed framed₂
      have fits : min shape.size size ≤ h.pool.chunkSize (max size shape.align) := by omega
      have fits' : min shape.size size ≤ h.pool.chunkSize b.size := by omega
      exact ⟨_, _, reallocate_moved valid run freed, .moved rfl apart
        (fun k hk => taken.byte_moved apart fits given hb fits' hk)
        (fun d hd hdb x low high => taken.byte_unmoved apart fits given hb fits' hd
          (fun heq => hdb (List.inj_on_of_nodup_map i.follows.nodup hd hb heq)) low high) i₃.holds⟩

theorem reallocate_null_run (i : h.Idle a live s.arena.memory) (self : Caller)
    (shape : BlockShape) (size : Nat) : ∃ found u,
      h.reallocate self none shape size s = .ok found u ∧
      u.counters.deallocations = s.counters.deallocations ∧
      ∃ fresh, h.Holds (fresh ++ live) u := by
  rw [reallocate_null]
  cases valid : BlockShape.of? size shape.align with
  | none => exact ⟨none, s, rfl, rfl, [], i.holds⟩
  | some wanted =>
    obtain ⟨⟨k, hk⟩, _, rfl⟩ := BlockShape.of?_eq_some_iff.1 valid
    have pos : 0 < (⟨size, shape.align⟩ : BlockShape).align := hk ▸ Nat.two_pow_pos k
    obtain ⟨answer, found, u, run, allotted, _⟩ := i.allocate_run self pos
    cases allotted with
    | refused same => exact ⟨none, _, run, rfl, [], (i.congr same).holds⟩
    | given idle => exact ⟨_, _, run, rfl, [_], idle.holds⟩

end Idle

end SharedPool

/-- After any history a live block is moved, or all stays as it was; in either case the lock is free
again. Without a block to move a new one is given as it is on request, and nothing is freed. -/
theorem reallocate_moves {region : Region} {config : Config} {p : Pool} {s s' : Arena}
    (hlen : region.len < wordLimit) (h : Pool.init region config s = .ok (.ok p) s')
    (moves : List Move) :
    ∃ replies live t, p.play moves [] s' = .ok (replies, live) t ∧ t.memory.word 0 = 0 ∧
      ∀ (handle : SharedPool) (self : Caller) (counters : Counters), handle.Opened p s' moves →
        handle.pool.region.Addressable → ∀ (shape : BlockShape) (size : Nat),
          (∀ b ∈ live, b.size = max shape.size shape.align → ∃ found u,
            handle.reallocate self (some (handle.pool.region.base + b.off)) shape size
              ⟨t, counters⟩ = .ok found u ∧
            handle.Moved live b shape size ⟨t, counters⟩ found u) ∧
          (handle.reallocate self none shape size = match BlockShape.of? size shape.align with
            | none => pure none
            | some wanted => handle.allocate self wanted) ∧
          ∃ found u, handle.reallocate self none shape size ⟨t, counters⟩ = .ok found u ∧
            u.counters.deallocations = counters.deallocations ∧
            ∃ fresh, handle.Holds (fresh ++ live) u := by
  obtain ⟨replies, live, t, a, played, free, idle⟩ := SharedPool.idle_after hlen h moves
  refine ⟨replies, live, t, played, free, fun handle self counters opened mapped shape size => ?_⟩
  have i := idle handle opened mapped
  refine ⟨fun b hb hsize => ?_, handle.reallocate_null self shape size,
    i.reallocate_null_run (s := ⟨t, counters⟩) self shape size⟩
  exact i.reallocate_run (s := ⟨t, counters⟩) self hb (hsize ▸ le_max_left _ _) size

/-- A block of 100 bytes, with what its user wrote at both ends, moves to one of 300. -/
theorem reallocate_moves_host : ∃ s',
    Pool.init ⟨0, 65536⟩ Config.host ⟨Memory.zeroed, #[]⟩ = .ok (.ok Pool.onHost) s' ∧
    ∃ replies live t, Pool.onHost.play [.call (.alloc 100 (by decide)), .write 4096 7,
        .write 4195 9] [] s' = .ok (replies, live) t ∧ t.memory.word 0 = 0 ∧
      (⟨4096, 100⟩ : Block) ∈ live ∧
      (SharedPool.seenAt Pool.onHost 69632).Opened Pool.onHost s'
        [.call (.alloc 100 (by decide)), .write 4096 7, .write 4195 9] ∧
      (SharedPool.seenAt Pool.onHost 69632).pool.region.Addressable ∧
      ∃ (self : Caller) (found : Option Nat) (u : Session),
        (SharedPool.seenAt Pool.onHost 69632).reallocate self (some (69632 + 4096)) ⟨100, 64⟩ 300
          ⟨t, ⟨1, 0⟩⟩ = .ok found u ∧
        (SharedPool.seenAt Pool.onHost 69632).Moved live ⟨4096, 100⟩ ⟨100, 64⟩ 300 ⟨t, ⟨1, 0⟩⟩
          found u := by
  obtain ⟨s', h⟩ := Pool.init_onHost
  have laid := Pool.init_spec (by decide) h
  obtain ⟨hp, f₀⟩ := follows_init (by decide) h
  have opened := SharedPool.opened_seenAt laid 69632
    [.call (.alloc 100 (by decide)), .write 4096 7, .write 4195 9]
  have mapped : (SharedPool.seenAt Pool.onHost 69632).pool.region.Addressable :=
    SharedPool.addressable_seenAt (by decide) (by decide)
  obtain ⟨t', played, _⟩ :=
    f₀.play hp [.call (.alloc 100 (by decide)), .write 4096 7, .write 4195 9]
  obtain ⟨replies, live, t, run, free, moves⟩ := reallocate_moves (by decide) h
    [.call (.alloc 100 (by decide)), .write 4096 7, .write 4195 9]
  have hlive : live = [⟨4096, 100⟩] := by
    cases run.symm.trans played
    rfl
  have hb : (⟨4096, 100⟩ : Block) ∈ live := hlive ▸ List.mem_cons_self
  exact ⟨s', h, replies, live, t, run, free, hb, opened, mapped,
    ⟨7, by decide, by decide, fun _ => false⟩,
    (moves _ _ ⟨1, 0⟩ opened mapped ⟨100, 64⟩ 300).1 _ hb (by decide)⟩

end SharedSlab
