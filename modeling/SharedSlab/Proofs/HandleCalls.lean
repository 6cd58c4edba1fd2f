import SharedSlab.Proofs.HandleSteps
import SharedSlab.Proofs.UserWrites
import SharedSlab.Proofs.Views

set_option autoImplicit false

/-!
# Calls through a handle

A handle is a pool and a lock. Its calls may take and release the lock one by one, or be made under
one guard, or between `lock` and `unlock`; they may pass offsets or addresses. All give the answers
of the pool and leave what the pool leaves, but for the lock word: that is zero after each call that
takes the lock, and the holder's while the lock is held.
-/

namespace SharedSlab

namespace Slab

def Call.Fits : Call → Prop
  | .alloc .. => True
  | .free off => off < wordLimit

variable {p : Pool} {r : Region} {a : Ledger} {live : List Block} {m n : Memory} {s t : Arena}

namespace Follows

theorem congr (f : Follows p a live m) (hp : p.Placed) (agree : m.AgreeFrom 1 n) :
    Follows p a live n := by
  refine f.withStores (f.stores.congr f.steady.toCoherent (fun y low _ => ?_) fun y hy => ?_)
  · exact (agree y (by omega)).symm
  · have htable := hy.table_le hp
    exact (agree y (by omega)).symm

theorem callThrough (f : Follows p a live s.memory) (hp : p.Placed) (hlen : p.region.len ≤ r.len)
    (agree : s.memory.AgreeFrom 1 t.memory) (c : Call) :
    ∃ answer s' t' a', (p.inRegion r).call c s = .ok answer s' ∧
      (p.inRegion r).call c t = .ok answer t' ∧
      Follows p a' (track c answer live) s'.memory ∧ s'.memory.AgreeFrom 1 t'.memory ∧
      t'.memory.word 0 = t.memory.word 0 := by
  obtain ⟨s₁, run, f₁, _⟩ := f.call hp c
  obtain ⟨t₁, run', _, framed⟩ := (f.congr hp agree).call hp c
  have whole : p.Wider r 0 := ⟨hp, hlen, Nat.zero_le 1⟩
  have unlocked : p.Wider r 1 := ⟨hp, hlen, le_refl 1⟩
  obtain ⟨s', hs, agree_s⟩ := whole.call c s s _ s₁ (fun _ _ => rfl) run
  obtain ⟨t', ht, agree_t⟩ := whole.call c t t _ t₁ (fun _ _ => rfl) run'
  obtain ⟨u, hu, agree_u⟩ := unlocked.call c s t _ s₁ agree run
  cases ht.symm.trans hu
  refine ⟨_, s', t', _, hs, ht, f₁.congr hp (agree_s.mono (Nat.zero_le 1)), fun x hx => ?_, ?_⟩
  · rw [← agree_s x (Nat.zero_le x), agree_u x hx]
  · rw [← agree_t 0 (le_refl 0), framed.word_of_lt hp (by decide)]

theorem lt_of_granted (hp : p.Placed) {q : Pool} {c : Call} {off : Nat}
    (run : q.call c s = .ok (.offset (some off)) t)
    (f : Follows p a (track c (.offset (some off)) live) m) : off < p.region.len := by
  cases c with
  | alloc size pos => exact f.off_lt (b := ⟨off, size⟩) hp List.mem_cons_self
  | free =>
    obtain ⟨_, _, _, hanswer⟩ := PoolM.of_bind run
    cases hanswer

end Follows

end Slab

open Slab

/-- Whether chunks are told by their offsets, or by their addresses in the process. -/
inductive Form
  | offset
  | address

def Counters.count (c : Counters) : Answer → Counters
  | .offset (some _) => { c with allocations := c.allocations + 1 }
  | .freed (.ok ()) => { c with deallocations := c.deallocations + 1 }
  | _ => c

namespace SharedPool

/-- The address that stands for an offset, which wraps at 64 bits. -/
def pointer (h : SharedPool) (off : Nat) : Nat := (h.pool.region.base + off) % wordLimit

def perform (self : Caller) (h : SharedPool) : Form × Call → SharedM Answer
  | (.offset, .alloc size _) => do return .offset (← h.allocOffset self size)
  | (.address, .alloc size _) => do
    return .offset ((← h.alloc self size).map (· - h.pool.region.base))
  | (.offset, .free off) => do return .freed (← h.freeOffset self off)
  | (.address, .free off) => do return .freed (← h.free self (h.pointer off))

def performHeld (self : Caller) (h : SharedPool) : Form × Call → SharedM Answer
  | (.offset, .alloc size _) => do return .offset (← h.guardAllocOffset self size)
  | (.address, .alloc size _) => do
    return .offset ((← h.allocLocked self size).map (· - h.pool.region.base))
  | (.offset, .free off) => do return .freed (← h.guardFreeOffset self off)
  | (.address, .free off) => do return .freed (← h.freeLocked self (h.pointer off))

def watched (act : SharedM Answer) : SharedM (Answer × UInt64) := do
  return (← act, ← SharedM.onPool SharedLock.word)

/-- The handle works on the pool `p` in a mapping of its own process. -/
structure Mapped (h : SharedPool) (p : Pool) : Prop where
  placed : p.Placed
  pool : h.pool = p.inRegion h.pool.region
  len_le : p.region.len ≤ h.pool.region.len
  fits : h.pool.region.base + h.pool.region.len < wordLimit

variable {h : SharedPool} {p : Pool} {self : Caller} {s t : Session} {u : Arena}
  {off size : Nat}

namespace Mapped

variable (v : h.Mapped p)
include v

theorem finish_le : h.pool.finish ≤ h.pool.region.len := by
  have hfinish := v.placed.finish_le
  have hlen := v.len_le
  rw [v.pool]
  exact hfinish.trans hlen

theorem start_pos : 0 < h.pool.start := by
  have htable := v.placed.table_le
  rw [v.pool]
  simp only [nodeOffset, freeHead, Pool.start, Pool.inRegion] at htable ⊢
  omega

theorem offsetOf?_pointer (hoff : off < wordLimit) :
    h.pool.region.offsetOf? (h.pointer off) =
      if off < h.pool.region.len then some off else none := by
  have hfits := v.fits
  by_cases hin : off < h.pool.region.len
  · rw [pointer, Nat.mod_eq_of_lt (by omega)]
    exact h.pool.region.offsetOf?_base_add_eq
  · rw [if_neg hin, Region.offsetOf?, pointer]
    by_cases hlt : h.pool.region.base + off < wordLimit
    · rw [Nat.mod_eq_of_lt hlt, if_neg (by omega)]
    · rw [Nat.mod_eq_sub_mod (not_lt.1 hlt), Nat.mod_eq_of_lt (by omega), if_neg (by omega)]

end Mapped

theorem map_sub_map_add (base : Nat) (found : Option Nat) :
    (found.map (base + ·)).map (· - base) = found := by
  cases found with
  | none => rfl
  | some off => exact congrArg some (Nat.add_sub_cancel_left ..)

theorem chunkOffset_map {found : Option Nat}
    (inside : ∀ off, found = some off → off < h.pool.region.len) :
    h.chunkOffset (found.map (h.pool.region.base + ·)) = found := by
  cases found with
  | none => rfl
  | some off => exact Region.offsetOf?_base_add (inside off rfl)

section Held

variable (held : t.arena.memory.word 0 = self.word)
include held

theorem allocLocked_of_alloc {found : Option Nat} (pos : 0 < size)
    (inside : ∀ off, found = some off → off < h.pool.region.len)
    (run : h.pool.alloc size t.arena = .ok found u) :
    h.allocLocked self size t = .ok (found.map (h.pool.region.base + ·))
      ⟨u, t.counters.count (.offset found)⟩ := by
  have haddress : h.pool.allocAddress size t.arena =
      .ok (found.map (h.pool.region.base + ·)) u := by
    rw [Pool.allocAddress, PoolM.bind_run run]
    cases found with
    | none => rfl
    | some off => exact PoolM.bind_liftM (if_pos (inside off rfl).le) _ _
  rw [allocLocked, if_neg pos.ne', SharedM.bind_run (requireLock_run self held),
    SharedM.bind_run (SharedM.onPool_run haddress)]
  cases found <;> rfl

theorem freeLocked_of_free {outcome : Except PoolError Unit}
    (finish_le : h.pool.finish ≤ h.pool.region.len) {address : Nat}
    (seen : h.pool.region.offsetOf? address = if off < h.pool.region.len then some off else none)
    (run : h.pool.free off t.arena = .ok outcome u) :
    ∃ w, h.freeLocked self address t = .ok outcome ⟨w, t.counters.count (.freed outcome)⟩ ∧
      w.memory = u.memory := by
  obtain ⟨w, hrun, hmemory⟩ := Pool.freeAddress_of_free finish_le seen run
  refine ⟨w, ?_, hmemory⟩
  rw [freeLocked, SharedM.bind_run (requireLock_run self held),
    SharedM.bind_run (SharedM.onPool_run hrun)]
  rcases outcome with _ | ⟨⟨⟩⟩ <;> rfl

theorem performHeld_run (v : h.Mapped p) {x : Form × Call} (hx : x.2.Fits) {answer : Answer}
    (inside : ∀ off, answer = .offset (some off) → off < h.pool.region.len)
    (run : h.pool.call x.2 t.arena = .ok answer u) :
    ∃ w, h.performHeld self x t = .ok answer ⟨w, t.counters.count answer⟩ ∧
      w.memory = u.memory := by
  obtain ⟨form, c⟩ := x
  cases c with
  | alloc size pos =>
    obtain ⟨found, _, hfound, hanswer⟩ := PoolM.of_bind run
    cases hanswer
    have inside' : ∀ off, found = some off → off < h.pool.region.len := fun off heq =>
      inside off (congrArg Answer.offset heq)
    have hlocked := allocLocked_of_alloc held pos inside' hfound
    refine ⟨u, ?_, rfl⟩
    cases form with
    | offset =>
      have hoffset : h.guardAllocOffset self size t =
          .ok found ⟨u, t.counters.count (.offset found)⟩ := by
        rw [guardAllocOffset, SharedM.bind_run hlocked, chunkOffset_map inside']
        rfl
      exact SharedM.bind_run hoffset
    | address =>
      rw [performHeld, SharedM.bind_run hlocked, map_sub_map_add]
      rfl
  | free off =>
    obtain ⟨outcome, _, hfree, hanswer⟩ := PoolM.of_bind run
    cases hanswer
    cases form with
    | address =>
      obtain ⟨w, hrun, hmemory⟩ := freeLocked_of_free held v.finish_le (v.offsetOf?_pointer hx) hfree
      exact ⟨w, SharedM.bind_run hrun, hmemory⟩
    | offset =>
      by_cases houtside : off = 0 ∨ h.pool.region.len ≤ off
      · -- the null offset and those past the region have no address, and the pool has none of them
        have hstart := v.start_pos
        have hfinish := v.finish_le
        rw [Pool.Wider.free_of_outside (by omega)] at hfree
        cases hfree
        refine ⟨t.arena, ?_, rfl⟩
        rw [performHeld, guardFreeOffset, resolve, if_pos houtside]
        rfl
      · obtain ⟨w, hrun, hmemory⟩ :=
          freeLocked_of_free held v.finish_le h.pool.region.offsetOf?_base_add_eq hfree
        refine ⟨w, ?_, hmemory⟩
        rw [performHeld, guardFreeOffset, resolve, if_neg houtside]
        exact SharedM.bind_run hrun

end Held

theorem perform_of_held (free : s.arena.memory.word 0 = 0) {x : Form × Call} {answer : Answer}
    (run : h.performHeld self x (s.withLock self.word) = .ok answer t)
    (held : t.arena.memory.word 0 = self.word) :
    ∃ w, h.perform self x s = .ok answer ⟨w, t.counters⟩ ∧ t.arena.memory.AgreeFrom 1 w.memory ∧
      w.memory.word 0 = 0 := by
  have released : t.arena.memory.AgreeFrom 1 (t.withLock 0).arena.memory := fun x hx =>
    (Memory.word_setWord_of_ne _ _ (by omega)).symm
  have word : (t.withLock 0).arena.memory.word 0 = 0 := Memory.word_setWord_self ..
  obtain ⟨form, c⟩ := x
  cases c with
  | alloc size pos =>
    have hlock : h.alloc self size = locked self (h.allocLocked self size) := if_neg pos.ne'
    cases form with
    | offset =>
      obtain ⟨found, t₁, hfound, hanswer⟩ := SharedM.of_bind run
      obtain ⟨chunk, t₂, hchunk, hoffset⟩ := SharedM.of_bind hfound
      cases hanswer
      cases hoffset
      have hrun := locked_run self free hchunk held
      rw [← hlock] at hrun
      have hoffset : h.allocOffset self size s = .ok (h.chunkOffset chunk) (t.withLock 0) :=
        SharedM.bind_run hrun
      exact ⟨_, SharedM.bind_run hoffset, released, word⟩
    | address =>
      obtain ⟨chunk, t₁, hchunk, hanswer⟩ := SharedM.of_bind run
      cases hanswer
      have hrun := locked_run self free hchunk held
      rw [← hlock] at hrun
      exact ⟨_, SharedM.bind_run hrun, released, word⟩
  | free off =>
    cases form with
    | address =>
      obtain ⟨outcome, t₁, houtcome, hanswer⟩ := SharedM.of_bind run
      cases hanswer
      exact ⟨_, SharedM.bind_run (locked_run self free houtcome held), released, word⟩
    | offset =>
      by_cases houtside : off = 0 ∨ h.pool.region.len ≤ off
      · -- an offset without an address is refused before the lock is taken
        rw [performHeld, guardFreeOffset, resolve, if_pos houtside] at run
        cases run
        refine ⟨s.arena, ?_, fun x hx => Memory.word_setWord_of_ne _ _ (by omega), free⟩
        rw [perform, freeOffset, resolve, if_pos houtside]
        rfl
      · rw [performHeld, guardFreeOffset, resolve, if_neg houtside] at run
        obtain ⟨outcome, t₁, houtcome, hanswer⟩ := SharedM.of_bind run
        cases hanswer
        refine ⟨_, ?_, released, word⟩
        rw [perform, freeOffset, resolve, if_neg houtside]
        exact SharedM.bind_run (locked_run self free houtcome held)

/-- Each call does what the pool does, the counters apart, and leaves the lock word at `w` if it
finds it there. -/
def Serves (h : SharedPool) (p : Pool) (w : UInt64) (act : Form × Call → SharedM Answer) : Prop :=
  ∀ (x : Form × Call) (a : Ledger) (live : List Block) (s : Arena) (t : Session), x.2.Fits →
    Follows p a live s.memory → s.memory.AgreeFrom 1 t.arena.memory →
    t.arena.memory.word 0 = w →
    ∃ answer s' u a' live', h.pool.call x.2 s = .ok answer s' ∧
      act x t = .ok answer ⟨u, t.counters.count answer⟩ ∧ Follows p a' live' s'.memory ∧
      s'.memory.AgreeFrom 1 u.memory ∧ u.memory.word 0 = w

theorem serves_held (v : h.Mapped p) (self : Caller) :
    h.Serves p self.word (h.performHeld self) := by
  intro x a live s t hx f agree held
  obtain ⟨answer, s', t', a', run, run', f', agree', word⟩ :=
    f.callThrough v.placed v.len_le agree x.2
  rw [← v.pool] at run run'
  have inside : ∀ off, answer = .offset (some off) → off < h.pool.region.len := by
    rintro off rfl
    exact (Follows.lt_of_granted v.placed run f').trans_le v.len_le
  obtain ⟨u, hrun, hmemory⟩ := performHeld_run held v hx inside run'
  rw [← hmemory] at agree' word
  exact ⟨answer, s', u, a', _, run, hrun, f', agree', word.trans held⟩

theorem serves_locking (v : h.Mapped p) (self : Caller) : h.Serves p 0 (h.perform self) := by
  intro x a live s t hx f agree free
  have taken : s.memory.AgreeFrom 1 (t.withLock self.word).arena.memory := agree.trans fun y hy =>
    (Memory.word_setWord_of_ne _ _ (by omega)).symm
  obtain ⟨answer, s', u, a', live', run, hrun, f', agree', held⟩ :=
    serves_held v self x a live s (t.withLock self.word) hx f taken (Memory.word_setWord_self ..)
  obtain ⟨w, hperform, released, word⟩ := perform_of_held free hrun held
  exact ⟨answer, s', w, a', live', run, hperform, f', agree'.trans released, word⟩

theorem Serves.run {w : UInt64} {act : Form × Call → SharedM Answer} (serves : h.Serves p w act)
    (xs : List (Form × Call)) (fits : ∀ x ∈ xs, x.2.Fits) {a : Ledger} {live : List Block}
    {s : Arena} {t : Session} (f : Follows p a live s.memory)
    (agree : s.memory.AgreeFrom 1 t.arena.memory)
    (word : t.arena.memory.word 0 = w) :
    ∃ answers s' u, (xs.map Prod.snd).mapM h.pool.call s = .ok answers s' ∧
      xs.mapM (fun x => watched (act x)) t =
        .ok (answers.map (·, w)) ⟨u, answers.foldl Counters.count t.counters⟩ ∧
      s'.memory.AgreeFrom 1 u.memory ∧ u.memory.word 0 = w := by
  induction xs generalizing a live s t with
  | nil => exact ⟨[], s, t.arena, rfl, rfl, agree, word⟩
  | cons x xs ih =>
    obtain ⟨answer, s₁, u₁, a₁, live₁, run₁, hrun₁, f₁, agree₁, word₁⟩ :=
      serves x a live s t (fits x List.mem_cons_self) f agree word
    obtain ⟨answers, s₂, u₂, run₂, hrun₂, agree₂, word₂⟩ :=
      ih (fun y hy => fits y (List.mem_cons_of_mem x hy)) (t := ⟨u₁, t.counters.count answer⟩) f₁
        agree₁ word₁
    have hwatched : watched (act x) t = .ok (answer, w) ⟨u₁, t.counters.count answer⟩ := by
      rw [watched, SharedM.bind_run hrun₁, ← word₁]
      rfl
    refine ⟨answer :: answers, s₂, u₂, ?_, ?_, agree₂, word₂⟩
    · rw [List.map_cons, List.mapM_cons, PoolM.bind_run run₁, PoolM.bind_run run₂]
      rfl
    · rw [List.mapM_cons, SharedM.bind_run hwatched, SharedM.bind_run hrun₂]
      rfl

/-- The pool of a handle is the view that `init` gave, or one that was attached at some time of a
history. -/
def Opened (h : SharedPool) (p : Pool) (s : Arena) (moves : List Move) : Prop :=
  h.pool = p ∨ ∃ prior, prior <+: moves ∧ ∃ replies t u region config,
    p.play prior [] s = .ok replies t ∧ Pool.attach region config t = .ok (.ok h.pool) u

def Answers (run : SharedM (List (Answer × UInt64))) (s : Session) (w : UInt64)
    (answers : List Answer) (u : Arena) : Prop :=
  ∃ v, run s = .ok (answers.map (·, w)) ⟨v, answers.foldl Counters.count s.counters⟩ ∧
    (∀ x, 1 ≤ x → v.memory.word x = u.memory.word x) ∧ v.memory.word 0 = 0

theorem Answers.released {run : SharedM (List (Answer × UInt64))} {s : Session} {w : UInt64}
    {answers : List Answer} {u v : Arena}
    (h : run s = .ok (answers.map (·, w))
      (Session.withLock ⟨v, answers.foldl Counters.count s.counters⟩ 0))
    (agree : u.memory.AgreeFrom 1 v.memory) : Answers run s w answers u := by
  refine ⟨v.withMemory (v.memory.setWord 0 0), h, fun x hx => ?_, Memory.word_setWord_self ..⟩
  rw [Arena.memory_withMemory, Memory.word_setWord_of_ne _ _ (by omega), agree x hx]

theorem empty_requests (h : SharedPool) (self : Caller) (s : Session) :
    h.alloc self 0 s = .ok none s ∧ h.allocOffset self 0 s = .ok none s ∧
      h.calloc self 0 s = .ok none s ∧ h.allocLocked self 0 s = .ok none s ∧
      h.guardAllocOffset self 0 s = .ok none s ∧ h.guardCalloc self 0 s = .ok none s :=
  ⟨rfl, rfl, rfl, rfl, rfl, rfl⟩

section Opened

variable {region : Region} {config : Config} {p : Pool} {s : Arena}

theorem Opened.mapped {h : SharedPool} {moves : List Move} (opened : h.Opened p s moves)
    (laid : Pool.Laid region config p s.memory)
    (f : Follows p (Ledger.fresh p.pageCount) [] s.memory)
    (fits : h.pool.region.base + h.pool.region.len < wordLimit) : h.Mapped p := by
  have hp := laid.placed
  rcases opened with hpool | ⟨prior, _, replies, t, u, r, c, run, attached⟩
  · exact ⟨hp, hpool.trans (by rw [hpool]; rfl), by rw [hpool], fits⟩
  · obtain ⟨t', run', _, kept⟩ := f.play hp prior
    cases run.symm.trans run'
    have header : p.Recorded t.memory := fun x lock count => by
      rw [kept _ (HeaderWord.index_lt count)]
      exact laid.recorded x lock count
    obtain ⟨rfl, rfl⟩ := And.intro laid.region_eq laid.config_eq
    obtain ⟨_, hpool, hlen, _⟩ := Pool.attach_spec hp laid.layout header attached
    exact ⟨hp, by rw [hpool]; rfl, by rw [hpool]; exact hlen, fits⟩

end Opened

end SharedPool

/-- After any history, with any writes of users, calls through a handle are answered as the pool of
the handle answers them without a lock, offset for offset, and leave the same memory but for the
lock word, which is free in the end. So it is with calls that take the lock themselves, with calls
under one guard, and with calls by address between `lock` and `unlock`; the first leave the lock free
after each call, the others leave it with its holder. A request for nothing changes nothing. -/
theorem handles_serve_alike {region : Region} {config : Config} {p : Pool} {s s' : Arena}
    (hlen : region.len < wordLimit) (h : Pool.init region config s = .ok (.ok p) s')
    (moves : List Move) :
    ∃ replies t, p.play moves [] s' = .ok replies t ∧ t.memory.word 0 = 0 ∧
      ∀ (handle : SharedPool) (self : Caller) (counters : Counters), handle.Opened p s' moves →
        handle.pool.region.base + handle.pool.region.len < wordLimit →
        (∀ calls : List (Form × Call), (∀ x ∈ calls, x.2.Fits) →
          ∃ answers u, (calls.map Prod.snd).mapM handle.pool.call t = .ok answers u ∧
            SharedPool.Answers (calls.mapM fun x => SharedPool.watched (handle.perform self x))
              ⟨t, counters⟩ 0 answers u ∧
            SharedPool.Answers (SharedPool.guarded self
              (calls.mapM fun x => SharedPool.watched (handle.performHeld self x)))
              ⟨t, counters⟩ self.word answers u ∧
            SharedPool.Answers (SharedPool.locked self
              (calls.mapM fun x => SharedPool.watched (handle.performHeld self (.address, x.2))))
              ⟨t, counters⟩ self.word answers u) ∧
        ∀ v, handle.alloc self 0 v = .ok none v ∧ handle.allocOffset self 0 v = .ok none v ∧
          handle.calloc self 0 v = .ok none v ∧ handle.allocLocked self 0 v = .ok none v ∧
          handle.guardAllocOffset self 0 v = .ok none v ∧
          handle.guardCalloc self 0 v = .ok none v := by
  have laid := Pool.init_spec hlen h
  obtain ⟨hp, f₀⟩ := follows_init hlen h
  obtain ⟨t, run, f, kept⟩ := f₀.play hp moves
  have free : t.memory.word 0 = 0 := (kept 0 (by decide)).trans laid.unlocked
  refine ⟨_, t, run, free, fun handle self counters opened fits =>
    ⟨fun calls offsets => ?_, fun v => handle.empty_requests self v⟩⟩
  have mapped := opened.mapped laid f₀ fits
  have held := SharedPool.serves_held mapped self
  have taken : t.memory.AgreeFrom 1 (Session.withLock ⟨t, counters⟩ self.word).arena.memory :=
    fun x hx => (Memory.word_setWord_of_ne _ _ (by omega)).symm
  have word : (Session.withLock ⟨t, counters⟩ self.word).arena.memory.word 0 = self.word :=
    Memory.word_setWord_self ..
  obtain ⟨answers, u, v₁, plain, run₁, agree₁, word₁⟩ :=
    (SharedPool.serves_locking mapped self).run calls offsets (t := ⟨t, counters⟩) f
      (fun _ _ => rfl) free
  obtain ⟨_, _, v₂, plain₂, run₂, agree₂, word₂⟩ := held.run calls offsets f taken word
  obtain ⟨_, _, v₃, plain₃, run₃, agree₃, word₃⟩ :=
    SharedPool.Serves.run (fun x => held (.address, x.2)) calls offsets f taken word
  cases plain.symm.trans plain₂
  cases plain.symm.trans plain₃
  exact ⟨answers, u, plain, ⟨v₁, run₁, fun x hx => (agree₁ x hx).symm, word₁⟩,
    .released (SharedPool.guarded_run self free run₂ word₂) agree₂,
    .released (SharedPool.locked_run self free run₃ word₃) agree₃⟩

/-- A handle of another process than the creator: requests and frees in both forms, with frees that
are refused between. -/
theorem handles_serve_alike_host : ∃ p s',
    Pool.init ⟨0, 65536⟩ Config.host ⟨Memory.zeroed, #[]⟩ = .ok (.ok p) s' ∧
    ∃ (handle : SharedPool) (self : Caller) (replies : List Reply × List Block) (t : Arena),
      handle.pool.region = ⟨0x7f0000000000, 65536⟩ ∧
      handle.Opened p s' [.call (.alloc 5 (by decide)), .write 4160 7] ∧
      handle.pool.region.base + handle.pool.region.len < wordLimit ∧
      p.play [.call (.alloc 5 (by decide)), .write 4160 7] [] s' = .ok replies t ∧
      t.memory.word 0 = 0 ∧
      ∃ calls : List (Form × Call),
        calls = [(.address, .alloc 24 (by decide)), (.offset, .alloc 5000 (by decide)),
          (.address, .free 18446744073709551615), (.offset, .free 0), (.address, .free 8192),
          (.offset, .free 70000)] ∧
        (∀ x ∈ calls, x.2.Fits) ∧
        ∃ answers u, (calls.map Prod.snd).mapM handle.pool.call t = .ok answers u ∧
          SharedPool.Answers (calls.mapM fun x => SharedPool.watched (handle.perform self x))
            ⟨t, ⟨0, 0⟩⟩ 0 answers u ∧
          SharedPool.Answers (SharedPool.guarded self
            (calls.mapM fun x => SharedPool.watched (handle.performHeld self x)))
            ⟨t, ⟨0, 0⟩⟩ self.word answers u ∧
          SharedPool.Answers (SharedPool.locked self
            (calls.mapM fun x => SharedPool.watched (handle.performHeld self (.address, x.2))))
            ⟨t, ⟨0, 0⟩⟩ self.word answers u := by
  obtain ⟨p, s', h⟩ := Pool.init_host
  have laid := Pool.init_spec (by decide) h
  have layout : Layout.compute p.config p.region.len = .ok (some p.layout) := by
    rw [laid.config_eq, laid.region_eq]
    exact laid.layout
  obtain ⟨u, attached, _⟩ := Pool.attach_run (r := ⟨0x7f0000000000, 65536⟩) laid.placed layout
    laid.recorded (by rw [laid.region_eq])
  have opened : SharedPool.Opened
      ⟨p.inRegion ⟨0x7f0000000000, 65536⟩, ⟨0x7f0000000000, Lock.defaultSpin⟩,
        ⟨1, 0x7f0000000000, 65536, Protection.data⟩, none, none⟩ p s'
      [.call (.alloc 5 (by decide)), .write 4160 7] :=
    .inr ⟨[], List.nil_prefix, _, s', u, _, _, rfl, attached⟩
  obtain ⟨replies, t, run, free, serves⟩ := handles_serve_alike (by decide) h
    [.call (.alloc 5 (by decide)), .write 4160 7]
  have fits : ∀ x ∈ [(Form.address, Call.alloc 24 (by decide)), (.offset, .alloc 5000 (by decide)),
      (.address, .free 18446744073709551615), (.offset, .free 0), (.address, .free 8192),
      (.offset, .free 70000)], x.2.Fits := by
    simp [Call.Fits, wordLimit]
  have ends : 0x7f0000000000 + 65536 < wordLimit := by decide
  exact ⟨p, s', h, _, ⟨7, by decide, by decide, fun _ => false⟩, replies, t, rfl, opened, ends, run,
    free, _, rfl, fits, (serves _ _ ⟨0, 0⟩ opened ends).1 _ fits⟩

end SharedSlab
