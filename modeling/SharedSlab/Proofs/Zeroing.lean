import SharedSlab.Proofs.Footprint
import SharedSlab.Proofs.HandleSteps

set_option autoImplicit false

namespace SharedSlab

namespace Slab

variable {p : Pool} {a a' : Ledger} {live : List Block} {m m' : Memory} {size off : Nat}

/-- How a request is answered that finds `m` and leaves `m'`: with no address, or with that of a new
live allocation. -/
inductive Granted (p : Pool) (a : Ledger) (live : List Block) (size : Nat) (m m' : Memory) :
    Option Nat → Prop
  | refused (follows : Follows p a live m') (framed : p.Framed a a m m') :
      Granted p a live size m m' none
  | given {off : Nat} {a' : Ledger} (follows : Follows p a' (⟨off, size⟩ :: live) m')
      (framed : p.Framed a a' m m') :
      Granted p a live size m m' (some (p.region.base + off))

theorem Pool.Framed.unlocked {w : UInt64} (framed : p.Framed a a' (m.setWord 0 w) m')
    (free : m.word 0 = 0) : p.Framed a a' m (m'.setWord 0 0) := by
  refine ⟨fun x hx hold hnew => ?_, fun aligned => ?_⟩
  · by_cases hzero : 0 = x
    · rw [← hzero, Memory.word_setWord_self, free]
    · rw [Memory.word_setWord_of_ne _ _ hzero, framed.words x hx hold hnew,
        Memory.word_setWord_of_ne _ _ hzero]
  · have htable : ∀ (n : Memory) (v : UInt64), table (n.setWord 0 v) = table n := fun n v =>
      table_setWord_of_lt n v (by decide)
    exact (framed.links (aligned.congr fun j _ => by rw [htable])).congr fun j _ => by rw [htable]

namespace Granted

variable {chunk : Option Nat}

theorem unlocked {w : UInt64} (h : Granted p a live size (m.setWord 0 w) m' chunk)
    (hp : p.Placed) (free : m.word 0 = 0) : Granted p a live size m (m'.setWord 0 0) chunk := by
  cases h with
  | refused follows framed =>
    exact .refused (follows.setHeader hp (by decide) 0) (framed.unlocked free)
  | given follows framed =>
    exact .given (follows.setHeader hp (by decide) 0) (framed.unlocked free)

theorem keeps (h : Granted p a live size m m' chunk) (f : Follows p a live m) (hp : p.Placed) :
    p.Keeps live live m m' := by
  cases h with
  | refused follows framed => exact f.keeps follows hp framed
  | given follows framed =>
    exact (f.keeps follows hp framed).of_subset (List.subset_cons_self _ _)

theorem word_zero (h : Granted p a live size m m' chunk) (hp : p.Placed) :
    m'.word 0 = m.word 0 := by
  cases h with
  | refused _ framed => exact framed.word_of_lt hp (by decide)
  | given _ framed => exact framed.word_of_lt hp (by decide)

end Granted

theorem Pool.allocAddress_run {s : Arena} (f : Follows p a live s.memory) (hp : p.Placed)
    (pos : 0 < size) : ∃ chunk u, p.allocAddress size s = .ok chunk u ∧
      Granted p a live size s.memory u.memory chunk := by
  have served := Pool.alloc_run hp f.steady f.stores pos
  generalize hrun : p.alloc size s = result at served
  generalize hledger : a.alloc p size = answer at served
  cases served with
  | refused =>
    refine ⟨none, s.noting (.noRun (p.pagesAsked size) a.freePages), ?_,
      .refused f (.refl _ a _)⟩
    rw [allocAddress, PoolM.bind_run hrun]
    rfl
  | @given off a' m' stores framed =>
    have f' := f.alloc hp pos hledger stores
    have haddress : p.region.addressOf off = .ok (p.region.base + off) :=
      f'.addressOf_eq_ok hp List.mem_cons_self
    refine ⟨some (p.region.base + off), s.withMemory m', ?_, .given f' framed⟩
    rw [allocAddress, PoolM.bind_run hrun]
    dsimp only
    rw [PoolM.bind_liftM haddress]
    rfl

end Slab

namespace SharedPool

open Slab

variable {h : SharedPool} {a : Ledger} {live : List Block} {size : Nat} {s : Session}

theorem allocLocked_run (self : Caller) (f : Follows h.pool a live s.arena.memory)
    (hp : h.pool.Placed) (held : s.arena.memory.word 0 = self.word) (pos : 0 < size) :
    ∃ chunk u, h.allocLocked self size s = .ok chunk u ∧
      Granted h.pool a live size s.arena.memory u.arena.memory chunk := by
  obtain ⟨chunk, u, run, granted⟩ := Pool.allocAddress_run f hp pos
  have hcall := SharedM.bind_run (f := fun chunk => do
    if chunk.isSome then SharedM.countAllocation
    return chunk) (SharedM.onPool_run run)
  rw [allocLocked, if_neg pos.ne', SharedM.bind_run (requireLock_run self held), hcall]
  cases chunk with
  | none => exact ⟨none, ⟨u, _⟩, rfl, granted⟩
  | some address => exact ⟨some address, ⟨u, _⟩, rfl, granted⟩

theorem alloc_run (self : Caller) (f : Follows h.pool a live s.arena.memory) (hp : h.pool.Placed)
    (free : s.arena.memory.word 0 = 0) (pos : 0 < size) :
    ∃ chunk u, h.alloc self size s = .ok chunk u ∧
      Granted h.pool a live size s.arena.memory u.arena.memory chunk := by
  obtain ⟨chunk, u, run, granted⟩ := h.allocLocked_run self (s := s.withLock self.word)
    (f.setHeader hp (by decide) self.word) hp (Memory.word_setWord_self ..) pos
  have hheld : u.arena.memory.word 0 = self.word :=
    (granted.word_zero hp).trans (Memory.word_setWord_self ..)
  refine ⟨chunk, u.withLock 0, ?_, granted.unlocked hp free⟩
  rw [alloc, if_neg pos.ne']
  exact locked_run self free run hheld

/-- `m'` is `m` with the bytes that were asked for zeroed, at the chunk if there is one. -/
structure Clears (h : SharedPool) (live : List Block) (size : Nat) (chunk : Option Nat)
    (m m' : Memory) : Prop where
  zero : ∀ off, chunk = some (h.pool.region.base + off) →
    ∀ x, off ≤ x → x < off + size → m'.byte x = 0
  others : ∀ x, (∀ off, chunk = some (h.pool.region.base + off) → x < off ∨ off + size ≤ x) →
    m'.byte x = m.byte x
  fresh : ∀ address, chunk = some address → ∃ off, address = h.pool.region.base + off ∧
    h.pool.start ≤ off ∧ off + h.pool.chunkSize size ≤ h.pool.finish ∧
    size ≤ h.pool.chunkSize size ∧ ∀ b ∈ live, h.pool.Apart ⟨off, size⟩ b

theorem zeroChunk_run {chunk : Option Nat} {m : Memory}
    (granted : Granted h.pool a live size m s.arena.memory chunk) (hp : h.pool.Placed) :
    ∃ m', h.zeroChunk size chunk s = .ok chunk ⟨s.arena.withMemory m', s.counters⟩ ∧
      h.Clears live size chunk s.arena.memory m' := by
  cases granted with
  | refused =>
    exact ⟨s.arena.memory, rfl, nofun, fun _ _ => rfl, nofun⟩
  | @given off a' follows framed =>
    have hsub : h.pool.region.base + off - h.pool.region.base = off := Nat.add_sub_cancel_left ..
    have hoff : ∀ off', some (h.pool.region.base + off) = some (h.pool.region.base + off') →
        off' = off := fun off' heq => (Nat.add_left_cancel (Option.some.inj heq)).symm
    refine ⟨s.arena.memory.blanket off 0 size, ?_, fun off' heq x low high => ?_,
      fun x houtside => ?_, fun address heq => ?_⟩
    · have hrun : h.zeroChunk size (some (h.pool.region.base + off)) s =
          .ok (some (h.pool.region.base + off)) ⟨s.arena.withMemory (s.arena.memory.blanket
            (h.pool.region.base + off - h.pool.region.base) 0 size), s.counters⟩ := rfl
      rwa [hsub] at hrun
    · cases hoff off' heq
      rw [Memory.byte_blanket, if_pos ⟨low, high⟩]
    · have hnot := houtside off rfl
      rw [Memory.byte_blanket, if_neg (by omega)]
    · have hinside := follows.steady.held_inside hp (follows.held_block List.mem_cons_self)
      exact ⟨off, (Option.some.inj heq).symm, hinside.1, hinside.2,
        Pool.le_chunkSize hp (follows.fits _ List.mem_cons_self),
        (List.pairwise_cons.1 follows.apart).1⟩

/-- From `s` on, the zeroed request does what the plain one does, and then clears the chunk. -/
def ZeroesAfter (h : SharedPool) (live : List Block) (size : Nat)
    (plain zeroed : SharedM (Option Nat)) (s : Session) : Prop :=
  ∃ chunk u m, plain s = .ok chunk u ∧
    h.pool.Keeps live live s.arena.memory u.arena.memory ∧
    zeroed s = .ok chunk ⟨u.arena.withMemory m, u.counters⟩ ∧
    h.Clears live size chunk u.arena.memory m

theorem zeroesAfter_of_granted {plain : SharedM (Option Nat)} {chunk : Option Nat} {u : Session}
    (f : Follows h.pool a live s.arena.memory) (hp : h.pool.Placed) (run : plain s = .ok chunk u)
    (granted : Granted h.pool a live size s.arena.memory u.arena.memory chunk) :
    h.ZeroesAfter live size plain (plain >>= h.zeroChunk size) s := by
  obtain ⟨m, hzero, clears⟩ := h.zeroChunk_run granted hp
  exact ⟨chunk, u, m, run, granted.keeps f hp, (SharedM.bind_run run).trans hzero, clears⟩

theorem zeroesAfter_none {plain : SharedM (Option Nat)} (f : Follows h.pool a live s.arena.memory)
    (hp : h.pool.Placed) (run : plain s = .ok none s) :
    h.ZeroesAfter live size plain (plain >>= h.zeroChunk size) s :=
  zeroesAfter_of_granted f hp run (.refused f (.refl _ a _))

theorem calloc_zeroes (self : Caller) (f : Follows h.pool a live s.arena.memory) (hp : h.pool.Placed)
    (free : s.arena.memory.word 0 = 0) :
    h.ZeroesAfter live size (h.alloc self size) (h.calloc self size) s := by
  rcases Nat.eq_zero_or_pos size with rfl | pos
  · exact zeroesAfter_none f hp rfl
  · obtain ⟨chunk, u, run, granted⟩ := h.alloc_run self f hp free pos
    exact zeroesAfter_of_granted f hp run granted

theorem guardCalloc_zeroes (self : Caller) (f : Follows h.pool a live s.arena.memory) (hp : h.pool.Placed)
    (held : s.arena.memory.word 0 = self.word) :
    h.ZeroesAfter live size (h.allocLocked self size) (h.guardCalloc self size) s := by
  rcases Nat.eq_zero_or_pos size with rfl | pos
  · exact zeroesAfter_none f hp rfl
  · obtain ⟨chunk, u, run, granted⟩ := h.allocLocked_run self f hp held pos
    exact zeroesAfter_of_granted f hp run granted

end SharedPool

namespace Slab

/-- After any history, with any writes of users, every call keeps all that it should; a zeroed
request clears what it was asked for besides, under the lock of its own or that of a guard. -/
theorem live_bytes_kept {region : Region} {config : Config} {p : Pool} {s s' : Arena}
    (hlen : region.len < wordLimit) (h : Pool.init region config s = .ok (.ok p) s')
    (moves : List Move) :
    ∃ replies live t, p.play moves [] s' = .ok (replies, live) t ∧
      (∀ c, ∃ answer u, p.call c t = .ok answer u ∧
        p.Keeps live (track c answer live) t.memory u.memory) ∧
      ∀ (handle : SharedPool) (self : Caller) (counters : Counters) (size : Nat),
        handle.pool = p →
        handle.ZeroesAfter live size (handle.alloc self size) (handle.calloc self size)
          ⟨t, counters⟩ ∧
        ∃ u, SharedLock.lock self t = .ok () u ∧
          handle.ZeroesAfter live size (handle.allocLocked self size)
            (handle.guardCalloc self size) ⟨u, counters⟩ := by
  have laid := Pool.init_spec hlen h
  obtain ⟨hp, f₀⟩ := follows_init hlen h
  obtain ⟨t, run, f, kept⟩ := f₀.play hp moves
  have free : t.memory.word 0 = 0 := (kept 0 (by decide)).trans laid.unlocked
  refine ⟨_, _, t, run, f.call_keeps hp, fun handle self counters size hpool => ?_⟩
  subst hpool
  exact ⟨handle.calloc_zeroes self f hp free, _, SharedLock.lock_run self free,
    handle.guardCalloc_zeroes self (f.setHeader hp (by decide) self.word) hp
      (Memory.word_setWord_self ..)⟩

/-- Users write to a chunk, to its slack and to a run; then a page is given back, with what was
written to it. -/
theorem live_bytes_kept_host : ∃ p s',
    Pool.init ⟨0, 65536⟩ Config.host ⟨Memory.zeroed, #[]⟩ = .ok (.ok p) s' ∧
    ∃ replies live t, p.play [.call (.alloc 5 (by decide)), .write 4160 7, .write 4167 7,
        .call (.alloc 5000 (by decide)), .write 16383 1, .call (.alloc 4096 (by decide)),
        .write 16384 255, .call (.free 16384)] [] s' = .ok (replies, live) t ∧
      (∀ c, ∃ answer u, p.call c t = .ok answer u ∧
        p.Keeps live (track c answer live) t.memory u.memory) ∧
      ∀ (handle : SharedPool) (self : Caller) (counters : Counters) (size : Nat),
        handle.pool = p →
        handle.ZeroesAfter live size (handle.alloc self size) (handle.calloc self size)
          ⟨t, counters⟩ ∧
        ∃ u, SharedLock.lock self t = .ok () u ∧
          handle.ZeroesAfter live size (handle.allocLocked self size)
            (handle.guardCalloc self size) ⟨u, counters⟩ := by
  obtain ⟨p, s', h⟩ := Pool.init_host
  exact ⟨p, s', h, live_bytes_kept (by decide) h _⟩

end Slab

end SharedSlab
