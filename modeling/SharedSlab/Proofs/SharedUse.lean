import SharedSlab.Proofs.Moving

set_option autoImplicit false

namespace SharedSlab

open Slab

def given (size : Nat) (live : List Block) : Option Nat → List Block
  | some off => ⟨off, size⟩ :: live
  | none => live

def without (off : Option Nat) (live : List Block) : List Block :=
  live.filter fun b => some b.off ≠ off

def returned (off : Option Nat) (live : List Block) : Except PoolError Unit → List Block
  | .ok () => without off live
  | .error _ => live

def SharedPool.moved (h : SharedPool) (old : Option Nat) (room : Nat) (live : List Block) :
    Option Nat → List Block
  | some new => without (old.bind h.offsetOf?) (⟨new - h.pool.region.base, room⟩ :: live)
  | none => live

/-- What a handle is asked for, be it under a guard. -/
inductive Errand
  | alloc (size : Nat)
  | calloc (size : Nat)
  | allocOffset (size : Nat)
  | free (address : Nat)
  | freeOffset (off : Nat)

namespace Errand

variable (self : Caller) (h : SharedPool)

def ask (live : List Block) : Errand → SharedM (List Block)
  | .alloc size => do
    return given size live ((← h.alloc self size).map (· - h.pool.region.base))
  | .calloc size => do
    return given size live ((← h.calloc self size).map (· - h.pool.region.base))
  | .allocOffset size => do return given size live (← h.allocOffset self size)
  | .free address => do return returned (h.offsetOf? address) live (← h.free self address)
  | .freeOffset off => do return returned (some off) live (← h.freeOffset self off)

def askHeld (live : List Block) : Errand → SharedM (List Block)
  | .alloc size => do
    return given size live ((← h.allocLocked self size).map (· - h.pool.region.base))
  | .calloc size => do
    return given size live ((← h.guardCalloc self size).map (· - h.pool.region.base))
  | .allocOffset size => do return given size live (← h.guardAllocOffset self size)
  | .free address => do return returned (h.offsetOf? address) live (← h.freeLocked self address)
  | .freeOffset off => do return returned (some off) live (← h.guardFreeOffset self off)

def askAll : List Errand → List Block → SharedM (List Block)
  | [], live => return live
  | e :: es, live => do askAll es (← e.askHeld self h live)

end Errand

inductive Demand
  | single (e : Errand)
  | guarded (es : List Errand)
  | locked (es : List Errand)
  | allocate (shape : BlockShape)
  | deallocate (address : Nat)
  | reallocate (old : Option Nat) (shape : BlockShape) (size : Nat)

def Demand.ask (self : Caller) (h : SharedPool) (live : List Block) : Demand → SharedM (List Block)
  | .single e => e.ask self h live
  | .guarded es => SharedPool.guarded self (Errand.askAll self h es live)
  | .locked es => SharedPool.locked self (Errand.askAll self h es live)
  | .allocate shape => do
    return given (max shape.size shape.align) live
      ((← h.allocate self shape).map (· - h.pool.region.base))
  | .deallocate address => do
    h.deallocate self address
    return without (h.offsetOf? address) live
  | .reallocate old shape size => do
    return h.moved old (max size shape.align) live (← h.reallocate self old shape size)

namespace SharedPool

variable {α β : Type} {h : SharedPool} {w : UInt64} {live live' live'' : List Block} {m : Memory}
  {s t u : Session} {self : Caller} {size : Nat} {shape : BlockShape}

/-- The handle works on a pool with these live allocations, and the word of the lock is `w`. -/
structure Working (h : SharedPool) (w : UInt64) (live : List Block) (m : Memory) : Prop where
  placed : h.pool.Placed
  word : m.word 0 = w
  follows : ∃ a, Follows h.pool a live m

/-- From `s` to `t` the live allocations have become `live'`, each that came or went is counted, and
the header is as it was. -/
structure Reckoned (h : SharedPool) (w : UInt64) (live live' : List Block) (s t : Session) :
    Prop where
  working : h.Working w live' t.arena.memory
  tally : t.counters.allocations + s.counters.deallocations + live.length =
    s.counters.allocations + t.counters.deallocations + live'.length
  header : ∀ x < 9, t.arena.memory.word x = s.arena.memory.word x

/-- The operation is done wherever these allocations are live, and those that its answer tells of
are live then. -/
def Reckons (h : SharedPool) (w : UInt64) (live : List Block) (act : SharedM α)
    (after : α → List Block) : Prop :=
  ∀ s, h.Working w live s.arena.memory →
    ∃ x t, act s = .ok x t ∧ h.Reckoned w live (after x) s t

theorem Working.withLock (i : h.Working w live s.arena.memory) (v : UInt64) :
    h.Working v live (s.withLock v).arena.memory := by
  obtain ⟨a, f⟩ := i.follows
  exact ⟨i.placed, Memory.word_setWord_self .., a, f.setHeader i.placed (by decide) v⟩

namespace Reckoned

theorem refl (i : h.Working w live s.arena.memory) : h.Reckoned w live live s s :=
  ⟨i, by omega, fun _ _ => rfl⟩

theorem trans (r : h.Reckoned w live live' s t) (q : h.Reckoned w live' live'' t u) :
    h.Reckoned w live live'' s u := by
  have first := r.tally
  have second := q.tally
  exact ⟨q.working, by omega, fun x hx => (q.header x hx).trans (r.header x hx)⟩

theorem overwrite (r : h.Reckoned w live live' s t) {n : Memory}
    (same : ∀ x, ¬h.pool.Owned live' x → n.byte x = t.arena.memory.byte x) :
    h.Reckoned w live live' s ⟨t.arena.withMemory n, t.counters⟩ := by
  obtain ⟨placed, word, a, f⟩ := r.working
  obtain ⟨f', kept⟩ := f.overwrite placed same
  exact ⟨⟨placed, (kept 0 (by decide)).trans word, a, f'⟩, r.tally,
    fun x hx => (kept x hx).trans (r.header x hx)⟩

theorem released (i : h.Working 0 live s.arena.memory)
    (r : h.Reckoned w live live' (s.withLock w) t) : h.Reckoned 0 live live' s (t.withLock 0) := by
  refine ⟨r.working.withLock 0, r.tally, fun x hx => ?_⟩
  by_cases zero : 0 = x
  · rw [← zero, i.word]
    exact Memory.word_setWord_self ..
  · calc (t.withLock 0).arena.memory.word x
        = t.arena.memory.word x := Memory.word_setWord_of_ne _ _ zero
      _ = (s.withLock w).arena.memory.word x := r.header x hx
      _ = s.arena.memory.word x := Memory.word_setWord_of_ne _ _ zero

end Reckoned

namespace Reckons

variable {act : SharedM α} {after : α → List Block}

theorem pure {x : α} (same : ∀ m, h.Working w live m → after x = live) :
    h.Reckons w live (Pure.pure x) after := by
  intro s i
  refine ⟨x, s, rfl, ?_⟩
  rw [same _ i]
  exact .refl i

theorem bind {f : α → SharedM β} {after' : β → List Block} (r : h.Reckons w live act after)
    (q : ∀ x, h.Reckons w (after x) (f x) after') : h.Reckons w live (act >>= f) after' := by
  intro s i
  obtain ⟨x, t, run, first⟩ := r s i
  obtain ⟨y, u, run', second⟩ := q x t first.working
  exact ⟨y, u, (SharedM.bind_run run).trans run', first.trans second⟩

theorem told {f : α → β} {after' : β → List Block} (r : h.Reckons w live act after)
    (same : ∀ x m, h.Working w (after x) m → after' (f x) = after x) :
    h.Reckons w live (do return f (← act)) after' :=
  r.bind fun x => pure (same x)

theorem locked (r : h.Reckons self.word live act after) :
    h.Reckons 0 live (locked self act) after := by
  intro s i
  obtain ⟨x, t, run, done⟩ := r (s.withLock self.word) (i.withLock self.word)
  exact ⟨x, t.withLock 0, locked_run self i.word run done.working.word, done.released i⟩

theorem guarded (r : h.Reckons self.word live act after) :
    h.Reckons 0 live (guarded self act) after := by
  intro s i
  obtain ⟨x, t, run, done⟩ := r (s.withLock self.word) (i.withLock self.word)
  exact ⟨x, t.withLock 0, guarded_run self i.word run done.working.word, done.released i⟩

end Reckons

theorem tally_given (c : Counters) (size : Nat) (live : List Block) (found : Option Nat) :
    (c.count (.offset found)).allocations + c.deallocations + live.length =
      c.allocations + (c.count (.offset found)).deallocations +
        (given size live found).length := by
  cases found with
  | none => rfl
  | some off =>
    simp only [Counters.count, given, List.length_cons]
    omega

theorem length_without {b : Block} (nodup : (live.map Block.off).Nodup) (hb : b ∈ live) :
    (without (some b.off) live).length + 1 = live.length := by
  have offs : (without (some b.off) live).map Block.off = (live.map Block.off).erase b.off := by
    rw [nodup.erase_eq_filter, List.filter_map, without]
    refine congrArg (List.map Block.off) (List.filter_congr fun c _ => ?_)
    simp [bne, beq_eq_decide]
  have mem : b.off ∈ live.map Block.off := List.mem_map_of_mem hb
  have pos := List.length_pos_of_mem mem
  have length := congrArg List.length offs
  rw [List.length_erase_of_mem mem, List.length_map] at length
  rw [List.length_map] at length pos
  omega

theorem without_of_not_live {off : Option Nat} (none : ∀ b ∈ live, some b.off ≠ off) :
    without off live = live :=
  List.filter_eq_self.2 fun b hb => by simpa using none b hb

theorem reckons_allocLocked (self : Caller) (size : Nat) :
    h.Reckons self.word live (h.allocLocked self size)
      fun chunk => given size live (chunk.map (· - h.pool.region.base)) := by
  rcases Nat.eq_zero_or_pos size with rfl | pos
  · intro s i
    exact ⟨none, s, rfl, .refl i⟩
  intro s i
  obtain ⟨a, f⟩ := i.follows
  obtain ⟨t, called, f', framed⟩ := f.call i.placed (.alloc size pos)
  obtain ⟨found, _, allocated, answered⟩ := PoolM.of_bind called
  cases answered
  have tracked : track (.alloc size pos) (a.call h.pool (.alloc size pos)).1 live =
      given size live (a.alloc h.pool size).1 := by
    rw [Ledger.call]
    cases (a.alloc h.pool size).1 <;> rfl
  rw [tracked] at f'
  have inside : ∀ off, (a.alloc h.pool size).1 = some off → off < h.pool.region.len := by
    intro off granted
    rw [granted] at f'
    exact f'.off_lt i.placed (b := ⟨off, size⟩) List.mem_cons_self
  have run := allocLocked_of_alloc i.word pos inside allocated
  have header : ∀ x < 9, t.memory.word x = s.arena.memory.word x := fun x hx =>
    framed.word_of_lt i.placed hx
  refine ⟨_, _, run, ?_⟩
  dsimp only
  rw [map_sub_map_add]
  exact ⟨⟨i.placed, (header 0 (by decide)).trans i.word, _, f'⟩,
    tally_given s.counters size live _, header⟩

theorem tally_returned {p : Pool} {a : Ledger} (c : Counters) (f : Follows p a live m)
    (hp : p.Placed) (off : Nat) :
    (c.count (.freed (a.free p off).1)).allocations + c.deallocations + live.length =
      c.allocations + (c.count (.freed (a.free p off).1)).deallocations +
        (returned (some off) live (a.free p off).1).length := by
  have done := f.free_done_iff hp off
  generalize (a.free p off).1 = outcome at done ⊢
  rcases outcome with e | ⟨⟩
  · rfl
  · obtain ⟨b, hb, rfl⟩ := done.1 rfl
    have length := length_without f.nodup hb
    simp only [Counters.count, returned]
    omega

theorem track_free (off : Nat) (outcome : Except PoolError Unit) :
    track (.free off) (.freed outcome) live = returned (some off) live outcome := by
  rcases outcome with e | ⟨⟩
  · rfl
  · exact List.filter_congr fun b _ => by simp

theorem returned_eq_without {p : Pool} {a : Ledger} (f : Follows p a live m) (hp : p.Placed)
    (off : Nat) : returned (some off) live (a.free p off).1 = without (some off) live := by
  have done := f.free_done_iff hp off
  generalize (a.free p off).1 = outcome at done ⊢
  rcases outcome with e | ⟨⟩
  · refine (without_of_not_live fun b hb same => ?_).symm
    cases done.2 ⟨b, hb, Option.some.inj same⟩
  · rfl

/-- Nothing is live past the end of the region, so a free there is refused. -/
theorem returned_at {a : Ledger} (f : Follows h.pool a live m) (hp : h.pool.Placed) {off : Nat}
    {seen : Option Nat} (read : seen = if off < h.pool.region.len then some off else none) :
    returned seen live (a.free h.pool off).1 = without seen live ∧
      without seen live = without (some off) live := by
  by_cases inside : off < h.pool.region.len
  · rw [if_pos inside] at read
    subst read
    exact ⟨returned_eq_without f hp off, rfl⟩
  · rw [if_neg inside] at read
    subst read
    have absent : ∀ b ∈ live, some b.off ≠ some off := fun b hb same =>
      inside (Option.some.inj same ▸ f.off_lt hp hb)
    have unchanged : without none live = live :=
      without_of_not_live fun _ _ => Option.some_ne_none _
    refine ⟨?_, unchanged.trans (without_of_not_live absent).symm⟩
    cases (a.free h.pool off).1 with
    | ok _ => rfl
    | error e => exact unchanged.symm

theorem freeLocked_run (i : h.Working self.word live s.arena.memory) (address : Nat) :
    ∃ outcome t, h.freeLocked self address s = .ok outcome t ∧
      h.Reckoned self.word live (without (h.offsetOf? address) live) s t ∧
      returned (h.offsetOf? address) live outcome = without (h.offsetOf? address) live := by
  obtain ⟨a, f⟩ := i.follows
  obtain ⟨off, seen, _⟩ := h.pool.region.exists_offset address
  obtain ⟨t, called, f', framed⟩ := f.call i.placed (.free off)
  obtain ⟨outcome, _, freed, answered⟩ := PoolM.of_bind called
  cases answered
  obtain ⟨v, run, same⟩ := freeLocked_of_free i.word i.placed.finish_le seen freed
  rw [← same] at f' framed
  have header : ∀ x < 9, v.memory.word x = s.arena.memory.word x := fun x hx =>
    framed.word_of_lt i.placed hx
  have tally := tally_returned s.counters f i.placed off
  obtain ⟨told, gone⟩ := returned_at f i.placed seen
  rw [Ledger.call, track_free, returned_eq_without f i.placed, ← gone] at f'
  rw [returned_eq_without f i.placed, ← gone] at tally
  exact ⟨_, _, run, ⟨⟨i.placed, (header 0 (by decide)).trans i.word, _, f'⟩, tally, header⟩, told⟩

theorem reckons_freeLocked (self : Caller) (address : Nat) :
    h.Reckons self.word live (h.freeLocked self address) (returned (h.offsetOf? address) live) := by
  intro s i
  obtain ⟨outcome, t, run, done, told⟩ := h.freeLocked_run i address
  exact ⟨outcome, t, run, told ▸ done⟩

theorem Working.owned {off n x : Nat} (i : h.Working w (⟨off, size⟩ :: live) m) (hn : n ≤ size)
    (low : off ≤ x) (high : x < off + n) : h.pool.Owned (⟨off, size⟩ :: live) x := by
  obtain ⟨a, f⟩ := i.follows
  have room := Pool.le_chunkSize i.placed (f.fits _ List.mem_cons_self)
  dsimp only at room
  exact ⟨_, List.mem_cons_self, low, by dsimp only; omega⟩

theorem Working.chunkOffset {chunk : Option Nat}
    (i : h.Working w (given size live (chunk.map (· - h.pool.region.base))) m) :
    h.chunkOffset chunk = chunk.map (· - h.pool.region.base) := by
  cases chunk with
  | none => rfl
  | some address =>
    obtain ⟨a, (f : Follows h.pool a (⟨address - h.pool.region.base, size⟩ :: live) m)⟩ := i.follows
    have inside := f.steady.held_inside i.placed (f.held_block List.mem_cons_self)
    have lt := f.off_lt i.placed List.mem_cons_self
    have table := i.placed.table_le
    have pos := Nat.pos_of_ne_zero (nodeOffset_ne_zero h.pool.nodes)
    dsimp only at inside lt
    change h.pool.region.offsetOf? address = some (address - h.pool.region.base)
    exact Region.offsetOf?_eq_some_iff.2 ⟨by omega, lt⟩

theorem reckons_zeroChunk (chunk : Option Nat) :
    h.Reckons w (given size live (chunk.map (· - h.pool.region.base))) (h.zeroChunk size chunk)
      fun chunk => given size live (chunk.map (· - h.pool.region.base)) := by
  intro s i
  cases chunk with
  | none => exact ⟨none, s, rfl, .refl i⟩
  | some address =>
    refine ⟨some address, ⟨s.arena.withMemory
      (s.arena.memory.blanket (address - h.pool.region.base) 0 size), s.counters⟩, rfl,
      (Reckoned.refl i).overwrite fun x free => ?_⟩
    rw [Memory.byte_blanket, if_neg]
    rintro ⟨low, high⟩
    exact free (i.owned (le_refl size) low high)

theorem reckons_zeroed {act : SharedM (Option Nat)}
    (r : h.Reckons w live act fun chunk => given size live (chunk.map (· - h.pool.region.base))) :
    h.Reckons w live (do h.zeroChunk size (← act))
      fun chunk => given size live (chunk.map (· - h.pool.region.base)) :=
  r.bind reckons_zeroChunk

theorem reckons_offset {act : SharedM (Option Nat)}
    (r : h.Reckons w live act fun chunk => given size live (chunk.map (· - h.pool.region.base))) :
    h.Reckons w live (do return h.chunkOffset (← act)) (given size live) :=
  r.told fun _ _ i => congrArg (given size live) i.chunkOffset

theorem reckons_resolved {free : Nat → SharedM (Except PoolError Unit)}
    (r : ∀ address, h.Reckons w live (free address) (returned (h.offsetOf? address) live))
    (off : Nat) : h.Reckons w live (match h.resolve off with
      | none => Pure.pure (.error .invalidAddress)
      | some address => free address) (returned (some off) live) := by
  by_cases outside : off = 0 ∨ h.pool.region.len ≤ off
  · have unseen : h.resolve off = none := if_pos outside
    rw [unseen]
    exact .pure fun _ _ => rfl
  · have seen : h.resolve off = some (h.pool.region.base + off) := if_neg outside
    have told : h.offsetOf? (h.pool.region.base + off) = some off :=
      Region.offsetOf?_base_add (by omega)
    rw [seen, ← told]
    exact r _

theorem reckons_guardFreeOffset (self : Caller) (off : Nat) :
    h.Reckons self.word live (h.guardFreeOffset self off) (returned (some off) live) :=
  reckons_resolved (reckons_freeLocked self) off

theorem reckons_askHeld (self : Caller) (e : Errand) :
    h.Reckons self.word live (e.askHeld self h live) fun after => after := by
  cases e with
  | alloc size => exact (reckons_allocLocked self size).told fun _ _ _ => rfl
  | calloc size => exact (reckons_zeroed (reckons_allocLocked self size)).told fun _ _ _ => rfl
  | allocOffset size => exact (reckons_offset (reckons_allocLocked self size)).told fun _ _ _ => rfl
  | free address => exact (reckons_freeLocked self address).told fun _ _ _ => rfl
  | freeOffset off => exact (reckons_guardFreeOffset self off).told fun _ _ _ => rfl

theorem reckons_askAll (self : Caller) (es : List Errand) :
    h.Reckons self.word live (Errand.askAll self h es live) fun after => after := by
  induction es generalizing live with
  | nil => exact .pure fun _ _ => rfl
  | cons e es ih => exact (reckons_askHeld self e).bind fun _ => ih

theorem reckons_alloc (self : Caller) (size : Nat) :
    h.Reckons 0 live (h.alloc self size)
      fun chunk => given size live (chunk.map (· - h.pool.region.base)) := by
  rcases Nat.eq_zero_or_pos size with rfl | pos
  · exact .pure (x := none) fun _ _ => rfl
  · rw [show h.alloc self size = locked self (h.allocLocked self size) from if_neg pos.ne']
    exact (reckons_allocLocked self size).locked

theorem reckons_free (self : Caller) (address : Nat) :
    h.Reckons 0 live (h.free self address) (returned (h.offsetOf? address) live) :=
  (reckons_freeLocked self address).locked

theorem reckons_freeOffset (self : Caller) (off : Nat) :
    h.Reckons 0 live (h.freeOffset self off) (returned (some off) live) :=
  reckons_resolved (reckons_free self) off

theorem reckons_ask (self : Caller) (e : Errand) :
    h.Reckons 0 live (e.ask self h live) fun after => after := by
  cases e with
  | alloc size => exact (reckons_alloc self size).told fun _ _ _ => rfl
  | calloc size => exact (reckons_zeroed (reckons_alloc self size)).told fun _ _ _ => rfl
  | allocOffset size => exact (reckons_offset (reckons_alloc self size)).told fun _ _ _ => rfl
  | free address => exact (reckons_free self address).told fun _ _ _ => rfl
  | freeOffset off => exact (reckons_freeOffset self off).told fun _ _ _ => rfl

theorem reckons_allocate (self : Caller) (shape : BlockShape) :
    h.Reckons 0 live (h.allocate self shape) fun chunk =>
      given (max shape.size shape.align) live (chunk.map (· - h.pool.region.base)) := by
  by_cases large : h.config.pageSize < shape.align
  · exact fun s i => ⟨none, s, allocate_of_lt self large, .refl i⟩
  · rw [allocate_of_le self (not_lt.1 large)]
    exact reckons_alloc self _

theorem reckons_deallocate (self : Caller) (address : Nat) :
    h.Reckons 0 live (h.deallocate self address) fun _ => without (h.offsetOf? address) live := by
  have freed : h.Reckons self.word live (h.freeLocked self address)
      fun _ => without (h.offsetOf? address) live := by
    intro s i
    obtain ⟨outcome, t, run, done, _⟩ := h.freeLocked_run i address
    exact ⟨outcome, t, run, done⟩
  exact freed.locked.told fun _ _ _ => rfl

/-- The old address may be any. What is written to is the new block. -/
theorem reckons_reallocate (self : Caller) (old : Option Nat) (shape : BlockShape) (size : Nat) :
    h.Reckons 0 live (h.reallocate self old shape size)
      (h.moved old (max size shape.align) live) := by
  intro s i
  cases valid : BlockShape.of? size shape.align with
  | none => exact ⟨none, s, reallocate_invalid self old valid, .refl i⟩
  | some wanted =>
    obtain ⟨_, _, rfl⟩ := BlockShape.of?_eq_some_iff.1 valid
    obtain ⟨found, t, run, taken⟩ := reckons_allocate self ⟨size, shape.align⟩ s i
    cases found with
    | none => exact ⟨none, t, reallocate_refused valid run old, taken⟩
    | some new =>
      cases old with
      | none =>
        refine ⟨some new, t, ?_, ?_⟩
        · rw [reallocate_null, valid]
          exact run
        · rw [moved, Option.bind_none, without_of_not_live fun _ _ => Option.some_ne_none _]
          exact taken
      | some old =>
        have room : h.Working 0 (⟨new - h.pool.region.base, max size shape.align⟩ :: live)
          t.arena.memory := taken.working
        have fits : min shape.size size ≤ max size shape.align :=
          (min_le_right _ _).trans (le_max_left _ _)
        have copied := taken.overwrite (n := t.arena.memory.copy (old - h.pool.region.base)
            (new - h.pool.region.base) (min shape.size size)) fun x free => by
          apply Memory.byte_copy_of_outside
          by_contra inside
          exact free (room.owned fits (by omega) (by omega))
        obtain ⟨_, u, freed, done⟩ := reckons_deallocate self old _ copied.working
        exact ⟨some new, u, reallocate_given valid run freed, copied.trans done⟩

theorem reckons_demand (self : Caller) (d : Demand) :
    h.Reckons 0 live (d.ask self h live) fun after => after := by
  cases d with
  | single e => exact reckons_ask self e
  | guarded es => exact (reckons_askAll self es).guarded
  | locked es => exact (reckons_askAll self es).locked
  | allocate shape => exact (reckons_allocate self shape).told fun _ _ _ => rfl
  | deallocate address => exact (reckons_deallocate self address).told fun _ _ _ => rfl
  | reallocate old shape size =>
    exact (reckons_reallocate self old shape size).told fun _ _ _ => rfl

end SharedPool

end SharedSlab
