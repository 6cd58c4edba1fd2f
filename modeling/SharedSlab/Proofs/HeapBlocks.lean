import SharedSlab.Allocator
import SharedSlab.Proofs.Exhaustion
import SharedSlab.Proofs.InUse
import SharedSlab.Proofs.Zeroing

set_option autoImplicit false

namespace SharedSlab

open Slab

namespace BlockShape

variable {shape : BlockShape} {size align : Nat}

theorem of?_eq_some_iff : of? size align = some shape ↔
    (∃ k, align = 2 ^ k) ∧ size + align ≤ 2 ^ 63 ∧ shape = ⟨size, align⟩ := by
  have hpow : 1 <<< align.log2 = align ↔ ∃ k, align = 2 ^ k := by
    rw [Nat.one_shiftLeft]
    constructor
    · exact fun h => ⟨_, h.symm⟩
    · rintro ⟨k, rfl⟩
      rw [Nat.log2_two_pow]
  rw [← hpow, ← and_assoc, of?]
  split
  · next h => exact ⟨fun heq => ⟨h, (Option.some.inj heq).symm⟩, fun heq => by rw [heq.2]⟩
  · next h => exact iff_of_false (Option.some_ne_none _).symm fun heq => h heq.1

end BlockShape

namespace Slab

variable {p : Pool} {a : Ledger} {live : List Block} {m : Memory} {b : Block} {size k : Nat}

/-- A live allocation of `2 ^ k` bytes at least starts at a multiple of `2 ^ k`, up to a page. -/
theorem Pool.Separated.two_pow_dvd_off (sep : p.Separated live m) (hb : b ∈ live)
    (hsize : 2 ^ k ≤ b.size) (hpage : 2 ^ k ≤ p.config.pageSize) : 2 ^ k ∣ b.off := by
  by_cases small : b.size ≤ p.config.maxSize
  · have haligned := sep.chunk_aligned b hb small
    have hclass := hsize.trans (p.config.le_two_pow_shiftFor b.size)
    rw [Pool.chunkSize_of_small small] at haligned
    exact (Nat.pow_dvd_pow 2 ((Nat.pow_le_pow_iff_right (by decide)).1 hclass)).trans haligned
  · have haligned := sep.run_aligned b hb (not_le.1 small)
    rw [Config.pageSize_eq] at haligned hpage
    exact (Nat.pow_dvd_pow 2 ((Nat.pow_le_pow_iff_right (by decide)).1 hpage)).trans haligned

theorem Ledger.fresh_alloc_of_large (large : p.config.maxSize < size)
    (fits : p.config.page.pagesFor size ≤ p.pageCount) :
    ∃ a, (Ledger.fresh p.pageCount).alloc p size = (some (p.dataOf 0), a) := by
  rw [Ledger.alloc, if_pos large, Ledger.take, Ledger.fresh, Ledger.firstFit, if_pos fits]
  exact ⟨_, rfl⟩

end Slab

structure Region.Addressable (r : Region) : Prop where
  base_pos : 0 < r.base
  finish_lt : r.base + r.len < wordLimit

namespace SharedPool

variable {h : SharedPool} {p : Pool} {a : Ledger} {live : List Block} {m : Memory} {s : Session}
  {size : Nat} {shape : BlockShape}

/-- The handle works on a pool with these live allocations, and the lock is free. -/
structure Idle (h : SharedPool) (a : Ledger) (live : List Block) (m : Memory) : Prop where
  placed : h.pool.Placed
  follows : Follows h.pool a live m
  unlocked : m.word 0 = 0

theorem idle_after {region : Region} {config : Config} {init s' : Arena}
    (hlen : region.len < wordLimit) (h₀ : Pool.init region config init = .ok (.ok p) s')
    (moves : List Move) :
    ∃ replies live t a, p.play moves [] s' = .ok (replies, live) t ∧ t.memory.word 0 = 0 ∧
      ∀ h : SharedPool, h.Opened p s' moves → h.pool.region.Addressable →
        h.Idle a live t.memory := by
  have laid := Pool.init_spec hlen h₀
  obtain ⟨hp, f₀⟩ := follows_init hlen h₀
  obtain ⟨t, run, f, kept⟩ := f₀.play hp moves
  have free : t.memory.word 0 = 0 := (kept 0 (by decide)).trans laid.unlocked
  refine ⟨_, _, t, (Ledger.play p moves [] (Ledger.fresh p.pageCount)).2, run, free,
    fun h opened mapped => ?_⟩
  have v := opened.mapped laid f₀ mapped.finish_lt
  have hbase := mapped.base_pos
  have hfinish := mapped.finish_lt
  refine ⟨?_, ?_, free⟩
  · rw [v.pool]
    exact v.placed.inRegion v.len_le (by omega)
  · rw [v.pool]
    exact f.inRegion _

/-- How a request is answered, as the ledger has it: with all as it was, or with the address of a
new live allocation, which is counted. -/
inductive Allotted (h : SharedPool) (a : Ledger) (live : List Block) (size : Nat) (s : Session) :
    Option Nat × Ledger → Option Nat → Session → Prop
  | refused {u : Arena} (same : ∀ x, u.memory.word x = s.arena.memory.word x) :
      Allotted h a live size s (none, a) none ⟨u, s.counters⟩
  | given {off : Nat} {a' : Ledger} {u : Arena} (idle : h.Idle a' (⟨off, size⟩ :: live) u.memory)
      (framed : h.pool.Framed a a' s.arena.memory u.memory) :
      Allotted h a live size s (some off, a') (some (h.pool.region.base + off))
        ⟨u, s.counters.count (.offset (some off))⟩

namespace Allotted

variable {answer : Option Nat × Ledger} {found : Option Nat} {u : Session}
  (allotted : h.Allotted a live size s answer found u)
include allotted

theorem unlocked (free : s.arena.memory.word 0 = 0) : u.arena.memory.word 0 = 0 := by
  cases allotted with
  | refused same => exact (same 0).trans free
  | given idle => exact idle.unlocked

theorem eq_none_iff : found = none ↔ answer.1 = none := by
  cases allotted with
  | refused => exact iff_of_true rfl rfl
  | given => exact iff_of_false (Option.some_ne_none _) (Option.some_ne_none _)

end Allotted

namespace Idle

theorem release {a' : Ledger} {live' : List Block} {u : Memory} {w : UInt64} (i : h.Idle a live m)
    (f : Follows h.pool a' live' u) (framed : h.pool.Framed a a' (m.setWord 0 w) u) :
    h.Idle a' live' (u.setWord 0 0) ∧ h.pool.Framed a a' m (u.setWord 0 0) ∧ u.word 0 = w :=
  ⟨⟨i.placed, f.setHeader i.placed (by decide) 0, Memory.word_setWord_self ..⟩,
    framed.unlocked i.unlocked,
    (framed.word_of_lt i.placed (by decide)).trans (Memory.word_setWord_self ..)⟩

theorem alloc_run (i : h.Idle a live s.arena.memory) (self : Caller) (pos : 0 < size) :
    ∃ found u, h.alloc self size s = .ok found u ∧
      h.Allotted a live size s (a.alloc h.pool size) found u := by
  have taken := i.follows.setHeader i.placed (i := 0) (by decide) self.word
  have held : (s.withLock self.word).arena.memory.word 0 = self.word :=
    Memory.word_setWord_self ..
  have served := Pool.alloc_run (s := (s.withLock self.word).arena) i.placed taken.steady
    taken.stores pos
  rw [show h.alloc self size = locked self (h.allocLocked self size) from if_neg pos.ne']
  generalize hrun : h.pool.alloc size (s.withLock self.word).arena = result at served
  generalize hledger : a.alloc h.pool size = answer at served ⊢
  cases served with
  | refused =>
    have run := allocLocked_of_alloc held pos (by rintro _ ⟨⟩) hrun
    refine ⟨none, _, locked_run self i.unlocked run held, .refused fun x => ?_⟩
    by_cases hx : 0 = x
    · rw [← hx, i.unlocked]
      exact Memory.word_setWord_self ..
    · exact (Memory.word_setWord_of_ne _ _ hx).trans (Memory.word_setWord_of_ne _ _ hx)
  | @given off a' m' stores framed =>
    have f' := taken.alloc i.placed pos hledger stores
    have run := allocLocked_of_alloc held pos
      (by rintro _ ⟨⟩; exact f'.off_lt i.placed List.mem_cons_self) hrun
    obtain ⟨idle, framed', held'⟩ := i.release f' framed
    exact ⟨_, _, locked_run self i.unlocked run held', .given idle framed'⟩

theorem free_run {address off : Nat} (i : h.Idle a live s.arena.memory) (self : Caller)
    (seen : h.pool.region.offsetOf? address = if off < h.pool.region.len then some off else none) :
    ∃ u, h.free self address s =
        .ok (a.free h.pool off).1 ⟨u, s.counters.count (.freed (a.free h.pool off).1)⟩ ∧
      h.Idle (a.free h.pool off).2 (track (.free off) (.freed (a.free h.pool off).1) live)
        u.memory ∧
      h.pool.Framed a (a.free h.pool off).2 s.arena.memory u.memory := by
  have taken := i.follows.setHeader i.placed (i := 0) (by decide) self.word
  have held : (s.withLock self.word).arena.memory.word 0 = self.word :=
    Memory.word_setWord_self ..
  obtain ⟨t, called, f, framed⟩ :=
    taken.call (s := (s.withLock self.word).arena) i.placed (.free off)
  obtain ⟨outcome, _, freed, answered⟩ := PoolM.of_bind called
  cases answered
  obtain ⟨w, run, hmemory⟩ := freeLocked_of_free held i.placed.finish_le seen freed
  rw [← hmemory] at f framed
  obtain ⟨idle, framed', held'⟩ := i.release f framed
  exact ⟨_, locked_run self i.unlocked run held', idle, framed'⟩

end Idle

theorem allocate_of_lt (self : Caller) (large : h.config.pageSize < shape.align) :
    h.allocate self shape s = .ok none s := by
  rw [allocate, if_pos large]
  rfl

theorem allocate_of_le (self : Caller) (small : shape.align ≤ h.config.pageSize) :
    h.allocate self shape = h.alloc self (max shape.size shape.align) :=
  if_neg small.not_gt

theorem Idle.allocate_run (i : h.Idle a live s.arena.memory) (self : Caller)
    (pos : 0 < shape.align) : ∃ answer found u, h.allocate self shape s = .ok found u ∧
      h.Allotted a live (max shape.size shape.align) s answer found u ∧
      (found = none ↔ h.config.pageSize < shape.align ∨
        h.pool.Exhausted (table s.arena.memory) live (max shape.size shape.align)) := by
  by_cases large : h.config.pageSize < shape.align
  · exact ⟨_, none, s, allocate_of_lt self large, .refused fun _ => rfl,
      iff_of_true rfl (.inl large)⟩
  · have pos' : 0 < max shape.size shape.align := pos.trans_le (le_max_right _ _)
    obtain ⟨found, u, run, allotted⟩ := i.alloc_run self pos'
    have refused := allotted.eq_none_iff.trans (i.follows.refused_iff_exhausted i.placed pos')
    rw [← allocate_of_le self (not_lt.1 large)] at run
    exact ⟨_, found, u, run, allotted, refused.trans (or_iff_right large).symm⟩

/-- What holds of the answer to a request for a block that finds `m` and leaves `m'`. -/
structure Provides (h : SharedPool) (live : List Block) (shape : BlockShape) (m : Memory)
    (found : Option Nat) (m' : Memory) : Prop where
  refused_iff : found = none ↔ h.config.pageSize < shape.align ∨
    h.pool.Exhausted (table m) live (max shape.size shape.align)
  reserved : ∀ address, found = some address → ∃ off, address = h.pool.region.base + off ∧
    shape.size ≤ h.pool.chunkSize (max shape.size shape.align) ∧
    h.pool.Separated (⟨off, max shape.size shape.align⟩ :: live) m'
  /-- The address is aligned just if the region is. -/
  aligned_iff : ∀ address, found = some address →
    (shape.align ∣ address ↔ shape.align ∣ h.pool.region.base)
  /-- So it is on every host up to the size of its pages. -/
  aligned : ∀ address, found = some address → Host.pageSize ∣ h.pool.region.base →
    shape.align ≤ Host.pageSize → shape.align ∣ address

theorem Allotted.provides {answer : Option Nat × Ledger} {found : Option Nat} {u : Session}
    (allotted : h.Allotted a live (max shape.size shape.align) s answer found u)
    (valid : BlockShape.of? shape.size shape.align = some shape)
    (refused_iff : found = none ↔ h.config.pageSize < shape.align ∨
      h.pool.Exhausted (table s.arena.memory) live (max shape.size shape.align)) :
    h.Provides live shape s.arena.memory found u.arena.memory := by
  obtain ⟨⟨k, hk⟩, _⟩ := BlockShape.of?_eq_some_iff.1 valid
  cases allotted with
  | refused => exact ⟨refused_iff, by rintro _ ⟨⟩, by rintro _ ⟨⟩, by rintro _ ⟨⟩⟩
  | @given off a' u idle framed =>
    have sep := idle.follows.separated idle.placed
    have hpage : shape.align ≤ h.pool.config.pageSize :=
      not_lt.1 fun large => Option.some_ne_none _ (refused_iff.2 (.inl large))
    have hoff : shape.align ∣ off := by
      rw [hk] at sep hpage ⊢
      exact sep.two_pow_dvd_off List.mem_cons_self (le_max_right _ _) hpage
    have hiff : shape.align ∣ h.pool.region.base + off ↔ shape.align ∣ h.pool.region.base :=
      (Nat.dvd_add_iff_left hoff).symm
    refine ⟨refused_iff, ?_, ?_, ?_⟩
    · rintro _ ⟨⟩
      have hchunk := Pool.le_chunkSize idle.placed (idle.follows.fits _ List.mem_cons_self)
      exact ⟨off, rfl, (le_max_left _ _).trans hchunk, sep⟩
    · rintro _ ⟨⟩
      exact hiff
    · rintro _ ⟨⟩ hbase hhost
      refine hiff.2 (Nat.dvd_trans ?_ hbase)
      rw [hk, show Host.pageSize = 2 ^ 12 from rfl] at hhost ⊢
      exact Nat.pow_dvd_pow 2 ((Nat.pow_le_pow_iff_right (by decide)).1 hhost)

def seenAt (p : Pool) (base : Nat) : SharedPool :=
  ⟨p.inRegion ⟨base, p.region.len⟩, ⟨base, Lock.defaultSpin⟩,
    ⟨0, base, p.region.len, Protection.data⟩, none, none⟩

theorem addressable_seenAt {base : Nat} (pos : 0 < base) (fits : base + p.region.len < wordLimit) :
    (seenAt p base).pool.region.Addressable := ⟨pos, fits⟩

theorem opened_seenAt {region : Region} {config : Config} {init : Arena}
    (laid : Pool.Laid region config p init.memory) (base : Nat) (moves : List Move) :
    (seenAt p base).Opened p init moves := by
  have layout := laid.layout
  rw [← laid.config_eq, ← laid.region_eq] at layout
  obtain ⟨u, attached, _⟩ := Pool.attach_run (r := ⟨base, p.region.len⟩) laid.placed layout
    laid.recorded (le_refl _)
  exact .inr ⟨[], List.nil_prefix, _, init, u, _, _, rfl, attached⟩

end SharedPool

/-- After any history a request for a block is answered, with the lock free again. A block that is
given has its size, apart from all that is live, and the alignment that was asked for if and only if
the region starts at a multiple of it. That is sure for no more than a page of the host. -/
theorem allocate_provides {region : Region} {config : Config} {p : Pool} {s s' : Arena}
    (hlen : region.len < wordLimit) (h : Pool.init region config s = .ok (.ok p) s')
    (moves : List Move) :
    ∃ replies live t, p.play moves [] s' = .ok (replies, live) t ∧ t.memory.word 0 = 0 ∧
      ∀ (handle : SharedPool) (self : Caller) (counters : Counters), handle.Opened p s' moves →
        handle.pool.region.Addressable →
        ∀ shape : BlockShape, BlockShape.of? shape.size shape.align = some shape →
          ∃ found u, handle.allocate self shape ⟨t, counters⟩ = .ok found u ∧
            handle.Provides live shape t.memory found u.arena.memory ∧
            u.arena.memory.word 0 = 0 := by
  obtain ⟨replies, live, t, a, played, free, idle⟩ := SharedPool.idle_after hlen h moves
  refine ⟨replies, live, t, played, free, fun handle self counters opened mapped shape valid => ?_⟩
  obtain ⟨⟨k, hk⟩, _⟩ := BlockShape.of?_eq_some_iff.1 valid
  obtain ⟨answer, found, u, run, allotted, refused_iff⟩ :=
    (idle handle opened mapped).allocate_run (s := ⟨t, counters⟩) self (hk ▸ Nat.two_pow_pos k)
  exact ⟨found, u, run, allotted.provides valid refused_iff, allotted.unlocked free⟩

theorem allocate_provides_host : ∃ p s',
    Pool.init ⟨0, 65536⟩ Config.host ⟨Memory.zeroed, #[]⟩ = .ok (.ok p) s' ∧
    ∃ replies live t, p.play [.call (.alloc 5 (by decide))] [] s' = .ok (replies, live) t ∧
      t.memory.word 0 = 0 ∧ (SharedPool.seenAt p 69632).Opened p s' [.call (.alloc 5 (by decide))] ∧
      (SharedPool.seenAt p 69632).pool.region.Addressable ∧
      BlockShape.of? 100 64 = some ⟨100, 64⟩ ∧
      ∃ (self : Caller) (found : Option Nat) (u : Session),
        (SharedPool.seenAt p 69632).allocate self ⟨100, 64⟩ ⟨t, ⟨0, 0⟩⟩ = .ok found u ∧
        (SharedPool.seenAt p 69632).Provides live ⟨100, 64⟩ t.memory found u.arena.memory ∧
        u.arena.memory.word 0 = 0 := by
  obtain ⟨p, s', h⟩ := Pool.init_host
  have laid := Pool.init_spec (by decide) h
  have opened := SharedPool.opened_seenAt laid 69632 [.call (.alloc 5 (by decide))]
  have mapped : (SharedPool.seenAt p 69632).pool.region.Addressable :=
    SharedPool.addressable_seenAt (by decide) (by rw [laid.region_eq]; decide)
  obtain ⟨replies, live, t, run, free, provides⟩ :=
    allocate_provides (by decide) h [.call (.alloc 5 (by decide))]
  exact ⟨p, s', h, replies, live, t, run, free, opened, mapped, by decide,
    ⟨7, by decide, by decide, fun _ => false⟩, provides _ _ _ opened mapped ⟨100, 64⟩ (by decide)⟩

/-- A region that starts at a page of the host, as all do, and the only page of its pool, of 1 MiB:
it is given for an alignment of 1 MiB, at an address that is no multiple of that. -/
theorem allocate_misaligned : ∃ config p s', Config.ofPageSize 1048576 = .ok config ∧
    Pool.init ⟨0, 2097152⟩ config ⟨Memory.zeroed, #[]⟩ = .ok (.ok p) s' ∧
    s'.memory.word 0 = 0 ∧ (SharedPool.seenAt p 65536).Opened p s' [] ∧
    (SharedPool.seenAt p 65536).pool.region.Addressable ∧
    Host.pageSize ∣ (SharedPool.seenAt p 65536).pool.region.base ∧
    BlockShape.of? 1 1048576 = some ⟨1, 1048576⟩ ∧
    ∃ (self : Caller) (address : Nat) (u : Session),
      (SharedPool.seenAt p 65536).allocate self ⟨1, 1048576⟩ ⟨s', ⟨0, 0⟩⟩ = .ok (some address) u ∧
      ¬1048576 ∣ address := by
  obtain ⟨config, made, large, small, one, compute⟩ : ∃ c, Config.ofPageSize 1048576 = .ok c ∧
      c.maxSize < 1048576 ∧ 1048576 ≤ c.pageSize ∧ c.page.pagesFor 1048576 ≤ 1 ∧
      Layout.compute c (⟨0, 2097152⟩ : Region).len = .ok (some ⟨104, 512, 1, 1048576⟩) :=
    ⟨⟨⟨20, by decide⟩, 3, by decide, by decide, by decide, by decide⟩, rfl, by decide, by decide,
      by decide, by decide⟩
  obtain ⟨p, s', h, laid⟩ := Pool.init_run compute (by decide) ⟨Memory.zeroed, #[]⟩
  obtain ⟨hp, f⟩ := follows_init (by decide) h
  have layout : p.layout = ⟨104, 512, 1, 1048576⟩ :=
    Option.some.inj (Except.ok.inj (laid.layout.symm.trans compute))
  have opened := SharedPool.opened_seenAt laid 65536 []
  have mapped : (SharedPool.seenAt p 65536).pool.region.Addressable :=
    SharedPool.addressable_seenAt (by decide) (by rw [laid.region_eq]; decide)
  have idle : (SharedPool.seenAt p 65536).Idle (Ledger.fresh p.pageCount) [] s'.memory :=
    ⟨hp.inRegion (le_refl _) hp.len_lt, f.inRegion _, laid.unlocked⟩
  rw [← laid.config_eq] at large small one
  obtain ⟨a, given⟩ := Ledger.fresh_alloc_of_large large (by rwa [Pool.pageCount, layout])
  obtain ⟨found, u, run, allotted⟩ := idle.alloc_run (s := ⟨s', ⟨0, 0⟩⟩)
    ⟨7, by decide, by decide, fun _ => false⟩ (show 0 < 1048576 by decide)
  rw [show (Ledger.fresh p.pageCount).alloc (SharedPool.seenAt p 65536).pool 1048576 = _
    from given] at allotted
  cases allotted
  have haddress : 65536 + p.dataOf 0 = 65536 + 1048576 := by
    rw [Pool.dataOf, Pool.start, layout, Nat.zero_mul]
  have granted : (⟨1, 1048576⟩ : BlockShape).align ≤
    (SharedPool.seenAt p 65536).config.pageSize := small
  have allocated := (congrFun (SharedPool.allocate_of_le _ granted) _).trans run
  have placed : Host.pageSize ∣ 65536 := by decide
  exact ⟨config, p, s', made, h, laid.unlocked, opened, mapped, placed, by decide, _, _, _,
    allocated, haddress ▸ by decide⟩

end SharedSlab
