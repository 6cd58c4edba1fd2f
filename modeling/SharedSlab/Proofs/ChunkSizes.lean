import Mathlib.Logic.Function.Basic
import SharedSlab.Proofs.LargestLayout
import SharedSlab.Proofs.LiveBlocks

set_option autoImplicit false

namespace SharedSlab.Slab

namespace Config

variable {c : Config} {size shift : Nat}

theorem minSize_eq (c : Config) : c.minSize = 2 ^ c.minShift := by
  rw [minSize, Nat.shiftLeft_eq, Nat.one_mul]

theorem maxSize_eq (c : Config) : c.maxSize = 2 ^ (c.pageShift - 1) := by
  have hmin : c.minShift + 6 < c.pageShift := c.min_lt
  rw [maxSize, pageSize_eq, show c.pageShift = c.pageShift - 1 + 1 by omega, Nat.pow_succ,
    Nat.mul_div_cancel _ (by decide)]
  rfl

theorem two_pow_bounds (h : c.IsClass shift) : c.minSize ≤ 2 ^ shift ∧ 2 ^ shift ≤ c.maxSize := by
  obtain ⟨low, high⟩ := h
  rw [minSize_eq, maxSize_eq]
  exact ⟨Nat.pow_le_pow_right (by decide) low, Nat.pow_le_pow_right (by decide) (by omega)⟩

theorem shiftFor_le (hsize : size ≤ 2 ^ shift) (hmin : c.minSize ≤ 2 ^ shift) :
    c.shiftFor size ≤ shift := by
  rw [shiftFor]
  split
  · rw [minSize_eq] at hmin
    exact (Nat.pow_le_pow_iff_right (by decide)).1 hmin
  · next hlarge =>
    have hpos : 0 < c.minSize := by
      rw [minSize_eq]
      exact Nat.two_pow_pos _
    exact (Nat.log2_lt (by omega)).2 (by omega)

end Config

namespace Pool

variable {p : Pool} {size size' : Nat}

theorem chunkSize_isLeast_of_small (small : size ≤ p.config.maxSize) :
    IsLeast {n | (∃ shift, n = 2 ^ shift) ∧ max size p.config.minSize ≤ n}
      (p.chunkSize size) := by
  have hclass := Config.isClass_shiftFor small
  rw [chunkSize_of_small small]
  constructor
  · exact ⟨⟨_, rfl⟩, max_le (p.config.le_two_pow_shiftFor size) (Config.two_pow_bounds hclass).1⟩
  · rintro n ⟨⟨shift, rfl⟩, hle⟩
    obtain ⟨hsize, hmin⟩ := max_le_iff.1 hle
    exact Nat.pow_le_pow_right (by decide) (Config.shiftFor_le hsize hmin)

theorem chunkSize_bounds_of_small (small : size ≤ p.config.maxSize) :
    p.config.minSize ≤ p.chunkSize size ∧ p.chunkSize size ≤ p.config.maxSize := by
  rw [chunkSize_of_small small]
  exact Config.two_pow_bounds (Config.isClass_shiftFor small)

theorem chunkSize_eq_boundary_mod (large : p.config.maxSize < size) :
    p.chunkSize size = p.config.page.boundary size % wordLimit := by
  rw [chunkSize, if_pos large, Nat.shiftLeft_eq, ← Config.pageSize_eq]
  exact congrArg (· % wordLimit) (p.config.page.pagesFor_mul_eq_boundary size)

theorem chunkSize_eq_boundary (large : p.config.maxSize < size)
    (fits : size + p.config.pageSize ≤ wordLimit) :
    p.chunkSize size = p.config.page.boundary size := by
  rw [chunkSize_eq_boundary_mod large,
    Nat.mod_eq_of_lt ((p.config.page.boundary_lt_iff size).2 fits)]

theorem chunkSize_isLeast_of_large (large : p.config.maxSize < size)
    (fits : size + p.config.pageSize ≤ wordLimit) :
    IsLeast {n | size ≤ n ∧ p.config.pageSize ∣ n} (p.chunkSize size) := by
  rw [chunkSize_eq_boundary large fits]
  exact p.config.page.boundary_isLeast size

/-- The whole pages that such a request needs are as many bytes as there are words. -/
theorem chunkSize_of_beyond (hsize : size < wordLimit)
    (beyond : wordLimit < size + p.config.pageSize) : p.chunkSize size = 0 := by
  have hpage := p.config.pageSize_le
  have hhalf : p.config.maxSize ≤ p.config.pageSize := Nat.div_le_self _ _
  have hlarge : p.config.maxSize < size := by
    rw [wordLimit_eq] at beyond
    omega
  have hle : p.config.page.boundary size ≤ wordLimit :=
    (p.config.page.boundary_isLeast size).2 ⟨hsize.le, p.config.page.size_dvd_wordLimit⟩
  have hnot : ¬p.config.page.boundary size < wordLimit := by
    rw [Geometry.boundary_lt_iff]
    exact not_le.2 beyond
  rw [chunkSize_eq_boundary_mod hlarge, le_antisymm hle (not_lt.1 hnot), Nat.mod_self]

theorem le_chunkSize_of_fits (fits : size + p.config.pageSize ≤ wordLimit) :
    size ≤ p.chunkSize size := by
  by_cases large : p.config.maxSize < size
  · exact (chunkSize_isLeast_of_large large fits).1.1
  · rw [chunkSize_of_small (not_lt.1 large)]
    exact p.config.le_two_pow_shiftFor size

theorem chunkSize_mono (hle : size ≤ size')
    (fits : size' + p.config.pageSize ≤ wordLimit) : p.chunkSize size ≤ p.chunkSize size' := by
  by_cases large : p.config.maxSize < size
  · rw [chunkSize_eq_boundary large (by omega), chunkSize_eq_boundary (by omega) fits]
    exact Geometry.boundary_mono hle
  have small := not_lt.1 large
  by_cases large' : p.config.maxSize < size'
  · have hbound := (chunkSize_bounds_of_small small).2
    have hsize' := le_chunkSize_of_fits fits
    omega
  · obtain ⟨hpow, hmax⟩ := (chunkSize_isLeast_of_small (not_lt.1 large')).1
    exact (chunkSize_isLeast_of_small small).2
      ⟨hpow, (max_le_max hle (le_refl _)).trans hmax⟩

/-- What is told of each size, as long as the whole pages that hold it are less than a word's
limit. -/
structure SizesTold (p : Pool) : Prop where
  covers : ∀ size, size + p.config.pageSize ≤ wordLimit → size ≤ p.chunkSize size
  small : ∀ size ≤ p.config.maxSize,
    IsLeast {n | (∃ shift, n = 2 ^ shift) ∧ max size p.config.minSize ≤ n} (p.chunkSize size)
  bounds : ∀ size ≤ p.config.maxSize,
    p.config.minSize ≤ p.chunkSize size ∧ p.chunkSize size ≤ p.config.maxSize
  large : ∀ size, p.config.maxSize < size → size + p.config.pageSize ≤ wordLimit →
    IsLeast {n | size ≤ n ∧ p.config.pageSize ∣ n} (p.chunkSize size)
  mono : ∀ size size', size ≤ size' → size' + p.config.pageSize ≤ wordLimit →
    p.chunkSize size ≤ p.chunkSize size'

theorem sizesTold (p : Pool) : p.SizesTold where
  covers _ := le_chunkSize_of_fits
  small _ := chunkSize_isLeast_of_small
  bounds _ := chunkSize_bounds_of_small
  large _ := chunkSize_isLeast_of_large
  mono _ _ := chunkSize_mono

def occupancyBit (p : Pool) (m : Memory) (i k : Nat) : Bool :=
  match (table m (p.page i)).kind with
  | .small => Bits.test (m.word (p.bitmapIndex i (k / 64))) (k % 64)
  | .exact => Bits.test (table m (p.page i)).slab k
  | _ => Bits.test (table m (p.page i)).slab (k + mapShift)

def takenChunk (p : Pool) (m : Memory) (i within shift : Nat) : Option Nat :=
  if within % 2 ^ shift = 0 ∧ p.config.reserved shift ≤ within / 2 ^ shift ∧
      p.occupancyBit m i (within / 2 ^ shift) then some (2 ^ shift)
  else none

def takenRun (p : Pool) (w : UInt64) (within : Nat) : Option Nat :=
  if w ≠ runInterior ∧ w &&& runStart ≠ 0 ∧ within = 0 then
    some ((w &&& ~~~runStart).toNat * p.config.pageSize)
  else none

/-- The bytes that a free of an offset gives back, as the words of its page have it. -/
def takenAt (p : Pool) (m : Memory) (off : Nat) : Option Nat :=
  if off < p.start ∨ p.finish ≤ off then none
  else
    match p.classOf (table m) (p.pageOf off) with
    | some shift => p.takenChunk m (p.pageOf off) ((off - p.start) % p.config.pageSize) shift
    | none => p.takenRun (table m (p.page (p.pageOf off))).slab ((off - p.start) % p.config.pageSize)

structure Reserves (p : Pool) (m m' : Memory) (off len : Nat) : Prop where
  inside : p.start ≤ off ∧ off + len ≤ p.finish
  vacant : p.takenAt m off = none
  taken : p.takenAt m' = Function.update (p.takenAt m) off (some len)
  apart : ∀ o l, p.takenAt m o = some l → o + l ≤ off ∨ off + len ≤ o

end Pool

variable {p : Pool} {a a' : Ledger} {live : List Block} {m m' : Memory} {i k n off len shift : Nat}
  {taken : Finset Nat}

namespace Stores

variable (h : Stores p a m)
include h

theorem occupancyBit_eq (hi : i < p.pageCount) (huse : a.use i = .chunks shift taken)
    (hk : k < p.config.chunkCount shift) : p.occupancyBit m i k = decide (k ∈ taken) := by
  have hpage := h.encodes.pages i hi
  have hkind := hpage.kind
  have hmarks := hpage.marks
  rw [huse] at hkind hmarks
  rw [Pool.occupancyBit, hkind, PageUse.kind]
  rcases Nat.lt_trichotomy shift p.config.exactShift with small | rfl | big
  · have hwords := Config.words_mul small
    have hsplit := Nat.div_add_mod k 64
    have hbit := ((occupied_small small).1 hmarks).2 (k / 64) (by omega) (k % 64)
      (Nat.mod_lt _ (by decide))
    rw [Nat.zero_add, hsplit] at hbit
    rw [Config.kindFor_small small]
    exact hbit
  · have hbit := occupied_exact.1 hmarks k (by rwa [Config.chunkCount_exact] at hk)
    rw [Nat.zero_add] at hbit
    rw [Config.kindFor_exact]
    exact hbit
  · have hcount := Config.chunkCount_le_of_big big
    have hbit := ((occupied_big big).1 hmarks).2 k (by omega)
    rw [Nat.zero_add, Nat.add_comm mapShift] at hbit
    rw [Config.kindFor_big big]
    exact hbit

variable (steady : a.Steady p.config p.pageCount)
include steady

theorem takenChunk_eq_some_iff {within : Nat} (hi : i < p.pageCount)
    (huse : a.use i = .chunks shift taken) (hwithin : within < p.config.pageSize)
    (hoff : p.dataOf i + within = off) :
    p.takenChunk m i within shift = some len ↔ (a.use i).Holds p i off len := by
  have hclass := steady.chunks_class i hi shift taken huse
  have hbit := h.occupancyBit_eq hi huse (Config.div_lt_chunkCount hclass hwithin)
  have hdiv := Nat.div_add_mod' within (2 ^ shift)
  rw [Pool.takenChunk, hbit, huse]
  constructor
  · intro found
    split at found
    · next htaken =>
      obtain ⟨aligned, hres, hmem⟩ := htaken
      refine ⟨_, of_decide_eq_true hmem, hres, ?_, (Option.some.inj found).symm⟩
      rw [Pool.chunkAt]
      omega
    · cases found
  · rintro ⟨k, hmem, hres, hchunk, rfl⟩
    obtain rfl : within = k * 2 ^ shift := Nat.add_left_cancel (hoff.trans hchunk)
    rw [Nat.mul_mod_left, Nat.mul_div_cancel _ (Nat.two_pow_pos shift),
      if_pos ⟨rfl, hres, decide_eq_true hmem⟩]

theorem takenRun_eq_some_iff {within : Nat} (hp : p.Placed) (hi : i < p.pageCount)
    (huse : ∀ shift taken, a.use i ≠ .chunks shift taken) (hoff : p.dataOf i + within = off) :
    p.takenRun (table m (p.page i)).slab within = some len ↔ (a.use i).Holds p i off len := by
  have hlt := hp.pageCount_lt
  have hmarks := (h.encodes.pages i hi).marks
  cases hcase : a.use i with
  | free =>
    obtain ⟨n, hn, hslab⟩ := Pool.slab_of_free (s := ⟨m, #[]⟩) hp steady.toSound hi h hcase
    rw [hslab, Pool.takenRun, ofNat_and_runStart hn, if_neg fun found => found.2.1 rfl]
    exact iff_of_false nofun id
  | runRest =>
    rw [hcase] at hmarks
    have hslab : (table m (p.page i)).slab = runInterior := hmarks
    rw [hslab, Pool.takenRun, if_neg fun found => found.1 rfl]
    exact iff_of_false nofun id
  | runStart n =>
    rw [hcase] at hmarks
    have hle := steady.start_le i hi n hcase
    have hslab : (table m (p.page i)).slab = UInt64.ofNat n ||| runStart := hmarks
    rw [hslab, Pool.takenRun, toNat_started (by omega)]
    constructor
    · intro found
      split at found
      · next hfirst => exact ⟨by omega, (Option.some.inj found).symm⟩
      · cases found
    · rintro ⟨hfirst, rfl⟩
      rw [if_pos ⟨started_ne_runInterior (by omega), started_and_runStart, by omega⟩]
  | chunks shift taken => exact absurd hcase (huse shift taken)

/-- The words of a page tell of no other block than the ledger. -/
theorem takenAt_eq_some_iff (hp : p.Placed) : p.takenAt m off = some len ↔ a.Held p off len := by
  rw [steady.held_iff hp, Pool.takenAt]
  by_cases outside : off < p.start ∨ p.finish ≤ off
  · rw [if_pos outside]
    exact iff_of_false nofun fun held => by omega
  have inside : p.start ≤ off ∧ off < p.finish := by omega
  have hi : p.pageOf off < p.pageCount := hp.div_lt inside.1 inside.2
  have hoff := Pool.dataOf_pageOf_add inside.1
  have hwithin := Nat.mod_lt (off - p.start) p.config.pageSize_pos
  have hclass : ∀ shift, p.classOf (table m) (p.pageOf off) = some shift ↔
      ∃ taken, a.use (p.pageOf off) = .chunks shift taken :=
    fun _ => h.encodes.classOf_eq_some_iff steady hi
  rw [if_neg outside, and_iff_right inside]
  cases hfound : p.classOf (table m) (p.pageOf off) with
  | some shift =>
    obtain ⟨taken, huse⟩ := (hclass shift).1 hfound
    exact h.takenChunk_eq_some_iff steady hi huse hwithin hoff
  | none =>
    have huse : ∀ shift taken, a.use (p.pageOf off) ≠ .chunks shift taken := by
      intro shift taken huse
      cases hfound.symm.trans ((hclass shift).2 ⟨taken, huse⟩)
    exact h.takenRun_eq_some_iff steady hp hi huse hoff

theorem takenAt_eq_none_iff (hp : p.Placed) :
    p.takenAt m off = none ↔ ∀ len, ¬a.Held p off len := by
  simp only [← h.takenAt_eq_some_iff steady hp, Option.eq_none_iff_forall_ne_some, Ne]

end Stores

variable {size : Nat}

theorem Follows.takenAt_update {live' : List Block} (f : Follows p a live m)
    (f' : Follows p a' live' m') (hp : p.Placed) (x : Option Nat)
    (here : ∀ l, a'.Held p off l ↔ x = some l)
    (elsewhere : ∀ o l, o ≠ off → (a'.Held p o l ↔ a.Held p o l)) :
    p.takenAt m' = Function.update (p.takenAt m) off x := by
  funext o
  apply Option.ext
  intro l
  rw [f'.stores.takenAt_eq_some_iff f'.steady hp]
  by_cases same : o = off
  · subst same
    rw [Function.update_self, here]
  · rw [Function.update_of_ne same, f.stores.takenAt_eq_some_iff f.steady hp, elsewhere o l same]

theorem Follows.reserves (f : Follows p a live m) (f' : Follows p a' (⟨off, size⟩ :: live) m')
    (hp : p.Placed) (pos : 0 < size) (h : a.alloc p size = (some off, a')) :
    p.Reserves m m' off (p.chunkSize size) := by
  obtain ⟨hheld, hnew, _⟩ := f.steady.held_alloc hp pos h
  have hgiven : a'.Held p off (p.chunkSize size) := (hheld _ _).2 (.inr ⟨rfl, rfl⟩)
  refine ⟨f'.steady.held_inside hp hgiven,
    (f.stores.takenAt_eq_none_iff f.steady hp).2 hnew, ?_, fun o l htaken => ?_⟩
  · refine f.takenAt_update f' hp _ (fun l => ?_) fun o l other => ?_
    · rw [hheld, or_iff_right (hnew l), and_iff_right rfl, Option.some.injEq, eq_comm]
    · rw [hheld, or_iff_left fun given => other given.1]
  · have hold := (f.stores.takenAt_eq_some_iff f.steady hp).1 htaken
    rcases f'.steady.held_apart ((hheld o l).2 (.inl hold)) hgiven with ⟨rfl, _⟩ | happart
    · exact absurd hold (hnew l)
    · exact happart

theorem Follows.free_takenAt {s : Arena} (f : Follows p a live s.memory) (hp : p.Placed)
    (off : Nat) :
    ∃ outcome t, p.free off s = .ok outcome t ∧
      (outcome = .ok () ↔ p.takenAt s.memory off ≠ none) ∧
      p.takenAt t.memory = Function.update (p.takenAt s.memory) off none := by
  have hok : (a.free p off).1 = .ok () ↔ ∃ l, a.Held p off l := f.steady.free_ok_iff hp
  have hnone : (∃ l, a.Held p off l) ↔ p.takenAt s.memory off ≠ none := by
    rw [Ne, f.stores.takenAt_eq_none_iff f.steady hp, not_forall_not]
  have freed := Pool.free_run hp f.steady f.stores off
  generalize hrun : p.free off s = result at freed
  generalize hfree : Ledger.free p off a = answer at freed hok
  cases freed with
  | @refused cause =>
    refine ⟨_, _, rfl, hok.trans hnone, ?_⟩
    have vacant : p.takenAt s.memory off = none :=
      not_not.1 fun taken => nomatch hok.2 (hnone.2 taken)
    rw [← vacant, Function.update_eq_self]
    rfl
  | @done a' m' stores framed =>
    refine ⟨_, _, rfl, hok.trans hnone, ?_⟩
    have f' := f.free hp hfree stores
    obtain ⟨_, hheld⟩ := f.steady.held_free hp hfree
    refine f.takenAt_update f' hp none (fun l => ?_) fun o l other => ?_
    · rw [hheld]
      exact iff_of_false (fun kept => kept.2 rfl) nofun
    · rw [hheld, and_iff_left other]

theorem Ledger.Steady.alloc_fits (steady : a.Steady p.config p.pageCount) (hp : p.Placed)
    (pos : 0 < size) (h : a.alloc p size = (some off, a')) :
    size + p.config.pageSize ≤ wordLimit := by
  obtain ⟨_, _, hfits⟩ := steady.held_alloc hp pos h
  by_cases large : p.config.maxSize < size
  · have hlt := hp.dataOf_lt (hfits large)
    have hbytes : p.config.page.boundary size ≤ p.dataOf (p.config.page.pagesFor size) := by
      rw [← Geometry.pagesFor_mul_eq_boundary]
      exact Nat.le_add_left _ _
    exact (p.config.page.boundary_lt_iff size).1 (hbytes.trans_lt hlt)
  · have hpage := p.config.pageSize_le
    have hhalf : p.config.maxSize ≤ p.config.pageSize := Nat.div_le_self _ _
    rw [wordLimit_eq]
    omega

section Init

variable {region : Region} {config : Config} {s s' : Arena}

/-- What is told of a size is true of every request that is served, after any history: just so many
bytes become taken, and so many does a free find and give back. -/
theorem chunk_sizes_told (hlen : region.len < wordLimit)
    (h : Pool.init region config s = .ok (.ok p) s') (calls : List Call) (pos : 0 < size) :
    p.SizesTold ∧ ∃ answers live t, p.replay calls [] s' = .ok (answers, live) t ∧
      (∀ o l, p.takenAt t.memory o = some l ↔ ∃ b ∈ live, b.off = o ∧ p.chunkSize b.size = l) ∧
      (∀ o, ∃ outcome u, p.free o t = .ok outcome u ∧
        (outcome = .ok () ↔ p.takenAt t.memory o ≠ none) ∧
        p.takenAt u.memory = Function.update (p.takenAt t.memory) o none) ∧
      ∃ found u, p.alloc size t = .ok found u ∧ ∀ off, found = some off →
        size + p.config.pageSize ≤ wordLimit ∧
        p.Reserves t.memory u.memory off (p.chunkSize size) ∧
        ∃ v, p.free off u = .ok (.ok ()) v ∧ p.takenAt v.memory = p.takenAt t.memory := by
  obtain ⟨hp, live, t, run, f⟩ := follows_replay hlen h calls
  have htaken : ∀ o l, p.takenAt t.memory o = some l ↔
      ∃ b ∈ live, b.off = o ∧ p.chunkSize b.size = l := fun o l =>
    (f.stores.takenAt_eq_some_iff f.steady hp).trans (f.held o l)
  refine ⟨p.sizesTold, _, live, t, run, htaken, f.free_takenAt hp, ?_⟩
  have served := Pool.alloc_run hp f.steady f.stores pos
  generalize hrun : p.alloc size t = result at served
  generalize halloc : Ledger.alloc p size _ = answer at served
  cases served with
  | refused => exact ⟨_, _, rfl, nofun⟩
  | @given off a' m' stores framed =>
    refine ⟨_, t.withMemory m', rfl, ?_⟩
    rintro _ ⟨⟩
    have f' := f.alloc hp pos halloc stores
    have reserves := f.reserves f' hp pos halloc
    refine ⟨f.steady.alloc_fits hp pos halloc, reserves, ?_⟩
    obtain ⟨outcome, v, freed, hdone, back⟩ := Follows.free_takenAt (s := t.withMemory m') f' hp off
    have taken : p.takenAt m' off = some (p.chunkSize size) := by
      rw [reserves.taken, Function.update_self]
    have done : outcome = .ok () := hdone.2 (Option.ne_none_iff_exists'.2 ⟨_, taken⟩)
    refine ⟨v, done ▸ freed, back.trans ?_⟩
    change Function.update (p.takenAt m') off none = _
    rw [reserves.taken, Function.update_idem, ← reserves.vacant, Function.update_eq_self]

/-- On fifteen host pages, a first request for 5000 bytes takes two pages and gives them back. -/
theorem chunk_sizes_told_host : ∃ s' u v,
    Pool.init ⟨0, 65536⟩ Config.host ⟨Memory.zeroed, #[]⟩ = .ok (.ok Pool.onHost) s' ∧
    Pool.onHost.SizesTold ∧ Pool.onHost.alloc 5000 s' = .ok (some 4096) u ∧
    Pool.onHost.Reserves s'.memory u.memory 4096 8192 ∧
    Pool.onHost.free 4096 u = .ok (.ok ()) v ∧
    Pool.onHost.takenAt v.memory = Pool.onHost.takenAt s'.memory := by
  obtain ⟨s', h⟩ := Pool.init_onHost
  obtain ⟨hp, f⟩ := follows_init (by decide) h
  obtain ⟨told, _, _, t, run, _, _, found, u, asked, given⟩ :=
    chunk_sizes_told (by decide) h [] (show 0 < 5000 by decide)
  cases run
  have served := Pool.alloc_run hp f.steady f.stores (show 0 < 5000 by decide)
  have first : ((Ledger.fresh Pool.onHost.pageCount).alloc Pool.onHost 5000).1 = some 4096 := by
    decide
  rw [asked] at served
  generalize Ledger.alloc Pool.onHost 5000 _ = answer at served first
  cases served with
  | refused => cases first
  | given stores framed =>
    cases first
    obtain ⟨_, reserves, v, freed, back⟩ := given 4096 rfl
    exact ⟨s', _, v, h, told, asked, reserves, freed, back⟩

/-- On host pages, the largest size of all is told to take nothing. -/
theorem largest_size_told_zero : ∃ p s',
    Pool.init ⟨0, 65536⟩ Config.host ⟨Memory.zeroed, #[]⟩ = .ok (.ok p) s' ∧
      p.chunkSize (wordLimit - 1) = 0 ∧ ¬wordLimit - 1 ≤ p.chunkSize (wordLimit - 1) := by
  obtain ⟨p, s', h⟩ := Pool.init_host
  have hconfig := (Pool.init_spec (by decide) h).config_eq
  have hzero : p.chunkSize (wordLimit - 1) = 0 := by
    apply Pool.chunkSize_of_beyond (by decide)
    rw [hconfig]
    decide
  refine ⟨p, s', h, hzero, ?_⟩
  rw [hzero]
  decide

end Init

end SharedSlab.Slab
