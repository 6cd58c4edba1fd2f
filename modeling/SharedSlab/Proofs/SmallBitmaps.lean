import Mathlib.Order.Bounds.Basic
import SharedSlab.Proofs.History

set_option autoImplicit false

namespace SharedSlab.Slab

/-- Of the numbers below `count`, the bits of the words are set for those in `taken`. -/
def IsBitmap (w : Nat → UInt64) (count : Nat) (taken : Finset Nat) : Prop :=
  ∀ k < count, Bits.test (w (k / 64)) (k % 64) = decide (k ∈ taken)

theorem isBitmap_iff {w : Nat → UInt64} {words : Nat} {taken : Finset Nat} :
    IsBitmap w (64 * words) taken ↔ ∀ q < words, Bits.Window (w q) 0 64 (64 * q) taken := by
  constructor
  · intro h q hq b hb
    have hbit := h (64 * q + b) (by omega)
    rwa [show (64 * q + b) / 64 = q by omega, show (64 * q + b) % 64 = 0 + b by omega] at hbit
  · intro h k hk
    have hbit := h (k / 64) (by omega) (k % 64) (Nat.mod_lt k (by decide))
    rwa [Nat.zero_add, Nat.div_add_mod] at hbit

/-- The bitmap of a page has a bit for each chunk, its words end before the chunks that are given
out, and the prefix words hold the first `n` chunks. -/
structure Config.BitmapShape (c : Config) (shift : Nat) : Prop where
  words_ok : c.bitmapWords shift = .ok (c.words shift)
  reserved_ok : c.reservedChunks shift = .ok (c.reserved shift)
  chunks : c.chunkCount shift * 2 ^ shift = c.pageSize
  covers : 64 * c.words shift = c.chunkCount shift
  inside : 8 * c.words shift ≤ c.reserved shift * 2 ^ shift
  prefixes : ∀ n, ∃ w : Nat → UInt64, (∀ q < c.words shift, prefixWord q n = .ok (w q)) ∧
    IsBitmap w (c.chunkCount shift) (Finset.range n)

theorem Config.bitmapShape {c : Config} {shift : Nat} (hclass : c.IsClass shift)
    (small : shift < c.exactShift) : c.BitmapShape shift where
  words_ok := bitmapWords_eq_ok hclass
  reserved_ok := reservedChunks_eq_ok hclass small
  chunks := chunkCount_mul hclass
  covers := words_mul small
  inside := bitmap_le_reserved small
  prefixes n := by
    have hword : ∀ q < c.words shift, ∃ v, prefixWord q n = .ok v ∧
        Bits.Window v 0 64 (64 * q) (Finset.range n) := by
      intro q hq
      have hpage := c.pageSize_le
      have hsize := eight_mul_lt small hq
      exact prefixWord_eq_ok q n (by rw [wordLimit_eq]; omega)
    choose! w hw hwindow using hword
    refine ⟨w, hw, ?_⟩
    rw [← words_mul small]
    exact isBitmap_iff.2 hwindow

namespace Pool

def bitmap (p : Pool) (m : Memory) (i : Nat) : Nat → UInt64 := fun q => m.word (p.bitmapIndex i q)

structure HasPage (p : Pool) (a : Ledger) (m : Memory) (i shift : Nat) (taken : Finset Nat) :
    Prop where
  placed : p.Placed
  sound : a.Sound p.config p.pageCount
  stores : Stores p a m
  lt : i < p.pageCount
  use : a.use i = .chunks shift taken

/-- Chunk `k`, the least that is not taken, is given out. A page that is full then is on no list. -/
structure TakesLeast (p : Pool) (a : Ledger) (s : Arena) (i shift : Nat) (taken : Finset Nat)
    (k : Nat) (m' : Memory) : Prop where
  least : IsLeast {k | k ∉ taken} k
  lt : k < p.config.chunkCount shift
  run : p.takeSmall (nodeOffset (p.page i)) i shift s =
    .ok (some (p.chunkAt i shift k)) (s.withMemory m')
  bitmap : IsBitmap (p.bitmap m' i) (p.config.chunkCount shift) (insert k taken)
  page : p.HasPage (a.fill p i shift k taken) m' i shift (insert k taken)
  unlinked : ¬(a.fill p i shift k taken).Linked i ↔
    insert k taken = Finset.range (p.config.chunkCount shift)
  next_zero : (table m' (p.page i)).next = 0 ↔
    insert k taken = Finset.range (p.config.chunkCount shift)

/-- Chunk `k` comes back, and the page with it if that leaves the reserved chunks alone. -/
structure GivesBack (p : Pool) (a : Ledger) (s : Arena) (i shift : Nat) (taken : Finset Nat)
    (k : Nat) (m' : Memory) : Prop where
  run : p.freeSmall (nodeOffset (p.page i)) i (k * 2 ^ shift) s = .ok (.ok ()) (s.withMemory m')
  bitmap : IsBitmap (p.bitmap m' i) (p.config.chunkCount shift) (taken.erase k)
  sound : (a.clearChunk p i shift k).Sound p.config p.pageCount
  stores : Stores p (a.clearChunk p i shift k) m'
  released : (a.clearChunk p i shift k).use i =
    if taken.erase k = Finset.range (p.config.reserved shift) then .free
    else .chunks shift (taken.erase k)
  kind_page : (table m' (p.page i)).kind = .page ↔
    taken.erase k = Finset.range (p.config.reserved shift)

namespace HasPage

variable {p : Pool} {a : Ledger} {s : Arena} {m : Memory} {i k shift : Nat} {taken : Finset Nat}

theorem isBitmap (h : p.HasPage a m i shift taken) (small : shift < p.config.exactShift) :
    IsBitmap (p.bitmap m i) (p.config.chunkCount shift) taken := by
  have marks := (h.stores.encodes.pages i h.lt).marks
  rw [h.use] at marks
  rw [← Config.words_mul small]
  exact isBitmap_iff.2 ((occupied_small small).1 marks).2

theorem bitmap_inside (h : p.HasPage a m i shift taken) (small : shift < p.config.exactShift)
    {q : Nat} (hq : q < p.config.words shift) :
    p.dataOf i ≤ 8 * p.bitmapIndex i q ∧
      8 * p.bitmapIndex i q + 8 ≤ p.chunkAt i shift (p.config.reserved shift) := by
  have haligned := h.placed.eight_dvd_dataOf i
  have hinside := Config.bitmap_le_reserved small
  rw [bitmapIndex, chunkAt]
  omega

variable (h : p.HasPage a s.memory i shift taken) (small : shift < p.config.exactShift)
include h small

theorem takesLeast (room : taken ≠ Finset.range (p.config.chunkCount shift)) :
    ∃ k m', p.TakesLeast a s i shift taken k m' := by
  obtain ⟨hp, so, stores, hi, huse⟩ := h
  have hmem := (so.listed_iff i hi shift taken huse).2 room
  obtain ⟨k, hfound⟩ := Ledger.exists_lowest (so.chunks_le i hi shift taken huse) room
  have lowest := Ledger.find_range_eq_some_iff.1 hfound
  obtain ⟨m', run, stores', _⟩ := takeSmall_run hp so hmem huse lowest small stores
  have so' : (a.fill p i shift k taken).Sound p.config p.pageCount :=
    so.fill hi huse lowest.1 room
  have page : p.HasPage (a.fill p i shift k taken) m' i shift (insert k taken) :=
    ⟨hp, so', stores', hi, Ledger.setTaken_self ..⟩
  have unlinked : ¬(a.fill p i shift k taken).Linked i ↔
      insert k taken = Finset.range (p.config.chunkCount shift) := by
    rw [so'.linked_iff_of_chunks page.use, so'.listed_iff i hi shift _ page.use, not_not]
  refine ⟨k, m', ⟨lowest.2.1, fun j hj => ?_⟩, lowest.1, run, page.isBitmap small, page, unlinked,
    ?_⟩
  · by_contra hlt
    exact hj (lowest.2.2 j (not_le.1 hlt))
  · rw [stores'.encodes.next_eq_zero_iff so'.toCoherent hi, unlinked]

theorem givesBack (hk : k ∈ taken) (hres : p.config.reserved shift ≤ k) :
    ∃ m', p.GivesBack a s i shift taken k m' := by
  obtain ⟨hp, so, stores, hi, huse⟩ := h
  have hclass := so.chunks_class i hi shift taken huse
  have hlt := Finset.mem_range.1 (so.chunks_le i hi shift taken huse hk)
  have hwithin := within_lt hclass hlt
  have hpos := Nat.two_pow_pos shift
  obtain ⟨m', run, stores', _, bits⟩ := clearSmall_run hp so hi huse small stores hk hres
  have released : (a.clearChunk p i shift k).use i =
      if taken.erase k = Finset.range (p.config.reserved shift) then .free
      else .chunks shift (taken.erase k) := by
    rw [a.clearChunk_eq huse]
    split
    · exact Ledger.release_inside (le_refl i) (Nat.lt_succ_self i)
    · exact Ledger.clear_use ..
  refine ⟨m', ?_, ?_, so.clearChunk hi huse hk hres, stores', released, ?_⟩
  · rw [freeSmall_eq hp so hi huse (by omega) stores small, Nat.mul_mod_left,
      Nat.mul_div_cancel k hpos, if_neg (by omega), if_neg (not_not.2 hk), run]
  · rw [← Config.words_mul small]
    exact isBitmap_iff.2 bits
  · rw [(stores'.encodes.pages i hi).kind, released]
    split
    · next hidle => exact iff_of_true rfl hidle
    · next hbusy =>
      rw [PageUse.kind, Config.kindFor_small small]
      exact iff_of_false (by decide) hbusy

end HasPage

/-- The bitmap of every class of small pages stands for the set of taken chunks, whatever that set
is, and the operations on it are those on sets. -/
theorem bitmap_represents_taken (c : Config) {shift : Nat} (low : c.minShift ≤ shift)
    (small : shift < c.exactShift) :
    c.BitmapShape shift ∧
    ∀ (p : Pool) (a : Ledger) (s : Arena) (i : Nat) (taken : Finset Nat), p.config = c →
      p.HasPage a s.memory i shift taken →
      IsBitmap (p.bitmap s.memory i) (c.chunkCount shift) taken ∧
      (∀ q < c.words shift, p.dataOf i ≤ 8 * p.bitmapIndex i q ∧
        8 * p.bitmapIndex i q + 8 ≤ p.chunkAt i shift (c.reserved shift)) ∧
      (taken ≠ Finset.range (c.chunkCount shift) →
        ∃ k m', p.TakesLeast a s i shift taken k m') ∧
      ∀ k ∈ taken, c.reserved shift ≤ k → ∃ m', p.GivesBack a s i shift taken k m' := by
  refine ⟨Config.bitmapShape ⟨low, small.trans_le (Nat.sub_le _ _)⟩ small, ?_⟩
  rintro p a s i taken rfl h
  exact ⟨h.isBitmap small, fun _ => h.bitmap_inside small, h.takesLeast small,
    fun _ => h.givesBack small⟩

/-- On a host page of chunks of eight bytes the bitmap takes eight chunks, so the first request has
the ninth. The next has the tenth; if the ninth is freed instead, the page is released. -/
theorem bitmap_represents_taken_onHost : ∃ a s m m',
    Config.host.minShift ≤ 3 ∧ 3 < Config.host.exactShift ∧
    onHost.HasPage a s.memory 0 3 (Finset.range 9) ∧ Config.host.BitmapShape 3 ∧
    onHost.TakesLeast a s 0 3 (Finset.range 9) 9 m ∧
    onHost.GivesBack a s 0 3 (Finset.range 9) 8 m' ∧
    (a.clearChunk onHost 0 3 8).use 0 = .free := by
  obtain ⟨s', h⟩ := init_onHost
  obtain ⟨hp, live, t, _, f⟩ := follows_replay (by decide) h [.alloc 8 (by decide)]
  have use : ((Ledger.fresh onHost.pageCount).replay onHost [.alloc 8 (by decide)]).2.use 0 =
      .chunks 3 (Finset.range 9) := by decide
  have page : onHost.HasPage _ t.memory 0 3 (Finset.range 9) :=
    ⟨hp, f.steady.toSound, f.stores, by decide, use⟩
  obtain ⟨shape, holds⟩ :=
    bitmap_represents_taken Config.host (show Config.host.minShift ≤ 3 by decide) (by decide)
  obtain ⟨_, _, takes, gives⟩ := holds onHost _ t 0 _ rfl page
  have room : Finset.range 9 ≠ Finset.range (Config.host.chunkCount 3) := by
    intro heq
    have hcard := congrArg Finset.card heq
    rw [Finset.card_range, Finset.card_range] at hcard
    exact absurd hcard (by decide)
  obtain ⟨k, m, taken⟩ := takes room
  obtain ⟨m', back⟩ := gives 8 (by decide) (by decide)
  have ninth : IsLeast {j | j ∉ Finset.range 9} 9 := by
    refine ⟨Finset.notMem_range_self, fun j hj => not_lt.1 fun hlt => hj ?_⟩
    exact Finset.mem_range.2 hlt
  obtain rfl : k = 9 := taken.least.unique ninth
  exact ⟨_, t, m, m', by decide, by decide, page, shape, taken, back,
    back.released.trans (if_pos (by decide))⟩

end Pool

end SharedSlab.Slab
