import Mathlib.Tactic.Ring
import Mathlib.Tactic.SplitIfs
import SharedSlab.Proofs.PowersOfTwo
import SharedSlab.Slab.Chunk

set_option autoImplicit false

namespace SharedSlab

namespace Slab.Config

variable {c : Config} {shift : Nat}

/-- A class of chunks: from the smallest chunk to half a page. -/
def IsClass (c : Config) (shift : Nat) : Prop := c.minShift ≤ shift ∧ shift < c.pageShift

instance (c : Config) (shift : Nat) : Decidable (c.IsClass shift) := by
  unfold IsClass
  infer_instance

def chunkCount (c : Config) (shift : Nat) : Nat := 2 ^ (c.pageShift - shift)

/-- The chunks of a page that are never given out. -/
def reserved (c : Config) (shift : Nat) : Nat :=
  if shift < c.exactShift then max 1 (c.chunkCount shift / (8 * 2 ^ shift)) else 0

theorem pageSize_eq (c : Config) : c.pageSize = 2 ^ c.pageShift := c.page.size_eq

theorem pageSize_pos (c : Config) : 0 < c.pageSize := by
  rw [pageSize_eq]
  exact Nat.two_pow_pos _

theorem eight_dvd_pageSize (c : Config) : 8 ∣ c.pageSize := by
  rw [pageSize_eq, show 8 = 2 ^ 3 from rfl]
  exact Nat.pow_dvd_pow 2 (by have := c.page_ge; change 3 ≤ c.page.shift; omega)

theorem pageSize_le (c : Config) : c.pageSize ≤ 2 ^ 20 := by
  rw [pageSize_eq]
  exact Nat.pow_le_pow_right (by decide) c.page_le

theorem le_pageSize (c : Config) : 2 ^ 10 ≤ c.pageSize := by
  rw [pageSize_eq]
  exact Nat.pow_le_pow_right (by decide) c.page_ge

theorem shift_lt_of_isClass (h : c.IsClass shift) : shift < 20 := h.2.trans_le c.page_le

theorem chunkCount_mul (h : c.IsClass shift) : c.chunkCount shift * 2 ^ shift = c.pageSize := by
  rw [chunkCount, pageSize_eq, ← Nat.pow_add, Nat.sub_add_cancel h.2.le]

theorem two_pow_lt_pageSize (h : c.IsClass shift) : 2 ^ shift < c.pageSize := by
  rw [pageSize_eq]
  exact Nat.pow_lt_pow_right (by decide) h.2

theorem two_pow_lt_mul (h : c.IsClass shift) {n : Nat} (hn : 0 < n) :
    2 ^ shift < n * c.pageSize :=
  (two_pow_lt_pageSize h).trans_le (Nat.le_mul_of_pos_left _ hn)

theorem div_lt_chunkCount (h : c.IsClass shift) {within : Nat} (hwithin : within < c.pageSize) :
    within / 2 ^ shift < c.chunkCount shift := by
  rwa [Nat.div_lt_iff_lt_mul (Nat.two_pow_pos shift), chunkCount_mul h]

theorem chunkCount_eq_div (h : c.IsClass shift) : c.pageSize / 2 ^ shift = c.chunkCount shift := by
  rw [← chunkCount_mul h, Nat.mul_div_cancel _ (Nat.two_pow_pos shift)]

theorem chunkCount_eq_shiftRight (h : c.IsClass shift) :
    c.pageSize >>> shift = c.chunkCount shift := by
  rw [Nat.shiftRight_eq_div_pow, chunkCount_eq_div h]

theorem two_le_chunkCount (h : c.IsClass shift) : 2 ≤ c.chunkCount shift := by
  have hpow : 2 ^ 1 ≤ 2 ^ (c.pageShift - shift) :=
    Nat.pow_le_pow_right (by decide) (by have := h.2; omega)
  exact hpow

theorem chunkCount_exact (c : Config) : c.chunkCount c.exactShift = 64 := by
  have hge := c.page_ge
  have hexp : c.pageShift - c.exactShift = 6 := by
    change c.page.shift - (c.page.shift - 6) = 6
    omega
  rw [chunkCount, hexp]
  rfl

theorem chunkCount_le_of_big (big : c.exactShift < shift) : c.chunkCount shift ≤ 32 := by
  have hexp : c.pageShift - shift ≤ 5 := by
    change c.page.shift - 6 < shift at big
    change c.page.shift - shift ≤ 5
    omega
  exact Nat.pow_le_pow_right (by decide) hexp

theorem chunkCount_of_small (small : shift < c.exactShift) :
    ∃ k, c.chunkCount shift = 128 * 2 ^ k ∧ c.pageShift = shift + 7 + k := by
  have hge := c.page_ge
  change shift < c.page.shift - 6 at small
  refine ⟨c.page.shift - shift - 7, ?_, ?_⟩
  · rw [chunkCount, show c.pageShift - shift = 7 + (c.page.shift - shift - 7) by
      change c.page.shift - shift = _
      omega, Nat.pow_add]
  · change c.page.shift = _
    omega

def words (c : Config) (shift : Nat) : Nat := c.chunkCount shift / 64

theorem words_mul (small : shift < c.exactShift) : 64 * c.words shift = c.chunkCount shift := by
  obtain ⟨k, hcount, _⟩ := chunkCount_of_small small
  rw [words, hcount]
  omega

theorem eight_mul_lt {k : Nat} (small : shift < c.exactShift) (hk : k < c.words shift) :
    8 * k < c.pageSize := by
  have hwords := words_mul small
  have hle : c.chunkCount shift ≤ c.pageSize := by
    rw [chunkCount, pageSize_eq]
    exact Nat.pow_le_pow_right (by decide) (Nat.sub_le _ _)
  omega

theorem reserved_of_small (small : shift < c.exactShift) :
    c.reserved shift = max 1 (c.chunkCount shift / (8 * 2 ^ shift)) := if_pos small

theorem reserved_of_not_small (h : ¬shift < c.exactShift) : c.reserved shift = 0 := if_neg h

theorem bitmap_le_reserved (small : shift < c.exactShift) :
    8 * c.words shift ≤ c.reserved shift * 2 ^ shift := by
  have hwords := words_mul small
  have hpos : 0 < 2 ^ shift := Nat.two_pow_pos shift
  rw [reserved_of_small small]
  by_cases hfit : 8 * 2 ^ shift ≤ c.chunkCount shift
  · obtain ⟨q, hq⟩ : 8 * 2 ^ shift ∣ c.chunkCount shift := by
      rw [show 8 * 2 ^ shift = 2 ^ (3 + shift) by rw [Nat.pow_add]] at hfit ⊢
      rw [chunkCount] at hfit ⊢
      exact Nat.pow_dvd_pow 2 ((Nat.pow_le_pow_iff_right (by decide)).1 hfit)
    have hdiv : c.chunkCount shift / (8 * 2 ^ shift) = q := by
      rw [hq, Nat.mul_div_cancel_left _ (by omega)]
    have hle : q * 2 ^ shift ≤ max 1 q * 2 ^ shift := Nat.mul_le_mul_right _ (le_max_right _ _)
    have hcount : c.chunkCount shift = 8 * (q * 2 ^ shift) := by
      rw [hq]
      ring
    rw [hdiv]
    omega
  · have hle : 1 * 2 ^ shift ≤ max 1 (c.chunkCount shift / (8 * 2 ^ shift)) * 2 ^ shift :=
      Nat.mul_le_mul_right _ (le_max_left _ _)
    omega

theorem reserved_add_two_le (h : c.IsClass shift) :
    c.reserved shift + 2 ≤ c.chunkCount shift := by
  by_cases small : shift < c.exactShift
  · obtain ⟨k, hcount, _⟩ := chunkCount_of_small small
    have hk : 0 < 2 ^ k := Nat.two_pow_pos k
    have hpos : 0 < 2 ^ shift := Nat.two_pow_pos shift
    have hdiv : c.chunkCount shift / (8 * 2 ^ shift) ≤ c.chunkCount shift / 8 :=
      Nat.div_le_div_left (by omega) (by decide)
    rw [reserved_of_small small]
    omega
  · rw [reserved_of_not_small small]
    exact two_le_chunkCount h

theorem bitmapWords_eq_ok (h : c.IsClass shift) : c.bitmapWords shift = .ok (c.words shift) := by
  have hlt := shift_lt_of_isClass h
  rw [bitmapWords, Checked.shiftRight_eq_ok (by omega), chunkCount_eq_shiftRight h]
  rfl

theorem reservedChunks_eq_ok (h : c.IsClass shift) (small : shift < c.exactShift) :
    c.reservedChunks shift = .ok (c.reserved shift) := by
  have hlt := shift_lt_of_isClass h
  have hpow : 2 ^ shift < 2 ^ 20 := Nat.pow_lt_pow_right (by decide) hlt
  have hpos : 0 < 2 ^ shift := Nat.two_pow_pos shift
  have hshift : Checked.shiftLeft 8 shift = .ok (8 * 2 ^ shift) :=
    Checked.shiftLeft_eq_ok (by omega) (by rw [wordLimit_eq]; omega)
  have hdiv : Checked.div (c.chunkCount shift) (8 * 2 ^ shift) =
      .ok (c.chunkCount shift / (8 * 2 ^ shift)) := Checked.div_eq_ok (by omega)
  rw [reservedChunks, Checked.shiftRight_eq_ok (by omega), chunkCount_eq_shiftRight h,
    reserved_of_small small]
  simp only [bind, Except.bind, hshift, hdiv, pure, Except.pure]
  split
  · next hzero => rw [hzero]; rfl
  · next hne => rw [max_eq_right (Nat.pos_of_ne_zero hne)]

theorem kindFor_small (small : shift < c.exactShift) : c.kindFor shift = .small := if_pos small

theorem kindFor_exact (c : Config) : c.kindFor c.exactShift = .exact := by
  rw [kindFor, if_neg (lt_irrefl _), if_pos rfl]

theorem kindFor_big (big : c.exactShift < shift) : c.kindFor shift = .big := by
  rw [kindFor, if_neg (by omega), if_neg (by omega)]

theorem kindFor_ne_page (c : Config) (shift : Nat) : c.kindFor shift ≠ .page := by
  unfold kindFor
  split_ifs <;> decide

end Slab.Config

end SharedSlab
