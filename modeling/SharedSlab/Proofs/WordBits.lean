import Mathlib.Data.Finset.Erase
import Mathlib.Data.Finset.Range
import Mathlib.Data.Nat.Bitwise
import SharedSlab.Proofs.PowersOfTwo
import SharedSlab.Slab.Chunk

set_option autoImplicit false

namespace SharedSlab

theorem toNat_ofNat {n : Nat} (fits : n < wordLimit) : (UInt64.ofNat n).toNat = n :=
  UInt64.toNat_ofNat_of_lt fits

namespace Bits

theorem toNat_bit {i : Nat} (hi : i < 64) : (bit i).toNat = 2 ^ i := by
  have hlt : 2 ^ i < 2 ^ 64 := Nat.pow_lt_pow_right (by decide) hi
  rw [bit, UInt64.toNat_shiftLeft, UInt64.toNat_ofNat', Nat.mod_eq_of_lt (a := i) (by omega),
    Nat.mod_eq_of_lt hi, UInt64.toNat_one, Nat.shiftLeft_eq, Nat.one_mul, Nat.mod_eq_of_lt hlt]

theorem test_eq_testBit (w : UInt64) {i : Nat} (hi : i < 64) : test w i = w.toNat.testBit i := by
  have hand : (w &&& bit i).toNat = (w.toNat.testBit i).toNat * 2 ^ i := by
    rw [UInt64.toNat_and, toNat_bit hi, Nat.and_two_pow]
  have hpos : 0 < 2 ^ i := Nat.two_pow_pos i
  have hzero : w &&& bit i = 0 ↔ w.toNat.testBit i = false := by
    rw [← UInt64.toNat_inj, hand]
    cases w.toNat.testBit i
    · simp
    · simp
  rw [test, bne, Bool.eq_iff_iff]
  simp [hzero]

theorem eq_of_test_eq {v w : UInt64} (h : ∀ i < 64, test v i = test w i) : v = w := by
  rw [← UInt64.toNat_inj]
  apply Nat.eq_of_testBit_eq
  intro i
  by_cases hi : i < 64
  · rw [← test_eq_testBit v hi, ← test_eq_testBit w hi, h i hi]
  · have hpow : 2 ^ 64 ≤ 2 ^ i := Nat.pow_le_pow_right (by decide) (by omega)
    rw [Nat.testBit_lt_two_pow (v.toNat_lt.trans_le hpow),
      Nat.testBit_lt_two_pow (w.toNat_lt.trans_le hpow)]

@[simp] theorem test_zero (i : Nat) : test 0 i = false := by simp [test]

theorem test_and (v w : UInt64) {i : Nat} (hi : i < 64) :
    test (v &&& w) i = (test v i && test w i) := by
  rw [test_eq_testBit _ hi, test_eq_testBit _ hi, test_eq_testBit _ hi, UInt64.toNat_and,
    Nat.testBit_and]

theorem test_or (v w : UInt64) {i : Nat} (hi : i < 64) :
    test (v ||| w) i = (test v i || test w i) := by
  rw [test_eq_testBit _ hi, test_eq_testBit _ hi, test_eq_testBit _ hi, UInt64.toNat_or,
    Nat.testBit_or]

theorem test_not (w : UInt64) {i : Nat} (hi : i < 64) : test (~~~w) i = !test w i := by
  rw [test_eq_testBit _ hi, test_eq_testBit _ hi]
  change (~~~w.toBitVec).getLsbD i = !w.toBitVec.getLsbD i
  rw [BitVec.getLsbD_not, decide_eq_true hi, Bool.true_and]

theorem test_bit (k : Nat) {i : Nat} (hk : k < 64) (hi : i < 64) :
    test (bit k) i = decide (k = i) := by
  rw [test_eq_testBit _ hi, toNat_bit hk, Nat.testBit_two_pow]

theorem toNat_low {n : Nat} (hn : n < 64) : (low n).toNat = 2 ^ n - 1 := by
  have hpos : 0 < 2 ^ n := Nat.two_pow_pos n
  have hle : (1 : UInt64) ≤ bit n := by
    rw [UInt64.le_iff_toNat_le, toNat_bit hn, UInt64.toNat_one]
    omega
  rw [low, UInt64.toNat_sub_of_le _ _ hle, toNat_bit hn, UInt64.toNat_one]

theorem test_low {n i : Nat} (hn : n < 64) (hi : i < 64) : test (low n) i = decide (i < n) := by
  rw [test_eq_testBit _ hi, toNat_low hn, Nat.testBit_two_pow_sub_one]

theorem test_full {i : Nat} (hi : i < 64) : test full i = true := by
  rw [test_eq_testBit _ hi]
  change (2 ^ 64 - 1).testBit i = true
  rw [Nat.testBit_two_pow_sub_one, decide_eq_true hi]

theorem test_shiftLeft (w : UInt64) {s i : Nat} (hs : s < 64) (hi : i < 64) :
    test (w <<< UInt64.ofNat s) i = (decide (s ≤ i) && test w (i - s)) := by
  rw [test_eq_testBit _ hi, test_eq_testBit _ (by omega), UInt64.toNat_shiftLeft,
    UInt64.toNat_ofNat', Nat.mod_eq_of_lt (a := s) (by omega), Nat.mod_eq_of_lt hs,
    Nat.testBit_mod_two_pow, Nat.testBit_shiftLeft, decide_eq_true hi, Bool.true_and]

theorem eq_full_iff {w : UInt64} : w = full ↔ ∀ i < 64, test w i = true := by
  constructor
  · rintro rfl i hi
    exact test_full hi
  · intro h
    exact eq_of_test_eq fun i hi => by rw [h i hi, test_full hi]

theorem eq_zero_iff {w : UInt64} : w = 0 ↔ ∀ i < 64, test w i = false := by
  constructor
  · rintro rfl i _
    exact test_zero i
  · intro h
    exact eq_of_test_eq fun i hi => by rw [h i hi, test_zero]

theorem test_insert (w : UInt64) {k i : Nat} (hk : k < 64) (hi : i < 64) :
    test (w ||| bit k) i = (test w i || decide (i = k)) := by
  rw [test_or _ _ hi, test_bit k hk hi]
  simp only [eq_comm]

theorem test_erase (w : UInt64) {k i : Nat} (hk : k < 64) (hi : i < 64) :
    test (w &&& ~~~bit k) i = (test w i && decide (i ≠ k)) := by
  rw [test_and _ _ hi, test_not _ hi, test_bit k hk hi]
  by_cases h : i = k
  · simp [h]
  · have h' : ¬ k = i := fun e => h e.symm
    simp [h, h']

theorem lowestSet?_eq_none_iff {w : UInt64} : lowestSet? w = none ↔ ∀ i < 64, test w i = false := by
  constructor
  · intro h i hi
    exact lowestFrom_eq_none h i (Nat.zero_le _) (by omega)
  · intro h
    cases hk : lowestSet? w with
    | none => rfl
    | some k =>
      obtain ⟨hlt, hset, _⟩ := lowestSet?_eq_some_iff.1 hk
      rw [h k hlt] at hset
      cases hset

/-- The `count` bits from `lo` on say which of the numbers from `base` on are taken. -/
def Window (w : UInt64) (lo count base : Nat) (taken : Finset Nat) : Prop :=
  ∀ b < count, test w (lo + b) = decide (base + b ∈ taken)

namespace Window

variable {v w : UInt64} {lo count base b : Nat} {taken taken' : Finset Nat}

theorem congr (h : Window w lo count base taken)
    (same : ∀ b < count, base + b ∈ taken' ↔ base + b ∈ taken) : Window w lo count base taken' :=
  fun b hb => (h b hb).trans (decide_eq_decide.2 (same b hb).symm)

theorem insert (h : Window w lo count base taken) (fits : lo + count ≤ 64) (hb : b < count) :
    Window (w ||| bit (lo + b)) lo count base (insert (base + b) taken) := by
  intro x hx
  rw [test_insert w (by omega) (by omega), h x hx, ← Bool.decide_or, decide_eq_decide,
    Finset.mem_insert, Nat.add_right_inj, Nat.add_right_inj, or_comm]

theorem erase (h : Window w lo count base taken) (fits : lo + count ≤ 64) (hb : b < count) :
    Window (w &&& ~~~bit (lo + b)) lo count base (taken.erase (base + b)) := by
  intro x hx
  rw [test_erase w (by omega) (by omega), h x hx, ← Bool.decide_and, decide_eq_decide,
    Finset.mem_erase, ne_eq, ne_eq, Nat.add_right_inj, Nat.add_right_inj, and_comm]

theorem eq_iff (h : Window v 0 64 base taken) (h' : Window w 0 64 base taken') :
    v = w ↔ ∀ b < 64, base + b ∈ taken ↔ base + b ∈ taken' := by
  constructor
  · rintro rfl b hb
    exact decide_eq_decide.1 ((h b hb).symm.trans (h' b hb))
  · refine fun hsame => eq_of_test_eq fun b hb => ?_
    have htest := (h b hb).trans ((decide_eq_decide.2 (hsame b hb)).trans (h' b hb).symm)
    rwa [Nat.zero_add] at htest

theorem eq_full_iff (h : Window w 0 64 base taken) : w = full ↔ ∀ b < 64, base + b ∈ taken := by
  rw [Bits.eq_full_iff]
  refine forall₂_congr fun b hb => ?_
  have htest := h b hb
  rw [Nat.zero_add] at htest
  rw [htest, decide_eq_true_eq]

theorem eq_zero_iff (h : Window w 0 64 base taken) : w = 0 ↔ ∀ b < 64, base + b ∉ taken := by
  rw [Bits.eq_zero_iff]
  refine forall₂_congr fun b hb => ?_
  have htest := h b hb
  rw [Nat.zero_add] at htest
  rw [htest, decide_eq_false_iff_not]

theorem lowest (h : Window w 0 64 base taken) (hb : b < 64) (free : base + b ∉ taken)
    (least : ∀ j < b, base + j ∈ taken) : lowestSet? (~~~w) = some b := by
  have htest : ∀ j < 64, test (~~~w) j = !decide (base + j ∈ taken) := by
    intro j hj
    have hj' := h j hj
    rw [Nat.zero_add] at hj'
    rw [test_not w hj, hj']
  refine lowestSet?_eq_some_iff.2 ⟨hb, ?_, fun j hj => ?_⟩
  · rw [htest b hb, decide_eq_false free]
    rfl
  · rw [htest j (by omega), decide_eq_true (least j hj)]
    rfl

theorem lowest_none (h : Window w 0 64 base taken) (all : ∀ b < 64, base + b ∈ taken) :
    lowestSet? (~~~w) = none := by
  refine lowestSet?_eq_none_iff.2 fun j hj => ?_
  have hj' := h j hj
  rw [Nat.zero_add, decide_eq_true (all j hj)] at hj'
  rw [test_not w hj, hj']
  rfl

end Window

end Bits

namespace Slab

theorem toNat_runStart : runStart.toNat = 2 ^ 63 := rfl

theorem test_runStart {i : Nat} (hi : i < 64) : Bits.test runStart i = decide (63 = i) := by
  rw [Bits.test_eq_testBit _ hi, toNat_runStart, Nat.testBit_two_pow]

theorem runStart_ne_zero (w : UInt64) : w ||| runStart ≠ 0 := by
  intro h
  have htest := Bits.eq_zero_iff.1 h 63 (by decide)
  rw [Bits.test_or _ _ (by decide), test_runStart (by decide)] at htest
  simp at htest

theorem runStart_eq_bit : runStart = Bits.bit 63 := by decide

section RunLength

variable {n : Nat} (hn : n < 2 ^ 54)
include hn

theorem test_ofNat_high {b : Nat} (low : 54 ≤ b) (hb : b < 64) :
    Bits.test (UInt64.ofNat n) b = false := by
  have hpow : 2 ^ 54 ≤ 2 ^ b := Nat.pow_le_pow_right (by decide) low
  rw [Bits.test_eq_testBit _ hb, toNat_ofNat (by rw [wordLimit_eq]; omega),
    Nat.testBit_lt_two_pow (by omega)]

theorem ofNat_and_runStart : UInt64.ofNat n &&& runStart = 0 := by
  refine Bits.eq_zero_iff.2 fun b hb => ?_
  rw [Bits.test_and _ _ hb, test_runStart hb]
  by_cases h : 63 = b
  · rw [test_ofNat_high hn (by omega) hb, Bool.false_and]
  · rw [decide_eq_false h, Bool.and_false]

theorem ofNat_ne_runInterior : UInt64.ofNat n ≠ runInterior := by
  intro h
  have htest := test_ofNat_high hn (b := 63) (by decide) (by decide)
  rw [h, show runInterior = Bits.full from rfl, Bits.test_full (by decide)] at htest
  cases htest

theorem started_ne_runInterior : UInt64.ofNat n ||| runStart ≠ runInterior := by
  intro h
  have htest := congrArg (fun w => Bits.test w 62) h
  rw [Bits.test_or _ _ (by decide), test_ofNat_high hn (by decide) (by decide),
    test_runStart (by decide), show runInterior = Bits.full from rfl,
    Bits.test_full (by decide)] at htest
  cases htest

omit hn in
theorem started_and_runStart : (UInt64.ofNat n ||| runStart) &&& runStart ≠ 0 := by
  intro h
  have htest := Bits.eq_zero_iff.1 h 63 (by decide)
  rw [Bits.test_and _ _ (by decide), Bits.test_or _ _ (by decide), test_runStart (by decide),
    decide_eq_true rfl, Bool.or_true] at htest
  cases htest

theorem toNat_started : ((UInt64.ofNat n ||| runStart) &&& ~~~runStart).toNat = n := by
  have hword : (UInt64.ofNat n ||| runStart) &&& ~~~runStart = UInt64.ofNat n := by
    refine Bits.eq_of_test_eq fun b hb => ?_
    rw [runStart_eq_bit, Bits.test_erase _ (by decide) hb, Bits.test_insert _ (by decide) hb]
    by_cases h : b = 63
    · rw [h, test_ofNat_high hn (by decide) (by decide), decide_eq_false (not_not.2 rfl),
        Bool.and_false]
    · rw [decide_eq_false h, decide_eq_true h, Bool.or_false, Bool.and_true]
  rw [hword, toNat_ofNat (by rw [wordLimit_eq]; omega)]

end RunLength

theorem test_mapMask {i : Nat} (hi : i < 64) : Bits.test mapMask i = decide (32 ≤ i) := by
  rw [Bits.test_eq_testBit _ hi]
  have hmask : mapMask.toNat = 2 ^ 32 * (2 ^ 32 - 1) := rfl
  rw [hmask, Nat.testBit_two_pow_mul, Nat.testBit_two_pow_sub_one,
    decide_eq_true (p := i - 32 < 32) (by omega), Bool.and_true]

theorem recordedShift_eq (w : UInt64) : Pool.recordedShift w = w.toNat % 32 := by
  rw [Pool.recordedShift, UInt64.toNat_and]
  exact Nat.and_two_pow_sub_one_eq_mod _ 5

theorem recordedShift_congr {v w : UInt64} (h : ∀ i < 5, Bits.test v i = Bits.test w i) :
    Pool.recordedShift v = Pool.recordedShift w := by
  rw [recordedShift_eq, recordedShift_eq]
  apply Nat.eq_of_testBit_eq
  intro i
  rw [show 32 = 2 ^ 5 from rfl, Nat.testBit_mod_two_pow, Nat.testBit_mod_two_pow]
  by_cases hi : i < 5
  · rw [← Bits.test_eq_testBit v (by omega), ← Bits.test_eq_testBit w (by omega), h i hi]
  · simp [hi]

theorem recordedShift_ofNat {shift : Nat} (h : shift < 32) :
    Pool.recordedShift (UInt64.ofNat shift) = shift := by
  rw [recordedShift_eq, toNat_ofNat (by rw [wordLimit_eq]; omega), Nat.mod_eq_of_lt h]

theorem recordedShift_insert (w : UInt64) {k : Nat} (low : 5 ≤ k) (hk : k < 64) :
    Pool.recordedShift (w ||| Bits.bit k) = Pool.recordedShift w := by
  apply recordedShift_congr
  intro i hi
  rw [Bits.test_insert w hk (by omega), decide_eq_false (by omega), Bool.or_false]

theorem recordedShift_erase (w : UInt64) {k : Nat} (low : 5 ≤ k) (hk : k < 64) :
    Pool.recordedShift (w &&& ~~~Bits.bit k) = Pool.recordedShift w := by
  apply recordedShift_congr
  intro i hi
  rw [Bits.test_erase w hk (by omega), decide_eq_true (by omega), Bool.and_true]

theorem prefixWord_eq_ok (index count : Nat) (h : index * 64 + 64 < wordLimit) :
    ∃ w, prefixWord index count = .ok w ∧
      Bits.Window w 0 64 (64 * index) (Finset.range count) := by
  suffices hprefix : ∃ w, prefixWord index count = .ok w ∧
      ∀ i < 64, Bits.test w i = decide (64 * index + i < count) by
    obtain ⟨w, hw, htest⟩ := hprefix
    refine ⟨w, hw, fun b hb => ?_⟩
    rw [Nat.zero_add, htest b hb]
    exact decide_eq_decide.2 Finset.mem_range.symm
  have hmul : Checked.mul index 64 = .ok (index * 64) := Checked.mul_eq_ok (by omega)
  have hadd : Checked.add (index * 64) 64 = .ok (index * 64 + 64) := Checked.add_eq_ok h
  by_cases hlow : count ≤ index * 64
  · refine ⟨0, ?_, fun i hi => ?_⟩
    · simp [prefixWord, hmul, hlow, bind, Except.bind, pure, Except.pure]
    · rw [Bits.test_zero, decide_eq_false (by omega)]
  by_cases hhigh : index * 64 + 64 ≤ count
  · refine ⟨Bits.full, ?_, fun i hi => ?_⟩
    · simp [prefixWord, hmul, hadd, hlow, hhigh, bind, Except.bind, pure, Except.pure]
    · rw [Bits.test_full hi, decide_eq_true (by omega)]
  · refine ⟨Bits.low (count - index * 64), ?_, fun i hi => ?_⟩
    · simp [prefixWord, hmul, hadd, hlow, hhigh, bind, Except.bind, pure, Except.pure]
    · rw [Bits.test_low (by omega) hi]
      exact decide_eq_decide.2 (by omega)

end Slab

end SharedSlab
