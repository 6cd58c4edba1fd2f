import SharedSlab.Proofs.Encoding

set_option autoImplicit false

namespace SharedSlab.Slab

variable {c : Config} {p : Pool} {i k n shift : Nat} {taken : Finset Nat} {slab : UInt64}
  {w : Nat → UInt64}

theorem eq_range_iff (hle : taken ⊆ Finset.range n) :
    taken = Finset.range n ↔ ∀ b < n, b ∈ taken := by
  constructor
  · rintro rfl b hb
    exact Finset.mem_range.2 hb
  · exact fun hall => hle.antisymm fun b hb => hall b (Finset.mem_range.1 hb)

section Small

variable (small : shift < p.config.exactShift)
  (h : ∀ k < p.config.words shift, Bits.Window (w (p.bitmapIndex i k)) 0 64 (64 * k) taken)
include small h

theorem small_full_iff (hle : taken ⊆ Finset.range (p.config.chunkCount shift)) :
    taken = Finset.range (p.config.chunkCount shift) ↔
      ∀ k < p.config.words shift, w (p.bitmapIndex i k) = Bits.full := by
  have hwords := Config.words_mul small
  rw [eq_range_iff hle]
  constructor
  · exact fun hall k hk => (h k hk).eq_full_iff.2 fun b hb => hall _ (by omega)
  · intro hfull x hx
    have hx' := (h (x / 64) (by omega)).eq_full_iff.1 (hfull (x / 64) (by omega)) (x % 64)
      (by omega)
    rwa [Nat.div_add_mod] at hx'

theorem small_prefix_iff (hn : n ≤ p.config.chunkCount shift)
    (hle : taken ⊆ Finset.range (p.config.chunkCount shift)) {v : Nat → UInt64}
    (hv : ∀ k < p.config.words shift, Bits.Window (v k) 0 64 (64 * k) (Finset.range n)) :
    taken = Finset.range n ↔ ∀ k < p.config.words shift, w (p.bitmapIndex i k) = v k := by
  have hwords := Config.words_mul small
  constructor
  · rintro rfl k hk
    exact ((h k hk).eq_iff (hv k hk)).2 fun _ _ => Iff.rfl
  · intro hsame
    ext x
    by_cases hx : x < p.config.chunkCount shift
    · have hiff := ((h (x / 64) (by omega)).eq_iff (hv (x / 64) (by omega))).1
        (hsame (x / 64) (by omega)) (x % 64) (by omega)
      rwa [Nat.div_add_mod] at hiff
    · refine iff_of_false (fun hmem => hx (Finset.mem_range.1 (hle hmem))) fun hmem => ?_
      have hlt := Finset.mem_range.1 hmem
      omega

end Small

section Exact

variable (h : Bits.Window slab 0 64 0 taken) (hle : taken ⊆ Finset.range 64)
include h hle

theorem exact_full_iff : slab = Bits.full ↔ taken = Finset.range 64 := by
  rw [h.eq_full_iff, eq_range_iff hle]
  simp only [Nat.zero_add]

theorem exact_idle_iff : slab = 0 ↔ taken = Finset.range 0 := by
  rw [h.eq_zero_iff, Finset.range_zero, Finset.eq_empty_iff_forall_notMem]
  constructor
  · intro hnone x hx
    have hlt := Finset.mem_range.1 (hle hx)
    exact hnone x hlt (by rwa [Nat.zero_add])
  · exact fun hnone b _ => hnone _

end Exact

theorem test_bigMask (hclass : c.IsClass shift) (big : c.exactShift < shift) {b : Nat}
    (hb : b < 64) :
    Bits.test (Pool.bigMask c shift) b =
      decide (mapShift ≤ b ∧ b < mapShift + c.chunkCount shift) := by
  have hcount := Config.chunkCount_le_of_big big
  rw [Pool.bigMask, Bits.test_shiftLeft _ (by decide) hb, Config.chunkCount_eq_shiftRight hclass,
    Bits.test_low (by omega) (by omega), ← Bool.decide_and, decide_eq_decide]
  constructor <;> rintro ⟨low, high⟩ <;> exact ⟨low, by omega⟩

section Big

variable (h : Bits.Window slab mapShift 32 0 taken)
include h

theorem test_high {b : Nat} (low : mapShift ≤ b) (hb : b < 64) :
    Bits.test slab b = decide (b - mapShift ∈ taken) := by
  have hlow : 32 ≤ b := low
  have htest := h (b - mapShift) (by change b - 32 < 32; omega)
  rwa [Nat.zero_add, Nat.add_sub_cancel' low] at htest

section Class

variable (hclass : c.IsClass shift) (big : c.exactShift < shift)
include hclass big

theorem big_lowest (hk : k < c.chunkCount shift) (free : k ∉ taken) (least : ∀ j < k, j ∈ taken) :
    Bits.lowestSet? (~~~slab &&& Pool.bigMask c shift) = some (mapShift + k) := by
  have hcount := Config.chunkCount_le_of_big big
  have hshift : mapShift = 32 := rfl
  refine Bits.lowestSet?_eq_some_iff.2 ⟨by omega, ?_, fun j hj => ?_⟩
  · rw [Bits.test_and _ _ (by omega), Bits.test_not _ (by omega),
      test_high h (Nat.le_add_right _ _) (by omega), Nat.add_sub_cancel_left, decide_eq_false free,
      test_bigMask hclass big (by omega), decide_eq_true (by omega)]
    rfl
  · rw [Bits.test_and _ _ (by omega), Bits.test_not _ (by omega),
      test_bigMask hclass big (by omega)]
    by_cases low : mapShift ≤ j
    · rw [test_high h low (by omega), decide_eq_true (least (j - mapShift) (by omega))]
      rfl
    · rw [decide_eq_false (by omega), Bool.and_false]

theorem big_full_iff (hle : taken ⊆ Finset.range (c.chunkCount shift)) :
    slab &&& mapMask = Pool.bigMask c shift ↔ taken = Finset.range (c.chunkCount shift) := by
  have hcount := Config.chunkCount_le_of_big big
  have hshift : mapShift = 32 := rfl
  have htest : ∀ b < 64, Bits.test (slab &&& mapMask) b =
      decide (mapShift ≤ b ∧ b - mapShift ∈ taken) := by
    intro b hb
    rw [Bits.test_and _ _ hb, test_mapMask hb, Bool.and_comm]
    by_cases low : mapShift ≤ b
    · rw [test_high h low hb, ← Bool.decide_and]
      rfl
    · rw [decide_eq_false (show ¬32 ≤ b from low), decide_eq_false fun hand => low hand.1,
        Bool.false_and]
  rw [eq_range_iff hle]
  constructor
  · intro heq b hb
    have hbit := htest (mapShift + b) (by omega)
    rw [heq, test_bigMask hclass big (by omega), decide_eq_decide] at hbit
    have hmem := (hbit.1 ⟨by omega, by omega⟩).2
    rwa [Nat.add_sub_cancel_left] at hmem
  · intro hall
    refine Bits.eq_of_test_eq fun b hb => ?_
    rw [htest b hb, test_bigMask hclass big hb, decide_eq_decide]
    refine and_congr_right fun low => ⟨fun hmem => ?_, fun hlt => hall _ (by omega)⟩
    have hlt := Finset.mem_range.1 (hle hmem)
    omega

end Class

theorem big_idle_iff (hle : taken ⊆ Finset.range 32) :
    slab &&& mapMask = 0 ↔ taken = Finset.range 0 := by
  have hshift : mapShift = 32 := rfl
  rw [Bits.eq_zero_iff, Finset.range_zero, Finset.eq_empty_iff_forall_notMem]
  constructor
  · intro hnone x hx
    have hlt := Finset.mem_range.1 (hle hx)
    have hbit := hnone (mapShift + x) (by omega)
    rw [Bits.test_and _ _ (by omega), test_mapMask (by omega), decide_eq_true (by omega),
      Bool.and_true, test_high h (Nat.le_add_right _ _) (by omega), Nat.add_sub_cancel_left,
      decide_eq_false_iff_not] at hbit
    exact hbit hx
  · intro hnone b hb
    rw [Bits.test_and _ _ hb, test_mapMask hb]
    by_cases low : mapShift ≤ b
    · rw [test_high h low hb, decide_eq_false (hnone _), Bool.false_and]
    · rw [decide_eq_false (by omega), Bool.and_false]

end Big

theorem occupied_exact_first (i : Nat) (w : Nat → UInt64) :
    Occupied p i p.config.exactShift (Finset.range 1) 1 w := by
  refine occupied_exact.2 fun b hb => ?_
  rw [Nat.zero_add, show (1 : UInt64) = Bits.low 1 from by decide, Bits.test_low (by decide) hb]
  exact decide_eq_decide.2 Finset.mem_range.symm

theorem occupied_big_first (hclass : p.config.IsClass shift) (big : p.config.exactShift < shift)
    (i : Nat) (w : Nat → UInt64) :
    Occupied p i shift (Finset.range 1) (Bits.bit mapShift ||| UInt64.ofNat shift) w := by
  have hlt := Config.shift_lt_of_isClass hclass
  have hpow : 2 ^ 20 ≤ 2 ^ 32 := by decide
  rw [UInt64.or_comm]
  refine (occupied_big big).2 ⟨?_, fun b hb => ?_⟩
  · rw [recordedShift_insert _ (by decide) (by decide), recordedShift_ofNat (by omega)]
  · have hhigh : Bits.test (UInt64.ofNat shift) (mapShift + b) = false := by
      have hbit : 2 ^ 32 ≤ 2 ^ (mapShift + b) :=
        Nat.pow_le_pow_right (by decide) (Nat.le_add_right 32 b)
      rw [Bits.test_eq_testBit _ (by change 32 + b < 64; omega),
        toNat_ofNat (by rw [wordLimit_eq]; omega), Nat.testBit_lt_two_pow (by omega)]
    rw [Bits.test_insert _ (by decide) (by change 32 + b < 64; omega), hhigh, Bool.false_or,
      Nat.zero_add]
    exact decide_eq_decide.2 (by rw [Finset.mem_range]; omega)

end SharedSlab.Slab
