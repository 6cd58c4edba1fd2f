import Mathlib.Tactic.IntervalCases
import Mathlib.Tactic.Ring
import SharedSlab.Memory
import SharedSlab.Proofs.WordBits

set_option autoImplicit false

namespace SharedSlab

namespace Memory

variable {m n : Memory} {a i x : Nat} {b : UInt8}

theorem toNat_lane (a : Nat) : (lane a).toNat % 64 = 8 * (a % 8) := by
  have hmod := Nat.mod_lt a (show 0 < 8 by decide)
  rw [lane, UInt64.toNat_ofNat', Nat.mod_eq_of_lt (a := 8 * (a % 8)) (by omega)]
  omega

theorem testBit_byte (m : Memory) (x : Nat) {k : Nat} (hk : k < 8) :
    (m.byte x).toNat.testBit k = Bits.test (m.word (x / 8)) (8 * (x % 8) + k) := by
  rw [Bits.test_eq_testBit _ (by omega), byte, UInt64.toNat_toUInt8, Nat.testBit_mod_two_pow,
    decide_eq_true hk, Bool.true_and, UInt64.toNat_shiftRight, toNat_lane, Nat.testBit_shiftRight]

theorem byte_ext {b c : UInt8} (h : ∀ k < 8, b.toNat.testBit k = c.toNat.testBit k) : b = c := by
  rw [← UInt8.toNat_inj]
  apply Nat.eq_of_testBit_eq
  intro k
  by_cases hk : k < 8
  · exact h k hk
  · have hpow : 2 ^ 8 ≤ 2 ^ k := Nat.pow_le_pow_right (by decide) (by omega)
    rw [Nat.testBit_lt_two_pow (b.toNat_lt.trans_le hpow),
      Nat.testBit_lt_two_pow (c.toNat_lt.trans_le hpow)]

theorem byte_congr (h : n.word (x / 8) = m.word (x / 8)) : n.byte x = m.byte x := by
  rw [byte, byte, h]

theorem word_eq_of_bytes (h : ∀ x, x / 8 = i → n.byte x = m.byte x) : n.word i = m.word i := by
  apply Bits.eq_of_test_eq
  intro k hk
  have hdiv : (8 * i + k / 8) / 8 = i := by omega
  have hbit : 8 * ((8 * i + k / 8) % 8) + k % 8 = k := by omega
  have hn := testBit_byte n (8 * i + k / 8) (Nat.mod_lt k (show 0 < 8 by decide))
  have hm := testBit_byte m (8 * i + k / 8) (Nat.mod_lt k (show 0 < 8 by decide))
  rw [hdiv, hbit] at hn hm
  rw [← hn, ← hm, h _ hdiv]

theorem test_toUInt64 (b : UInt8) {k : Nat} (hk : k < 64) :
    Bits.test b.toUInt64 k = b.toNat.testBit k := by
  rw [Bits.test_eq_testBit _ hk, UInt8.toNat_toUInt64]

theorem test_putByte (w : UInt64) (a : Nat) (b : UInt8) {i : Nat} (hi : i < 64) :
    Bits.test (putByte w a b) i =
      if i / 8 = a % 8 then b.toNat.testBit (i % 8) else Bits.test w i := by
  have hlane : 8 * (a % 8) < 64 := by omega
  rw [putByte, lane, Bits.test_or _ _ hi, Bits.test_and _ _ hi, Bits.test_not _ hi,
    Bits.test_shiftLeft _ hlane hi, Bits.test_shiftLeft _ hlane hi,
    show (0xff : UInt64) = Bits.low 8 from rfl]
  by_cases hle : 8 * (a % 8) ≤ i
  · rw [Bits.test_low (by decide) (by omega), test_toUInt64 b (by omega), decide_eq_true hle]
    by_cases hin : i / 8 = a % 8
    · have hsub : i - 8 * (a % 8) = i % 8 := by omega
      rw [if_pos hin, hsub, decide_eq_true (by omega)]
      simp
    · have hpow : 2 ^ 8 ≤ 2 ^ (i - 8 * (a % 8)) := Nat.pow_le_pow_right (by decide) (by omega)
      rw [if_neg hin, decide_eq_false (by omega), Nat.testBit_lt_two_pow (b.toNat_lt.trans_le hpow)]
      simp
  · rw [if_neg (by omega), decide_eq_false hle]
    simp

theorem word_setByte_of_ne (m : Memory) (b : UInt8) (h : a / 8 ≠ i) :
    (m.setByte a b).word i = m.word i := word_setWord_of_ne m _ h

theorem byte_setByte (m : Memory) (a : Nat) (b : UInt8) (x : Nat) :
    (m.setByte a b).byte x = if x = a then b else m.byte x := by
  by_cases hword : a / 8 = x / 8
  · apply byte_ext
    intro k hk
    rw [testBit_byte _ x hk, setByte, hword, word_setWord_self, test_putByte _ _ _ (by omega)]
    have hdiv : (8 * (x % 8) + k) / 8 = x % 8 := by omega
    have hmod : (8 * (x % 8) + k) % 8 = k := by omega
    rw [hdiv, hmod]
    by_cases hx : x = a
    · rw [if_pos hx, if_pos (by omega)]
    · rw [if_neg hx, if_neg (by omega), testBit_byte m x hk]
  · have hx : x ≠ a := by
      rintro rfl
      exact hword rfl
    rw [if_neg hx]
    exact byte_congr (word_setByte_of_ne m b hword)

theorem byte_fillBytes (m : Memory) (a : Nat) (b : UInt8) (len x : Nat) :
    (m.fillBytes a b len).byte x = if a ≤ x ∧ x < a + len then b else m.byte x := by
  induction len generalizing m a with
  | zero => rw [fillBytes, if_neg (by omega)]
  | succ len ih =>
    rw [fillBytes, ih, byte_setByte]
    by_cases hin : a + 1 ≤ x ∧ x < a + 1 + len
    · rw [if_pos hin, if_pos (by omega)]
    · by_cases hx : x = a
      · rw [if_neg hin, if_pos hx, if_pos (by omega)]
      · rw [if_neg hin, if_neg hx, if_neg (by omega)]

/-- In base 256 the digits of the product all are `b`. -/
theorem digit_of_repeated {b r : Nat} (hb : b < 256) (hr : r < 8) :
    b * 0x0101010101010101 / 256 ^ r % 256 = b := by
  -- the ones below digit `r`, that one, and those above it
  obtain ⟨low, high, hsplit, hlow⟩ : ∃ low high,
      0x0101010101010101 = low + 256 ^ r * (1 + 256 * high) ∧ 255 * low < 256 ^ r := by
    refine ⟨(256 ^ r - 1) / 255, (256 ^ (7 - r) - 1) / 255, ?_, ?_⟩
    · interval_cases r <;> rfl
    · interval_cases r <;> decide
  have hlt : b * low < 256 ^ r := (Nat.mul_le_mul_right low (by omega)).trans_lt hlow
  have hpos : 0 < 256 ^ r := Nat.pow_pos (by decide)
  have hmul : b * (low + 256 ^ r * (1 + 256 * high)) =
      b * low + 256 ^ r * (b + 256 * (b * high)) := by ring
  rw [hsplit, hmul, Nat.add_mul_div_left _ _ hpos, Nat.div_eq_of_lt hlt, Nat.zero_add,
    Nat.add_mul_mod_self_left, Nat.mod_eq_of_lt hb]

theorem byte_of_spread (h : m.word (x / 8) = spread b) : m.byte x = b := by
  have hb : b.toNat < 256 := b.toNat_lt
  have hlimit : b.toNat * 0x0101010101010101 < 2 ^ 64 := by omega
  have hspread : (spread b).toNat = b.toNat * 0x0101010101010101 := by
    rw [spread, UInt64.toNat_mul, UInt8.toNat_toUInt64]
    exact Nat.mod_eq_of_lt hlimit
  rw [← UInt8.toNat_inj, byte, UInt64.toNat_toUInt8, UInt64.toNat_shiftRight, toNat_lane, h,
    hspread, Nat.shiftRight_eq_div_pow, Nat.pow_mul]
  exact digit_of_repeated hb (Nat.mod_lt x (by decide))

theorem byte_fillWords (m : Memory) (i : Nat) (b : UInt8) (count x : Nat) :
    (m.fillWords i (spread b) count).byte x =
      if i ≤ x / 8 ∧ x / 8 < i + count then b else m.byte x := by
  have hword := m.word_fillWords i (x / 8) (spread b) count
  by_cases hin : i ≤ x / 8 ∧ x / 8 < i + count
  · rw [if_pos hin] at hword ⊢
    exact byte_of_spread hword
  · rw [if_neg hin] at hword ⊢
    exact byte_congr hword

theorem byte_blanket (m : Memory) (a : Nat) (b : UInt8) (len x : Nat) :
    (m.blanket a b len).byte x = if a ≤ x ∧ x < a + len then b else m.byte x := by
  rw [blanket, byte_fillBytes, byte_fillWords, byte_fillBytes]
  generalize hhead : min len ((8 - a % 8) % 8) = head
  generalize hwords : (len - head) / 8 = words
  by_cases hin : a ≤ x ∧ x < a + len
  · rw [if_pos hin]
    by_cases htail : a + head + 8 * words ≤ x
    · rw [if_pos (by omega)]
    · rw [if_neg (by omega)]
      by_cases hword : a + head ≤ x
      · rw [if_pos (by omega)]
      · rw [if_neg (by omega), if_pos (by omega)]
  · rw [if_neg (by omega), if_neg (by omega), if_neg (by omega), if_neg hin]

theorem byte_copy_of_outside (m : Memory) {src dst len : Nat} (h : x < dst ∨ dst + len ≤ x) :
    (m.copy src dst len).byte x = m.byte x := by
  induction len generalizing m src dst with
  | zero => rfl
  | succ len ih => rw [copy, ih _ (by omega), byte_setByte, if_neg (by omega)]

theorem byte_copy (m : Memory) {src dst len : Nat} (h : src + len ≤ dst ∨ dst + len ≤ src)
    (x : Nat) : (m.copy src dst len).byte x =
      if dst ≤ x ∧ x < dst + len then m.byte (src + (x - dst)) else m.byte x := by
  induction len generalizing m src dst with
  | zero => rw [copy, if_neg (by omega)]
  | succ len ih =>
    rw [copy, ih _ (by omega), byte_setByte, byte_setByte]
    by_cases hin : dst + 1 ≤ x ∧ x < dst + 1 + len
    · -- the byte that was just written is not read again
      rw [if_pos hin, if_neg (by omega), if_pos (by omega),
        show src + 1 + (x - (dst + 1)) = src + (x - dst) by omega]
    · rw [if_neg hin]
      by_cases hx : x = dst
      · rw [if_pos hx, if_pos (by omega), hx, Nat.sub_self, Nat.add_zero]
      · rw [if_neg hx, if_neg (by omega)]

end Memory

end SharedSlab
