import Mathlib.Order.Bounds.Basic
import SharedSlab.Proofs.WordBits

set_option autoImplicit false

namespace SharedSlab.Geometry

variable {g : Geometry} {size value other up : Nat}

theorem ofSize_two_pow {k : Nat} (hk : k < 64) : ofSize (2 ^ k) = .ok ⟨k, hk⟩ := by
  have hlog : (2 ^ k).log2 = k := Nat.log2_two_pow
  have hsize : 1 <<< (2 ^ k).log2 = 2 ^ k := by rw [hlog, Nat.shiftLeft_eq, Nat.one_mul]
  rw [ofSize, dif_pos ⟨hlog.trans_lt hk, hsize⟩, Except.ok.injEq, mk.injEq]
  exact hlog

theorem size_of_ofSize (h : ofSize size = .ok g) : g.size = size := by
  rw [ofSize] at h
  split at h
  next hpow =>
    cases h
    exact hpow.2
  next => cases h

/-- The first page boundary at or above `value`. -/
def boundary (g : Geometry) (value : Nat) : Nat := g.alignDown (value + (g.size - 1))

theorem boundary_isLeast (g : Geometry) (value : Nat) :
    IsLeast {b | value ≤ b ∧ g.size ∣ b} (g.boundary value) := by
  have hpos := g.size_pos
  have hdiv := Nat.div_add_mod' (value + (g.size - 1)) g.size
  have hmod := Nat.mod_lt (value + (g.size - 1)) hpos
  rw [boundary, alignDown_eq]
  refine ⟨⟨by omega, Nat.dvd_mul_left _ _⟩, ?_⟩
  rintro b ⟨hle, k, rfl⟩
  rw [Nat.mul_comm]
  -- otherwise the last byte of the rounded sum is a whole page above `b`
  apply Nat.mul_le_mul_left
  apply Nat.le_of_lt_succ
  rw [Nat.div_lt_iff_lt_mul hpos, Nat.succ_mul, Nat.mul_comm k]
  omega

theorem le_boundary (g : Geometry) (value : Nat) : value ≤ g.boundary value :=
  (g.boundary_isLeast value).1.1

theorem boundary_mono (h : value ≤ other) : g.boundary value ≤ g.boundary other :=
  (g.boundary_isLeast value).2 ⟨h.trans (g.le_boundary other), (g.boundary_isLeast other).1.2⟩

theorem boundary_lt (g : Geometry) (value : Nat) : g.boundary value < value + g.size := by
  have hpos := g.size_pos
  have hle := Nat.div_mul_le_self (value + (g.size - 1)) g.size
  rw [boundary, alignDown_eq]
  omega

theorem boundary_of_dvd (h : g.size ∣ value) : g.boundary value = value :=
  le_antisymm ((g.boundary_isLeast value).2 ⟨le_refl _, h⟩) (g.le_boundary value)

theorem size_dvd_wordLimit (g : Geometry) : g.size ∣ wordLimit := by
  rw [size_eq, wordLimit_eq]
  exact pow_dvd_pow 2 g.shift_lt.le

/-- The boundaries end one page before the limit. -/
theorem boundary_lt_iff (g : Geometry) (value : Nat) :
    g.boundary value < wordLimit ↔ value + g.size ≤ wordLimit := by
  constructor
  · intro hlt
    obtain ⟨hle, k, hk⟩ := (g.boundary_isLeast value).1
    obtain ⟨n, hn⟩ := g.size_dvd_wordLimit
    rw [hk, hn] at hlt
    have hstep : g.size * (k + 1) ≤ g.size * n :=
      Nat.mul_le_mul_left _ (Nat.lt_of_mul_lt_mul_left hlt)
    rw [Nat.mul_succ] at hstep
    omega
  · intro hle
    have hpos := g.size_pos
    have hmem : wordLimit - g.size ∈ {b | value ≤ b ∧ g.size ∣ b} :=
      ⟨by omega, Nat.dvd_sub g.size_dvd_wordLimit (dvd_refl _)⟩
    have hboundary := (g.boundary_isLeast value).2 hmem
    omega

theorem pagesFor_mul_eq_boundary (g : Geometry) (bytes : Nat) :
    g.pagesFor bytes * g.size = g.boundary bytes := by
  have hsplit := Nat.div_add_mod' bytes g.size
  have hmem : g.pagesFor bytes * g.size ∈ {b | bytes ≤ b ∧ g.size ∣ b} :=
    ⟨g.le_pagesFor_mul bytes, Nat.dvd_mul_left _ _⟩
  refine le_antisymm ?_ ((g.boundary_isLeast bytes).2 hmem)
  obtain ⟨hle, k, hk⟩ := (g.boundary_isLeast bytes).1
  rw [hk] at hle ⊢
  rw [Nat.mul_comm]
  apply Nat.mul_le_mul_left
  have hdiv : bytes / g.size ≤ k := Nat.div_le_of_le_mul hle
  rw [pagesFor_eq]
  split
  · exact hdiv
  · next hmod =>
    apply Nat.succ_le_of_lt
    apply Nat.lt_of_le_of_ne hdiv
    rintro rfl
    rw [Nat.mul_comm] at hle
    omega

theorem pagesFor_lt (fits : value < wordLimit) : g.pagesFor value < wordLimit := by
  have hsplit := Nat.div_add_mod' value g.size
  have hle : value / g.size ≤ value / g.size * g.size := Nat.le_mul_of_pos_right _ g.size_pos
  rw [pagesFor_eq]
  split <;> omega

theorem alignDown_isGreatest (g : Geometry) (value : Nat) :
    IsGreatest {b | b ≤ value ∧ g.size ∣ b} (g.alignDown value) := by
  rw [alignDown_eq]
  refine ⟨⟨Nat.div_mul_le_self _ _, Nat.dvd_mul_left _ _⟩, ?_⟩
  rintro b ⟨hle, k, rfl⟩
  rw [Nat.mul_comm]
  exact Nat.mul_le_mul_right _ ((Nat.le_div_iff_mul_le g.size_pos).2 (Nat.mul_comm k _ ▸ hle))

theorem ofNat_alignDown (g : Geometry) (fits : value < wordLimit) :
    UInt64.ofNat (g.alignDown value) =
      UInt64.ofNat value &&& ~~~(UInt64.ofNat g.size - 1) := by
  have hfits : g.alignDown value < wordLimit := (g.alignDown_isGreatest value).1.1.trans_lt fits
  have hbit : UInt64.ofNat g.size = Bits.bit g.shift := by
    have hsize : 2 ^ g.shift < wordLimit := Nat.pow_lt_pow_right (by decide) g.shift_lt
    rw [← UInt64.toNat_inj, g.size_eq, toNat_ofNat hsize, Bits.toNat_bit g.shift_lt]
  have hmask : UInt64.ofNat g.size - 1 = Bits.low g.shift := by rw [hbit, Bits.low]
  refine Bits.eq_of_test_eq fun i hi => ?_
  rw [hmask, Bits.test_and _ _ hi, Bits.test_not _ hi, Bits.test_low g.shift_lt hi,
    Bits.test_eq_testBit _ hi, Bits.test_eq_testBit _ hi, toNat_ofNat hfits, toNat_ofNat fits,
    alignDown, Nat.testBit_shiftLeft, Nat.testBit_shiftRight]
  by_cases hle : g.shift ≤ i
  · simp [hle]
  · simp [hle, not_le.1 hle]

theorem alignUp?_eq (g : Geometry) (value : Nat) : g.alignUp? value =
    if value + g.size ≤ wordLimit then some (g.boundary value) else none := by
  have hpos := g.size_pos
  have hsum : value + (g.size - 1) < wordLimit ↔ value + g.size ≤ wordLimit := by omega
  simp only [alignUp?, hsum, boundary]

theorem alignUp?_eq_some_iff :
    g.alignUp? value = some up ↔ g.boundary value = up ∧ up < wordLimit := by
  rw [alignUp?_eq, Option.ite_none_right_eq_some, Option.some.injEq, ← boundary_lt_iff]
  constructor
  · rintro ⟨hlt, rfl⟩
    exact ⟨rfl, hlt⟩
  · rintro ⟨rfl, hlt⟩
    exact ⟨hlt, rfl⟩

theorem alignUp?_eq_none_iff : g.alignUp? value = none ↔ wordLimit ≤ g.boundary value := by
  rw [alignUp?_eq, ite_eq_right_iff, ← boundary_lt_iff, ← not_lt]
  exact imp_congr_right fun _ => iff_of_false nofun id

theorem alignUp_eq (g : Geometry) (value : Nat) : g.alignUp value =
    if value + g.size < wordLimit then .ok (g.boundary value) else .error .overflow := by
  rw [alignUp, Checked.add]
  by_cases hfits : value + g.size < wordLimit
  · rw [if_pos hfits, if_pos hfits, boundary, ← Nat.add_sub_assoc (Nat.one_le_of_lt g.size_pos)]
    rfl
  · rw [if_neg hfits, if_neg hfits]
    rfl

theorem alignUp_eq_boundary (h : value + g.size < wordLimit) :
    g.alignUp value = .ok (g.boundary value) :=
  (g.alignUp_eq value).trans (if_pos h)

/-- Rounding and counting pages are exact for every page size and every value. -/
theorem rounds_exactly {k : Nat} (hk : k < 64) (fits : value < wordLimit) :
    ∃ g, ofSize (2 ^ k) = .ok g ∧ g.shift = k ∧ g.size = 2 ^ k ∧
      (∀ up, g.alignUp? value = some up ↔
        IsLeast {b | value ≤ b ∧ 2 ^ k ∣ b} up ∧ up < wordLimit) ∧
      (g.alignUp? value = none ↔ ∀ b, value ≤ b → 2 ^ k ∣ b → wordLimit ≤ b) ∧
      IsGreatest {b | b ≤ value ∧ 2 ^ k ∣ b} (g.alignDown value) ∧
      UInt64.ofNat (g.alignDown value) = UInt64.ofNat value &&& ~~~(UInt64.ofNat (2 ^ k) - 1) ∧
      g.pagesFor value < wordLimit ∧
      IsLeast {b | value ≤ b ∧ 2 ^ k ∣ b} (g.pagesFor value * 2 ^ k) ∧
      ∀ up, g.alignUp? value = some up → Checked.shiftLeft (g.pagesFor value) k = .ok up := by
  obtain ⟨g, accepted, hshift⟩ : ∃ g, ofSize (2 ^ k) = .ok g ∧ g.shift = k :=
    ⟨_, ofSize_two_pow hk, rfl⟩
  have hsize := size_of_ofSize accepted
  have least := g.boundary_isLeast value
  have hpages := g.pagesFor_mul_eq_boundary value
  refine ⟨g, accepted, hshift, hsize, ?_⟩
  rw [← hsize]
  refine ⟨fun up => ?_, ?_, g.alignDown_isGreatest value, g.ofNat_alignDown fits, g.pagesFor_lt fits,
    hpages.symm ▸ least, fun up hup => ?_⟩
  · rw [alignUp?_eq_some_iff]
    refine and_congr_left fun _ => ⟨?_, least.unique⟩
    rintro rfl
    exact least
  · rw [alignUp?_eq_none_iff]
    exact ⟨fun hle b hb hdvd => hle.trans (least.2 ⟨hb, hdvd⟩),
      fun hall => hall _ least.1.1 least.1.2⟩
  · obtain ⟨rfl, hlt⟩ := alignUp?_eq_some_iff.1 hup
    rw [← hpages, hsize] at hlt ⊢
    exact Checked.shiftLeft_eq_ok hk hlt

theorem rounds_exactly_host : 12 < 64 ∧ 18446744073709547520 < wordLimit ∧
    ∃ g, ofSize (2 ^ 12) = .ok g ∧ g.alignUp? 18446744073709547520 = some 18446744073709547520 ∧
      g.pagesFor 18446744073709547520 < wordLimit ∧
      Checked.shiftLeft (g.pagesFor 18446744073709547520) 12 = .ok 18446744073709547520 := by
  have hk : 12 < 64 := by decide
  have fits : 18446744073709547520 < wordLimit := by decide
  obtain ⟨g, accepted, _, _, up, _, _, _, pages, _, shifted⟩ := rounds_exactly hk fits
  have hup := (up 18446744073709547520).2 ⟨⟨⟨le_refl _, by decide⟩, fun b hb => hb.1⟩, fits⟩
  exact ⟨hk, fits, g, accepted, hup, pages, shifted _ hup⟩

/-- The two ways of rounding up part at one value, the last boundary below the limit: there the
sum with a whole page is the limit itself. -/
theorem roundings_part (accepted : ofSize size = .ok g) (fits : value < wordLimit) :
    g.size = size ∧
      (value + size ≠ wordLimit → ∀ up, g.alignUp value = .ok up ↔ g.alignUp? value = some up) ∧
      (value + size = wordLimit →
        g.alignUp? value = some value ∧ g.alignUp value = .error .overflow) ∧
      (∀ cause, g.alignUp value = .error cause →
        g.alignUp? value = none ∨ value + size = wordLimit) ∧
      (size ∣ value → value + size ≠ wordLimit → g.alignUp value = .ok value) := by
  obtain rfl := size_of_ofSize accepted
  rw [alignUp_eq, alignUp?_eq]
  refine ⟨rfl, fun hne up => ?_, fun hlast => ?_, fun cause hcause => ?_, fun hdvd hne => ?_⟩
  · by_cases hlt : value + g.size < wordLimit
    · rw [if_pos hlt, if_pos hlt.le, Except.ok.injEq, Option.some.injEq]
    · rw [if_neg hlt, if_neg (by omega)]
      exact iff_of_false nofun nofun
  · have hdvd : g.size ∣ value :=
      (Nat.dvd_add_left (dvd_refl g.size)).1 (hlast ▸ g.size_dvd_wordLimit)
    rw [if_pos hlast.le, if_neg (by omega), boundary_of_dvd hdvd]
    exact ⟨rfl, rfl⟩
  · by_cases hlt : value + g.size < wordLimit
    · rw [if_pos hlt] at hcause
      cases hcause
    · by_cases hlast : value + g.size = wordLimit
      · exact .inr hlast
      · exact .inl (if_neg (by omega))
  · have hle := (g.boundary_lt_iff value).1 ((boundary_of_dvd hdvd).trans_lt fits)
    rw [if_pos (by omega), boundary_of_dvd hdvd]

theorem roundings_part_host : ofSize 4096 = .ok host ∧ 18446744073709543424 < wordLimit ∧
    host.alignUp? 18446744073709543424 = some 18446744073709543424 ∧
    host.alignUp 18446744073709543424 = .ok 18446744073709543424 := by
  have accepted : ofSize 4096 = .ok host := by decide
  have fits : 18446744073709543424 < wordLimit := by decide
  obtain ⟨_, agree, _, _, same⟩ := roundings_part accepted fits
  have hup := same (by decide) (by decide)
  exact ⟨accepted, fits, (agree (by decide) _).1 hup, hup⟩

theorem last_boundary_missed : ofSize 4096 = .ok host ∧
    host.alignUp? 18446744073709547520 = some 18446744073709547520 ∧
    host.alignUp 18446744073709547520 = .error .overflow := by
  decide

end SharedSlab.Geometry
