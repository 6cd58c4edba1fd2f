set_option autoImplicit false

namespace SharedSlab.Bits

def bit (i : Nat) : UInt64 := 1 <<< UInt64.ofNat i

def test (w : UInt64) (i : Nat) : Bool := w &&& bit i != 0

def full : UInt64 := 0xffffffffffffffff

def low (n : Nat) : UInt64 := bit n - 1

def lowestFrom (w : UInt64) (i : Nat) : Nat → Option Nat
  | 0 => none
  | count + 1 => if test w i then some i else lowestFrom w (i + 1) count

def lowestSet? (w : UInt64) : Option Nat := lowestFrom w 0 64

theorem lowestFrom_eq_some {w : UInt64} {i count k : Nat} (h : lowestFrom w i count = some k) :
    i ≤ k ∧ k < i + count ∧ test w k = true ∧ ∀ j, i ≤ j → j < k → test w j = false := by
  induction count generalizing i with
  | zero => simp [lowestFrom] at h
  | succ count ih =>
    rw [lowestFrom] at h
    split at h
    · next hi =>
      cases h
      exact ⟨Nat.le_refl _, by omega, hi, fun j _ _ => by omega⟩
    · next hi =>
      obtain ⟨lower, upper, set, least⟩ := ih h
      refine ⟨by omega, by omega, set, fun j hij hjk => ?_⟩
      rcases Nat.eq_or_lt_of_le hij with rfl | hlt
      · simpa using hi
      · exact least j hlt hjk

theorem lowestFrom_eq_none {w : UInt64} {i count : Nat} (h : lowestFrom w i count = none) :
    ∀ j, i ≤ j → j < i + count → test w j = false := by
  induction count generalizing i with
  | zero => intro j _ _; omega
  | succ count ih =>
    rw [lowestFrom] at h
    split at h
    · cases h
    · next hi =>
      intro j hij hj
      rcases Nat.eq_or_lt_of_le hij with rfl | hlt
      · simpa using hi
      · exact ih h j hlt (by omega)

theorem lowestSet?_eq_some_iff {w : UInt64} {k : Nat} :
    lowestSet? w = some k ↔ k < 64 ∧ test w k = true ∧ ∀ j < k, test w j = false := by
  constructor
  · intro h
    obtain ⟨_, upper, set, least⟩ := lowestFrom_eq_some h
    exact ⟨by omega, set, fun j hj => least j (Nat.zero_le _) hj⟩
  · rintro ⟨bound, set, least⟩
    cases h : lowestSet? w with
    | none =>
      have := lowestFrom_eq_none h k (Nat.zero_le _) (by omega)
      rw [set] at this
      cases this
    | some m =>
      obtain ⟨_, _, mset, mleast⟩ := lowestFrom_eq_some h
      rcases Nat.lt_trichotomy m k with hmk | rfl | hkm
      · rw [least m hmk] at mset; cases mset
      · rfl
      · rw [mleast k (Nat.zero_le _) hkm] at set; cases set

end SharedSlab.Bits
