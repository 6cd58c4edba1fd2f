import Mathlib.Algebra.Group.Nat.Defs
import SharedSlab.Geometry

set_option autoImplicit false

namespace SharedSlab

theorem wordLimit_eq : wordLimit = 2 ^ 64 := rfl

theorem Checked.shiftLeft_eq_ok {a s : Nat} (h : s < 64) (fits : a * 2 ^ s < wordLimit) :
    shiftLeft a s = .ok (a * 2 ^ s) := by
  rw [shiftLeft, if_pos h, Nat.shiftLeft_eq, Nat.mod_eq_of_lt fits]

namespace Geometry

theorem size_eq (g : Geometry) : g.size = 2 ^ g.shift := by
  rw [size, Nat.shiftLeft_eq, Nat.one_mul]

theorem size_pos (g : Geometry) : 0 < g.size := by
  rw [size_eq]
  exact Nat.two_pow_pos _

theorem alignDown_eq (g : Geometry) (value : Nat) :
    g.alignDown value = value / g.size * g.size := by
  rw [alignDown, Nat.shiftLeft_eq, Nat.shiftRight_eq_div_pow, size_eq]

theorem pagesFor_eq (g : Geometry) (bytes : Nat) :
    g.pagesFor bytes = bytes / g.size + if bytes % g.size = 0 then 0 else 1 := by
  rw [pagesFor, Nat.shiftRight_eq_div_pow, size_eq, Nat.and_two_pow_sub_one_eq_mod]

theorem pagesFor_pos (g : Geometry) {size : Nat} (hpos : 0 < size) : 0 < g.pagesFor size := by
  rw [pagesFor_eq]
  split
  · next h =>
    have hdvd := Nat.dvd_of_mod_eq_zero h
    have hdiv := Nat.div_pos (Nat.le_of_dvd hpos hdvd) g.size_pos
    exact Nat.lt_of_lt_of_le hdiv (Nat.le_add_right _ _)
  · exact Nat.succ_pos _

theorem le_pagesFor_mul (g : Geometry) (bytes : Nat) : bytes ≤ g.pagesFor bytes * g.size := by
  have hsplit := Nat.div_add_mod' bytes g.size
  have hmod := Nat.mod_lt bytes g.size_pos
  rw [pagesFor_eq, Nat.add_mul]
  split
  · omega
  · omega

end Geometry

end SharedSlab
