set_option autoImplicit false

/-!
# Faults and checked arithmetic

Sizes, offsets and counts are natural numbers standing for 64-bit quantities. A result that does
not fit 64 bits is never wrapped: the step that needs it is cut short by a `Fault`. Only a left
shift drops the bits it pushes out. A fault is not an answer of the library: an operation that
refuses a request says so with an error, an operation whose caller broke its contract faults.
-/

namespace SharedSlab

def wordLimit : Nat := 18446744073709551616

inductive Fault where
  | overflow
  | divisionByZero
  | shiftTooWide
  | outOfRegion
  | misaligned
  /-- A list link whose low two bits, which belong to the page kind, are in use. -/
  | taggedLink
  /-- A slab request for no bytes or no pages. -/
  | emptyRequest
  | lockNotHeld
  | badProcess
  | nullLock
  /-- The only process waits for a lock that nobody will release. -/
  | deadlock
deriving DecidableEq

namespace Checked

def add (a b : Nat) : Except Fault Nat :=
  if a + b < wordLimit then .ok (a + b) else .error .overflow

def sub (a b : Nat) : Except Fault Nat :=
  if b ≤ a then .ok (a - b) else .error .overflow

def mul (a b : Nat) : Except Fault Nat :=
  if a * b < wordLimit then .ok (a * b) else .error .overflow

def div (a b : Nat) : Except Fault Nat :=
  if b = 0 then .error .divisionByZero else .ok (a / b)

def shiftLeft (a s : Nat) : Except Fault Nat :=
  if s < 64 then .ok ((a <<< s) % wordLimit) else .error .shiftTooWide

def shiftRight (a s : Nat) : Except Fault Nat :=
  if s < 64 then .ok (a >>> s) else .error .shiftTooWide

def sum : List Nat → Except Fault Nat :=
  List.foldlM add 0

theorem add_eq_ok {a b : Nat} (h : a + b < wordLimit) : add a b = .ok (a + b) := if_pos h

theorem sub_eq_ok {a b : Nat} (h : b ≤ a) : sub a b = .ok (a - b) := if_pos h

theorem mul_eq_ok {a b : Nat} (h : a * b < wordLimit) : mul a b = .ok (a * b) := if_pos h

theorem div_eq_ok {a b : Nat} (h : b ≠ 0) : div a b = .ok (a / b) := if_neg h

theorem shiftRight_eq_ok {a s : Nat} (h : s < 64) : shiftRight a s = .ok (a >>> s) := if_pos h

end Checked

end SharedSlab
