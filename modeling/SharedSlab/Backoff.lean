import SharedSlab.Fault

set_option autoImplicit false

namespace SharedSlab

structure Backoff where
  step : Nat
  limit : Nat
deriving DecidableEq

namespace Backoff

def new (limit : Nat) : Backoff := ⟨1, limit⟩

def isExhausted (b : Backoff) : Bool := b.limit ≤ b.step

def reset (b : Backoff) : Backoff := { b with step := 1 }

/-- Waits once: whether the call yielded, and the backoff after it. The doubling stops at the
largest 64-bit step. -/
def snooze (b : Backoff) : Bool × Backoff :=
  if b.isExhausted then (true, b.reset)
  else (false, { b with step := min (b.step * 2) (wordLimit - 1) })

def spins (b : Backoff) : Nat := if b.isExhausted then 0 else b.step

end Backoff

end SharedSlab
