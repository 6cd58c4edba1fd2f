import SharedSlab.Error
import SharedSlab.Fault

set_option autoImplicit false

namespace SharedSlab

/-- A page of `2 ^ shift` bytes. -/
structure Geometry where
  shift : Nat
  shift_lt : shift < 64
deriving DecidableEq

namespace Geometry

def size (g : Geometry) : Nat := 1 <<< g.shift

def ofSize (size : Nat) : Except HostError Geometry :=
  if h : size.log2 < 64 ∧ 1 <<< size.log2 = size then .ok ⟨size.log2, h.1⟩
  else .error .invalidParameter

def host : Geometry := ⟨12, by decide⟩

def alignDown (g : Geometry) (value : Nat) : Nat := (value >>> g.shift) <<< g.shift

/-- Rounds up to a page boundary. The whole page size is added before one is taken off again, so
this faults wherever that intermediate sum does not fit. -/
def alignUp (g : Geometry) (value : Nat) : Except Fault Nat := do
  let past ← Checked.add value g.size
  return g.alignDown (past - 1)

def alignUp? (g : Geometry) (value : Nat) : Option Nat :=
  if value + (g.size - 1) < wordLimit then some (g.alignDown (value + (g.size - 1))) else none

def pagesFor (g : Geometry) (bytes : Nat) : Nat :=
  (bytes >>> g.shift) + if bytes &&& (g.size - 1) = 0 then 0 else 1

end Geometry

end SharedSlab
