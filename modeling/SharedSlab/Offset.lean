import SharedSlab.Fault
import SharedSlab.Hex

set_option autoImplicit false

namespace SharedSlab

namespace Offset

def null : Nat := 0

def isNull (off : Nat) : Bool := off == null

/-- Whether the bits below the alignment are clear; there is no alignment to zero. -/
def isAligned (off : Nat) (align : Nat) : Except Fault Bool := do
  let mask ← Checked.sub align 1
  return off &&& mask == 0

def advance (off : Nat) (bytes : Nat) : Except Fault Nat := Checked.add off bytes

def text (off : Nat) : String := "+" ++ Hex.text off

end Offset

end SharedSlab
