set_option autoImplicit false

namespace SharedSlab.Hex

def digits (n : Nat) : String := String.ofList (Nat.toDigits 16 n)

def text (n : Nat) : String := "0x" ++ digits n

def byteText (b : UInt8) : String := (if b < 16 then "0" else "") ++ digits b.toNat

end SharedSlab.Hex
