set_option autoImplicit false

namespace SharedSlab

structure Protection where
  read : Bool
  write : Bool
  exec : Bool
deriving DecidableEq

namespace Protection

def none : Protection := ⟨false, false, false⟩
def all : Protection := ⟨true, true, true⟩
def data : Protection := ⟨true, true, false⟩

def bits (p : Protection) : Nat :=
  p.read.toNat + 2 * p.write.toNat + 4 * p.exec.toNat

def truncate (n : Nat) : Protection := ⟨n.testBit 0, n.testBit 1, n.testBit 2⟩

def ofBits? (n : Nat) : Option Protection := if n < 8 then some (truncate n) else Option.none

def union (a b : Protection) : Protection :=
  ⟨a.read || b.read, a.write || b.write, a.exec || b.exec⟩

def difference (a b : Protection) : Protection :=
  ⟨a.read && !b.read, a.write && !b.write, a.exec && !b.exec⟩

def complement (a : Protection) : Protection := all.difference a

def contains (a b : Protection) : Bool := b.difference a == none

def names (p : Protection) : List String :=
  (if p.read then ["READ"] else []) ++ (if p.write then ["WRITE"] else []) ++
    (if p.exec then ["EXEC"] else [])

theorem bits_truncate (p : Protection) : truncate p.bits = p := by
  obtain ⟨r, w, x⟩ := p
  cases r <;> cases w <;> cases x <;> decide

theorem ofBits?_bits (p : Protection) : ofBits? p.bits = some p := by
  obtain ⟨r, w, x⟩ := p
  cases r <;> cases w <;> cases x <;> decide

end Protection

end SharedSlab
