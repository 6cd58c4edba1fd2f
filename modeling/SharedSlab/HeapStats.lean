import SharedSlab.Fault

set_option autoImplicit false

namespace SharedSlab

structure HeapStats where
  total : Nat
  used : Nat
  free : Nat
  allocations : Nat
  deallocations : Nat
deriving DecidableEq

def HeapStats.usagePercent (s : HeapStats) : Except Fault Nat := do
  if s.total = 0 then return 0
  return (← Checked.mul s.used 100) / s.total

end SharedSlab
