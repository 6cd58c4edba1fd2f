import SharedSlab.HeapStats
import SharedSlab.SharedPool

set_option autoImplicit false

namespace SharedSlab.SharedPool

def heapName : String := "shared slab pool"

def allocate (self : Caller) (h : SharedPool) (shape : BlockShape) : SharedM (Option Nat) := do
  if h.config.pageSize < shape.align then return none
  h.alloc self (max shape.size shape.align)

def deallocate (self : Caller) (h : SharedPool) (address : Nat) : SharedM Unit := do
  let _ ← h.free self address

/-- Moves a block to one of another size: the new block is taken, the bytes that both hold are
copied, and the old block is freed. If there is no new block the old one stays. -/
def reallocate (self : Caller) (h : SharedPool) (old : Option Nat) (shape : BlockShape)
    (size : Nat) : SharedM (Option Nat) := do
  match BlockShape.of? size shape.align with
  | none => return none
  | some wanted => do
    match ← h.allocate self wanted, old with
    | some new, some old => do
      let base := h.pool.region.base
      let count := min shape.size size
      SharedM.onPool <| PoolM.onMemory fun m => m.copy (old - base) (new - base) count
      h.deallocate self old
      return some new
    | new, _ => return new

def stats (self : Caller) (h : SharedPool) : SharedM HeapStats := do
  let s ← h.snapshot self
  let total ← Checked.mul s.pageCount s.pageSize
  let free ← Checked.mul s.freePages s.pageSize
  let used ← Checked.sub total free
  let counters := (← get).counters
  return ⟨total, used, free, counters.allocations, counters.deallocations⟩

end SharedSlab.SharedPool
