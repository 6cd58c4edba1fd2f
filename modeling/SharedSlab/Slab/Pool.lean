import SharedSlab.Journal
import SharedSlab.Memory
import SharedSlab.Region
import SharedSlab.Slab.Layout

set_option autoImplicit false

/-!
# Pool views

The whole state of a pool is the memory of its region. A `Pool` is one process's view of it: where
the region lies, how pages and classes are cut, and where the parts of the pool are. Any number of
views may share a region. Operations run in `PoolM`: they read and write the memory, append to the
journal, and may fault; a fault keeps what was written before it.
-/

namespace SharedSlab

/-- The memory of a region, and the journal of the process that works on it. -/
structure Arena where
  memory : Memory
  journal : Array Event

abbrev PoolM := EStateM Fault Arena

instance Fault.monadLift {σ : Type} : MonadLift (Except Fault) (EStateM Fault σ) where
  monadLift
    | .ok a => pure a
    | .error e => throw e

namespace PoolM

def word (i : Nat) : PoolM UInt64 := do return (← get).memory.word i

def setWord (i : Nat) (w : UInt64) : PoolM Unit :=
  modify fun a => { a with memory := a.memory.setWord i w }

def note (e : Event) : PoolM Unit :=
  modify fun a => { a with journal := a.journal.push e }

def onMemory (change : Memory → Memory) : PoolM Unit :=
  modify fun a => { a with memory := change a.memory }

def forUp (first : Nat) (step : Nat → PoolM Unit) : Nat → PoolM Unit
  | 0 => pure ()
  | count + 1 => do
    step first
    forUp (first + 1) step count

/-- Whether `test` holds at `first`, `first + 1`, ..., `count` times; it is not asked again after
it failed. -/
def allUp (first : Nat) (test : Nat → PoolM Bool) : Nat → PoolM Bool
  | 0 => pure true
  | count + 1 => do
    if ← test first then allUp (first + 1) test count else return false

end PoolM

namespace Slab

structure Pool where
  region : Region
  config : Config
  layout : Layout
  /-- One past the last payload page. -/
  finish : Nat
deriving DecidableEq

namespace Pool

def ofLayout (region : Region) (config : Config) (layout : Layout) : Except Fault Pool := do
  let payload ← Checked.shiftLeft layout.pageCount config.pageShift
  return ⟨region, config, layout, ← Checked.add layout.start payload⟩

def pageCount (p : Pool) : Nat := p.layout.pageCount
def start (p : Pool) : Nat := p.layout.start

def slotNode (p : Pool) (slot : Nat) : Except Fault Nat := do
  Checked.add p.layout.slots (← Checked.mul slot descriptorSize)

def slotFor (p : Pool) (shift : Nat) : Except Fault Nat := do
  p.slotNode (← Checked.sub shift p.config.minShift)

def pageNode (p : Pool) (idx : Nat) : Except Fault Nat := do
  Checked.add p.layout.pages (← Checked.mul idx descriptorSize)

def pageIndex (p : Pool) (node : Nat) : Except Fault Nat := do
  return (← Checked.sub node p.layout.pages) / descriptorSize

def pageData (p : Pool) (idx : Nat) : Except Fault Nat := do
  Checked.add p.layout.start (← Checked.shiftLeft idx p.config.pageShift)

def cell (p : Pool) (node : Nat) (f : Field) : Except Fault Nat :=
  if p.region.len < node then .error .outOfRegion
  else if node % 8 = 0 then .ok (node / 8 + f.index)
  else .error .misaligned

def field (p : Pool) (node : Nat) (f : Field) : PoolM UInt64 := do
  PoolM.word (← p.cell node f)

def setField (p : Pool) (node : Nat) (f : Field) (w : UInt64) : PoolM Unit := do
  PoolM.setWord (← p.cell node f) w

def slab (p : Pool) (node : Nat) : PoolM UInt64 := p.field node .slab

def setSlab (p : Pool) (node : Nat) (w : UInt64) : PoolM Unit := p.setField node .slab w

def prev (p : Pool) (node : Nat) : PoolM UInt64 := p.field node .prev

def prevNode (p : Pool) (node : Nat) : PoolM Nat := do return prevLink (← p.prev node)

def kind (p : Pool) (node : Nat) : PoolM PageKind := do return PageKind.ofTag (← p.prev node)

def setPrev (p : Pool) (node link : Nat) (kind : PageKind) : PoolM Unit := do
  p.setField node .prev (← packPrev link kind)

def next (p : Pool) (node : Nat) : PoolM Nat := do return (← p.field node .next).toNat

def setNext (p : Pool) (node link : Nat) : PoolM Unit :=
  p.setField node .next (UInt64.ofNat link)

def clear (p : Pool) (node : Nat) : PoolM Unit := do
  p.setField node .slab 0
  p.setField node .prev 0
  p.setField node .next 0

def headerWord (h : HeaderWord) : PoolM UInt64 := PoolM.word h.index

def setHeaderWord (h : HeaderWord) (w : UInt64) : PoolM Unit := PoolM.setWord h.index w

def freePages : PoolM Nat := do return (← headerWord .freePages).toNat

def setFreePages (n : Nat) : PoolM Unit := setHeaderWord .freePages (UInt64.ofNat n)

def bitmapCell (p : Pool) (data i : Nat) : Except Fault Nat := do
  let off ← Checked.add data (← Checked.mul i 8)
  if p.region.len < off then throw .outOfRegion
  if off % 8 = 0 then return off / 8 else throw .misaligned

def bitmapWord (p : Pool) (data i : Nat) : PoolM UInt64 := do
  PoolM.word (← p.bitmapCell data i)

def setBitmapWord (p : Pool) (data i : Nat) (w : UInt64) : PoolM Unit := do
  PoolM.setWord (← p.bitmapCell data i) w

end Pool

end Slab

end SharedSlab
