import SharedSlab.Slab.Chunk

set_option autoImplicit false

namespace SharedSlab.Slab

structure PageRun where
  first : Nat
  len : Nat
deriving DecidableEq

def PageRun.le (a b : PageRun) : Bool := a.first < b.first || a.first == b.first && a.len ≤ b.len

structure Snapshot where
  pageSize : Nat
  minShift : Nat
  pageCount : Nat
  freePages : Nat
  freeRuns : List PageRun
  /-- Pages on the list of each class, smallest class first. -/
  slotPages : List Nat
deriving DecidableEq

namespace Snapshot

def freeRunPages (s : Snapshot) : Except Fault Nat := Checked.sum (s.freeRuns.map PageRun.len)

def linkedPages (s : Snapshot) : Except Fault Nat := Checked.sum s.slotPages

def padLeft (width n : Nat) : String :=
  let digits := toString n
  "".pushn ' ' (width - digits.length) ++ digits

def runLine (run : PageRun) : Except Fault String := do
  let finish ← Checked.add run.first run.len
  return s!"  free run: pages {run.first}..{finish}\n"

def classLine (shift pages : Nat) : Except Fault String := do
  if pages = 0 then return ""
  let size ← Checked.shiftLeft 1 shift
  return s!"  {padLeft 7 size} byte chunks: {pages} pages\n"

def classLines (shift : Nat) : List Nat → Except Fault String
  | [] => return ""
  | pages :: rest => do
    let line ← classLine shift pages
    return line ++ (← classLines (shift + 1) rest)

/-- The report of a snapshot: a line for the pool, one for each free run, one for each class with
pages on its list. -/
def report (s : Snapshot) : Except Fault String := do
  let runs ← s.freeRuns.mapM runLine
  let classes ← classLines s.minShift s.slotPages
  return s!"slab pool: {s.pageCount} pages of {s.pageSize} bytes, {s.freePages} free\n" ++
    String.join runs ++ classes

end Snapshot

namespace Pool

def freeRuns (p : Pool) : PoolM (List PageRun) := do
  let runs ← p.foldRing freeHead (fun runs node => do
    return ⟨← p.pageIndex node, (← p.slab node).toNat⟩ :: runs) []
  return runs.reverse

def slotPages (p : Pool) (slot : Nat) : PoolM Nat := do
  p.foldRing (← p.slotNode slot) (fun n _ => return n + 1) 0

def snapshot (p : Pool) : PoolM Snapshot := do
  let runs ← p.freeRuns
  let slots ← (List.range p.config.slotCount).mapM p.slotPages
  return {
    pageSize := p.config.pageSize
    minShift := p.config.minShift
    pageCount := p.pageCount
    freePages := ← freePages
    freeRuns := runs.mergeSort PageRun.le
    slotPages := slots }

def dump (p : Pool) : PoolM String := do
  let text ← (← p.snapshot).report
  PoolM.note (.report text)
  return text

end Pool

end SharedSlab.Slab
