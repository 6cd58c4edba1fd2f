import SharedSlab.Slab.Ring

set_option autoImplicit false

/-!
# Page runs

Free pages form runs on the list of `freeHead`. The first descriptor of a free run is linked and
holds the length; the last one, if the run is longer than a page, points back at the first, so that
freeing the page after it finds the run; those between are zero.
-/

namespace SharedSlab.Slab.Pool

def findRun (p : Pool) (n : Nat) : PoolM (Option Nat) :=
  p.findRing freeHead fun node => do return n ≤ (← p.slab node).toNat

/-- Cuts `n` pages off the front of the run of `len` pages at `run`, whose first page is `idx`.
What is left takes the run's place in the list. -/
def cutRun (p : Pool) (run idx len n : Nat) : PoolM Unit := do
  if n < len then
    let rest ← p.pageNode (← Checked.add idx n)
    p.setSlab rest (UInt64.ofNat (len - n))
    p.replace run rest .page
    if 1 < len - n then
      let last ← p.pageNode (← Checked.sub (← Checked.add idx len) 1)
      p.setPrev last rest .page
  else p.unlink run

def occupy (p : Pool) (node : Nat) (slab : UInt64) : PoolM Unit := do
  p.setSlab node slab
  p.setNext node 0
  p.setPrev node 0 .page

/-- Takes `n` contiguous pages, first fit: the first page, or nothing if no run is long enough. -/
def takePages (p : Pool) (n : Nat) : PoolM (Option Nat) := do
  if n = 0 then throw .emptyRequest
  match ← p.findRun n with
  | none => do
    PoolM.note (.noRun n (← freePages))
    return none
  | some run => do
    let idx ← p.pageIndex run
    let len := (← p.slab run).toNat
    p.cutRun run idx len n
    p.occupy run (UInt64.ofNat n ||| runStart)
    PoolM.forUp 1 (fun i => do p.occupy (← p.pageNode (← Checked.add idx i)) runInterior) (n - 1)
    setFreePages (← Checked.sub (← freePages) n)
    return some idx

/-- A linked descriptor of kind page is the first of a free run. -/
def isFreeRun (p : Pool) (node : Nat) : PoolM Bool := do
  if (← p.kind node) = .page then return (← p.next node) != 0 else return false

def insertRun (p : Pool) (first len : Nat) : PoolM Unit := do
  let head ← p.pageNode first
  p.setSlab head (UInt64.ofNat len)
  p.pushFront freeHead head .page
  if 1 < len then
    let last ← p.pageNode (← Checked.sub (← Checked.add first len) 1)
    p.setSlab last 0
    p.setNext last 0
    p.setPrev last head .page

def joinRight (p : Pool) (right len : Nat) : PoolM Nat := do
  if p.pageCount ≤ right then return len
  let node ← p.pageNode right
  if ← p.isFreeRun node then
    let total ← Checked.add len (← p.slab node).toNat
    p.unlink node
    p.clear node
    return total
  else return len

def runEndingAt (p : Pool) (idx : Nat) : PoolM (Option Nat) := do
  let last ← p.pageNode idx
  if (← p.kind last) = .page then
    let node ← if (← p.slab last) = 0 then p.prevNode last else pure last
    if node = 0 then return none
    if ← p.isFreeRun node then return some node
  return none

/-- Gives back `n` pages from `idx` on, joined with the free runs on either side. The first page may
still be on the list of its class. -/
def givePages (p : Pool) (idx n : Nat) : PoolM Unit := do
  let page ← p.pageNode idx
  if (← p.next page) ≠ 0 then p.unlink page
  p.clear page
  PoolM.forUp 1 (fun i => do p.clear (← p.pageNode (← Checked.add idx i))) (n - 1)
  let len ← p.joinRight (← Checked.add idx n) n
  match ← (if 0 < idx then p.runEndingAt (idx - 1) else pure none) with
  | none => p.insertRun idx len
  | some node => do
    let len ← Checked.add len (← p.slab node).toNat
    p.unlink node
    p.insertRun (← p.pageIndex node) len
  setFreePages (← Checked.add (← freePages) n)

end SharedSlab.Slab.Pool
