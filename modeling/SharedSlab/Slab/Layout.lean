import SharedSlab.Offset
import SharedSlab.Slab.Config
import SharedSlab.Slab.Descriptor

set_option autoImplicit false

/-!
# Layout of a pool in its region

    header | slot sentinels | page descriptors | padding | payload pages

The header has thirteen words. The last three form the sentinel of the list of free runs.
-/

namespace SharedSlab.Slab

inductive HeaderWord where
  | lock
  | magic
  | pageSize
  | minShift
  | size
  | slots
  | pages
  | pageCount
  | start
  | freePages
deriving DecidableEq

def HeaderWord.index : HeaderWord → Nat
  | lock => 0
  | magic => 1
  | pageSize => 2
  | minShift => 3
  | size => 4
  | slots => 5
  | pages => 6
  | pageCount => 7
  | start => 8
  | freePages => 9

/-- Marks a finished header. -/
def magic : UInt64 := 0x4843534c41420001

def headerSize : Nat := 104

/-- The sentinel of the list of free runs. -/
def freeHead : Nat := 80

structure Layout where
  slots : Nat
  pages : Nat
  pageCount : Nat
  start : Nat
deriving DecidableEq

namespace Layout

def toList (l : Layout) : List Nat := [l.slots, l.pages, l.pageCount, l.start]

/-- The layout of a region of `len` bytes, unless it cannot hold the bookkeeping and a page. The
page count is estimated from the bytes a page and its descriptor take together; padding the
descriptors to a page boundary may then cost a page. -/
def compute (c : Config) (len : Nat) : Except Fault (Option Layout) := do
  let pages := headerSize + c.slotCount * descriptorSize
  if len ≤ pages then return none
  let estimate := (len - pages) / (c.pageSize + descriptorSize)
  let start ← c.page.alignUp (← Checked.add pages (← Checked.mul estimate descriptorSize))
  if len ≤ start then return none
  let count := min estimate ((len - start) >>> c.pageShift)
  if count = 0 then return none
  return some ⟨headerSize, pages, count, start⟩

end Layout

end SharedSlab.Slab
