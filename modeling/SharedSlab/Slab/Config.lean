import SharedSlab.Geometry

set_option autoImplicit false

namespace SharedSlab.Slab

/-- A page of 1 KiB to 1 MiB whose smallest chunk is of at least 8 bytes and below the exact
size. -/
structure Config where
  page : Geometry
  minShift : Nat
  page_ge : 10 ≤ page.shift
  page_le : page.shift ≤ 20
  min_ge : 3 ≤ minShift
  min_lt : minShift + 6 < page.shift
deriving DecidableEq

namespace Config

def defaultMinShift : Nat := 3

def of (page : Geometry) (minShift : Nat) : Except PoolError Config :=
  if h : 10 ≤ page.shift ∧ page.shift ≤ 20 ∧ 3 ≤ minShift ∧ minShift + 6 < page.shift then
    .ok ⟨page, minShift, h.1, h.2.1, h.2.2.1, h.2.2.2⟩
  else .error .invalidSize

def host : Config := ⟨Geometry.host, 3, by decide, by decide, by decide, by decide⟩

def ofPageSize (size : Nat) : Except PoolError Config :=
  match Geometry.ofSize size with
  | .error _ => .error .invalidSize
  | .ok page => of page defaultMinShift

def withMinShift (c : Config) (minShift : Nat) : Except PoolError Config := of c.page minShift

def pageSize (c : Config) : Nat := c.page.size
def pageShift (c : Config) : Nat := c.page.shift
def minSize (c : Config) : Nat := 1 <<< c.minShift
def exactShift (c : Config) : Nat := c.page.shift - 6
def exactSize (c : Config) : Nat := 1 <<< c.exactShift
def maxSize (c : Config) : Nat := c.pageSize / 2
def slotCount (c : Config) : Nat := c.page.shift - c.minShift

/-- The class of a request: the least shift, no less than the smallest, that holds `size`. -/
def shiftFor (c : Config) (size : Nat) : Nat :=
  if size ≤ c.minSize then c.minShift else (size - 1).log2 + 1

def bitmapWords (c : Config) (shift : Nat) : Except Fault Nat := do
  return (← Checked.shiftRight c.pageSize shift) / 64

/-- Chunks of a small page that its own bitmap takes, at least one. -/
def reservedChunks (c : Config) (shift : Nat) : Except Fault Nat := do
  let chunks ← Checked.shiftRight c.pageSize shift
  let n ← Checked.div chunks (← Checked.shiftLeft 8 shift)
  return if n = 0 then 1 else n

end Config

end SharedSlab.Slab
