import SharedSlab.Bits
import SharedSlab.Offset

set_option autoImplicit false

/-!
# Page descriptors

Every payload page has a descriptor of three words, and a list sentinel has the same form:

* `slab`, whose meaning depends on the page kind;
* `prev`, the offset of the previous list node with the page kind in the low two bits, which are
  free because nodes are multiples of eight;
* `next`, the offset of the next list node, zero while the page is on no list.
-/

namespace SharedSlab.Slab

/-- How the `slab` word of a page, and its payload, are read. -/
inductive PageKind where
  /-- A run of whole pages: `slab` is the length of a free run, or that length with `runStart` for
  an allocated one, or `runInterior`. -/
  | page
  /-- Chunks above the exact size: the upper half of `slab` is the occupancy, the low bits the
  chunk shift. -/
  | big
  /-- Chunks of a 64th of a page: `slab` is the occupancy. -/
  | exact
  /-- Chunks below the exact size: `slab` is the chunk shift, and the occupancy is kept at the
  start of the page itself. -/
  | small
deriving DecidableEq

namespace PageKind

def tag : PageKind → UInt64
  | page => 0
  | big => 1
  | exact => 2
  | small => 3

def ofTag (w : UInt64) : PageKind :=
  let low := w &&& 3
  if low = 0 then page else if low = 1 then big else if low = 2 then exact else small

def name : PageKind → String
  | page => "page"
  | big => "big"
  | exact => "exact"
  | small => "small"

theorem ofTag_tag (k : PageKind) : ofTag k.tag = k := by cases k <;> decide

end PageKind

inductive Field where
  | slab
  | prev
  | next
deriving DecidableEq

def Field.index : Field → Nat
  | slab => 0
  | prev => 1
  | next => 2

def descriptorSize : Nat := 24

/-- `slab` inside an allocated run, after its first page. -/
def runInterior : UInt64 := Bits.full
/-- Set in `slab` of the first page of an allocated run. -/
def runStart : UInt64 := 0x8000000000000000
def shiftMask : UInt64 := 0x1f
def mapMask : UInt64 := 0xffffffff00000000
def mapShift : Nat := 32

/-- A `prev` word: a link and a kind. The link may not use the bits of the kind. -/
def packPrev (link : Nat) (kind : PageKind) : Except Fault UInt64 :=
  if link % 4 = 0 then .ok (UInt64.ofNat link ||| kind.tag) else .error .taggedLink

def prevLink (w : UInt64) : Nat := (w &&& 0xfffffffffffffffc).toNat

/-- Word `index` of a bitmap whose first `count` bits are set and no other. -/
def prefixWord (index count : Nat) : Except Fault UInt64 := do
  let low ← Checked.mul index 64
  if count ≤ low then return 0
  let high ← Checked.add low 64
  if high ≤ count then return Bits.full
  return Bits.low (count - low)

end SharedSlab.Slab
