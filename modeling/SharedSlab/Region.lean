import SharedSlab.Error
import SharedSlab.Offset

set_option autoImplicit false

namespace SharedSlab

structure BlockShape where
  size : Nat
  align : Nat
deriving DecidableEq

namespace BlockShape

/-- The alignment has to be a power of two, and the size rounded up to it at most `2 ^ 63 - 1`. -/
def of? (size align : Nat) : Option BlockShape :=
  if 1 <<< align.log2 = align ∧ size + align ≤ 0x8000000000000000 then some ⟨size, align⟩
  else none

end BlockShape

/-- The end of a region is an address too: `base + len` is below `wordLimit`. -/
structure Region where
  base : Nat
  len : Nat
deriving DecidableEq

namespace Region

def ofAddress (base len : Nat) : Except Fault Region :=
  if base % 8 = 0 then .ok ⟨base, len⟩ else .error .misaligned

def isEmpty (r : Region) : Bool := r.len == 0

/-- The address of an offset. The offset may be the region's end, but not beyond it. -/
def addressOf (r : Region) (off : Nat) : Except Fault Nat :=
  if off ≤ r.len then .ok (r.base + off) else .error .outOfRegion

def offsetOf? (r : Region) (address : Nat) : Option Nat :=
  if r.base ≤ address ∧ address < r.base + r.len then some (address - r.base) else none

def contains (r : Region) (address : Nat) : Bool := (r.offsetOf? address).isSome

theorem offsetOf?_base_add {r : Region} {off : Nat} (h : off < r.len) :
    r.offsetOf? (r.base + off) = some off := by
  rw [offsetOf?, if_pos ⟨Nat.le_add_right _ _, by omega⟩, Nat.add_sub_cancel_left]

theorem offsetOf?_eq_some_iff {r : Region} {address : Nat} {off : Nat} :
    r.offsetOf? address = some off ↔ address = r.base + off ∧ off < r.len := by
  rw [offsetOf?]
  split
  · simp only [Option.some.injEq]; omega
  · simp only [reduceCtorEq, false_iff]; omega

end Region

/-- The memory of the host, 32 GiB. What has no name behind it has to be there in full, so blocks
that reach this size are never granted. -/
def memoryLimit : Nat := 0x800000000

/-- Zeroed private memory with a given alignment: its address range. The address is the least
multiple of the alignment that is no less than the smallest alignment the heap grants. -/
def Region.onHeap (size align : Nat) : Except PoolError Region :=
  if size = 0 then .error .invalidSize
  else match BlockShape.of? size align with
    | none => .error .notAligned
    | some shape =>
      if memoryLimit ≤ shape.size + shape.align then .error .outOfMemory
      else .ok ⟨max shape.align 16, shape.size⟩

end SharedSlab
