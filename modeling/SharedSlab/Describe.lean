import SharedSlab.SharedPool
import SharedSlab.Text.Quoted

set_option autoImplicit false

namespace SharedSlab

/-- The record of a handle leaves an apostrophe in its name alone, and writes all that does not print
by its code point. -/
def recordedName : Text.Quoting where
  marksApostrophe := false
  ascii := Text.codePoint

def optionText (value : Option String) : String :=
  match value with
  | some text => "Some(" ++ text ++ ")"
  | none => "None"

def Region.describe (r : Region) : String := s!"Region \x7b base: PTR, len: {r.len} \x7d"

def Slab.Pool.describe (p : Slab.Pool) : String :=
  s!"SlabPool \x7b region: {p.region.describe}, page_size: {p.config.pageSize}, " ++
    s!"page_count: {p.pageCount}, start: Offset({p.start}) \x7d"

namespace SharedPool

def describe (h : SharedPool) (pidText : Nat → String) (w : UInt64) : String :=
  let name := optionText (h.name?.map recordedName.text)
  let creator := optionText (h.creator.map pidText)
  s!"SharedPool \x7b name: {name}, size: {h.size}, creator: {creator}, " ++
    s!"mutex: {h.lock.describe pidText w} \x7d"

def describeGuard (h : SharedPool) : String :=
  s!"SharedPoolGuard \x7b pool: {optionText (h.name?.map recordedName.text)}, .. \x7d"

end SharedPool

end SharedSlab
