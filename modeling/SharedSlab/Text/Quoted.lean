import SharedSlab.Hex
import SharedSlab.Text.DefaultIgnorable
import SharedSlab.Text.ExtendingMark
import SharedSlab.Text.Unprintable

set_option autoImplicit false

namespace SharedSlab.Text

def isPlain (c : Char) : Bool :=
  !unprintable.holds c.toNat && !defaultIgnorable.holds c.toNat && !extendingMarks.holds c.toNat

def mark? (c : Char) : Option Char :=
  match c.toNat with
  | 0x00 => some '0'
  | 0x09 => some 't'
  | 0x0a => some 'n'
  | 0x0d => some 'r'
  | 0x22 | 0x5c => some c
  | _ => none

def codePoint (c : Char) : String := s!"\\u\x7b{Hex.digits c.toNat}\x7d"

structure Quoting where
  /-- Whether an apostrophe, which needs no mark between double quotes, has one nevertheless. -/
  marksApostrophe : Bool
  ascii : Char → String

namespace Quoting

def char (q : Quoting) (c : Char) : String :=
  match mark? c with
  | some m => s!"\\{m}"
  | none =>
    if c.toNat = 0x27 ∧ q.marksApostrophe then s!"\\{c}"
    else if isPlain c then c.toString
    else if c.toNat < 0x80 then q.ascii c
    else codePoint c

def text (q : Quoting) (s : String) : String :=
  s.toList.foldl (fun out c => out ++ q.char c) "\"" ++ "\""

end Quoting

theorem isPlain_iff (c : Char) :
    isPlain c = true ↔ ∀ r ∈ unprintable ++ defaultIgnorable ++ extendingMarks,
      ¬(r.1 ≤ c.toNat ∧ c.toNat ≤ r.2) := by
  have outside : ∀ {n : Nat} {t : CodeRanges}, t.ascend 0 = true →
      (t.holds n = false ↔ ∀ r ∈ t, ¬(r.1 ≤ n ∧ n ≤ r.2)) := by
    intro n t h
    rw [← Bool.not_eq_true, CodeRanges.holds_iff h]
    simp only [not_exists, not_and]
  simp only [isPlain, Bool.and_eq_true, Bool.not_eq_true', outside unprintable_ascend,
    outside defaultIgnorable_ascend, outside extendingMarks_ascend, List.mem_append, or_imp,
    forall_and]

end SharedSlab.Text
