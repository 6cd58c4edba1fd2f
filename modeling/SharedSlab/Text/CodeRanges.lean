set_option autoImplicit false

namespace SharedSlab.Text

/-- Closed ranges of code points, each as its first and its last. -/
abbrev CodeRanges := List (Nat × Nat)

namespace CodeRanges

def holds : CodeRanges → Nat → Bool
  | [], _ => false
  | (first, last) :: rest, n => if n ≤ last then first ≤ n else holds rest n

/-- No range starts below `n` or is empty, and between two of them there is a gap. -/
def ascend (n : Nat) : CodeRanges → Bool
  | [] => true
  | (first, last) :: rest => n ≤ first && first ≤ last && ascend (last + 2) rest

def size (ranges : CodeRanges) : Nat := ranges.foldr (fun r rest => r.2 + 1 - r.1 + rest) 0

theorem le_first_of_ascend {n : Nat} {ranges : CodeRanges} (h : ascend n ranges = true) :
    ∀ r ∈ ranges, n ≤ r.1 := by
  induction ranges generalizing n with
  | nil => simp
  | cons a rest ih =>
    simp only [ascend, Bool.and_eq_true, decide_eq_true_eq] at h
    intro r hr
    rcases List.mem_cons.1 hr with rfl | hr
    · exact h.1.1
    · have := ih h.2 r hr
      omega

theorem holds_iff {m n : Nat} {ranges : CodeRanges} (h : ascend m ranges = true) :
    holds ranges n = true ↔ ∃ r ∈ ranges, r.1 ≤ n ∧ n ≤ r.2 := by
  induction ranges generalizing m with
  | nil => simp [holds]
  | cons a rest ih =>
    simp only [ascend, Bool.and_eq_true, decide_eq_true_eq] at h
    have later := le_first_of_ascend h.2
    unfold holds
    split
    · rename_i below
      simp only [decide_eq_true_eq]
      constructor
      · intro above
        exact ⟨a, List.mem_cons_self, above, below⟩
      · rintro ⟨r, hr, above, -⟩
        rcases List.mem_cons.1 hr with rfl | hr
        · exact above
        · have := later r hr
          omega
    · rename_i past
      rw [ih h.2]
      constructor
      · rintro ⟨r, hr, bounds⟩
        exact ⟨r, List.mem_cons_of_mem _ hr, bounds⟩
      · rintro ⟨r, hr, bounds⟩
        rcases List.mem_cons.1 hr with rfl | hr
        · exact absurd bounds.2 past
        · exact ⟨r, hr, bounds⟩

end CodeRanges

end SharedSlab.Text
