import Mathlib.Data.Finset.Card
import Mathlib.Order.Interval.Finset.Nat
import SharedSlab.Proofs.LedgerJoin

set_option autoImplicit false

namespace SharedSlab.Slab.Ledger

variable {c : Config} {pageCount i j n : Nat} {a : Ledger}

def runPages (runs : List PageRun) : Finset Nat :=
  runs.foldr (fun r pages => Finset.Ico r.first r.finish ∪ pages) ∅

theorem mem_runPages {runs : List PageRun} :
    j ∈ runPages runs ↔ ∃ r ∈ runs, r.first ≤ j ∧ j < r.finish := by
  induction runs with
  | nil => simp [runPages]
  | cons r runs ih =>
    change j ∈ Finset.Ico r.first r.finish ∪ runPages runs ↔ _
    rw [Finset.mem_union, Finset.mem_Ico, ih]
    simp

/-- Runs may touch, as those that were given out do, but they have no page in common. -/
theorem card_runPages {runs : List PageRun}
    (apart : runs.Pairwise fun q r => q.finish ≤ r.first ∨ r.finish ≤ q.first) :
    (runPages runs).card = (runs.map PageRun.len).sum := by
  induction runs with
  | nil => rfl
  | cons r runs ih =>
    rw [List.pairwise_cons] at apart
    have hdisjoint : Disjoint (Finset.Ico r.first r.finish) (runPages runs) := by
      rw [Finset.disjoint_left]
      intro j hj hj'
      rw [Finset.mem_Ico] at hj
      obtain ⟨q, hq, low, high⟩ := mem_runPages.1 hj'
      rcases apart.1 q hq with h | h <;> omega
    change (Finset.Ico r.first r.finish ∪ runPages runs).card = _
    rw [Finset.card_union_of_disjoint hdisjoint, Nat.card_Ico, ih apart.2, List.map_cons,
      List.sum_cons, PageRun.finish, Nat.add_sub_cancel_left]

def freeSet (pageCount : Nat) (a : Ledger) : Finset Nat :=
  (Finset.range pageCount).filter fun j => a.use j = .free

theorem mem_freeSet : j ∈ freeSet pageCount a ↔ j < pageCount ∧ a.use j = .free := by
  simp [freeSet]

theorem Sound.freePages_eq_card (so : a.Sound c pageCount) :
    a.freePages = (freeSet pageCount a).card := by
  rw [freePages, ← card_runPages (so.apart.imp fun h => h.imp Nat.le_of_lt Nat.le_of_lt)]
  congr 1
  ext j
  rw [mem_runPages, mem_freeSet]
  constructor
  · rintro ⟨r, hr, low, high⟩
    exact ⟨high.trans_le (so.run_le r hr), so.run_free r hr j low high⟩
  · rintro ⟨hj, hfree⟩
    exact so.covered j hj hfree

theorem Sound.freePages_le (so : a.Sound c pageCount) : a.freePages ≤ pageCount := by
  rw [so.freePages_eq_card]
  exact (Finset.card_filter_le _ _).trans (Finset.card_range _).le

theorem card_freeSet_add {a b : Ledger} (hle : i + n ≤ pageCount)
    (inside : ∀ j, i ≤ j → j < i + n → a.use j ≠ .free ∧ b.use j = .free)
    (outside : ∀ j, ¬(i ≤ j ∧ j < i + n) → (b.use j = .free ↔ a.use j = .free)) :
    (freeSet pageCount b).card = (freeSet pageCount a).card + n := by
  have hunion : freeSet pageCount b = freeSet pageCount a ∪ Finset.Ico i (i + n) := by
    ext j
    rw [Finset.mem_union, mem_freeSet, mem_freeSet, Finset.mem_Ico]
    by_cases hin : i ≤ j ∧ j < i + n
    · have h := inside j hin.1 hin.2
      simp only [hin, h.2, and_self, or_true, and_true, iff_true]
      omega
    · simp only [outside j hin, hin, or_false]
  have hdisjoint : Disjoint (freeSet pageCount a) (Finset.Ico i (i + n)) := by
    rw [Finset.disjoint_left]
    intro j hj hj'
    rw [Finset.mem_Ico] at hj'
    exact (inside j hj'.1 hj'.2).1 (mem_freeSet.1 hj).2
  rw [hunion, Finset.card_union_of_disjoint hdisjoint, Nat.card_Ico, Nat.add_sub_cancel_left]

theorem freePages_take {a' : Ledger} (so : a.Sound c pageCount) (hn : 0 < n)
    (h : a.take n = some (i, a')) : a'.freePages + n = a.freePages := by
  have so' := so.take hn h
  obtain ⟨l₁, r, l₂, hruns, _, hlen, rfl, rfl⟩ := take_eq_some h
  have hr : r ∈ a.runs := by simp [hruns]
  have hle := so.run_le r hr
  have hfinish : r.finish = r.first + r.len := rfl
  rw [so'.freePages_eq_card, so.freePages_eq_card]
  refine (card_freeSet_add (i := r.first) (n := n) (b := a) (by omega)
    (fun j low high => ⟨?_, ?_⟩) fun j hin => ?_).symm
  · rcases Nat.eq_or_lt_of_le low with rfl | hlt
    · simp [holdRun_start]
    · simp [holdRun_rest hlt high]
  · exact so.run_free r hr j low (by omega)
  · exact (congrArg (· = PageUse.free) (holdRun_outside hn hin)).symm.to_iff

theorem freePages_give (so : a.Sound c pageCount) (hi : i < pageCount) (out : a.GivenOut i n) :
    (a.give i n).freePages = a.freePages + n := by
  rw [(so.give hi out).freePages_eq_card, so.freePages_eq_card]
  refine card_freeSet_add (so.givenOut_le hi out) (fun j low high => ⟨?_, ?_⟩) fun j hin => ?_
  · exact so.givenOut_not_free hi out low high
  · exact release_inside low high
  · exact (congrArg (· = PageUse.free) (release_outside hin)).to_iff

end SharedSlab.Slab.Ledger
