import SharedSlab.Proofs.LedgerRuns

set_option autoImplicit false

namespace SharedSlab.Slab.Ledger

variable {c : Config} {pageCount i j n shift : Nat} {a : Ledger} {q r : PageRun}

theorem joined_first (i n : Nat) (runs : List PageRun) :
    ((joined i n runs).first = i ∧ ∀ q ∈ runs, q.finish ≠ i) ∨
      ∃ b ∈ runs, b.finish = i ∧ (joined i n runs).first = b.first := by
  cases hb : runs.find? fun r => r.finish = i with
  | none =>
    left
    refine ⟨by simp [joined, hb], fun q hq => ?_⟩
    simpa using List.find?_eq_none.1 hb q hq
  | some b =>
    right
    exact ⟨b, List.mem_of_find?_eq_some hb, by simpa using List.find?_some hb, by simp [joined, hb]⟩

theorem joined_finish (i n : Nat) (runs : List PageRun) :
    ((joined i n runs).finish = i + n ∧ ∀ q ∈ runs, q.first ≠ i + n) ∨
      ∃ r ∈ runs, r.first = i + n ∧ (joined i n runs).finish = r.finish := by
  have hstart : ∀ len, (joined i n runs).len = n + len +
      ((runs.find? fun r => r.finish = i).map PageRun.len).getD 0 →
      (joined i n runs).finish = i + n + len := by
    intro len hlen
    cases hb : runs.find? fun r => r.finish = i with
    | none =>
      have hfirst : (joined i n runs).first = i := by simp [joined, hb]
      simp only [hb, Option.map_none, Option.getD_none] at hlen
      simp only [PageRun.finish] at *
      omega
    | some b =>
      have hfirst : (joined i n runs).first = b.first := by simp [joined, hb]
      have hfinish : b.finish = i := by simpa using List.find?_some hb
      simp only [hb, Option.map_some, Option.getD_some] at hlen
      simp only [PageRun.finish] at *
      omega
  cases ha : runs.find? fun r => r.first = i + n with
  | none =>
    left
    refine ⟨hstart 0 (by simp [joined, ha]), fun q hq => ?_⟩
    simpa using List.find?_eq_none.1 ha q hq
  | some r =>
    right
    have hfirst : r.first = i + n := by simpa using List.find?_some ha
    refine ⟨r, List.mem_of_find?_eq_some ha, hfirst, ?_⟩
    rw [hstart r.len (by simp [joined, ha]), PageRun.finish, hfirst]

/-- The runs that a joined run leaves in the list. -/
def keptRuns (i n : Nat) (runs : List PageRun) : List PageRun :=
  runs.filter fun r => r.first ≠ i + n ∧ r.finish ≠ i

theorem mem_keptRuns {runs : List PageRun} :
    q ∈ keptRuns i n runs ↔ q ∈ runs ∧ q.first ≠ i + n ∧ q.finish ≠ i := by
  simp [keptRuns]

theorem keptRuns_eq (i n : Nat) (runs : List PageRun) : keptRuns i n runs =
    (runs.filter fun q => q.first ≠ i + n).filter fun q => q.finish ≠ i := by
  rw [List.filter_filter, keptRuns]
  refine List.filter_congr fun q _ => ?_
  rw [Bool.decide_and, Bool.and_comm]

theorem release_outside (h : ¬(i ≤ j ∧ j < i + n)) : (a.release i n).use j = a.use j := if_neg h

theorem release_inside (low : i ≤ j) (high : j < i + n) : (a.release i n).use j = .free :=
  if_pos ⟨low, high⟩

theorem release_eq_other {u : PageUse} (h : (a.release i n).use j = u) (hu : u ≠ .free) :
    a.use j = u ∧ ¬(i ≤ j ∧ j < i + n) := by
  by_cases hin : i ≤ j ∧ j < i + n
  · exact absurd (h.symm.trans (release_inside hin.1 hin.2)) hu
  · exact ⟨(release_outside hin).symm.trans h, hin⟩

theorem mem_unlist {listed : Nat → List Nat} :
    j ∈ unlist i listed shift ↔ j ∈ listed shift ∧ j ≠ i := by
  simp [unlist]

namespace Coherent

theorem unlist (co : a.Coherent c pageCount) (i : Nat) :
    Coherent c pageCount { a with listed := unlist i a.listed } :=
  { co with
    listed_lt := fun shift j hj => co.listed_lt shift j (mem_unlist.1 hj).1
    listed_class := fun shift j hj => co.listed_class shift j (mem_unlist.1 hj).1
    listed_use := fun shift j hj => co.listed_use shift j (mem_unlist.1 hj).1
    listed_nodup := fun shift => (co.listed_nodup shift).filter _ }

theorem release (co : a.Coherent c pageCount) (inner : ∀ j shift, i < j → j < i + n →
    j ∉ a.listed shift) : Coherent c pageCount (a.release i n) := by
  refine { co.unlist i with run_free := ?_, listed_use := ?_ }
  · intro r hr j low high
    by_cases hin : i ≤ j ∧ j < i + n
    · exact release_inside hin.1 hin.2
    · exact (release_outside hin).trans (co.run_free r hr j low high)
  · intro shift j hj
    obtain ⟨hmem, hne⟩ := mem_unlist.1 hj
    obtain ⟨taken, htaken⟩ := co.listed_use shift j hmem
    refine ⟨taken, (release_outside fun hin => ?_).trans htaken⟩
    exact inner j shift (by omega) hin.2 hmem

theorem insertRun (co : a.Coherent c pageCount) (hpos : 0 < r.len) (hle : r.finish ≤ pageCount)
    (hfree : ∀ j, r.first ≤ j → j < r.finish → a.use j = .free)
    (hapart : ∀ q ∈ a.runs, r.Apart q) : Coherent c pageCount { a with runs := r :: a.runs } := by
  refine { co with run_pos := ?_, run_le := ?_, run_free := ?_, apart := ?_ }
  · intro q hq
    rcases List.mem_cons.1 hq with rfl | hq
    · exact hpos
    · exact co.run_pos q hq
  · intro q hq
    rcases List.mem_cons.1 hq with rfl | hq
    · exact hle
    · exact co.run_le q hq
  · intro q hq
    rcases List.mem_cons.1 hq with rfl | hq
    · exact hfree
    · exact co.run_free q hq
  · exact List.pairwise_cons.2 ⟨hapart, co.apart⟩

theorem joined_bounds (co : a.Coherent c pageCount) (i n : Nat) :
    (joined i n a.runs).first ≤ i ∧ i + n ≤ (joined i n a.runs).finish := by
  constructor
  · rcases joined_first i n a.runs with ⟨h, _⟩ | ⟨b, hb, hfinish, h⟩
    · exact h.le
    · have hlt := co.first_lt_finish hb
      omega
  · rcases joined_finish i n a.runs with ⟨h, _⟩ | ⟨r, hr, hfirst, h⟩
    · exact h.ge
    · have hlt := co.first_lt_finish hr
      omega

theorem joined_le (co : a.Coherent c pageCount) (hle : i + n ≤ pageCount) :
    (joined i n a.runs).finish ≤ pageCount := by
  rcases joined_finish i n a.runs with ⟨h, _⟩ | ⟨r, hr, _, h⟩
  · exact h.trans_le hle
  · exact h.trans_le (co.run_le r hr)

/-- The pages of the joined run: those given back, and those of the runs it was joined from. -/
theorem mem_joined_iff (co : a.Coherent c pageCount) (hn : 0 < n) :
    (joined i n a.runs).first ≤ j ∧ j < (joined i n a.runs).finish ↔
    (i ≤ j ∧ j < i + n) ∨
      ∃ r ∈ a.runs, (r.first = i + n ∨ r.finish = i) ∧ r.first ≤ j ∧ j < r.finish := by
  have hbounds := co.joined_bounds i n
  constructor
  · rintro ⟨low, high⟩
    by_cases hlow : j < i
    · right
      rcases joined_first i n a.runs with ⟨h, _⟩ | ⟨b, hb, hbi, h⟩
      · omega
      · exact ⟨b, hb, .inr hbi, by omega, by omega⟩
    · by_cases hhigh : j < i + n
      · exact .inl ⟨by omega, hhigh⟩
      · right
        rcases joined_finish i n a.runs with ⟨h, _⟩ | ⟨r, hr, hri, h⟩
        · omega
        · exact ⟨r, hr, .inl hri, by omega, by omega⟩
  · rintro (⟨low, high⟩ | ⟨q, hq, hends, low, high⟩)
    · omega
    · have hlt := co.first_lt_finish hq
      rcases hends with hfirst | hfinish
      · rcases joined_finish i n a.runs with ⟨_, hno⟩ | ⟨r, hr, hri, h⟩
        · exact absurd hfirst (hno q hq)
        · have heq := co.run_eq_of_first_eq hq hr (hfirst.trans hri.symm)
          subst heq
          omega
      · rcases joined_first i n a.runs with ⟨_, hno⟩ | ⟨b, hb, hbi, h⟩
        · exact absurd hfinish (hno q hq)
        · have hltb := co.first_lt_finish hb
          have heq := co.run_unique (j := i - 1) hq hb (by omega) (by omega)
          subst heq
          omega

theorem joined_pos (co : a.Coherent c pageCount) (hn : 0 < n) : 0 < (joined i n a.runs).len := by
  have hbounds := co.joined_bounds i n
  simp only [PageRun.finish] at hbounds
  omega

theorem joined_free (co : a.Coherent c pageCount) (hn : 0 < n)
    (inner : ∀ j shift, i < j → j < i + n → j ∉ a.listed shift) (j : Nat)
    (low : (joined i n a.runs).first ≤ j) (high : j < (joined i n a.runs).finish) :
    (a.release i n).use j = .free := by
  rcases (co.mem_joined_iff hn).1 ⟨low, high⟩ with ⟨low, high⟩ | ⟨r, hr, _, low, high⟩
  · exact release_inside low high
  · exact (co.release inner).run_free r hr j low high

theorem kept (co : a.Coherent c pageCount)
    (inner : ∀ j shift, i < j → j < i + n → j ∉ a.listed shift) :
    Coherent c pageCount { a.release i n with runs := keptRuns i n a.runs } :=
  (co.release inner).withRuns_sublist List.filter_sublist

section Join

variable (co : a.Coherent c pageCount) (hn : 0 < n) (hle : i + n ≤ pageCount)
  (hout : ∀ j, i ≤ j → j < i + n → ¬a.InRun j)
include co hn hout

theorem run_beside (hr : r ∈ a.runs) : r.finish ≤ i ∨ i + n ≤ r.first := by
  have hlt := co.first_lt_finish hr
  by_contra hboth
  rw [not_or, not_le, not_le] at hboth
  exact hout (max i r.first) (by omega) (by omega) ⟨r, hr, by omega, by omega⟩

theorem joined_apart (hq : q ∈ keptRuns i n a.runs) : (joined i n a.runs).Apart q := by
  obtain ⟨hq, hfirst, hfinish⟩ := mem_keptRuns.1 hq
  have hlt := co.first_lt_finish hq
  rcases co.run_beside hn hout hq with hside | hside
  · right
    rcases joined_first i n a.runs with ⟨h, _⟩ | ⟨b, hb, hbi, h⟩
    · omega
    · have hne : q ≠ b := fun e => hfinish (e ▸ hbi)
      rcases co.apart.forall hq hb hne with hab | hab <;> omega
  · left
    rcases joined_finish i n a.runs with ⟨h, _⟩ | ⟨r, hr, hri, h⟩
    · omega
    · have hne : q ≠ r := fun e => hfirst (e ▸ hri)
      have hltr := co.first_lt_finish hr
      rcases co.apart.forall hq hr hne with hab | hab <;> omega

include hle

theorem give (inner : ∀ j shift, i < j → j < i + n → j ∉ a.listed shift) :
    Coherent c pageCount (a.give i n) :=
  (co.kept inner).insertRun (co.joined_pos hn) (co.joined_le hle) (co.joined_free hn inner)
    fun _ hq => co.joined_apart hn hout hq

end Join

end Coherent

/-- The pages of a run that was given out, or one page of a class. -/
def GivenOut (a : Ledger) (i n : Nat) : Prop :=
  a.use i = .runStart n ∨ n = 1 ∧ ∃ shift taken, a.use i = .chunks shift taken

namespace Sound

section Give

variable (so : a.Sound c pageCount) (hi : i < pageCount) (out : a.GivenOut i n)
include so hi out

theorem givenOut_pos : 0 < n := by
  rcases out with h | ⟨rfl, _⟩
  · exact so.start_pos i hi n h
  · decide

theorem givenOut_le : i + n ≤ pageCount := by
  rcases out with h | ⟨rfl, _⟩
  · exact so.start_le i hi n h
  · exact hi

theorem givenOut_rest (low : i < j) (high : j < i + n) : a.use j = .runRest := by
  rcases out with h | ⟨rfl, _⟩
  · exact so.start_rest i hi n h j low high
  · omega

theorem givenOut_not_free (low : i ≤ j) (high : j < i + n) : a.use j ≠ .free := by
  rcases Nat.eq_or_lt_of_le low with rfl | hlt
  · rcases out with h | ⟨_, shift, taken, h⟩ <;> simp [h]
  · simp [so.givenOut_rest hi out hlt high]

theorem givenOut_not_inRun (low : i ≤ j) (high : j < i + n) : ¬a.InRun j :=
  so.toCoherent.not_inRun (so.givenOut_not_free hi out low high)

theorem givenOut_inner (shift : Nat) (low : i < j) (high : j < i + n) : j ∉ a.listed shift := by
  intro hmem
  obtain ⟨taken, htaken⟩ := so.listed_use shift j hmem
  cases (so.givenOut_rest hi out low high).symm.trans htaken

theorem covered_give (hj : j < pageCount) (hfree : (a.release i n).use j = .free) :
    ∃ q ∈ joinRuns i n a.runs, q.first ≤ j ∧ j < q.finish := by
  have co := so.toCoherent
  have hn := so.givenOut_pos hi out
  by_cases hin : i ≤ j ∧ j < i + n
  · obtain ⟨low, high⟩ := (co.mem_joined_iff hn).2 (.inl hin)
    exact ⟨_, List.mem_cons_self, low, high⟩
  · obtain ⟨q, hq, low, high⟩ := so.covered j hj ((release_outside hin).symm.trans hfree)
    by_cases hends : q.first = i + n ∨ q.finish = i
    · obtain ⟨low, high⟩ := (co.mem_joined_iff hn).2 (.inr ⟨q, hq, hends, low, high⟩)
      exact ⟨_, List.mem_cons_self, low, high⟩
    · rw [not_or] at hends
      exact ⟨q, List.mem_cons_of_mem _ (mem_keptRuns.2 ⟨hq, hends⟩), low, high⟩

theorem give : (a.give i n).Sound c pageCount := by
  have hn := so.givenOut_pos hi out
  have hle := so.givenOut_le hi out
  have hout := fun j low high => so.givenOut_not_inRun (j := j) hi out low high
  have co := so.toCoherent
  have hnow : ∀ j u, (a.give i n).use j = u → u ≠ .free →
      a.use j = u ∧ ¬(i ≤ j ∧ j < i + n) := fun _ _ => release_eq_other
  have hkeep : ∀ j u, a.use j = u → ¬(i ≤ j ∧ j < i + n) → (a.give i n).use j = u :=
    fun j u hu hin => (release_outside hin).trans hu
  refine { co.give hn hle hout fun j shift low high => so.givenOut_inner hi out shift low high with
    covered := ?_, start_pos := ?_, start_le := ?_, start_rest := ?_, rest_start := ?_
    chunks_class := ?_, chunks_le := ?_, chunks_ge := ?_, listed_iff := ?_ }
  · exact fun j hj hfree => so.covered_give hi out hj hfree
  · exact fun j hj k hk => so.start_pos j hj k (hnow j _ hk (by simp)).1
  · exact fun j hj k hk => so.start_le j hj k (hnow j _ hk (by simp)).1
  · intro j hj k hk x low high
    obtain ⟨hstart, hin⟩ := hnow j _ hk (by simp)
    have hrest := so.start_rest j hj k hstart x low high
    refine hkeep x _ hrest fun hx => ?_
    -- the run of `j` would hold the first page given back, which starts a run or a class page
    have hij : j < i := by omega
    have hi' := so.start_rest j hj k hstart i hij (by omega)
    rcases out with h | ⟨_, shift, taken, h⟩ <;> simp [h] at hi'
  · intro j hj hrest
    obtain ⟨hrest, hin⟩ := hnow j _ hrest (by simp)
    obtain ⟨x, k, hstart, low, high⟩ := so.rest_start j hj hrest
    refine ⟨x, k, hkeep x _ hstart fun hx => ?_, low, high⟩
    rcases Nat.eq_or_lt_of_le hx.1 with rfl | hlt
    · rcases out with h | ⟨_, shift, taken, h⟩
      · cases h.symm.trans hstart
        omega
      · cases h.symm.trans hstart
    · cases (so.givenOut_rest hi out hlt hx.2).symm.trans hstart
  · exact fun j hj shift taken hu => so.chunks_class j hj shift taken (hnow j _ hu (by simp)).1
  · exact fun j hj shift taken hu => so.chunks_le j hj shift taken (hnow j _ hu (by simp)).1
  · exact fun j hj shift taken hu => so.chunks_ge j hj shift taken (hnow j _ hu (by simp)).1
  · intro j hj shift taken hu
    obtain ⟨hu, hin⟩ := hnow j _ hu (by simp)
    rw [← so.listed_iff j hj shift taken hu]
    exact mem_unlist.trans ⟨fun h => h.1, fun h => ⟨h, by omega⟩⟩

end Give

end Sound

end SharedSlab.Slab.Ledger
