import Mathlib.Algebra.BigOperators.Group.List.Basic
import Mathlib.Data.List.Pairwise
import SharedSlab.Proofs.Ledger

set_option autoImplicit false

/-!
# Runs and lists of a ledger

`Coherent` is what holds between the steps of an operation: free runs are made of free pages and
keep a page between them, and a listed page belongs to the class of its list. `Sound` holds between
operations: every page is accounted for.
-/

namespace SharedSlab.Slab

/-- Runs that neither overlap nor touch. -/
def PageRun.Apart (q r : PageRun) : Prop := q.finish < r.first ∨ r.finish < q.first

instance : Std.Symm PageRun.Apart := ⟨fun _ _ h => h.symm⟩

namespace Ledger

variable {c : Config} {pageCount i j n shift : Nat} {a : Ledger} {q r : PageRun}

def InRun (a : Ledger) (j : Nat) : Prop := ∃ r ∈ a.runs, r.first ≤ j ∧ j < r.finish

/-- A page whose descriptor is on a list. -/
def Linked (a : Ledger) (i : Nat) : Prop :=
  (∃ r ∈ a.runs, r.first = i) ∨ ∃ shift, i ∈ a.listed shift

structure Coherent (c : Config) (pageCount : Nat) (a : Ledger) : Prop where
  run_pos : ∀ r ∈ a.runs, 0 < r.len
  run_le : ∀ r ∈ a.runs, r.finish ≤ pageCount
  run_free : ∀ r ∈ a.runs, ∀ j, r.first ≤ j → j < r.finish → a.use j = .free
  apart : a.runs.Pairwise PageRun.Apart
  listed_lt : ∀ shift, ∀ i ∈ a.listed shift, i < pageCount
  listed_class : ∀ shift, ∀ i ∈ a.listed shift, c.IsClass shift
  listed_use : ∀ shift, ∀ i ∈ a.listed shift, ∃ taken, a.use i = .chunks shift taken
  listed_nodup : ∀ shift, (a.listed shift).Nodup

structure Sound (c : Config) (pageCount : Nat) (a : Ledger) : Prop extends
    Coherent c pageCount a where
  covered : ∀ i < pageCount, a.use i = .free → a.InRun i
  start_pos : ∀ i < pageCount, ∀ n, a.use i = .runStart n → 0 < n
  start_le : ∀ i < pageCount, ∀ n, a.use i = .runStart n → i + n ≤ pageCount
  start_rest : ∀ i < pageCount, ∀ n, a.use i = .runStart n →
    ∀ j, i < j → j < i + n → a.use j = .runRest
  rest_start : ∀ j < pageCount, a.use j = .runRest →
    ∃ i n, a.use i = .runStart n ∧ i < j ∧ j < i + n
  chunks_class : ∀ i < pageCount, ∀ shift taken, a.use i = .chunks shift taken → c.IsClass shift
  chunks_le : ∀ i < pageCount, ∀ shift taken, a.use i = .chunks shift taken →
    taken ⊆ Finset.range (c.chunkCount shift)
  chunks_ge : ∀ i < pageCount, ∀ shift taken, a.use i = .chunks shift taken →
    Finset.range (c.reserved shift) ⊆ taken
  listed_iff : ∀ i < pageCount, ∀ shift taken, a.use i = .chunks shift taken →
    (i ∈ a.listed shift ↔ taken ≠ Finset.range (c.chunkCount shift))

/-- No page is kept for its reserved chunks alone. -/
def NoneIdle (c : Config) (pageCount : Nat) (a : Ledger) : Prop :=
  ∀ i < pageCount, ∀ shift taken, a.use i = .chunks shift taken →
    taken ≠ Finset.range (c.reserved shift)

namespace Coherent

variable (co : a.Coherent c pageCount)
include co

theorem run_unique (hq : q ∈ a.runs) (hr : r ∈ a.runs) (hqj : q.first ≤ j ∧ j < q.finish)
    (hrj : r.first ≤ j ∧ j < r.finish) : q = r := by
  by_contra hne
  rcases co.apart.forall hq hr hne with h | h <;> omega

theorem first_lt_finish (hr : r ∈ a.runs) : r.first < r.finish := by
  have hpos := co.run_pos r hr
  simp only [PageRun.finish]
  omega

theorem first_lt (hr : r ∈ a.runs) : r.first < pageCount :=
  (co.first_lt_finish hr).trans_le (co.run_le r hr)

theorem run_eq_of_first_eq (hq : q ∈ a.runs) (hr : r ∈ a.runs) (h : q.first = r.first) : q = r :=
  co.run_unique (j := r.first) hq hr ⟨h.le, h ▸ co.first_lt_finish hq⟩
    ⟨le_refl _, co.first_lt_finish hr⟩

theorem not_listed_of_free (h : a.use i = .free) : i ∉ a.listed shift := by
  intro hmem
  obtain ⟨taken, htaken⟩ := co.listed_use shift i hmem
  rw [h] at htaken
  cases htaken

theorem not_linked_of_inner (hr : r ∈ a.runs) (low : r.first < j) (high : j < r.finish) :
    ¬a.Linked j := by
  rintro (⟨q, hq, hfirst⟩ | ⟨shift, hmem⟩)
  · have heq := co.run_unique hq hr ⟨hfirst.le, hfirst ▸ co.first_lt_finish hq⟩ ⟨low.le, high⟩
    rw [← heq] at low
    omega
  · exact co.not_listed_of_free (co.run_free r hr j low.le high) hmem

theorem not_linked_of_held (h : a.use i = .runRest ∨ ∃ n, a.use i = .runStart n) :
    ¬a.Linked i := by
  have hfree : a.use i ≠ .free := by
    rcases h with h | ⟨n, h⟩ <;> simp [h]
  rintro (⟨r, hr, rfl⟩ | ⟨shift, hmem⟩)
  · exact hfree (co.run_free r hr r.first (le_refl _) (co.first_lt_finish hr))
  · obtain ⟨taken, htaken⟩ := co.listed_use shift i hmem
    rcases h with h | ⟨n, h⟩ <;> simp [h] at htaken

theorem not_linked_of_free (h : a.use i = .free) (hout : ¬a.InRun i) : ¬a.Linked i := by
  rintro (⟨r, hr, rfl⟩ | ⟨shift, hmem⟩)
  · exact hout ⟨r, hr, le_refl _, co.first_lt_finish hr⟩
  · exact co.not_listed_of_free h hmem

theorem linked_iff_of_chunks {taken : Finset Nat} (h : a.use i = .chunks shift taken) :
    a.Linked i ↔ i ∈ a.listed shift := by
  constructor
  · rintro (⟨r, hr, rfl⟩ | ⟨shift', hmem⟩)
    · rw [co.run_free r hr r.first (le_refl _) (co.first_lt_finish hr)] at h
      cases h
    · obtain ⟨taken', htaken⟩ := co.listed_use shift' i hmem
      rw [h] at htaken
      cases htaken
      exact hmem
  · exact fun hmem => .inr ⟨shift, hmem⟩

theorem not_inRun (h : a.use i ≠ .free) : ¬a.InRun i :=
  fun ⟨r, hr, low, high⟩ => h (co.run_free r hr i low high)

theorem firsts_nodup : (a.runs.map PageRun.first).Nodup := by
  rw [List.nodup_map_iff_inj_on]
  · exact fun q hq r hr h => co.run_eq_of_first_eq hq hr h
  · refine co.apart.imp_of_mem fun {q r} hq hr hapart heq => ?_
    have hlt := co.first_lt_finish hr
    subst heq
    rcases hapart with h | h <;> omega

theorem runs_nodup : a.runs.Nodup := co.firsts_nodup.of_map _

theorem mem_of_beside {l₁ l₂ : List PageRun} (hruns : a.runs = l₁ ++ r :: l₂)
    (hq : q ∈ l₁ ∨ q ∈ l₂) : q ∈ a.runs ∧ q ≠ r := by
  have hnodup := co.runs_nodup
  rw [hruns, List.nodup_middle, List.nodup_cons, List.mem_append] at hnodup
  refine ⟨?_, fun heq => hnodup.1 (heq ▸ hq)⟩
  rw [hruns, List.mem_append, List.mem_cons]
  exact hq.imp_right .inr

theorem withRuns_sublist {runs : List PageRun} (h : runs.Sublist a.runs) :
    Coherent c pageCount { a with runs := runs } :=
  { co with
    run_pos := fun r hr => co.run_pos r (h.subset hr)
    run_le := fun r hr => co.run_le r (h.subset hr)
    run_free := fun r hr => co.run_free r (h.subset hr)
    apart := co.apart.sublist h }

end Coherent

theorem firstFit_eq_none_iff {runs : List PageRun} :
    firstFit n runs = none ↔ ∀ r ∈ runs, r.len < n := by
  induction runs with
  | nil => simp [firstFit]
  | cons r rest ih =>
    rw [firstFit]
    by_cases h : n ≤ r.len
    · simp [h]
    · simp [h, ih, Nat.lt_of_not_le h]

theorem firstFit_eq_some {runs runs' : List PageRun} (h : firstFit n runs = some (i, runs')) :
    ∃ l₁ r l₂, runs = l₁ ++ r :: l₂ ∧ (∀ q ∈ l₁, q.len < n) ∧ n ≤ r.len ∧ i = r.first ∧
      runs' = l₁ ++ (r.cut n ++ l₂) := by
  induction runs generalizing runs' with
  | nil => cases h
  | cons r rest ih =>
    rw [firstFit] at h
    by_cases hfit : n ≤ r.len
    · rw [if_pos hfit] at h
      cases h
      exact ⟨[], r, rest, rfl, by simp, hfit, rfl, rfl⟩
    · rw [if_neg hfit, Option.map_eq_some_iff] at h
      obtain ⟨⟨i', found⟩, hfound, heq⟩ := h
      cases heq
      obtain ⟨l₁, q, l₂, rfl, hsmall, hlen, rfl, rfl⟩ := ih hfound
      refine ⟨r :: l₁, q, l₂, rfl, ?_, hlen, rfl, rfl⟩
      intro x hx
      rcases List.mem_cons.1 hx with rfl | hx
      · omega
      · exact hsmall x hx

theorem PageRun.mem_cut_iff : q ∈ r.cut n ↔ n < r.len ∧ q = ⟨r.first + n, r.len - n⟩ := by
  rw [PageRun.cut]
  split <;> simp_all

theorem pairwise_apart_cut {l₁ l₂ : List PageRun} (h : (l₁ ++ r :: l₂).Pairwise PageRun.Apart)
    (hcut : n < r.len) :
    (l₁ ++ ⟨r.first + n, r.len - n⟩ :: l₂).Pairwise PageRun.Apart := by
  rw [List.pairwise_append, List.pairwise_cons] at h ⊢
  obtain ⟨hl₁, ⟨hrl₂, hl₂⟩, hcross⟩ := h
  refine ⟨hl₁, ⟨fun q hq => ?_, hl₂⟩, fun q hq x hx => ?_⟩
  · have hrq := hrl₂ q hq
    simp only [PageRun.Apart, PageRun.finish] at hrq ⊢
    omega
  · rcases List.mem_cons.1 hx with rfl | hx
    · have hqr := hcross q hq r List.mem_cons_self
      simp only [PageRun.Apart, PageRun.finish] at hqr ⊢
      omega
    · exact hcross q hq x (List.mem_cons_of_mem r hx)

namespace Coherent

theorem withRuns_cut {l₁ l₂ : List PageRun} (co : a.Coherent c pageCount)
    (hruns : a.runs = l₁ ++ r :: l₂) :
    Coherent c pageCount { a with runs := l₁ ++ (r.cut n ++ l₂) } := by
  by_cases hcut : n < r.len
  · have hr : r ∈ a.runs := by simp [hruns]
    have hcut' : r.cut n = [⟨r.first + n, r.len - n⟩] := if_pos hcut
    have hle := co.run_le r hr
    have hshape : ∀ q, q ∈ l₁ ++ (r.cut n ++ l₂) →
        q ∈ a.runs ∨ q = ⟨r.first + n, r.len - n⟩ := by
      intro q hq
      rw [hcut'] at hq
      rw [hruns]
      simp only [List.mem_append, List.mem_cons, List.not_mem_nil, or_false] at hq ⊢
      tauto
    simp only [PageRun.finish] at hle
    refine { co with run_pos := ?_, run_le := ?_, run_free := ?_, apart := ?_ }
    · intro q hq
      rcases hshape q hq with hq | rfl
      · exact co.run_pos q hq
      · exact Nat.sub_pos_of_lt hcut
    · intro q hq
      rcases hshape q hq with hq | rfl
      · exact co.run_le q hq
      · simp only [PageRun.finish]
        omega
    · intro q hq j low high
      rcases hshape q hq with hq | rfl
      · exact co.run_free q hq j low high
      · simp only [PageRun.finish] at low high
        exact co.run_free r hr j (by omega) (by simp only [PageRun.finish]; omega)
    · rw [hcut']
      exact pairwise_apart_cut (hruns ▸ co.apart) hcut
  · have hcut' : r.cut n = [] := if_neg hcut
    rw [hcut', List.nil_append]
    refine co.withRuns_sublist ?_
    rw [hruns]
    exact List.Sublist.append_left (List.sublist_cons_self r l₂) l₁

end Coherent

section HoldRun

variable {use : Nat → PageUse}

theorem holdRun_start (i n : Nat) (use : Nat → PageUse) : holdRun i n use i = .runStart n :=
  if_pos rfl

theorem holdRun_rest (low : i < j) (high : j < i + n) : holdRun i n use j = .runRest := by
  rw [holdRun, if_neg (by omega), if_pos ⟨low, high⟩]

theorem holdRun_outside (hn : 0 < n) (h : ¬(i ≤ j ∧ j < i + n)) : holdRun i n use j = use j := by
  rw [holdRun, if_neg (by omega), if_neg (by omega)]

section Cases

variable {k : Nat} {u : PageUse} (hn : 0 < n)
include hn

theorem holdRun_eq_start (h : holdRun i n use j = .runStart k) :
    (j = i ∧ k = n) ∨ (use j = .runStart k ∧ ¬(i ≤ j ∧ j < i + n)) := by
  by_cases hin : i ≤ j ∧ j < i + n
  · rcases Nat.eq_or_lt_of_le hin.1 with rfl | hlt
    · cases (holdRun_start i n use).symm.trans h
      exact .inl ⟨rfl, rfl⟩
    · cases (holdRun_rest hlt hin.2).symm.trans h
  · exact .inr ⟨(holdRun_outside hn hin).symm.trans h, hin⟩

theorem holdRun_eq_rest (h : holdRun i n use j = .runRest) :
    (i < j ∧ j < i + n) ∨ (use j = .runRest ∧ ¬(i ≤ j ∧ j < i + n)) := by
  by_cases hin : i ≤ j ∧ j < i + n
  · rcases Nat.eq_or_lt_of_le hin.1 with rfl | hlt
    · cases (holdRun_start i n use).symm.trans h
    · exact .inl ⟨hlt, hin.2⟩
  · exact .inr ⟨(holdRun_outside hn hin).symm.trans h, hin⟩

theorem holdRun_eq_other (h : holdRun i n use j = u) (hrest : u ≠ .runRest)
    (hstart : ∀ k, u ≠ .runStart k) : use j = u ∧ ¬(i ≤ j ∧ j < i + n) := by
  by_cases hin : i ≤ j ∧ j < i + n
  · rcases Nat.eq_or_lt_of_le hin.1 with rfl | hlt
    · exact absurd (h.symm.trans (holdRun_start i n use)) (hstart n)
    · exact absurd (h.symm.trans (holdRun_rest hlt hin.2)) hrest
  · exact ⟨(holdRun_outside hn hin).symm.trans h, hin⟩

end Cases

end HoldRun

namespace Coherent

theorem hold (co : a.Coherent c pageCount)
    (hfree : ∀ j, i ≤ j → j < i + n → a.use j = .free ∧ ¬a.InRun j) (hn : 0 < n) :
    Coherent c pageCount { a with use := holdRun i n a.use } := by
  have hsame : ∀ j, ¬(i ≤ j ∧ j < i + n) → holdRun i n a.use j = a.use j :=
    fun j hj => holdRun_outside hn hj
  refine { co with run_free := ?_, listed_use := ?_ }
  · intro r hr j low high
    refine (hsame j fun hj => ?_).trans (co.run_free r hr j low high)
    exact (hfree j hj.1 hj.2).2 ⟨r, hr, low, high⟩
  · intro shift j hj
    obtain ⟨taken, htaken⟩ := co.listed_use shift j hj
    refine ⟨taken, (hsame j fun hrange => ?_).trans htaken⟩
    rw [(hfree j hrange.1 hrange.2).1] at htaken
    cases htaken

end Coherent

theorem take_eq_some {a' : Ledger} (h : a.take n = some (i, a')) :
    ∃ l₁ r l₂, a.runs = l₁ ++ r :: l₂ ∧ (∀ q ∈ l₁, q.len < n) ∧ n ≤ r.len ∧ i = r.first ∧
      a' = { a with runs := l₁ ++ (r.cut n ++ l₂), use := holdRun i n a.use } := by
  rw [take, Option.map_eq_some_iff] at h
  obtain ⟨⟨i', runs'⟩, hfit, heq⟩ := h
  cases heq
  obtain ⟨l₁, r, l₂, hruns, hsmall, hlen, hi, rfl⟩ := firstFit_eq_some hfit
  exact ⟨l₁, r, l₂, hruns, hsmall, hlen, hi, rfl⟩

theorem take_eq_none_iff : a.take n = none ↔ ∀ r ∈ a.runs, r.len < n := by
  rw [take, Option.map_eq_none_iff, firstFit_eq_none_iff]

namespace Coherent

variable {l₁ l₂ : List PageRun}

theorem not_inRun_cut (co : a.Coherent c pageCount) (hruns : a.runs = l₁ ++ r :: l₂)
    (low : r.first ≤ j) (high : j < r.first + n) (hlen : n ≤ r.len) :
    ¬InRun { a with runs := l₁ ++ (r.cut n ++ l₂) } j := by
  have hr : r ∈ a.runs := by simp [hruns]
  rintro ⟨q, hq, hlow, hhigh⟩
  simp only [List.mem_append] at hq
  have hold : q ∈ l₁ ∨ q ∈ l₂ → False := by
    intro hmem
    obtain ⟨hq', hne⟩ := co.mem_of_beside hruns hmem
    exact hne (co.run_unique hq' hr ⟨hlow, hhigh⟩ ⟨low, by simp only [PageRun.finish]; omega⟩)
  rcases hq with hq | hq | hq
  · exact hold (.inl hq)
  · obtain ⟨_, rfl⟩ := PageRun.mem_cut_iff.1 hq
    change r.first + n ≤ j at hlow
    omega
  · exact hold (.inr hq)

theorem take (co : a.Coherent c pageCount) (hruns : a.runs = l₁ ++ r :: l₂) (hn : 0 < n)
    (hlen : n ≤ r.len) : Coherent c pageCount
      { a with runs := l₁ ++ (r.cut n ++ l₂), use := holdRun r.first n a.use } := by
  have hr : r ∈ a.runs := by simp [hruns]
  refine (co.withRuns_cut (n := n) hruns).hold (fun j low high => ⟨?_, ?_⟩) hn
  · exact co.run_free r hr j low (by simp only [PageRun.finish]; omega)
  · exact co.not_inRun_cut hruns low high hlen

end Coherent

theorem Sound.take {a' : Ledger} (so : a.Sound c pageCount) (hn : 0 < n)
    (h : a.take n = some (i, a')) : a'.Sound c pageCount := by
  obtain ⟨l₁, r, l₂, hruns, _, hlen, rfl, rfl⟩ := take_eq_some h
  have hr : r ∈ a.runs := by simp [hruns]
  have hle := so.run_le r hr
  have hfinish : r.finish = r.first + r.len := rfl
  have hwas : ∀ j, r.first ≤ j ∧ j < r.first + n → a.use j = .free := fun j hj =>
    so.run_free r hr j hj.1 (by omega)
  refine { so.toCoherent.take hruns hn hlen with
    covered := ?_, start_pos := ?_, start_le := ?_, start_rest := ?_, rest_start := ?_
    chunks_class := ?_, chunks_le := ?_, chunks_ge := ?_, listed_iff := ?_ }
  · intro j hj hfree
    obtain ⟨hfree, hout⟩ := holdRun_eq_other hn hfree (by simp) (by simp)
    obtain ⟨q, hq, low, high⟩ := so.covered j hj hfree
    rw [hruns] at hq
    simp only [List.mem_append, List.mem_cons] at hq
    rcases hq with hq | rfl | hq
    · exact ⟨q, by simp [hq], low, high⟩
    · -- the page lies behind those taken, in what is left of the run
      refine ⟨⟨q.first + n, q.len - n⟩, ?_, ?_⟩
      · have hcut := PageRun.mem_cut_iff.2 ⟨show n < q.len by omega, rfl⟩
        exact List.mem_append_right l₁ (List.mem_append_left l₂ hcut)
      · simp only [PageRun.finish]
        omega
    · exact ⟨q, by simp [hq], low, high⟩
  · intro j hj k hk
    rcases holdRun_eq_start hn hk with ⟨_, rfl⟩ | ⟨hk, _⟩
    · exact hn
    · exact so.start_pos j hj k hk
  · intro j hj k hk
    rcases holdRun_eq_start hn hk with ⟨rfl, rfl⟩ | ⟨hk, _⟩
    · omega
    · exact so.start_le j hj k hk
  · intro j hj k hk x low high
    rcases holdRun_eq_start hn hk with ⟨rfl, rfl⟩ | ⟨hk, _⟩
    · exact holdRun_rest low high
    · have hrest := so.start_rest j hj k hk x low high
      refine (holdRun_outside hn fun hx => ?_).trans hrest
      cases (hwas x hx).symm.trans hrest
  · intro j hj hrest
    rcases holdRun_eq_rest hn hrest with ⟨low, high⟩ | ⟨hrest, _⟩
    · exact ⟨r.first, n, holdRun_start _ _ _, low, high⟩
    · obtain ⟨i, k, hstart, low, high⟩ := so.rest_start j hj hrest
      refine ⟨i, k, (holdRun_outside hn fun hi => ?_).trans hstart, low, high⟩
      cases (hwas i hi).symm.trans hstart
  · exact fun j hj shift taken hu =>
      so.chunks_class j hj shift taken (holdRun_eq_other hn hu (by simp) (by simp)).1
  · exact fun j hj shift taken hu =>
      so.chunks_le j hj shift taken (holdRun_eq_other hn hu (by simp) (by simp)).1
  · exact fun j hj shift taken hu =>
      so.chunks_ge j hj shift taken (holdRun_eq_other hn hu (by simp) (by simp)).1
  · exact fun j hj shift taken hu =>
      so.listed_iff j hj shift taken (holdRun_eq_other hn hu (by simp) (by simp)).1

end Ledger

end SharedSlab.Slab
