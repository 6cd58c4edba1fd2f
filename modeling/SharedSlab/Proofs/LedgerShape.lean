import SharedSlab.Proofs.LedgerCount
import SharedSlab.Proofs.SnapshotReading

set_option autoImplicit false

namespace SharedSlab.Slab

variable {c : Config} {p : Pool} {pageCount i j shift : Nat} {a a' : Ledger} {q r : PageRun}

namespace PageRun

theorem le_iff : q.le r = true ↔ q.first < r.first ∨ q.first = r.first ∧ q.len ≤ r.len := by
  simp [le]

theorem le_antisymm (h : q.le r = true) (h' : r.le q = true) : q = r := by
  rw [le_iff] at h h'
  have hfirst : q.first = r.first := by omega
  have hlen : q.len = r.len := by omega
  cases q
  cases r
  cases hfirst
  cases hlen
  rfl

theorem pairwise_mergeSort (runs : List PageRun) :
    (runs.mergeSort le).Pairwise fun q r => q.le r = true := by
  refine List.pairwise_mergeSort (fun q r t hqr hrt => ?_) (fun q r => ?_) runs
  · rw [le_iff] at hqr hrt ⊢
    omega
  · rw [Bool.or_eq_true, le_iff, le_iff]
    omega

theorem mergeSort_eq {runs runs' : List PageRun} (nodup : runs.Nodup) (nodup' : runs'.Nodup)
    (same : ∀ r, r ∈ runs ↔ r ∈ runs') : runs.mergeSort le = runs'.mergeSort le := by
  have hperm : runs.Perm runs' := (List.perm_ext_iff_of_nodup nodup nodup').2 same
  refine List.Perm.eq_of_pairwise (fun q r _ _ => le_antisymm) (pairwise_mergeSort runs)
    (pairwise_mergeSort runs') ?_
  exact (List.mergeSort_perm runs le).trans (hperm.trans (List.mergeSort_perm runs' le).symm)

end PageRun

namespace Ledger

theorem Coherent.ascending (co : a.Coherent c pageCount) :
    (a.runs.mergeSort PageRun.le).Pairwise fun q r => q.finish < r.first := by
  have hperm := List.mergeSort_perm a.runs PageRun.le
  have hapart := (hperm.pairwise_iff (R := PageRun.Apart) Or.symm).2 co.apart
  refine ((PageRun.pairwise_mergeSort a.runs).and hapart).imp_of_mem ?_
  rintro q r hq hr ⟨hle, hlt | hlt⟩
  · exact hlt
  · have hfirst := co.first_lt_finish (hperm.mem_iff.1 hr)
    rw [PageRun.le_iff] at hle
    omega

structure Stretch (use : Nat → PageUse) (pageCount : Nat) (r : PageRun) : Prop where
  pos : 0 < r.len
  le : r.finish ≤ pageCount
  free : ∀ j, r.first ≤ j → j < r.finish → use j = .free
  left : ∀ j, j + 1 = r.first → use j ≠ .free
  right : r.finish < pageCount → use r.finish ≠ .free

theorem Stretch.congr {use use' : Nat → PageUse} (h : Stretch use pageCount r)
    (same : ∀ j < pageCount, use' j = use j) : Stretch use' pageCount r := by
  obtain ⟨pos, le, free, left, right⟩ := h
  have hfinish : r.finish = r.first + r.len := rfl
  refine ⟨pos, le, fun j low high => ?_, fun j hj => ?_, fun hlt => ?_⟩
  · rw [same j (by omega)]
    exact free j low high
  · rw [same j (by omega)]
    exact left j hj
  · rw [same _ hlt]
    exact right hlt

/-- A stretch cannot be made longer, so one page tells the whole. -/
theorem Stretch.eq_of_mem {use : Nat → PageUse} (h : Stretch use pageCount q)
    (h' : Stretch use pageCount r) (hq : q.first ≤ j ∧ j < q.finish)
    (hr : r.first ≤ j ∧ j < r.finish) : q = r := by
  have hends : ∀ {x y : PageRun}, Stretch use pageCount x → Stretch use pageCount y →
      x.first ≤ j ∧ j < x.finish → y.first ≤ j ∧ j < y.finish →
      y.first ≤ x.first ∧ x.finish ≤ y.finish := by
    intro x y hx hy hxj hyj
    constructor
    · by_contra hlt
      exact hy.left (y.first - 1) (by omega) (hx.free _ (by omega) (by omega))
    · by_contra hlt
      have hle := hx.le
      exact hy.right (by omega) (hx.free _ (by omega) (by omega))
  obtain ⟨hfirst, hfinish⟩ := hends h h' hq hr
  obtain ⟨hfirst', hfinish'⟩ := hends h' h hr hq
  cases q
  cases r
  simp only [PageRun.finish] at hfirst hfinish hfirst' hfinish'
  rw [PageRun.mk.injEq]
  omega

namespace Sound

variable (so : a.Sound c pageCount)
include so

theorem stretch (hr : r ∈ a.runs) : Stretch a.use pageCount r := by
  have hlt := so.first_lt_finish hr
  have hle := so.run_le r hr
  refine ⟨so.run_pos r hr, hle, so.run_free r hr, fun j hj hfree => ?_, fun hend hfree => ?_⟩
  · obtain ⟨q, hq, low, high⟩ := so.covered j (by omega) hfree
    have hne : q ≠ r := by
      rintro rfl
      omega
    rcases so.apart.forall hq hr hne with h | h <;> omega
  · obtain ⟨q, hq, low, high⟩ := so.covered _ hend hfree
    have hne : q ≠ r := by
      rintro rfl
      omega
    rcases so.apart.forall hq hr hne with h | h <;> omega

theorem mem_runs_iff : r ∈ a.runs ↔ Stretch a.use pageCount r := by
  refine ⟨so.stretch, fun h => ?_⟩
  have hlt : r.first < r.finish := Nat.lt_add_of_pos_right h.pos
  have hfree := h.free r.first (le_refl _) hlt
  obtain ⟨q, hq, low, high⟩ := so.covered r.first (hlt.trans_le h.le) hfree
  rwa [← (so.stretch hq).eq_of_mem h ⟨low, high⟩ ⟨le_refl _, hlt⟩]

end Sound

def HasRoom (c : Config) (shift : Nat) : PageUse → Prop
  | .chunks s taken => s = shift ∧ taken ≠ Finset.range (c.chunkCount shift)
  | _ => False

instance (c : Config) (shift : Nat) (u : PageUse) : Decidable (HasRoom c shift u) := by
  unfold HasRoom
  cases u <;> infer_instance

def roomy (c : Config) (pageCount : Nat) (a : Ledger) (shift : Nat) : Finset Nat :=
  (Finset.range pageCount).filter fun i => HasRoom c shift (a.use i)

theorem mem_roomy : i ∈ roomy c pageCount a shift ↔ i < pageCount ∧
    ∃ taken, a.use i = .chunks shift taken ∧ taken ≠ Finset.range (c.chunkCount shift) := by
  rw [roomy, Finset.mem_filter, Finset.mem_range]
  refine and_congr_right fun _ => ?_
  constructor
  · intro h
    unfold HasRoom at h
    split at h
    · next s taken huse =>
      obtain ⟨rfl, room⟩ := h
      exact ⟨taken, huse, room⟩
    · exact h.elim
  · rintro ⟨taken, huse, room⟩
    rw [huse]
    exact ⟨rfl, room⟩

theorem Sound.length_listed (so : a.Sound c pageCount) (shift : Nat) :
    (a.listed shift).length = (roomy c pageCount a shift).card := by
  rw [← List.toFinset_card_of_nodup (so.listed_nodup shift)]
  congr 1
  ext i
  rw [List.mem_toFinset, mem_roomy]
  constructor
  · intro hmem
    have hi := so.listed_lt shift i hmem
    obtain ⟨taken, huse⟩ := so.listed_use shift i hmem
    exact ⟨hi, taken, huse, (so.listed_iff i hi shift taken huse).1 hmem⟩
  · rintro ⟨hi, taken, huse, room⟩
    exact (so.listed_iff i hi shift taken huse).2 room

/-- Ledgers that use every page alike have the same snapshot. -/
theorem Sound.snapshot_congr (so : a.Sound p.config p.pageCount)
    (so' : a'.Sound p.config p.pageCount) (same : ∀ i < p.pageCount, a.use i = a'.use i) :
    a.snapshot p = a'.snapshot p := by
  have hruns : a.runs.mergeSort PageRun.le = a'.runs.mergeSort PageRun.le := by
    refine PageRun.mergeSort_eq so.runs_nodup so'.runs_nodup fun r => ?_
    rw [so.mem_runs_iff, so'.mem_runs_iff]
    exact ⟨fun h => h.congr fun j hj => (same j hj).symm, fun h => h.congr same⟩
  have hfree : a.freePages = a'.freePages := by
    rw [so.freePages_eq_card, so'.freePages_eq_card]
    congr 1
    ext j
    rw [mem_freeSet, mem_freeSet]
    exact and_congr_right fun hj => by rw [same j hj]
  have hlisted : ∀ shift, (a.listed shift).length = (a'.listed shift).length := by
    intro shift
    rw [so.length_listed, so'.length_listed]
    congr 1
    ext i
    rw [mem_roomy, mem_roomy]
    exact and_congr_right fun hi => by rw [same i hi]
  simp only [snapshot, hruns, hfree, hlisted]

end Ledger

end SharedSlab.Slab
