import SharedSlab.Proofs.Conservation

set_option autoImplicit false

namespace SharedSlab.Slab

namespace Pool

/-- A page is neither part of a live run nor one of a class. -/
def Vacant (p : Pool) (d : Table) (live : List Block) (i : Nat) : Prop :=
  p.classOf d i = none ∧ ∀ b ∈ live, p.config.maxSize < b.size → ¬p.Touches b i

/-- Nothing can serve a request of `size` bytes. Above half a page it takes a stretch of vacant
pages that is long enough; up to half a page one vacant page does, or room in a page of its class. -/
def Exhausted (p : Pool) (d : Table) (live : List Block) (size : Nat) : Prop :=
  if p.config.maxSize < size then
    ¬∃ i, i + p.config.page.pagesFor size ≤ p.pageCount ∧
      ∀ j, i ≤ j → j < i + p.config.page.pagesFor size → p.Vacant d live j
  else
    (¬∃ i < p.pageCount, p.classOf d i = some (p.config.shiftFor size) ∧
      p.HasRoom live i (p.config.shiftFor size)) ∧
    ¬∃ i < p.pageCount, p.Vacant d live i

end Pool

variable {p : Pool} {a : Ledger} {live : List Block} {m : Memory} {c : Config}
  {pageCount i n size shift : Nat}

namespace Ledger

/-- Free pages in a row are part of one run. -/
theorem Sound.run_of_free (so : a.Sound c pageCount) (hn : 0 < n) (hle : i + n ≤ pageCount)
    (hfree : ∀ j, i ≤ j → j < i + n → a.use j = .free) :
    ∃ r ∈ a.runs, r.first ≤ i ∧ i + n ≤ r.finish := by
  obtain ⟨r, hr, low, high⟩ := so.covered i (by omega) (hfree i (le_refl _) (by omega))
  refine ⟨r, hr, low, ?_⟩
  -- the page after a run is not free, so it is past the stretch
  by_contra hlt
  exact (so.stretch hr).right (by omega) (hfree r.finish high.le (by omega))

theorem Sound.take_eq_none_iff_no_stretch (so : a.Sound c pageCount) (hn : 0 < n) :
    a.take n = none ↔
      ¬∃ i, i + n ≤ pageCount ∧ ∀ j, i ≤ j → j < i + n → a.use j = .free := by
  rw [take_eq_none_iff]
  constructor
  · rintro hshort ⟨i, hle, hfree⟩
    obtain ⟨r, hr, low, high⟩ := so.run_of_free hn hle hfree
    have hlen := hshort r hr
    simp only [PageRun.finish] at high
    omega
  · intro hnone r hr
    by_contra hlen
    have hle := so.run_le r hr
    have hfinish : r.finish = r.first + r.len := rfl
    exact hnone ⟨r.first, by omega, fun j low high => so.run_free r hr j low (by omega)⟩

theorem Steady.alloc_eq_none_iff (st : a.Steady p.config p.pageCount) :
    (a.alloc p size).1 = none ↔ if p.config.maxSize < size
      then a.take (p.config.page.pagesFor size) = none
      else a.listed (p.config.shiftFor size) = [] ∧ a.take 1 = none := by
  rw [Ledger.alloc]
  by_cases large : p.config.maxSize < size
  · rw [if_pos large, if_pos large]
    cases a.take (p.config.page.pagesFor size) with
    | none => exact iff_of_true rfl rfl
    | some found => exact iff_of_false (Option.some_ne_none _) (Option.some_ne_none _)
  · rw [if_neg large, if_neg large]
    dsimp only
    cases hlist : a.listed (p.config.shiftFor size) with
    | nil =>
      rw [Ledger.startPage]
      cases a.take 1 with
      | none => exact iff_of_true rfl ⟨rfl, rfl⟩
      | some found =>
        exact iff_of_false (Option.some_ne_none _) fun h => Option.some_ne_none _ h.2
    | cons i rest =>
      obtain ⟨taken, k, _, _, heq⟩ := st.takeChunk_eq (hlist ▸ List.mem_cons_self)
      dsimp only
      rw [heq]
      exact iff_of_false (Option.some_ne_none _) fun h => List.cons_ne_nil _ _ h.1

end Ledger

namespace Follows

variable (f : Follows p a live m) (hp : p.Placed)
include f hp

theorem vacant_iff_free (hi : i < p.pageCount) :
    p.Vacant (table m) live i ↔ a.use i = .free := by
  have hgiven := (f.mem_givenPages hp (i := i)).symm.trans (f.mem_givenPages_iff_use hp)
  rw [Pool.Vacant, f.classOf_eq_none_iff hi]
  constructor
  · rintro ⟨hno, hnone⟩
    by_contra hne
    obtain ⟨b, hb, large, h⟩ := hgiven.2 ⟨hi, hne, hno⟩
    exact hnone b hb large h
  · intro hfree
    refine ⟨fun shift taken huse => ?_, fun b hb large h => (hgiven.1 ⟨b, hb, large, h⟩).2.1 hfree⟩
    cases hfree.symm.trans huse

theorem listed_eq_nil_iff : a.listed shift = [] ↔
    ¬∃ i < p.pageCount, p.classOf (table m) i = some shift ∧ p.HasRoom live i shift := by
  rw [List.eq_nil_iff_forall_not_mem, not_exists]
  refine forall_congr' fun i => not_congr ?_
  constructor
  · intro hmem
    have hi := f.steady.listed_lt shift i hmem
    obtain ⟨taken, huse⟩ := f.steady.listed_use shift i hmem
    exact ⟨hi, (f.stores.encodes.classOf_eq_some_iff f.steady hi).2 ⟨taken, huse⟩,
      (f.classPage hi huse hp).listed.1 hmem⟩
  · rintro ⟨hi, hclass, hroom⟩
    obtain ⟨taken, huse⟩ := (f.stores.encodes.classOf_eq_some_iff f.steady hi).1 hclass
    exact (f.classPage hi huse hp).listed.2 hroom

theorem take_eq_none_iff_none_vacant (hn : 0 < n) : a.take n = none ↔
    ¬∃ i, i + n ≤ p.pageCount ∧ ∀ j, i ≤ j → j < i + n → p.Vacant (table m) live j := by
  rw [f.steady.toSound.take_eq_none_iff_no_stretch hn]
  refine not_congr (exists_congr fun i => and_congr_right fun hle => ?_)
  refine forall_congr' fun j => forall_congr' fun _ => forall_congr' fun high => ?_
  exact (f.vacant_iff_free hp (high.trans_le hle)).symm

theorem take_one_eq_none_iff :
    a.take 1 = none ↔ ¬∃ i < p.pageCount, p.Vacant (table m) live i := by
  rw [f.take_eq_none_iff_none_vacant hp Nat.one_pos]
  refine not_congr (exists_congr fun i => and_congr Nat.succ_le_iff ?_)
  constructor
  · exact fun h => h i (le_refl _) (Nat.lt_succ_self i)
  · intro h j low high
    rwa [show j = i by omega]

theorem refused_iff_exhausted (pos : 0 < size) :
    (a.alloc p size).1 = none ↔ p.Exhausted (table m) live size := by
  rw [f.steady.alloc_eq_none_iff, Pool.Exhausted]
  by_cases large : p.config.maxSize < size
  · rw [if_pos large, if_pos large]
    exact f.take_eq_none_iff_none_vacant hp (p.config.page.pagesFor_pos pos)
  · rw [if_neg large, if_neg large]
    exact and_congr (f.listed_eq_nil_iff hp) (f.take_one_eq_none_iff hp)

end Follows

/-- After any history a request is refused just when nothing can serve it, and a refusal leaves
memory as it is. -/
theorem alloc_refused_iff_exhausted {region : Region} {config : Config} {s s' : Arena}
    (hlen : region.len < wordLimit) (h : Pool.init region config s = .ok (.ok p) s')
    (calls : List Call) (pos : 0 < size) :
    ∃ answers live t found u, p.replay calls [] s' = .ok (answers, live) t ∧
      p.alloc size t = .ok found u ∧
      (found = none ↔ p.Exhausted (table t.memory) live size) ∧
      (found = none → u.memory = t.memory) := by
  obtain ⟨hp, live, t, run, f⟩ := follows_replay hlen h calls
  have hrefused := f.refused_iff_exhausted hp pos
  have served := Pool.alloc_run hp f.steady f.stores pos
  generalize halloc : p.alloc size t = result at served
  generalize Ledger.alloc p size ((Ledger.fresh p.pageCount).replay p calls).2 = answer
    at served hrefused
  cases served with
  | refused => exact ⟨_, live, t, _, _, run, halloc, hrefused, fun _ => rfl⟩
  | given => exact ⟨_, live, t, _, _, run, halloc, hrefused, nofun⟩

/-- Twelve pages are free, in runs of four, and a request takes five. -/
theorem alloc_refused_iff_exhausted_host : ∃ p s',
    Pool.init ⟨0, 65536⟩ Config.host ⟨Memory.zeroed, #[]⟩ = .ok (.ok p) s' ∧
    ∃ answers live t found u, p.replay [.alloc 16384 (by decide), .alloc 8 (by decide),
        .alloc 16384 (by decide), .alloc 5000 (by decide), .free 4096, .free 24576] [] s' =
        .ok (answers, live) t ∧
      p.alloc 20000 t = .ok found u ∧
      (found = none ↔ p.Exhausted (table t.memory) live 20000) ∧
      (found = none → u.memory = t.memory) := by
  obtain ⟨p, s', h⟩ := Pool.init_host
  exact ⟨p, s', h, alloc_refused_iff_exhausted (by decide) h _ (by decide)⟩

end SharedSlab.Slab
