import SharedSlab.Proofs.Attaching
import SharedSlab.Proofs.PageRounding

set_option autoImplicit false

namespace SharedSlab.Slab

namespace Config

def pagesOffset (c : Config) : Nat := headerSize + c.slotCount * descriptorSize

/-- Bytes that `n` pages take, with all that comes before them. -/
def bytesFor (c : Config) (n : Nat) : Nat :=
  c.page.boundary (c.pagesOffset + n * descriptorSize) + n * c.pageSize

def Holds (c : Config) (len : Nat) : Set Nat := {n | 1 ≤ n ∧ c.bytesFor n ≤ len}

/-- How many pages there would be if the first could begin anywhere. -/
def estimate (c : Config) (len : Nat) : Nat :=
  (len - c.pagesOffset) / (c.pageSize + descriptorSize)

def firstPage (c : Config) (len : Nat) : Nat :=
  c.page.boundary (c.pagesOffset + c.estimate len * descriptorSize)

def capacity (c : Config) (len : Nat) : Nat :=
  min (c.estimate len) ((len - c.firstPage len) >>> c.pageShift)

variable {c : Config} {len n : Nat}

theorem le_capacity_iff :
    n ≤ c.capacity len ↔ n ≤ c.estimate len ∧ n * c.pageSize ≤ len - c.firstPage len := by
  rw [capacity, Nat.le_min, Nat.shiftRight_eq_div_pow, ← pageSize_eq,
    Nat.le_div_iff_mul_le c.pageSize_pos]

theorem capacity_eq_zero (h : len ≤ c.pagesOffset ∨ len ≤ c.firstPage len) :
    c.capacity len = 0 := by
  cases h with
  | inl hshort =>
    rw [capacity, estimate, Nat.sub_eq_zero_of_le hshort, Nat.zero_div, Nat.zero_min]
  | inr hend => rw [capacity, Nat.sub_eq_zero_of_le hend, Nat.zero_shiftRight, Nat.min_zero]

theorem le_estimate (h : c.bytesFor n ≤ len) : n ≤ c.estimate len := by
  have hstart := c.page.le_boundary (c.pagesOffset + n * descriptorSize)
  rw [bytesFor] at h
  rw [estimate, Nat.le_div_iff_mul_le (Nat.add_pos_left c.pageSize_pos _), Nat.mul_add]
  omega

theorem estimate_mul_le (c : Config) (len : Nat) :
    c.estimate len * c.pageSize + c.estimate len * descriptorSize ≤ len - c.pagesOffset := by
  rw [← Nat.mul_add]
  exact Nat.div_mul_le_self _ _

/-- Rounding up takes less than a page, so any count below the estimate still has its pages. -/
theorem firstPage_add_le (h : n < c.estimate len) :
    c.firstPage len + n * c.pageSize ≤ len := by
  have hround := c.page.boundary_lt (c.pagesOffset + c.estimate len * descriptorSize)
  have hestimate := c.estimate_mul_le len
  have hpages : (n + 1) * c.pageSize ≤ c.estimate len * c.pageSize := Nat.mul_le_mul_right _ h
  have hpage := c.pageSize_pos
  rw [Nat.succ_mul] at hpages
  change c.firstPage len < c.pagesOffset + c.estimate len * descriptorSize + c.pageSize at hround
  omega

/-- One correction is enough: the estimate itself is the only count it may have to give up. -/
theorem bytesFor_le_iff (hpos : 1 ≤ n) : c.bytesFor n ≤ len ↔ n ≤ c.capacity len := by
  have hpage := c.pageSize_pos
  rw [le_capacity_iff]
  constructor
  · intro h
    have hle := le_estimate h
    have hroom : c.firstPage len + n * c.pageSize ≤ len := by
      rcases Nat.lt_or_eq_of_le hle with hlt | heq
      · exact firstPage_add_le hlt
      · rwa [firstPage, ← heq]
    exact ⟨hle, by omega⟩
  · rintro ⟨hle, hroom⟩
    have hone := Nat.le_mul_of_pos_left c.pageSize hpos
    have hstart : c.page.boundary (c.pagesOffset + n * descriptorSize) ≤ c.firstPage len :=
      Geometry.boundary_mono (Nat.add_le_add_left (Nat.mul_le_mul_right _ hle) _)
    rw [bytesFor]
    omega

theorem capacity_isGreatest (h : c.capacity len ≠ 0) :
    IsGreatest (c.Holds len) (c.capacity len) := by
  have hpos := Nat.one_le_iff_ne_zero.2 h
  exact ⟨⟨hpos, (bytesFor_le_iff hpos).2 (le_refl _)⟩, fun n hn => (bytesFor_le_iff hn.1).1 hn.2⟩

theorem holds_nonempty_iff : (c.Holds len).Nonempty ↔ c.capacity len ≠ 0 := by
  constructor
  · rintro ⟨n, hpos, hn⟩
    have hle := (bytesFor_le_iff hpos).1 hn
    omega
  · exact fun h => ⟨_, (capacity_isGreatest h).1⟩

theorem pagesOffset_add_le (c : Config) : c.pagesOffset + descriptorSize ≤ c.pageSize := by
  have hmax := c.page_le
  have hpage := c.le_pageSize
  simp only [pagesOffset, slotCount, headerSize, descriptorSize]
  omega

theorem bytesFor_one (c : Config) : c.bytesFor 1 = 2 * c.pageSize := by
  have hle := c.pagesOffset_add_le
  have hfirst : c.page.boundary (c.pagesOffset + 1 * descriptorSize) = c.pageSize := by
    obtain ⟨⟨hlow, hdvd⟩, hleast⟩ :=
      c.page.boundary_isLeast (c.pagesOffset + 1 * descriptorSize)
    apply Nat.le_antisymm
    · exact hleast ⟨by omega, Nat.dvd_refl _⟩
    · exact Nat.le_of_dvd (Nat.lt_of_lt_of_le (by rw [pagesOffset, headerSize]; omega) hlow) hdvd
  rw [bytesFor, hfirst]
  omega

end Config

namespace Layout

variable {c : Config} {len : Nat}

theorem compute_eq (c : Config) (hlen : len < wordLimit) : compute c len = .ok
    (if c.capacity len = 0 then none
      else some ⟨headerSize, c.pagesOffset, c.capacity len, c.firstPage len⟩) := by
  unfold compute
  dsimp only
  by_cases hshort : len ≤ c.pagesOffset
  · rw [if_pos (Config.capacity_eq_zero (.inl hshort))]
    exact if_pos hshort
  · have hround : c.pagesOffset + c.estimate len * descriptorSize + c.page.size < wordLimit :=
      round_lt hlen c.table_lt (not_le.1 hshort) (Nat.div_mul_le_self _ _)
    refine (if_neg hshort).trans ?_
    refine (Checked.bind_run (a := c.estimate len * descriptorSize)
      (Checked.mul_eq_ok (by omega)) _).trans ?_
    refine (Checked.bind_run (a := c.pagesOffset + c.estimate len * descriptorSize)
      (Checked.add_eq_ok (by omega)) _).trans ?_
    refine (Checked.bind_run (Geometry.alignUp_eq_boundary hround) _).trans ?_
    by_cases hend : len ≤ c.firstPage len
    · rw [if_pos (Config.capacity_eq_zero (.inr hend))]
      exact if_pos hend
    · refine (if_neg hend).trans ?_
      by_cases hnone : c.capacity len = 0
      · rw [if_pos hnone]
        exact if_pos hnone
      · rw [if_neg hnone]
        exact if_neg hnone

theorem compute_eq_some {l : Layout} (hlen : len < wordLimit) (h : compute c len = .ok (some l)) :
    IsGreatest (c.Holds len) l.pageCount ∧ l.Fits c len := by
  refine ⟨?_, compute_fits h⟩
  rw [compute_eq c hlen, Except.ok.injEq] at h
  split at h
  · cases h
  next hsome =>
  cases h
  exact Config.capacity_isGreatest hsome

theorem isSome_iff {found : Option Layout} (hlen : len < wordLimit)
    (h : compute c len = .ok found) : found.isSome ↔ (c.Holds len).Nonempty := by
  rw [compute_eq c hlen, Except.ok.injEq] at h
  rw [Config.holds_nonempty_iff, ← h]
  split
  next hnone => simp only [Option.isSome_none, Bool.false_eq_true, hnone, ne_eq, not_true_eq_false]
  next hsome => simp only [Option.isSome_some, hsome, ne_eq, not_false_eq_true]

end Layout

namespace Pool

variable {region : Region} {config : Config}

theorem init_of_none (h : Layout.compute config region.len = .ok none) (s : Arena) :
    init region config s = .ok (.error .invalidSize) s := by
  rw [init, PoolM.bind_liftM h]
  rfl

/-- `init` answers for every length. It refuses a region only if no page fits, and leaves no room
for one page more. -/
theorem init_largest (c : Config) {len : Nat} (hlen : len < wordLimit) :
    ∃ found, Layout.compute c len = .ok found ∧
      (found.isSome ↔ (c.Holds len).Nonempty) ∧
      (∀ l, found = some l → IsGreatest (c.Holds len) l.pageCount ∧ l.Fits c len) ∧
      (∀ base s, found = none → init ⟨base, len⟩ c s = .ok (.error .invalidSize) s) ∧
      (∀ base s l, found = some l → ∃ p s', init ⟨base, len⟩ c s = .ok (.ok p) s' ∧ p.layout = l ∧
        p.finish = l.start + l.pageCount * c.pageSize ∧ p.finish ≤ len) ∧
      ∀ base s, 2 * c.pageSize ≤ len → ∃ p s', init ⟨base, len⟩ c s = .ok (.ok p) s' := by
  obtain ⟨found, compute⟩ := Layout.compute_total c hlen
  have hsome := Layout.isSome_iff hlen compute
  refine ⟨found, compute, hsome, ?_, ?_, ?_, ?_⟩
  · rintro l rfl
    exact Layout.compute_eq_some hlen compute
  · rintro base s rfl
    exact init_of_none compute s
  · rintro base s l rfl
    have compute' : Layout.compute c (⟨base, len⟩ : Region).len = .ok (some l) := compute
    obtain ⟨p, s', run, laid⟩ := init_run compute' hlen s
    have hlayout : p.layout = l :=
      Option.some.inj (Except.ok.inj (laid.layout.symm.trans compute'))
    have hfinish := laid.placed.finish
    have hend := laid.placed.finish_le
    rw [laid.region_eq] at hend
    rw [dataOf, start, pageCount, hlayout, laid.config_eq] at hfinish
    exact ⟨p, s', run, hlayout, hfinish, hend⟩
  · intro base s htwo
    have hroom : (c.Holds len).Nonempty := ⟨1, le_refl _, c.bytesFor_one.le.trans htwo⟩
    obtain ⟨l, rfl⟩ := Option.isSome_iff_exists.1 (hsome.2 hroom)
    have compute' : Layout.compute c (⟨base, len⟩ : Region).len = .ok (some l) := compute
    obtain ⟨p, s', run, _⟩ := init_run compute' hlen s
    exact ⟨p, s', run⟩

/-- Fifteen pages with their descriptors have exactly this length, but the boundary costs one. -/
theorem init_largest_host : 62120 < wordLimit ∧
    Layout.compute Config.host 62120 = .ok (some ⟨104, 320, 14, 4096⟩) ∧
    IsGreatest (Config.host.Holds 62120) 14 := by
  have hlen : 62120 < wordLimit := by decide
  have hcompute : Layout.compute Config.host 62120 = .ok (some ⟨104, 320, 14, 4096⟩) := by decide
  obtain ⟨found, compute, _, greatest, _⟩ := init_largest Config.host hlen
  have hfound := Except.ok.inj (compute.symm.trans hcompute)
  exact ⟨hlen, hcompute, (greatest _ hfound).1⟩

end Pool

end SharedSlab.Slab
