import SharedSlab.Proofs.LedgerShape
import SharedSlab.Proofs.PageRoles

set_option autoImplicit false

namespace SharedSlab.Slab

namespace Pool

def Touches (p : Pool) (b : Block) (i : Nat) : Prop :=
  b.off < p.dataOf (i + 1) ∧ p.dataOf i < b.off + p.chunkSize b.size

instance (p : Pool) (b : Block) (i : Nat) : Decidable (p.Touches b i) :=
  inferInstanceAs (Decidable (_ ∧ _))

instance (p : Pool) (live : List Block) (i shift : Nat) : Decidable (p.HasRoom live i shift) :=
  decidable_of_iff (∃ k < p.config.chunkCount shift, p.config.reserved shift ≤ k ∧
      ∀ b ∈ live, b.off ≠ p.chunkAt i shift k)
    ⟨fun ⟨k, hk, hres, hnone⟩ => ⟨k, hres, hk, hnone⟩,
      fun ⟨k, hres, hk, hnone⟩ => ⟨k, hk, hres, hnone⟩⟩

def runTotal (p : Pool) (live : List Block) : Nat :=
  ((live.filter fun b => p.config.maxSize < b.size).map fun b =>
    p.config.page.pagesFor b.size).sum

def givenRuns (p : Pool) (live : List Block) : List PageRun :=
  (live.filter fun b => p.config.maxSize < b.size).map fun b =>
    ⟨p.pageOf b.off, p.config.page.pagesFor b.size⟩

def busyPages (p : Pool) (d : Table) (live : List Block) : Finset Nat :=
  (Finset.range p.pageCount).filter fun i =>
    p.classOf d i ≠ none ∧ ∃ b ∈ live, p.Touches b i

def openPages (p : Pool) (d : Table) (live : List Block) (shift : Nat) : Finset Nat :=
  (Finset.range p.pageCount).filter fun i =>
    p.classOf d i = some shift ∧ (∃ b ∈ live, p.Touches b i) ∧ p.HasRoom live i shift

/-- What a snapshot says of the live allocations, and of the pages that descriptors record as those
of a class. -/
structure Accounts (p : Pool) (d : Table) (live : List Block) (snap : Snapshot) : Prop where
  pageCount : snap.pageCount = p.pageCount
  freePages : snap.freePages = (snap.freeRuns.map PageRun.len).sum
  /-- The runs are in ascending order, and a page that is not free lies between any two. -/
  ascending : snap.freeRuns.Pairwise fun q r => q.finish < r.first
  run_pos : ∀ r ∈ snap.freeRuns, 0 < r.len
  run_le : ∀ r ∈ snap.freeRuns, r.finish ≤ snap.pageCount
  free_iff : ∀ i < snap.pageCount, (∃ r ∈ snap.freeRuns, r.first ≤ i ∧ i < r.finish) ↔
    p.classOf d i = none ∧ ∀ b ∈ live, ¬p.Touches b i
  conserved : snap.pageCount = snap.freePages + p.runTotal live + (p.busyPages d live).card
  listed : snap.slotPages = (List.range p.config.slotCount).map fun k =>
    (p.openPages d live (p.config.minShift + k)).card

end Pool

variable {p : Pool} {a : Ledger} {live : List Block} {m : Memory} {i shift : Nat} {b : Block}

namespace Follows

variable (f : Follows p a live m) (hp : p.Placed)
include f hp

theorem touches_large (hb : b ∈ live) (large : p.config.maxSize < b.size) :
    p.Touches b i ↔
      p.pageOf b.off ≤ i ∧ i < p.pageOf b.off + p.config.page.pagesFor b.size := by
  have hoff := (f.use_of_large hp hb large).2
  rw [Pool.Touches, f.chunkSize_large hp hb large]
  generalize p.pageOf b.off = j at hoff ⊢
  rw [hoff, ← Pool.dataOf_add_eq, Pool.dataOf_lt_dataOf, Pool.dataOf_lt_dataOf, Nat.lt_succ_iff]

theorem touches_small (hb : b ∈ live) (small : b.size ≤ p.config.maxSize) :
    p.Touches b i ↔ p.pageOf b.off = i := by
  obtain ⟨taken, k, huse, hk, _, hoff⟩ := f.use_of_small hp hb small
  have hi := f.pageOf_lt hp hb
  have hclass := f.steady.chunks_class _ hi _ _ huse
  have hle := Pool.chunk_le hclass (Finset.mem_range.1 (f.steady.chunks_le _ hi _ _ huse hk))
  have hpos := Nat.two_pow_pos (p.config.shiftFor b.size)
  rw [Pool.Touches, Pool.chunkSize_of_small small]
  rw [Nat.succ_mul] at hle
  generalize p.pageOf b.off = j at hoff ⊢
  have hsucc := p.dataOf_succ j
  rw [Pool.chunkAt] at hoff
  constructor
  · -- the chunk ends where its page does or before, so page `i` is neither below nor above
    rintro ⟨low, high⟩
    have hlow : p.dataOf j < p.dataOf (i + 1) := by omega
    have hhigh : p.dataOf i < p.dataOf (j + 1) := by omega
    rw [Pool.dataOf_lt_dataOf] at hlow hhigh
    omega
  · rintro rfl
    exact ⟨by omega, by omega⟩

theorem exists_touches_iff (hi : i < p.pageCount) :
    (∃ b ∈ live, p.Touches b i) ↔ a.use i ≠ .free := by
  constructor
  · rintro ⟨b, hb, htouches⟩ hfree
    by_cases large : p.config.maxSize < b.size
    · obtain ⟨low, high⟩ := (f.touches_large hp hb large).1 htouches
      have hstart := (f.use_of_large hp hb large).1
      exact f.steady.givenOut_not_free (f.pageOf_lt hp hb) (.inl hstart) low high hfree
    · obtain ⟨_, _, huse, _⟩ := f.use_of_small hp hb (not_lt.1 large)
      rw [(f.touches_small hp hb (not_lt.1 large)).1 htouches, hfree] at huse
      cases huse
  · intro hne
    cases huse : a.use i with
    | free => exact absurd huse hne
    | runStart n =>
      obtain ⟨b, hb, large, hoff, hn⟩ := f.block_of_runStart hp hi huse
      have hpage : p.pageOf b.off = i := hoff ▸ (p.pageOf_add i p.config.pageSize_pos).1
      have hpos := f.steady.start_pos i hi n huse
      exact ⟨b, hb, (f.touches_large hp hb large).2 ⟨hpage.le, by omega⟩⟩
    | runRest =>
      obtain ⟨b, hb, _, hlow, hhigh⟩ := f.block_of_runRest hp hi huse
      have hpage := p.config.pageSize_pos
      have hsucc := p.dataOf_succ i
      exact ⟨b, hb, by omega, by omega⟩
    | chunks shift taken =>
      obtain ⟨b, hb, hpage, small, _⟩ := (f.classPage hi huse hp).busy
      exact ⟨b, hb, (f.touches_small hp hb small).2 hpage⟩

omit hp in
theorem classOf_eq_none_iff (hi : i < p.pageCount) :
    p.classOf (table m) i = none ↔ ∀ shift taken, a.use i ≠ .chunks shift taken := by
  rw [Option.eq_none_iff_forall_ne_some]
  simp only [ne_eq, f.stores.encodes.classOf_eq_some_iff f.steady hi, not_exists]

theorem use_eq_free_iff (hi : i < p.pageCount) :
    a.use i = .free ↔ p.classOf (table m) i = none ∧ ∀ b ∈ live, ¬p.Touches b i := by
  have htouches := f.exists_touches_iff hp hi
  rw [f.classOf_eq_none_iff hi]
  constructor
  · intro hfree
    refine ⟨fun shift taken huse => ?_, fun b hb h => htouches.1 ⟨b, hb, h⟩ hfree⟩
    rw [hfree] at huse
    cases huse
  · rintro ⟨_, hnone⟩
    by_contra hne
    obtain ⟨b, hb, h⟩ := htouches.2 hne
    exact hnone b hb h

theorem mem_busyPages : i ∈ p.busyPages (table m) live ↔
    i < p.pageCount ∧ ∃ shift taken, a.use i = .chunks shift taken := by
  rw [Pool.busyPages, Finset.mem_filter, Finset.mem_range]
  refine and_congr_right fun hi => ?_
  rw [f.exists_touches_iff hp hi, Ne, f.classOf_eq_none_iff hi]
  push Not
  constructor
  · rintro ⟨h, _⟩
    exact h
  · rintro ⟨shift, taken, huse⟩
    exact ⟨⟨shift, taken, huse⟩, by simp [huse]⟩

theorem openPages_eq (shift : Nat) :
    p.openPages (table m) live shift = Ledger.roomy p.config p.pageCount a shift := by
  ext i
  rw [Ledger.mem_roomy, Pool.openPages, Finset.mem_filter, Finset.mem_range]
  refine and_congr_right fun hi => ?_
  rw [f.exists_touches_iff hp hi, f.stores.encodes.classOf_eq_some_iff f.steady hi]
  constructor
  · rintro ⟨⟨taken, huse⟩, _, room⟩
    exact ⟨taken, huse, (f.hasRoom_iff hi huse).1 room⟩
  · rintro ⟨taken, huse, room⟩
    exact ⟨⟨taken, huse⟩, by simp [huse], (f.hasRoom_iff hi huse).2 room⟩

theorem pairwise_givenRuns :
    (p.givenRuns live).Pairwise fun q r => q.finish ≤ r.first ∨ r.finish ≤ q.first := by
  have hnodup : (live.filter fun b => p.config.maxSize < b.size).Nodup :=
    (f.nodup.of_map _).filter _
  refine List.pairwise_map.2 (hnodup.pairwise_of_forall_ne fun b hb c hc hne => ?_)
  obtain ⟨hb, large⟩ := List.mem_filter.1 hb
  obtain ⟨hc, large'⟩ := List.mem_filter.1 hc
  obtain ⟨huse, hoff⟩ := f.use_of_large hp hb (of_decide_eq_true large)
  obtain ⟨huse', hoff'⟩ := f.use_of_large hp hc (of_decide_eq_true large')
  have hbi := f.pageOf_lt hp hb
  have hci := f.pageOf_lt hp hc
  rcases Nat.lt_trichotomy (p.pageOf b.off) (p.pageOf c.off) with hlt | heq | hgt
  · exact .inl (f.steady.givenOut_apart hbi (.inl huse) (.inl huse') hlt)
  · have hsame : b.off = c.off := by rw [hoff, hoff', heq]
    exact absurd (List.inj_on_of_nodup_map f.nodup hb hc hsame) hne
  · exact .inr (f.steady.givenOut_apart hci (.inl huse') (.inl huse) hgt)

theorem mem_givenPages : i ∈ Ledger.runPages (p.givenRuns live) ↔
    ∃ b ∈ live, p.config.maxSize < b.size ∧ p.Touches b i := by
  simp only [Ledger.mem_runPages, Pool.givenRuns, List.mem_map, List.mem_filter,
    decide_eq_true_eq]
  constructor
  · rintro ⟨_, ⟨b, ⟨hb, large⟩, rfl⟩, h⟩
    exact ⟨b, hb, large, (f.touches_large hp hb large).2 h⟩
  · rintro ⟨b, hb, large, h⟩
    exact ⟨_, ⟨b, ⟨hb, large⟩, rfl⟩, (f.touches_large hp hb large).1 h⟩

theorem mem_givenPages_iff_use : i ∈ Ledger.runPages (p.givenRuns live) ↔
    i < p.pageCount ∧ a.use i ≠ .free ∧ ∀ shift taken, a.use i ≠ .chunks shift taken := by
  rw [f.mem_givenPages hp]
  constructor
  · rintro ⟨b, hb, large, h⟩
    obtain ⟨low, high⟩ := (f.touches_large hp hb large).1 h
    have hstart := (f.use_of_large hp hb large).1
    have hfirst := f.pageOf_lt hp hb
    have hi : i < p.pageCount := high.trans_le (f.steady.start_le _ hfirst _ hstart)
    refine ⟨hi, (f.exists_touches_iff hp hi).1 ⟨b, hb, h⟩, fun shift taken huse => ?_⟩
    rcases Nat.eq_or_lt_of_le low with rfl | hafter
    · rw [huse] at hstart
      cases hstart
    · rw [f.steady.start_rest _ hfirst _ hstart i hafter high] at huse
      cases huse
  · rintro ⟨hi, hne, hno⟩
    obtain ⟨b, hb, h⟩ := (f.exists_touches_iff hp hi).2 hne
    refine ⟨b, hb, ?_, h⟩
    by_contra small
    obtain ⟨taken, _, huse, _⟩ := f.use_of_small hp hb (not_lt.1 small)
    rw [(f.touches_small hp hb (not_lt.1 small)).1 h] at huse
    exact hno _ taken huse

theorem card_givenPages : (Ledger.runPages (p.givenRuns live)).card = p.runTotal live := by
  rw [Ledger.card_runPages (f.pairwise_givenRuns hp), Pool.givenRuns, List.map_map]
  rfl

theorem pageCount_eq :
    p.pageCount = a.freePages + p.runTotal live + (p.busyPages (table m) live).card := by
  have hfree : Disjoint (Ledger.freeSet p.pageCount a) (Ledger.runPages (p.givenRuns live)) := by
    rw [Finset.disjoint_left]
    intro i hi hi'
    exact ((f.mem_givenPages_iff_use hp).1 hi').2.1 (Ledger.mem_freeSet.1 hi).2
  have hbusy : Disjoint (Ledger.freeSet p.pageCount a ∪ Ledger.runPages (p.givenRuns live))
      (p.busyPages (table m) live) := by
    rw [Finset.disjoint_right]
    intro i hi hi'
    obtain ⟨_, shift, taken, huse⟩ := (f.mem_busyPages hp).1 hi
    rcases Finset.mem_union.1 hi' with hi' | hi'
    · cases (Ledger.mem_freeSet.1 hi').2.symm.trans huse
    · exact ((f.mem_givenPages_iff_use hp).1 hi').2.2 shift taken huse
  rw [f.steady.freePages_eq_card, ← f.card_givenPages hp, ← Finset.card_union_of_disjoint hfree,
    ← Finset.card_union_of_disjoint hbusy]
  refine (Finset.card_range _).symm.trans (congrArg Finset.card ?_)
  ext i
  rw [Finset.mem_union, Finset.mem_union, Ledger.mem_freeSet, f.mem_givenPages_iff_use hp,
    f.mem_busyPages hp, Finset.mem_range, ← and_or_left, ← and_or_left]
  refine (and_iff_left ?_).symm
  by_cases hchunks : ∃ shift taken, a.use i = .chunks shift taken
  · exact .inr hchunks
  · push Not at hchunks
    exact .inl (or_iff_not_imp_left.2 fun hne => ⟨hne, hchunks⟩)

theorem accounts : p.Accounts (table m) live (a.snapshot p) where
  pageCount := rfl
  freePages := ((List.mergeSort_perm a.runs PageRun.le).map PageRun.len).sum_eq.symm
  ascending := f.steady.ascending
  run_pos r hr := f.steady.run_pos r (List.mem_mergeSort.1 hr)
  run_le r hr := f.steady.run_le r (List.mem_mergeSort.1 hr)
  free_iff i hi := by
    rw [← f.use_eq_free_iff hp hi]
    constructor
    · rintro ⟨r, hr, low, high⟩
      exact f.steady.run_free r (List.mem_mergeSort.1 hr) i low high
    · intro hfree
      obtain ⟨r, hr, h⟩ := f.steady.covered i hi hfree
      exact ⟨r, List.mem_mergeSort.2 hr, h⟩
  conserved := f.pageCount_eq hp
  listed := by
    refine List.map_congr_left fun k _ => ?_
    rw [f.steady.length_listed, f.openPages_eq hp]

end Follows

/-- After any history a snapshot accounts for every page. -/
theorem snapshot_accounts {region : Region} {config : Config} {s s' : Arena}
    (hlen : region.len < wordLimit) (h : Pool.init region config s = .ok (.ok p) s')
    (calls : List Call) :
    ∃ answers live t snap, p.replay calls [] s' = .ok (answers, live) t ∧
      p.snapshot t = .ok snap t ∧ p.Accounts (table t.memory) live snap := by
  obtain ⟨hp, live, t, run, f⟩ := follows_replay hlen h calls
  exact ⟨_, live, t, _, run, Pool.snapshot_run hp f.steady.toSound f.stores, f.accounts hp⟩

/-- Free runs of one page and of more, beside a run that was given out and pages of three
classes. -/
theorem snapshot_accounts_host : ∃ p s',
    Pool.init ⟨0, 65536⟩ Config.host ⟨Memory.zeroed, #[]⟩ = .ok (.ok p) s' ∧
    ∃ answers live t snap, p.replay [.alloc 5000 (by decide), .alloc 8 (by decide),
        .alloc 64 (by decide), .alloc 4096 (by decide), .alloc 2048 (by decide),
        .alloc 5000 (by decide), .free 4096, .free 20480] [] s' = .ok (answers, live) t ∧
      p.snapshot t = .ok snap t ∧ p.Accounts (table t.memory) live snap := by
  obtain ⟨p, s', h⟩ := Pool.init_host
  exact ⟨p, s', h, snapshot_accounts (by decide) h _⟩

end SharedSlab.Slab
