import Mathlib.Data.Finset.Card
import SharedSlab.Proofs.LedgerJoin

set_option autoImplicit false

namespace SharedSlab.Slab

theorem Config.isClass_shiftFor {c : Config} {size : Nat} (hle : size ≤ c.maxSize) :
    c.IsClass (c.shiftFor size) := by
  have hmin : c.minShift + 6 < c.pageShift := c.min_lt
  rw [shiftFor, minSize, Nat.shiftLeft_eq, Nat.one_mul]
  split
  · exact ⟨le_refl _, by omega⟩
  · next hlarge =>
    have hpos : 0 < 2 ^ c.minShift := Nat.two_pow_pos _
    have hhalf : c.maxSize = 2 ^ (c.pageShift - 1) := by
      rw [maxSize, pageSize_eq, show c.pageShift = c.pageShift - 1 + 1 by omega, Nat.pow_succ,
        Nat.mul_div_cancel _ (by decide)]
      rfl
    have hlow : c.minShift ≤ (size - 1).log2 := (Nat.le_log2 (by omega)).2 (by omega)
    have hhigh : (size - 1).log2 < c.pageShift - 1 := (Nat.log2_lt (by omega)).2 (by omega)
    exact ⟨by omega, by omega⟩

theorem Config.le_two_pow_shiftFor (c : Config) (size : Nat) : size ≤ 2 ^ c.shiftFor size := by
  rw [shiftFor, minSize, Nat.shiftLeft_eq, Nat.one_mul]
  split
  · assumption
  · have hlt := Nat.lt_log2_self (n := size - 1)
    omega

namespace Ledger

variable {c : Config} {p : Pool} {pageCount i j k n off shift size : Nat} {a a' : Ledger}
  {taken taken' : Finset Nat}

def fill (p : Pool) (i shift k : Nat) (taken : Finset Nat) (a : Ledger) : Ledger :=
  { a.setTaken i shift (insert k taken) with
    listed := if insert k taken = Finset.range (p.config.chunkCount shift)
      then unlist i a.listed else a.listed }

def clear (p : Pool) (i shift k : Nat) (taken : Finset Nat) (a : Ledger) : Ledger :=
  { a.setTaken i shift (taken.erase k) with
    listed := if taken = Finset.range (p.config.chunkCount shift)
      then enlist shift i a.listed else a.listed }

/-- What the lists are once one page of a class has other chunks taken. -/
structure Relisted (c : Config) (i shift : Nat) (taken : Finset Nat)
    (listed listed' : Nat → List Nat) : Prop where
  others : ∀ s j, j ≠ i → (j ∈ listed' s ↔ j ∈ listed s)
  page : ∀ s, i ∈ listed' s ↔ s = shift ∧ taken ≠ Finset.range (c.chunkCount shift)
  nodup : ∀ s, (listed' s).Nodup

theorem mem_enlist {listed : Nat → List Nat} {s : Nat} :
    j ∈ enlist shift i listed s ↔ (s = shift ∧ j = i) ∨ j ∈ listed s := by
  rw [enlist]
  by_cases hs : s = shift
  · subst hs
    rw [Function.update_self, List.mem_cons]
    simp
  · rw [Function.update_of_ne hs]
    simp [hs]

theorem nodup_enlist {listed : Nat → List Nat} (nodup : ∀ s, (listed s).Nodup)
    (fresh : i ∉ listed shift) (s : Nat) : (enlist shift i listed s).Nodup := by
  rw [enlist]
  by_cases hs : s = shift
  · subst hs
    rw [Function.update_self]
    exact List.nodup_cons.2 ⟨fresh, nodup s⟩
  · rw [Function.update_of_ne hs]
    exact nodup s

section SetTaken

theorem setTaken_self (a : Ledger) (i shift : Nat) (taken : Finset Nat) :
    (a.setTaken i shift taken).use i = .chunks shift taken := Function.update_self ..

theorem setTaken_of_ne (h : j ≠ i) : (a.setTaken i shift taken).use j = a.use j :=
  Function.update_of_ne h ..

theorem setTaken_eq_chunks {s : Nat} {t : Finset Nat}
    (h : (a.setTaken i shift taken).use j = .chunks s t) :
    (j = i ∧ s = shift ∧ t = taken) ∨ (j ≠ i ∧ a.use j = .chunks s t) := by
  by_cases hji : j = i
  · subst hji
    cases (setTaken_self a j shift taken).symm.trans h
    exact .inl ⟨rfl, rfl, rfl⟩
  · exact .inr ⟨hji, (setTaken_of_ne hji).symm.trans h⟩

theorem setTaken_eq_other {u : PageUse} (h : (a.setTaken i shift taken).use j = u)
    (hne : ∀ s t, u ≠ .chunks s t) : a.use j = u := by
  by_cases hji : j = i
  · subst hji
    exact absurd (h.symm.trans (setTaken_self a j shift taken)) (hne shift taken)
  · exact (setTaken_of_ne hji).symm.trans h

end SetTaken

namespace Coherent

theorem setTaken (co : a.Coherent c pageCount) (hold : a.use i ≠ .free)
    (hlisted : ∀ s, i ∈ a.listed s → s = shift) :
    (a.setTaken i shift taken).Coherent c pageCount := by
  refine { co with run_free := ?_, listed_use := ?_ }
  · intro r hr j low high
    have hj := co.run_free r hr j low high
    have hne : j ≠ i := fun e => hold (e ▸ hj)
    exact (setTaken_of_ne hne).trans hj
  · intro s j hj
    by_cases hji : j = i
    · subst hji
      cases hlisted s hj
      exact ⟨taken, setTaken_self ..⟩
    · obtain ⟨t, ht⟩ := co.listed_use s j hj
      exact ⟨t, (setTaken_of_ne hji).trans ht⟩

theorem rechunk {listed : Nat → List Nat} (co : a.Coherent c pageCount) (hi : i < pageCount)
    (hold : a.use i ≠ .free) (hclass : c.IsClass shift)
    (re : Relisted c i shift taken a.listed listed) :
    Coherent c pageCount { a.setTaken i shift taken with listed := listed } := by
  have hlisted : ∀ s j, j ∈ listed s → (j = i ∧ s = shift) ∨ (j ≠ i ∧ j ∈ a.listed s) := by
    intro s j hj
    by_cases hji : j = i
    · subst hji
      exact .inl ⟨rfl, ((re.page s).1 hj).1⟩
    · exact .inr ⟨hji, (re.others s j hji).1 hj⟩
  refine { co with
    run_free := ?_, listed_lt := ?_, listed_class := ?_, listed_use := ?_
    listed_nodup := re.nodup }
  · intro r hr j low high
    have hj := co.run_free r hr j low high
    have hne : j ≠ i := fun e => hold (e ▸ hj)
    exact (setTaken_of_ne hne).trans hj
  · intro s j hj
    rcases hlisted s j hj with ⟨rfl, _⟩ | ⟨_, hj⟩
    · exact hi
    · exact co.listed_lt s j hj
  · intro s j hj
    rcases hlisted s j hj with ⟨_, rfl⟩ | ⟨_, hj⟩
    · exact hclass
    · exact co.listed_class s j hj
  · intro s j hj
    rcases hlisted s j hj with ⟨rfl, rfl⟩ | ⟨hne, hj⟩
    · exact ⟨taken, setTaken_self ..⟩
    · obtain ⟨t, ht⟩ := co.listed_use s j hj
      exact ⟨t, (setTaken_of_ne hne).trans ht⟩

end Coherent

namespace Sound

section Rechunk

variable (so : a.Sound c pageCount) (hi : i < pageCount) (out : a.GivenOut i 1)
include so hi out

theorem rechunk {listed : Nat → List Nat} (hclass : c.IsClass shift)
    (hle : taken ⊆ Finset.range (c.chunkCount shift))
    (hge : Finset.range (c.reserved shift) ⊆ taken)
    (re : Relisted c i shift taken a.listed listed) :
    Sound c pageCount { a.setTaken i shift taken with listed := listed } := by
  have hfree : a.use i ≠ .free := so.givenOut_not_free hi out (le_refl i) (by omega)
  have hrest : a.use i ≠ .runRest := by
    rcases out with h | ⟨_, s, t, h⟩ <;> simp [h]
  refine { so.toCoherent.rechunk hi hfree hclass re with
    covered := ?_, start_pos := ?_, start_le := ?_, start_rest := ?_
    rest_start := ?_, chunks_class := ?_, chunks_le := ?_, chunks_ge := ?_, listed_iff := ?_ }
  · exact fun j hj hu => so.covered j hj (setTaken_eq_other hu (by simp))
  · exact fun j hj m hu => so.start_pos j hj m (setTaken_eq_other hu (by simp))
  · exact fun j hj m hu => so.start_le j hj m (setTaken_eq_other hu (by simp))
  · intro j hj m hu x low high
    have hx := so.start_rest j hj m (setTaken_eq_other hu (by simp)) x low high
    have hne : x ≠ i := fun e => hrest (e ▸ hx)
    exact (setTaken_of_ne hne).trans hx
  · intro j hj hu
    obtain ⟨x, m, hstart, low, high⟩ := so.rest_start j hj (setTaken_eq_other hu (by simp))
    refine ⟨x, m, (setTaken_of_ne ?_).trans hstart, low, high⟩
    -- a run of one page has no page after its first
    rintro rfl
    rcases out with h | ⟨_, s, t, h⟩
    · cases h.symm.trans hstart
      omega
    · cases h.symm.trans hstart
  · intro j hj s t hu
    rcases setTaken_eq_chunks hu with ⟨_, rfl, _⟩ | ⟨_, hu⟩
    · exact hclass
    · exact so.chunks_class j hj s t hu
  · intro j hj s t hu
    rcases setTaken_eq_chunks hu with ⟨_, rfl, rfl⟩ | ⟨_, hu⟩
    · exact hle
    · exact so.chunks_le j hj s t hu
  · intro j hj s t hu
    rcases setTaken_eq_chunks hu with ⟨_, rfl, rfl⟩ | ⟨_, hu⟩
    · exact hge
    · exact so.chunks_ge j hj s t hu
  · intro j hj s t hu
    rcases setTaken_eq_chunks hu with ⟨rfl, rfl, rfl⟩ | ⟨hne, hu⟩
    · exact (re.page s).trans ⟨And.right, And.intro rfl⟩
    · exact (re.others s j hne).trans (so.listed_iff j hj s t hu)

end Rechunk

end Sound

theorem NoneIdle.rechunk {listed : Nat → List Nat} (idle : NoneIdle c pageCount a)
    (hne : taken ≠ Finset.range (c.reserved shift)) :
    NoneIdle c pageCount { a.setTaken i shift taken with listed := listed } := by
  intro j hj s t hu
  rcases setTaken_eq_chunks hu with ⟨_, rfl, rfl⟩ | ⟨_, hu⟩
  · exact hne
  · exact idle j hj s t hu

theorem Coherent.shift_eq_of_listed {s : Nat} (co : a.Coherent c pageCount)
    (h : a.use i = .chunks shift taken) (hmem : i ∈ a.listed s) : s = shift := by
  obtain ⟨t, ht⟩ := co.listed_use s i hmem
  cases h.symm.trans ht
  rfl

namespace Sound

variable (so : a.Sound c pageCount) (hi : i < pageCount)
include so hi

/-- A page with a free chunk stays on its list while it has one. -/
theorem relisted_taken (h : a.use i = .chunks shift taken)
    (room : taken ≠ Finset.range (c.chunkCount shift)) :
    Relisted c i shift taken' a.listed
      (if taken' = Finset.range (c.chunkCount shift) then unlist i a.listed else a.listed) := by
  have hmem : i ∈ a.listed shift := (so.listed_iff i hi shift taken h).2 room
  split
  · next hfull =>
    refine ⟨fun s j hj => ?_, fun s => ?_, fun s => (so.listed_nodup s).filter _⟩
    · rw [mem_unlist]
      exact and_iff_left hj
    · rw [mem_unlist]
      exact iff_of_false (fun hs => hs.2 rfl) fun hs => hs.2 hfull
  · next hroom =>
    refine ⟨fun s j _ => Iff.rfl, fun s => ⟨fun hs => ?_, ?_⟩, so.listed_nodup⟩
    · exact ⟨so.toCoherent.shift_eq_of_listed h hs, hroom⟩
    · rintro ⟨rfl, _⟩
      exact hmem

theorem relisted_cleared (h : a.use i = .chunks shift taken)
    (room : taken' ≠ Finset.range (c.chunkCount shift)) :
    Relisted c i shift taken' a.listed
      (if taken = Finset.range (c.chunkCount shift) then enlist shift i a.listed
        else a.listed) := by
  have hiff := so.listed_iff i hi shift taken h
  split
  · next hfull =>
    have hfresh : i ∉ a.listed shift := fun hmem => hiff.1 hmem hfull
    refine ⟨fun s j hj => ?_, fun s => ?_, nodup_enlist so.listed_nodup hfresh⟩
    · rw [mem_enlist]
      exact or_iff_right fun hs => hj hs.2
    · rw [mem_enlist]
      constructor
      · rintro (⟨rfl, _⟩ | hmem)
        · exact ⟨rfl, room⟩
        · cases so.toCoherent.shift_eq_of_listed h hmem
          exact absurd hmem hfresh
      · exact fun hs => .inl ⟨hs.1, rfl⟩
  · next hroom =>
    refine ⟨fun s j _ => Iff.rfl, fun s => ⟨fun hs => ?_, ?_⟩, so.listed_nodup⟩
    · exact ⟨so.toCoherent.shift_eq_of_listed h hs, room⟩
    · rintro ⟨rfl, _⟩
      exact hiff.2 hroom

omit hi in
theorem relisted_started (h : a.use i = .runStart n)
    (room : taken ≠ Finset.range (c.chunkCount shift)) :
    Relisted c i shift taken a.listed (enlist shift i a.listed) := by
  have hfresh : ∀ s, i ∉ a.listed s := by
    intro s hmem
    obtain ⟨t, ht⟩ := so.listed_use s i hmem
    cases h.symm.trans ht
  refine ⟨fun s j hj => ?_, fun s => ?_, nodup_enlist so.listed_nodup (hfresh shift)⟩
  · rw [mem_enlist]
    exact or_iff_right fun hs => hj hs.2
  · rw [mem_enlist]
    exact ⟨fun hs => ⟨(hs.resolve_right (hfresh s)).1, room⟩, fun hs => .inl ⟨hs.1, rfl⟩⟩

end Sound

/-- What holds between operations. -/
structure Steady (c : Config) (pageCount : Nat) (a : Ledger) : Prop extends
    Sound c pageCount a where
  busy : NoneIdle c pageCount a

theorem Steady.exists_chunk (st : a.Steady c pageCount) (hi : i < pageCount)
    (huse : a.use i = .chunks shift taken) : ∃ k ∈ taken, c.reserved shift ≤ k := by
  by_contra hnone
  push Not at hnone
  refine st.busy i hi shift taken huse (Finset.Subset.antisymm (fun k hk => ?_) ?_)
  · exact Finset.mem_range.2 (hnone k hk)
  · exact st.chunks_ge i hi shift taken huse

theorem fresh_steady (c : Config) {pageCount : Nat} (hpos : 0 < pageCount) :
    (fresh pageCount).Steady c pageCount where
  run_pos r hr := by
    cases List.mem_singleton.1 hr
    exact hpos
  run_le r hr := by
    cases List.mem_singleton.1 hr
    exact (Nat.zero_add _).le
  run_free _ _ _ _ _ := rfl
  apart := List.pairwise_singleton _ _
  listed_lt _ _ h := nomatch h
  listed_class _ _ h := nomatch h
  listed_use _ _ h := nomatch h
  listed_nodup _ := List.nodup_nil
  covered i hi _ :=
    ⟨_, List.mem_singleton_self _, Nat.zero_le i, hi.trans_eq (Nat.zero_add _).symm⟩
  start_pos _ _ _ h := nomatch h
  start_le _ _ _ h := nomatch h
  start_rest _ _ _ h := nomatch h
  rest_start _ _ h := nomatch h
  chunks_class _ _ _ _ h := nomatch h
  chunks_le _ _ _ _ h := nomatch h
  chunks_ge _ _ _ _ h := nomatch h
  listed_iff _ _ _ _ h := nomatch h
  busy _ _ _ _ h := nomatch h

theorem take_use (h : a.take n = some (i, a')) : a'.use = holdRun i n a.use := by
  obtain ⟨_, _, _, _, _, _, rfl, rfl⟩ := take_eq_some h
  rfl

theorem Coherent.take_le (co : a.Coherent c pageCount) (h : a.take n = some (i, a')) :
    i + n ≤ pageCount := by
  obtain ⟨l₁, r, l₂, hruns, _, hlen, rfl, rfl⟩ := take_eq_some h
  have hle := co.run_le r (by simp [hruns])
  simp only [PageRun.finish] at hle
  omega

theorem Coherent.take_free (co : a.Coherent c pageCount) (h : a.take n = some (i, a'))
    (low : i ≤ j) (high : j < i + n) : a.use j = .free := by
  obtain ⟨l₁, r, l₂, hruns, _, hlen, rfl, rfl⟩ := take_eq_some h
  exact co.run_free r (by simp [hruns]) j low (by simp only [PageRun.finish]; omega)

theorem Steady.take (st : a.Steady c pageCount) (hn : 0 < n) (h : a.take n = some (i, a')) :
    a'.Steady c pageCount := by
  refine ⟨st.toSound.take hn h, fun j hj s t hu => st.busy j hj s t ?_⟩
  rw [take_use h] at hu
  exact (holdRun_eq_other hn hu (by simp) (by simp)).1

theorem find_range_eq_some_iff {all : Nat} :
    (List.range all).find? (· ∉ taken) = some k ↔ k < all ∧ k ∉ taken ∧ ∀ j < k, j ∈ taken := by
  rw [List.find?_range_eq_some]
  simp [and_left_comm]

theorem exists_lowest {all : Nat} (hle : taken ⊆ Finset.range all)
    (room : taken ≠ Finset.range all) :
    ∃ k, (List.range all).find? (· ∉ taken) = some k := by
  by_contra hnone
  rw [← Option.isSome_iff_exists, Bool.not_eq_true, Option.isSome_eq_false_iff,
    Option.isNone_iff_eq_none,
    List.find?_eq_none] at hnone
  refine room (hle.antisymm fun j hj => ?_)
  simpa using hnone j (List.mem_range.2 (Finset.mem_range.1 hj))

theorem Sound.fill (so : a.Sound p.config p.pageCount) (hi : i < p.pageCount)
    (h : a.use i = .chunks shift taken) (hk : k < p.config.chunkCount shift)
    (room : taken ≠ Finset.range (p.config.chunkCount shift)) :
    (a.fill p i shift k taken).Sound p.config p.pageCount := by
  refine so.rechunk hi (.inr ⟨rfl, shift, taken, h⟩) (so.chunks_class i hi shift taken h) ?_ ?_
    (so.relisted_taken hi h room)
  · exact Finset.insert_subset (Finset.mem_range.2 hk) (so.chunks_le i hi shift taken h)
  · exact (so.chunks_ge i hi shift taken h).trans (Finset.subset_insert k taken)

namespace Steady

theorem takeChunk_eq (st : a.Steady p.config p.pageCount) (hmem : i ∈ a.listed shift) :
    ∃ taken k, a.use i = .chunks shift taken ∧
      (k < p.config.chunkCount shift ∧ k ∉ taken ∧ ∀ j < k, j ∈ taken) ∧
      a.takeChunk p i shift = (some (p.chunkAt i shift k), a.fill p i shift k taken) := by
  obtain ⟨taken, htaken⟩ := st.listed_use shift i hmem
  have hi := st.listed_lt shift i hmem
  have hroom := (st.listed_iff i hi shift taken htaken).1 hmem
  obtain ⟨k, hk⟩ := exists_lowest (st.chunks_le i hi shift taken htaken) hroom
  have hfound : (List.range (p.config.chunkCount shift)).find?
      (· ∉ (a.use i).taken) = some k := by
    rw [htaken]
    exact hk
  refine ⟨taken, k, htaken, find_range_eq_some_iff.1 hk, ?_⟩
  rw [Ledger.takeChunk, hfound, htaken]
  rfl

theorem takeChunk (st : a.Steady p.config p.pageCount) (hmem : i ∈ a.listed shift) :
    (a.takeChunk p i shift).2.Steady p.config p.pageCount := by
  obtain ⟨taken, k, htaken, ⟨hk, hfree, _⟩, heq⟩ := st.takeChunk_eq hmem
  have hi := st.listed_lt shift i hmem
  have hroom := (st.listed_iff i hi shift taken htaken).1 hmem
  rw [heq]
  refine ⟨st.toSound.fill hi htaken hk hroom, st.busy.rechunk fun heq => ?_⟩
  exact hfree (st.chunks_ge i hi shift taken htaken (heq ▸ Finset.mem_insert_self k taken))

theorem startPage (st : a.Steady p.config p.pageCount) (hclass : p.config.IsClass shift) :
    (a.startPage p shift).2.Steady p.config p.pageCount := by
  unfold Ledger.startPage
  cases htake : a.take 1 with
  | none => exact st
  | some found =>
    obtain ⟨i, a'⟩ := found
    have st' := st.take Nat.one_pos htake
    have hi : i < p.pageCount := st.toCoherent.take_le htake
    have hstart : a'.use i = .runStart 1 := by
      rw [take_use htake]
      exact holdRun_start i 1 a.use
    have htwo := Config.reserved_add_two_le hclass
    have hrange : ∀ m, m ≠ p.config.reserved shift + 1 →
        Finset.range (p.config.reserved shift + 1) ≠ Finset.range m :=
      fun m hm heq => hm (by simpa using congrArg Finset.card heq.symm)
    refine ⟨st'.toSound.rechunk hi (.inl hstart) hclass ?_ ?_ ?_, st'.busy.rechunk ?_⟩
    · exact Finset.range_subset_range.2 (by omega)
    · exact Finset.range_subset_range.2 (by omega)
    · exact st'.toSound.relisted_started hstart (hrange _ (by omega))
    · exact hrange _ (by omega)

theorem alloc (st : a.Steady p.config p.pageCount) (hpos : 0 < size) :
    (a.alloc p size).2.Steady p.config p.pageCount := by
  unfold Ledger.alloc
  by_cases hlarge : p.config.maxSize < size
  · rw [if_pos hlarge]
    cases htake : a.take (p.config.page.pagesFor size) with
    | none => exact st
    | some found => exact st.take (p.config.page.pagesFor_pos hpos) htake
  · rw [if_neg hlarge]
    have hclass := Config.isClass_shiftFor (not_lt.1 hlarge)
    cases hlist : a.listed (p.config.shiftFor size) with
    | nil =>
      simp only [hlist]
      exact st.startPage hclass
    | cons i rest =>
      simp only [hlist]
      exact st.takeChunk (hlist ▸ List.mem_cons_self)

theorem give (st : a.Steady c pageCount) (hi : i < pageCount) (out : a.GivenOut i n) :
    (a.give i n).Steady c pageCount := by
  refine ⟨st.toSound.give hi out, fun j hj s t hu => ?_⟩
  exact st.busy j hj s t (release_eq_other hu (by simp)).1

end Steady

/-- A page with none but its reserved chunks taken is given back. -/
theorem clearChunk_eq (a : Ledger) (h : a.use i = .chunks shift taken) (k : Nat) :
    a.clearChunk p i shift k =
      if taken.erase k = Finset.range (p.config.reserved shift)
        then (a.clear p i shift k taken).give i 1 else a.clear p i shift k taken := by
  have htaken : (a.use i).taken = taken := by
    rw [h]
    rfl
  rw [Ledger.clearChunk, htaken]
  rfl

theorem clear_use (a : Ledger) (i shift k : Nat) (taken : Finset Nat) :
    (a.clear p i shift k taken).use i = .chunks shift (taken.erase k) := setTaken_self ..

theorem clear_givenOut (a : Ledger) (i shift k : Nat) (taken : Finset Nat) :
    (a.clear p i shift k taken).GivenOut i 1 := .inr ⟨rfl, shift, _, clear_use ..⟩

section ClearChunk

variable (so : a.Sound p.config p.pageCount) (hi : i < p.pageCount)
  (h : a.use i = .chunks shift taken) (hk : k ∈ taken) (hres : p.config.reserved shift ≤ k)
include so hi h hk hres

theorem Sound.clear : (a.clear p i shift k taken).Sound p.config p.pageCount := by
  have hle := so.chunks_le i hi shift taken h
  refine so.rechunk hi (.inr ⟨rfl, shift, taken, h⟩)
    (so.chunks_class i hi shift taken h) ((Finset.erase_subset k taken).trans hle) ?_ ?_
  · intro j hj
    refine Finset.mem_erase.2 ⟨?_, so.chunks_ge i hi shift taken h hj⟩
    rintro rfl
    exact absurd (Finset.mem_range.1 hj) (not_lt.2 hres)
  · refine so.relisted_cleared hi h fun heq => ?_
    exact Finset.notMem_erase k taken (heq ▸ hle hk)

theorem Sound.clearChunk : (a.clearChunk p i shift k).Sound p.config p.pageCount := by
  have cleared := so.clear hi h hk hres
  rw [clearChunk_eq a h]
  split
  · exact cleared.give hi (clear_givenOut ..)
  · exact cleared

end ClearChunk

theorem Steady.clearChunk (st : a.Steady p.config p.pageCount) (hi : i < p.pageCount)
    (h : a.use i = .chunks shift taken) (hk : k ∈ taken) (hres : p.config.reserved shift ≤ k) :
    (a.clearChunk p i shift k).Steady p.config p.pageCount := by
  refine ⟨st.toSound.clearChunk hi h hk hres, ?_⟩
  rw [clearChunk_eq a h]
  split
  · intro j hj s t hu
    refine st.busy j hj s t ?_
    by_cases hji : j = i
    · subst hji
      cases (release_inside (le_refl j) (Nat.lt_succ_self j)).symm.trans hu
    · have hout : ¬(i ≤ j ∧ j < i + 1) := by omega
      exact (setTaken_of_ne hji).symm.trans ((release_outside hout).symm.trans hu)
  · next hbusy => exact st.busy.rechunk hbusy

namespace Steady

theorem free (st : a.Steady p.config p.pageCount) (hp : p.Placed) (off : Nat) :
    (a.free p off).2.Steady p.config p.pageCount := by
  unfold Ledger.free
  split
  · exact st
  next hinside =>
  have hi : (off - p.start) / p.config.pageSize < p.pageCount :=
    hp.div_lt (by omega) (by omega)
  simp only
  split
  · exact st
  · exact st
  · next n hstart =>
    split
    · exact st.give hi (.inl hstart)
    · exact st
  · next shift taken hchunks =>
    split
    · exact st
    next haligned =>
    rw [not_or, not_lt] at haligned
    split
    · exact st
    · next htaken => exact st.clearChunk hi hchunks (not_not.1 htaken) haligned.2

end Steady

end Ledger

end SharedSlab.Slab
