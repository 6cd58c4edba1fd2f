import SharedSlab.Proofs.LedgerChunks

set_option autoImplicit false

namespace SharedSlab.Slab

def Pool.pageOf (p : Pool) (off : Nat) : Nat := (off - p.start) / p.config.pageSize

/-- The blocks `[off, off + len)` that start in page `i`. -/
def PageUse.Holds (p : Pool) (i : Nat) (u : PageUse) (off len : Nat) : Prop :=
  match u with
  | .runStart n => off = p.dataOf i ∧ len = n * p.config.pageSize
  | .chunks shift taken =>
    ∃ k ∈ taken, p.config.reserved shift ≤ k ∧ off = p.chunkAt i shift k ∧ len = 2 ^ shift
  | _ => False

def Ledger.Held (p : Pool) (a : Ledger) (off len : Nat) : Prop :=
  ∃ i < p.pageCount, (a.use i).Holds p i off len

namespace Pool

variable {p : Pool} {i j k k' w off shift size : Nat}

theorem pageOf_add (p : Pool) (i : Nat) {w : Nat} (hw : w < p.config.pageSize) :
    p.pageOf (p.dataOf i + w) = i ∧ (p.dataOf i + w - p.start) % p.config.pageSize = w := by
  have hsub : p.dataOf i + w - p.start = w + p.config.pageSize * i := by
    rw [dataOf, Nat.mul_comm i]
    omega
  rw [pageOf, hsub]
  constructor
  · rw [Nat.add_mul_div_left _ _ p.config.pageSize_pos, Nat.div_eq_of_lt hw, Nat.zero_add]
  · rw [Nat.add_mul_mod_self_left, Nat.mod_eq_of_lt hw]

theorem dataOf_pageOf_add (low : p.start ≤ off) :
    p.dataOf (p.pageOf off) + (off - p.start) % p.config.pageSize = off := by
  have hsplit := Nat.div_add_mod (off - p.start) p.config.pageSize
  rw [Nat.mul_comm] at hsplit
  rw [dataOf, pageOf]
  omega

theorem start_le_dataOf (p : Pool) (i : Nat) : p.start ≤ p.dataOf i := Nat.le_add_right _ _

theorem dataOf_add_eq (p : Pool) (i n : Nat) :
    p.dataOf (i + n) = p.dataOf i + n * p.config.pageSize := by
  simp only [dataOf]
  ring

theorem chunk_le (hclass : p.config.IsClass shift) (hk : k < p.config.chunkCount shift) :
    (k + 1) * 2 ^ shift ≤ p.config.pageSize := by
  rw [← Config.chunkCount_mul hclass]
  exact Nat.mul_le_mul_right _ hk

theorem within_lt (hclass : p.config.IsClass shift) (hk : k < p.config.chunkCount shift) :
    k * 2 ^ shift < p.config.pageSize := by
  have hle := chunk_le hclass hk
  have hpos : 0 < 2 ^ shift := Nat.two_pow_pos shift
  rw [Nat.succ_mul] at hle
  omega

theorem pageOf_chunkAt (hclass : p.config.IsClass shift) (hk : k < p.config.chunkCount shift) :
    p.pageOf (p.chunkAt i shift k) = i ∧
      (p.chunkAt i shift k - p.start) % p.config.pageSize = k * 2 ^ shift :=
  p.pageOf_add i (within_lt hclass hk)

theorem chunkAt_inj : p.chunkAt i shift k = p.chunkAt i shift k' ↔ k = k' := by
  rw [chunkAt, chunkAt, Nat.add_right_inj]
  exact Nat.mul_left_inj (Nat.two_pow_pos shift).ne'

theorem chunkSize_of_small (small : size ≤ p.config.maxSize) :
    p.chunkSize size = 2 ^ p.config.shiftFor size := by
  rw [chunkSize, if_neg (not_lt.2 small), Nat.shiftLeft_eq, Nat.one_mul]

theorem chunkSize_lt_of_small (small : size ≤ p.config.maxSize) :
    p.chunkSize size < p.config.pageSize := by
  rw [chunkSize_of_small small]
  exact Config.two_pow_lt_pageSize (Config.isClass_shiftFor small)

theorem chunkSize_of_large (hp : p.Placed) (large : p.config.maxSize < size)
    (fits : p.config.page.pagesFor size ≤ p.pageCount) :
    p.chunkSize size = p.config.page.pagesFor size * p.config.pageSize := by
  have hlt := hp.dataOf_lt fits
  rw [dataOf] at hlt
  rw [chunkSize, if_pos large, Nat.shiftLeft_eq, ← Config.pageSize_eq, Nat.mod_eq_of_lt (by omega)]

theorem le_chunkSize (hp : p.Placed)
    (fits : p.config.maxSize < size → p.config.page.pagesFor size ≤ p.pageCount) :
    size ≤ p.chunkSize size := by
  by_cases large : p.config.maxSize < size
  · rw [chunkSize_of_large hp large (fits large)]
    exact p.config.page.le_pagesFor_mul size
  · rw [chunkSize_of_small (not_lt.1 large)]
    exact p.config.le_two_pow_shiftFor size

end Pool

namespace Ledger

variable {p : Pool} {i j k n off off' len len' shift size : Nat} {a a' : Ledger}
  {taken : Finset Nat}

namespace Steady

section Pages

variable (st : a.Steady p.config p.pageCount)
include st

theorem pages_of_holds (hi : i < p.pageCount) (h : (a.use i).Holds p i off len) :
    ∃ n, a.GivenOut i n ∧ p.dataOf i ≤ off ∧ off < p.dataOf i + p.config.pageSize ∧
      off + len ≤ p.dataOf (i + n) := by
  have hpage := p.config.pageSize_pos
  unfold PageUse.Holds at h
  split at h
  · next n hstart =>
    obtain ⟨rfl, rfl⟩ := h
    exact ⟨n, .inl hstart, le_refl _, by omega, (p.dataOf_add_eq i n).ge⟩
  · next shift taken hchunks =>
    obtain ⟨k, hk, _, rfl, rfl⟩ := h
    have hclass := st.chunks_class i hi shift taken hchunks
    have hlt := Finset.mem_range.1 (st.chunks_le i hi shift taken hchunks hk)
    have hle := Pool.chunk_le hclass hlt
    have hwithin := Pool.within_lt hclass hlt
    rw [Nat.succ_mul] at hle
    refine ⟨1, .inr ⟨rfl, shift, taken, hchunks⟩, ?_⟩
    rw [Pool.dataOf_succ, Pool.chunkAt]
    exact ⟨by omega, by omega, by omega⟩
  · exact h.elim

theorem pageOf_of_holds (hi : i < p.pageCount) (h : (a.use i).Holds p i off len) :
    p.pageOf off = i := by
  obtain ⟨n, _, low, high, _⟩ := st.pages_of_holds hi h
  have hoff : off = p.dataOf i + (off - p.dataOf i) := by omega
  rw [hoff]
  exact (p.pageOf_add i (by omega)).1

theorem held_iff (hp : p.Placed) : a.Held p off len ↔
    (p.start ≤ off ∧ off < p.finish) ∧ (a.use (p.pageOf off)).Holds p (p.pageOf off) off len := by
  constructor
  · rintro ⟨i, hi, h⟩
    obtain ⟨n, _, low, high, _⟩ := st.pages_of_holds hi h
    have hstart := p.start_le_dataOf i
    have hfinish := hp.dataOf_add_le hi
    refine ⟨⟨by omega, by omega⟩, ?_⟩
    rwa [st.pageOf_of_holds hi h]
  · rintro ⟨⟨low, high⟩, h⟩
    exact ⟨p.pageOf off, hp.div_lt low high, h⟩

theorem givenOut_apart {m : Nat} (hi : i < p.pageCount) (hn : a.GivenOut i n) (hm : a.GivenOut j m)
    (hlt : i < j) : i + n ≤ j := by
  by_contra hin
  have hrest := st.toSound.givenOut_rest hi hn hlt (by omega)
  rcases hm with h | ⟨_, shift, taken, h⟩ <;> simp [h] at hrest

omit st in
theorem holds_apart (h : (a.use i).Holds p i off len) (h' : (a.use i).Holds p i off' len') :
    (off = off' ∧ len = len') ∨ off + len ≤ off' ∨ off' + len' ≤ off := by
  unfold PageUse.Holds at h h'
  split at h
  · next n hstart =>
    simp only [hstart] at h'
    exact .inl ⟨h.1.trans h'.1.symm, h.2.trans h'.2.symm⟩
  · next shift taken hchunks =>
    simp only [hchunks] at h'
    obtain ⟨k, _, _, rfl, rfl⟩ := h
    obtain ⟨k', _, _, rfl, rfl⟩ := h'
    have hstep : ∀ x y, x < y → x * 2 ^ shift + 2 ^ shift ≤ y * 2 ^ shift := fun x y hxy =>
      (Nat.succ_mul x _).symm.trans_le (Nat.mul_le_mul_right _ hxy)
    simp only [Pool.chunkAt]
    rcases Nat.lt_trichotomy k k' with hlt | rfl | hgt
    · have := hstep k k' hlt
      omega
    · exact .inl ⟨rfl, trivial⟩
    · have := hstep k' k hgt
      omega
  · exact h.elim

theorem held_apart (h : a.Held p off len) (h' : a.Held p off' len') :
    (off = off' ∧ len = len') ∨ off + len ≤ off' ∨ off' + len' ≤ off := by
  obtain ⟨i, hi, h⟩ := h
  obtain ⟨j, hj, h'⟩ := h'
  obtain ⟨n, hn, low, _, hend⟩ := st.pages_of_holds hi h
  obtain ⟨m, hm, low', _, hend'⟩ := st.pages_of_holds hj h'
  rcases Nat.lt_trichotomy i j with hlt | rfl | hgt
  · have hmono := p.dataOf_mono (st.givenOut_apart hi hn hm hlt)
    omega
  · exact holds_apart h h'
  · have hmono := p.dataOf_mono (st.givenOut_apart hj hm hn hgt)
    omega

theorem held_inside (hp : p.Placed) (h : a.Held p off len) :
    p.start ≤ off ∧ off + len ≤ p.finish := by
  obtain ⟨i, hi, h⟩ := h
  obtain ⟨n, hn, low, _, hend⟩ := st.pages_of_holds hi h
  have hstart := p.start_le_dataOf i
  have hfinish := hp.dataOf_le_finish (st.toSound.givenOut_le hi hn)
  exact ⟨by omega, by omega⟩

theorem held_apart_bitmap (hj : j < p.pageCount) (hchunks : a.use j = .chunks shift taken)
    (small : shift < p.config.exactShift) (h : a.Held p off len) :
    off + len ≤ p.dataOf j ∨ p.dataOf j + 8 * p.config.words shift ≤ off := by
  obtain ⟨i, hi, h⟩ := h
  have hclass := st.chunks_class j hj shift taken hchunks
  have hbitmap := Config.bitmap_le_reserved small
  rcases Nat.lt_trichotomy i j with hlt | rfl | hgt
  · obtain ⟨n, hn, _, _, hend⟩ := st.pages_of_holds hi h
    have hmono := p.dataOf_mono
      (st.givenOut_apart hi hn (.inr ⟨rfl, shift, taken, hchunks⟩) hlt)
    omega
  · simp only [PageUse.Holds, hchunks] at h
    obtain ⟨k, _, hres, rfl, _⟩ := h
    have hmono : p.config.reserved shift * 2 ^ shift ≤ k * 2 ^ shift := Nat.mul_le_mul_right _ hres
    simp only [Pool.chunkAt]
    omega
  · obtain ⟨n, _, low, _, _⟩ := st.pages_of_holds hi h
    have hmono := p.dataOf_mono (Nat.succ_le_of_lt hgt)
    rw [Nat.succ_eq_add_one, Pool.dataOf_succ] at hmono
    have hroom := Config.reserved_add_two_le hclass
    have hwithin := Pool.within_lt hclass (k := p.config.reserved shift) (by omega)
    omega

theorem held_aligned (hp : p.Placed) (h : a.Held p off len) :
    (len ∣ off ∧ len < p.config.pageSize) ∨
      (p.config.pageSize ∣ off ∧ ∃ n, 0 < n ∧ len = n * p.config.pageSize) := by
  obtain ⟨i, hi, h⟩ := h
  have hdata := hp.pageSize_dvd_dataOf i
  unfold PageUse.Holds at h
  split at h
  · next n hstart =>
    obtain ⟨rfl, rfl⟩ := h
    exact .inr ⟨hdata, n, st.start_pos i hi n hstart, rfl⟩
  · next shift taken hchunks =>
    obtain ⟨k, _, _, rfl, rfl⟩ := h
    have hclass := st.chunks_class i hi shift taken hchunks
    have hdvd : 2 ^ shift ∣ p.config.pageSize := by
      rw [← Config.chunkCount_mul hclass]
      exact Nat.dvd_mul_left _ _
    exact .inl ⟨Nat.dvd_add (hdvd.trans hdata) (Nat.dvd_mul_left _ _),
      Config.two_pow_lt_pageSize hclass⟩
  · exact h.elim

end Pages

end Steady

theorem held_of_page (block : Nat → Nat → Prop) (hi : i < p.pageCount)
    (others : ∀ j, j ≠ i → ∀ o l, (a'.use j).Holds p j o l ↔ (a.use j).Holds p j o l)
    (page : ∀ o l, (a'.use i).Holds p i o l ↔ (a.use i).Holds p i o l ∨ block o l) (o l : Nat) :
    a'.Held p o l ↔ a.Held p o l ∨ block o l := by
  constructor
  · rintro ⟨j, hj, h⟩
    by_cases hji : j = i
    · subst hji
      exact ((page o l).1 h).imp_left fun h => ⟨j, hj, h⟩
    · exact .inl ⟨j, hj, (others j hji o l).1 h⟩
  · rintro (⟨j, hj, h⟩ | h)
    · by_cases hji : j = i
      · subst hji
        exact ⟨j, hj, (page o l).2 (.inl h)⟩
      · exact ⟨j, hj, (others j hji o l).2 h⟩
    · exact ⟨i, hi, (page o l).2 (.inr h)⟩

theorem held_of_page_erase (st : a.Steady p.config p.pageCount) (hoff : p.pageOf off = i)
    (others : ∀ j, j ≠ i → ∀ o l, (a'.use j).Holds p j o l ↔ (a.use j).Holds p j o l)
    (page : ∀ o l, (a'.use i).Holds p i o l ↔ (a.use i).Holds p i o l ∧ o ≠ off) (o l : Nat) :
    a'.Held p o l ↔ a.Held p o l ∧ o ≠ off := by
  have hne : ∀ j < p.pageCount, j ≠ i → (a.use j).Holds p j o l → o ≠ off := by
    rintro j hj hji h rfl
    exact hji ((st.pageOf_of_holds hj h).symm.trans hoff)
  constructor
  · rintro ⟨j, hj, h⟩
    by_cases hji : j = i
    · subst hji
      obtain ⟨h, ho⟩ := (page o l).1 h
      exact ⟨⟨j, hj, h⟩, ho⟩
    · have h := (others j hji o l).1 h
      exact ⟨⟨j, hj, h⟩, hne j hj hji h⟩
  · rintro ⟨⟨j, hj, h⟩, ho⟩
    by_cases hji : j = i
    · subst hji
      exact ⟨j, hj, (page o l).2 ⟨h, ho⟩⟩
    · exact ⟨j, hj, (others j hji o l).2 h⟩

theorem held_take (st : a.Steady p.config p.pageCount) (hn : 0 < n)
    (h : a.take n = some (i, a')) (o l : Nat) :
    a'.Held p o l ↔ a.Held p o l ∨ (o = p.dataOf i ∧ l = n * p.config.pageSize) := by
  have hfree := fun j low high => st.toCoherent.take_free (j := j) h low high
  have hi : i < p.pageCount := by
    have hle := st.toCoherent.take_le h
    omega
  refine held_of_page (fun o l => o = p.dataOf i ∧ l = n * p.config.pageSize) hi
    (fun j hj o l => ?_) (fun o l => ?_) o l
  · rw [take_use h]
    by_cases hin : i ≤ j ∧ j < i + n
    · rw [holdRun_rest (by omega) hin.2, hfree j hin.1 hin.2]
      exact Iff.rfl
    · rw [holdRun_outside hn hin]
  · rw [take_use h, holdRun_start, hfree i (le_refl i) (by omega)]
    exact (or_iff_right id).symm

theorem holds_insert (o l : Nat) (hres : p.config.reserved shift ≤ k) :
    (PageUse.chunks shift (insert k taken)).Holds p i o l ↔
      (PageUse.chunks shift taken).Holds p i o l ∨ (o = p.chunkAt i shift k ∧ l = 2 ^ shift) := by
  simp only [PageUse.Holds, Finset.mem_insert]
  constructor
  · rintro ⟨x, rfl | hx, hle, ho, hl⟩
    · exact .inr ⟨ho, hl⟩
    · exact .inl ⟨x, hx, hle, ho, hl⟩
  · rintro (⟨x, hx, hle, ho, hl⟩ | ⟨ho, hl⟩)
    · exact ⟨x, .inr hx, hle, ho, hl⟩
    · exact ⟨k, .inl rfl, hres, ho, hl⟩

theorem holds_erase (o l : Nat) :
    (PageUse.chunks shift (taken.erase k)).Holds p i o l ↔
      (PageUse.chunks shift taken).Holds p i o l ∧ o ≠ p.chunkAt i shift k := by
  simp only [PageUse.Holds, Finset.mem_erase]
  constructor
  · rintro ⟨x, ⟨hne, hx⟩, hle, rfl, hl⟩
    exact ⟨⟨x, hx, hle, rfl, hl⟩, fun heq => hne (Pool.chunkAt_inj.1 heq)⟩
  · rintro ⟨⟨x, hx, hle, rfl, hl⟩, hne⟩
    exact ⟨x, ⟨fun heq => hne (heq ▸ rfl), hx⟩, hle, rfl, hl⟩

theorem holds_reserved (o l : Nat) :
    ¬(PageUse.chunks shift (Finset.range (p.config.reserved shift))).Holds p i o l := by
  rintro ⟨k, hk, hres, _⟩
  exact absurd (Finset.mem_range.1 hk) (not_lt.2 hres)

namespace Steady

variable (st : a.Steady p.config p.pageCount)
include st

theorem held_takeChunk (hmem : i ∈ a.listed shift)
    (h : a.takeChunk p i shift = (some off, a')) :
    (∀ o l, a'.Held p o l ↔ a.Held p o l ∨ (o = off ∧ l = 2 ^ shift)) ∧
      p.pageOf off = i ∧ ∀ l, ¬(a.use i).Holds p i off l := by
  obtain ⟨taken, k, htaken, ⟨hk, hfree, _⟩, heq⟩ := st.takeChunk_eq hmem
  have hi := st.listed_lt shift i hmem
  cases heq.symm.trans h
  have hclass := st.listed_class shift i hmem
  have hres : p.config.reserved shift ≤ k := by
    by_contra hlt
    exact hfree (st.chunks_ge i hi shift taken htaken (Finset.mem_range.2 (not_le.1 hlt)))
  refine ⟨held_of_page (fun o l => o = p.chunkAt i shift k ∧ l = 2 ^ shift) hi
    (fun j hj o l => ?_) fun o l => ?_, (Pool.pageOf_chunkAt hclass hk).1, ?_⟩
  · change (Function.update a.use i _ j).Holds p j o l ↔ _
    rw [Function.update_of_ne hj]
  · change (Function.update a.use i _ i).Holds p i o l ↔ _
    rw [Function.update_self, htaken]
    exact holds_insert o l hres
  · rw [htaken]
    rintro l ⟨x, hx, _, hoff, _⟩
    exact hfree (Pool.chunkAt_inj.1 hoff ▸ hx)

theorem held_startPage (hclass : p.config.IsClass shift)
    (h : a.startPage p shift = (some off, a')) :
    (∀ o l, a'.Held p o l ↔ a.Held p o l ∨ (o = off ∧ l = 2 ^ shift)) ∧
      a.use (p.pageOf off) = .free := by
  unfold Ledger.startPage at h
  cases htake : a.take 1 with
  | none =>
    rw [htake] at h
    cases h
  | some found =>
    obtain ⟨i, a₁⟩ := found
    rw [htake] at h
    cases h
    have hi : i < p.pageCount := st.toCoherent.take_le htake
    have hfree := st.toCoherent.take_free htake (le_refl i) (Nat.lt_succ_self i)
    have hroom := Config.reserved_add_two_le hclass
    refine ⟨held_of_page
      (fun o l => o = p.chunkAt i shift (p.config.reserved shift) ∧ l = 2 ^ shift) hi
      (fun j hj o l => ?_) fun o l => ?_, ?_⟩
    · change (Function.update a₁.use i _ j).Holds p j o l ↔ _
      rw [Function.update_of_ne hj, take_use htake, holdRun_outside Nat.one_pos (by omega)]
    · change (Function.update a₁.use i _ i).Holds p i o l ↔ _
      rw [Function.update_self, Finset.range_add_one, holds_insert o l (le_refl _), hfree]
      exact or_congr_left (iff_of_false (holds_reserved o l) id)
    · rw [(Pool.pageOf_chunkAt hclass (by omega)).1]
      exact hfree

theorem held_alloc (hp : p.Placed) (hpos : 0 < size) (h : a.alloc p size = (some off, a')) :
    (∀ o l, a'.Held p o l ↔ a.Held p o l ∨ (o = off ∧ l = p.chunkSize size)) ∧
      (∀ l, ¬a.Held p off l) ∧
      (p.config.maxSize < size → p.config.page.pagesFor size ≤ p.pageCount) := by
  unfold Ledger.alloc at h
  by_cases hlarge : p.config.maxSize < size
  · rw [if_pos hlarge] at h
    cases htake : a.take (p.config.page.pagesFor size) with
    | none =>
      rw [htake] at h
      cases h
    | some found =>
      obtain ⟨i, a₁⟩ := found
      rw [htake] at h
      cases h
      have hn := p.config.page.pagesFor_pos hpos
      have hle := st.toCoherent.take_le htake
      rw [Pool.chunkSize_of_large hp hlarge (by omega)]
      refine ⟨held_take st hn htake, fun l hheld => ?_, fun _ => by omega⟩
      have hpage : p.pageOf (p.dataOf i) = i := (p.pageOf_add i p.config.pageSize_pos).1
      have hholds := ((st.held_iff hp).1 hheld).2
      rw [hpage, st.toCoherent.take_free htake (le_refl i) (by omega)] at hholds
      exact hholds
  · rw [if_neg hlarge] at h
    have hclass := Config.isClass_shiftFor (not_lt.1 hlarge)
    rw [Pool.chunkSize_of_small (not_lt.1 hlarge)]
    cases hlist : a.listed (p.config.shiftFor size) with
    | nil =>
      simp only [hlist] at h
      obtain ⟨hheld, hfree⟩ := st.held_startPage hclass h
      refine ⟨hheld, fun l hl => ?_, fun hlt => absurd hlt hlarge⟩
      have hholds := ((st.held_iff hp).1 hl).2
      rw [hfree] at hholds
      exact hholds
    | cons i rest =>
      simp only [hlist] at h
      obtain ⟨hheld, hpage, hnew⟩ := st.held_takeChunk (hlist ▸ List.mem_cons_self) h
      refine ⟨hheld, fun l hl => ?_, fun hlt => absurd hlt hlarge⟩
      have hholds := ((st.held_iff hp).1 hl).2
      rw [hpage] at hholds
      exact hnew l hholds

theorem held_clearChunk (hi : i < p.pageCount) (h : a.use i = .chunks shift taken) (hk : k ∈ taken)
    (o l : Nat) :
    (a.clearChunk p i shift k).Held p o l ↔ a.Held p o l ∧ o ≠ p.chunkAt i shift k := by
  have hclass := st.chunks_class i hi shift taken h
  have hlt := Finset.mem_range.1 (st.chunks_le i hi shift taken h hk)
  have hpage : ∀ o l, (PageUse.chunks shift (taken.erase k)).Holds p i o l ↔
      (a.use i).Holds p i o l ∧ o ≠ p.chunkAt i shift k := by
    intro o l
    rw [h]
    exact holds_erase o l
  rw [clearChunk_eq a h]
  split
  · next hidle =>
    refine held_of_page_erase st (Pool.pageOf_chunkAt hclass hlt).1 (fun j hj o l => ?_)
      (fun o l => ?_) o l
    · rw [Ledger.give, release_outside (by omega)]
      change (Function.update a.use i _ j).Holds p j o l ↔ _
      rw [Function.update_of_ne hj]
    · rw [Ledger.give, release_inside (le_refl i) (Nat.lt_succ_self i), ← hpage o l, hidle]
      exact iff_of_false id (holds_reserved o l)
  · refine held_of_page_erase st (Pool.pageOf_chunkAt hclass hlt).1 (fun j hj o l => ?_)
      (fun o l => ?_) o l
    · change (Function.update a.use i _ j).Holds p j o l ↔ _
      rw [Function.update_of_ne hj]
    · change (Function.update a.use i _ i).Holds p i o l ↔ _
      rw [Function.update_self]
      exact hpage o l

theorem held_giveRun (hi : i < p.pageCount) (h : a.use i = .runStart n) (o l : Nat) :
    (a.give i n).Held p o l ↔ a.Held p o l ∧ o ≠ p.dataOf i := by
  have out : a.GivenOut i n := .inl h
  refine held_of_page_erase st (p.pageOf_add i p.config.pageSize_pos).1 (fun j hj o l => ?_)
    (fun o l => ?_) o l
  · by_cases hin : i ≤ j ∧ j < i + n
    · rw [Ledger.give, release_inside hin.1 hin.2,
        st.toSound.givenOut_rest hi out (by omega) hin.2]
      exact Iff.rfl
    · rw [Ledger.give, release_outside hin]
  · rw [Ledger.give, release_inside (le_refl i) (by have := st.start_pos i hi n h; omega), h]
    exact iff_of_false id fun hheld => hheld.2 hheld.1.1

end Steady

/-- What `free` decides, by the use of the page and the place in it. -/
inductive FreeCase (p : Pool) (a : Ledger) (off : Nat) : Except PoolError Unit × Ledger → Prop
  | outside (out : off < p.start ∨ p.finish ≤ off) : FreeCase p a off (.error .invalidAddress, a)
  | freePage (inside : p.start ≤ off ∧ off < p.finish) (use : a.use (p.pageOf off) = .free) :
      FreeCase p a off (.error .alreadyFree, a)
  | runRest (inside : p.start ≤ off ∧ off < p.finish) (use : a.use (p.pageOf off) = .runRest) :
      FreeCase p a off (.error .wrongChunk, a)
  | runInner {n : Nat} (inside : p.start ≤ off ∧ off < p.finish)
      (use : a.use (p.pageOf off) = .runStart n) (off_ne : off ≠ p.dataOf (p.pageOf off)) :
      FreeCase p a off (.error .wrongChunk, a)
  | run {n : Nat} (inside : p.start ≤ off ∧ off < p.finish)
      (use : a.use (p.pageOf off) = .runStart n) (off_eq : off = p.dataOf (p.pageOf off)) :
      FreeCase p a off (.ok (), a.give (p.pageOf off) n)
  | offChunk {shift : Nat} {taken : Finset Nat} (inside : p.start ≤ off ∧ off < p.finish)
      (use : a.use (p.pageOf off) = .chunks shift taken)
      (off_ne : ∀ k, p.config.reserved shift ≤ k → off ≠ p.chunkAt (p.pageOf off) shift k) :
      FreeCase p a off (.error .wrongChunk, a)
  | vacant {shift k : Nat} {taken : Finset Nat} (inside : p.start ≤ off ∧ off < p.finish)
      (use : a.use (p.pageOf off) = .chunks shift taken) (reserved_le : p.config.reserved shift ≤ k)
      (off_eq : off = p.chunkAt (p.pageOf off) shift k) (notMem : k ∉ taken) :
      FreeCase p a off (.error .alreadyFree, a)
  | chunk {shift k : Nat} {taken : Finset Nat} (inside : p.start ≤ off ∧ off < p.finish)
      (use : a.use (p.pageOf off) = .chunks shift taken) (reserved_le : p.config.reserved shift ≤ k)
      (off_eq : off = p.chunkAt (p.pageOf off) shift k) (mem : k ∈ taken) :
      FreeCase p a off (.ok (), a.clearChunk p (p.pageOf off) shift k)

theorem free_case (p : Pool) (a : Ledger) (off : Nat) : FreeCase p a off (a.free p off) := by
  by_cases hout : off < p.start ∨ p.finish ≤ off
  · rw [Ledger.free, if_pos hout]
    exact .outside hout
  have inside : p.start ≤ off ∧ off < p.finish := by omega
  have hsplit := Pool.dataOf_pageOf_add inside.1
  have hpage : (off - p.start) / p.config.pageSize = p.pageOf off := rfl
  generalize hw : (off - p.start) % p.config.pageSize = w at hsplit
  rw [Ledger.free, if_neg hout, hpage, hw]
  dsimp only
  cases huse : a.use (p.pageOf off) with
  | free => exact .freePage inside huse
  | runRest => exact .runRest inside huse
  | runStart n =>
    dsimp only
    by_cases hzero : w = 0
    · rw [if_pos hzero]
      exact .run inside huse (by omega)
    · rw [if_neg hzero]
      exact .runInner inside huse (by omega)
  | chunks shift taken =>
    have hpow : 0 < 2 ^ shift := Nat.two_pow_pos shift
    dsimp only
    by_cases hbad : w % 2 ^ shift ≠ 0 ∨ w / 2 ^ shift < p.config.reserved shift
    · rw [if_pos hbad]
      refine .offChunk inside huse fun k hres hoff => ?_
      have hwk : w = k * 2 ^ shift := by
        rw [Pool.chunkAt] at hoff
        omega
      rw [hwk, Nat.mul_mod_left, Nat.mul_div_cancel _ hpow] at hbad
      omega
    · have hmod := Nat.div_add_mod' w (2 ^ shift)
      have hoff : off = p.chunkAt (p.pageOf off) shift (w / 2 ^ shift) := by
        rw [Pool.chunkAt]
        omega
      rw [if_neg hbad]
      by_cases hk : w / 2 ^ shift ∈ taken
      · rw [if_neg (not_not.2 hk)]
        exact .chunk inside huse (by omega) hoff hk
      · rw [if_pos hk]
        exact .vacant inside huse (by omega) hoff hk

namespace Steady

variable (st : a.Steady p.config p.pageCount)
include st

theorem held_free (hp : p.Placed) (h : a.free p off = (.ok (), a')) :
    (∃ l, a.Held p off l) ∧ ∀ o l, a'.Held p o l ↔ a.Held p o l ∧ o ≠ off := by
  have hcase := free_case p a off
  rw [h] at hcase
  cases hcase with
  | @run n inside use off_eq =>
    have hi : p.pageOf off < p.pageCount := hp.div_lt inside.1 inside.2
    refine ⟨⟨n * p.config.pageSize, p.pageOf off, hi, ?_⟩, fun o l => ?_⟩
    · rw [use]
      exact ⟨off_eq, rfl⟩
    · have hgive := st.held_giveRun hi use o l
      rwa [← off_eq] at hgive
  | @chunk shift k _ inside use reserved_le off_eq hk =>
    have hi : p.pageOf off < p.pageCount := hp.div_lt inside.1 inside.2
    refine ⟨⟨2 ^ shift, p.pageOf off, hi, ?_⟩, fun o l => ?_⟩
    · rw [use]
      exact ⟨k, hk, reserved_le, off_eq, rfl⟩
    · have hclear := st.held_clearChunk hi use hk o l
      rwa [← off_eq] at hclear

theorem free_ok_iff (hp : p.Placed) : (a.free p off).1 = .ok () ↔ ∃ l, a.Held p off l := by
  constructor
  · intro h
    have heq : a.free p off = (.ok (), (a.free p off).2) := by rw [← h]
    exact (st.held_free hp heq).1
  · rintro ⟨l, hheld⟩
    obtain ⟨inside, hholds⟩ := (st.held_iff hp).1 hheld
    have hcase := free_case p a off
    generalize a.free p off = answer at hcase
    cases hcase with
    | outside out => omega
    | freePage _ use | runRest _ use =>
      rw [use] at hholds
      exact hholds.elim
    | runInner _ use off_ne =>
      rw [use] at hholds
      exact absurd hholds.1 off_ne
    | offChunk _ use off_ne =>
      rw [use] at hholds
      obtain ⟨x, _, hres, hoff, _⟩ := hholds
      exact absurd hoff (off_ne x hres)
    | vacant _ use _ off_eq vacant =>
      rw [use] at hholds
      obtain ⟨x, hx, _, hoff, _⟩ := hholds
      exact absurd (Pool.chunkAt_inj.1 (hoff.symm.trans off_eq) ▸ hx) vacant
    | run => rfl
    | chunk => rfl

end Steady

end Ledger

end SharedSlab.Slab
