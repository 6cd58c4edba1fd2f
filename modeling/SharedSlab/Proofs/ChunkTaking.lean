import SharedSlab.Proofs.ClassSteps
import SharedSlab.Proofs.LedgerBlocks

set_option autoImplicit false

namespace SharedSlab.Slab

variable {p : Pool} {a a' : Ledger} {i k n q shift size : Nat} {taken : Finset Nat} {s : Arena}
  {m m' m'' : Memory} {x : UInt64}

theorem Pool.Framed.trans_same (h : p.Framed a a' m m') (same : p.SameOutside m' m'') :
    p.Framed a a' m m'' :=
  ⟨fun y hy hold hnew => (same.words y hy).trans (h.words y hy hold hnew), same.links ∘ h.links⟩

theorem Pool.Framed.setBitmap (hp : p.Placed) (hi : i < p.pageCount)
    (huse : a.use i = .chunks shift taken)
    (small : shift < p.config.exactShift) (hk : k < p.config.words shift) :
    p.Framed a a' m (m.setWord (p.bitmapIndex i k) x) := by
  refine ⟨fun y _ hold _ => Memory.word_setWord_of_ne _ _ fun heq => hold ?_,
    fun h => h.congr fun j hj => by rw [table_setBitmap hp i k x m j hj]⟩
  exact ⟨i, hi, shift, taken, huse, small, k, hk, heq.symm⟩

/-- How a request is answered: as the ledger has it. `pages` is what a refused request asked of the
runs. -/
inductive Served (p : Pool) (a : Ledger) (s : Arena) (pages : Nat) :
    Option Nat × Ledger → EStateM.Result Fault Arena (Option Nat) → Prop
  | refused : Served p a s pages (none, a) (.ok none (s.noting (.noRun pages a.freePages)))
  | given {off : Nat} {a' : Ledger} {m' : Memory} (stores : Stores p a' m')
      (framed : p.Framed a a' s.memory m') :
      Served p a s pages (some off, a') (.ok (some off) (s.withMemory m'))

namespace Pool

section Take

variable (hp : p.Placed)
include hp

theorem chunk_run (hi : i < p.pageCount) (hclass : p.config.IsClass shift)
    (hk : k < p.config.chunkCount shift) (s : Arena) :
    (do return some (← Checked.add (p.dataOf i) (← Checked.shiftLeft k shift)) :
      PoolM (Option Nat)) s = .ok (some (p.chunkAt i shift k)) s := by
  have hwithin := within_lt hclass hk
  have hshift := Config.shift_lt_of_isClass hclass
  have hdata := hp.dataOf_add_le hi
  have hlimit := hp.finish_le.trans_lt hp.len_lt
  have hleft : Checked.shiftLeft k shift = .ok (k * 2 ^ shift) :=
    Checked.shiftLeft_eq_ok (by omega) (by omega)
  have hadd : Checked.add (p.dataOf i) (k * 2 ^ shift) = .ok (p.chunkAt i shift k) :=
    Checked.add_eq_ok (by omega)
  rw [PoolM.bind_liftM hleft, PoolM.bind_liftM hadd, PoolM.pure_run]

theorem fill_run (co : a.Coherent p.config p.pageCount) (hmem : i ∈ a.listed shift)
    (huse : a.use i = .chunks shift taken) {kind : PageKind} (hkind : kind = p.config.kindFor shift)
    {full : Prop} [Decidable full]
    (hfull : full ↔ insert k taken = Finset.range (p.config.chunkCount shift))
    (h : Stores p (a.setTaken i shift (insert k taken)) s.memory) :
    ∃ m', (if full then p.retire (nodeOffset (p.page i)) kind else pure ()) s =
        .ok () (s.withMemory m') ∧
      Stores p (a.fill p i shift k taken) m' ∧ p.SameOutside s.memory m' := by
  by_cases hlast : insert k taken = Finset.range (p.config.chunkCount shift)
  · have co' : (a.setTaken i shift (insert k taken)).Coherent p.config p.pageCount :=
      co.setTaken (by simp [huse]) fun _ hs => co.shift_eq_of_listed huse hs
    obtain ⟨m', run, stores, same⟩ := h.retire_run hp co' hmem
    refine ⟨m', ?_, ?_, same⟩
    · rw [if_pos (hfull.2 hlast), hkind, run]
    · rwa [Ledger.fill, if_pos hlast]
  · refine ⟨s.memory, ?_, ?_, .refl p _⟩
    · rw [if_neg fun hf => hlast (hfull.1 hf)]
      rfl
    · rwa [Ledger.fill, if_neg hlast]

/-- Looks at the bitmap words from word `q` on, when all chunks below are taken: are all taken? -/
theorem fullScan_run (hi : i < p.pageCount) (small : shift < p.config.exactShift)
    (hle : taken ⊆ Finset.range (p.config.chunkCount shift))
    (bits : ∀ j < p.config.words shift,
      Bits.Window (s.memory.word (p.bitmapIndex i j)) 0 64 (64 * j) taken)
    (below : ∀ b < 64 * q, b ∈ taken) (hn : q + n = p.config.words shift) :
    ∃ full, PoolM.allUp q (fun j => do return (← p.bitmapWord (p.dataOf i) j) = Bits.full) n s =
        .ok full s ∧ (full = true ↔ taken = Finset.range (p.config.chunkCount shift)) := by
  have hfull := small_full_iff small bits hle
  refine ⟨_, PoolM.allUp_run _ q n
    (t := fun j => decide (s.memory.word (p.bitmapIndex i j) = Bits.full)) fun j _ high => ?_, ?_⟩
  · rw [PoolM.bind_run (bitmapWord_run hp hi (Config.eight_mul_lt small (by omega)).le _)]
    rfl
  · rw [hfull, List.all_eq_true]
    simp only [List.mem_range'_1, decide_eq_true_eq]
    refine ⟨fun hup j hj => ?_, fun hup j hj => hup j (by omega)⟩
    by_cases hjq : q ≤ j
    · exact hup j ⟨hjq, by omega⟩
    · exact (bits j hj).eq_full_iff.2 fun b hb => below _ (by omega)

section Listed

variable (so : a.Sound p.config p.pageCount) (hmem : i ∈ a.listed shift)
  (huse : a.use i = .chunks shift taken)
  (lowest : k < p.config.chunkCount shift ∧ k ∉ taken ∧ ∀ j < k, j ∈ taken)
include so hmem huse lowest

theorem takeSmallFrom_run (small : shift < p.config.exactShift) (h : Stores p a s.memory)
    {count : Nat} (hq : q + count = p.config.words shift) (hqk : 64 * q ≤ k) :
    ∃ m', p.takeSmallFrom (nodeOffset (p.page i)) (p.dataOf i) shift q count s =
        .ok (some (p.chunkAt i shift k)) (s.withMemory m') ∧
      Stores p (a.fill p i shift k taken) m' ∧
      p.Framed a (a.fill p i shift k taken) s.memory m' := by
  obtain ⟨hk, hnot, hbelow⟩ := lowest
  have co := so.toCoherent
  have hi := co.listed_lt shift i hmem
  have hclass := co.listed_class shift i hmem
  have hwords := Config.words_mul small
  have hmarks := (h.encodes.pages i hi).marks
  rw [huse] at hmarks
  have hbits := ((occupied_small small).1 hmarks).2
  have fits : ∀ j < p.config.words shift, 8 * j ≤ p.config.pageSize :=
    fun j hj => (Config.eight_mul_lt small hj).le
  induction count generalizing q with
  | zero => omega
  | succ count ih =>
    have hword := bitmapWord_run hp hi (fits q (by omega)) s
    have hwindow := hbits q (by omega)
    rw [takeSmallFrom, PoolM.bind_run hword]
    by_cases hhere : k < 64 * q + 64
    · have hkq : 64 * q + (k - 64 * q) = k := by omega
      have hlow := hwindow.lowest (b := k - 64 * q) (by omega) (by rwa [hkq])
        fun j hj => hbelow _ (by omega)
      have hnew := hwindow.insert (b := k - 64 * q) (by decide) (by omega)
      rw [hkq, Nat.zero_add] at hnew
      have stores := h.setBitmap hp co huse small hi
        (k := q) (by omega) hnew fun b hb => Finset.mem_insert.trans (or_iff_right (by omega))
      have hle : insert k taken ⊆ Finset.range (p.config.chunkCount shift) :=
        Finset.insert_subset (Finset.mem_range.2 hk) (so.chunks_le i hi shift taken huse)
      generalize hm₁ : s.memory.setWord (p.bitmapIndex i q)
        (s.memory.word (p.bitmapIndex i q) ||| Bits.bit (k - 64 * q)) = m₁ at stores
      have hmarks₁ := (stores.encodes.pages i hi).marks
      rw [Ledger.setTaken_self] at hmarks₁
      obtain ⟨full, scan, hfull⟩ := fullScan_run (q := q) (s := s.withMemory m₁) hp hi small hle
        ((occupied_small small).1 hmarks₁).2
        (fun b hb => Finset.mem_insert_of_mem (hbelow b (by omega))) hq
      obtain ⟨m₂, run₂, stores₂, same₂⟩ := fill_run (s := s.withMemory m₁) hp co hmem huse
        (Config.kindFor_small small).symm hfull stores
      refine ⟨m₂, ?_, stores₂, Framed.trans_same ?_ same₂⟩
      · rw [hlow]
        dsimp only
        rw [PoolM.bind_run (setBitmapWord_run hp hi (fits q (by omega)) _ _), hm₁,
          PoolM.bind_run scan, PoolM.when_run run₂, Arena.withMemory_withMemory,
          show q * 64 + (k - 64 * q) = k by omega, chunk_run hp hi hclass hk]
      · rw [Arena.memory_withMemory, ← hm₁]
        exact Framed.setBitmap hp hi huse small (by omega)
    · rw [hwindow.lowest_none fun b hb => hbelow _ (by omega)]
      exact ih (by omega) (by omega)

theorem takeSmall_run (small : shift < p.config.exactShift) (h : Stores p a s.memory) :
    ∃ m', p.takeSmall (nodeOffset (p.page i)) i shift s =
        .ok (some (p.chunkAt i shift k)) (s.withMemory m') ∧
      Stores p (a.fill p i shift k taken) m' ∧
      p.Framed a (a.fill p i shift k taken) s.memory m' := by
  have hi := so.listed_lt shift i hmem
  have hclass := so.listed_class shift i hmem
  obtain ⟨m', run, kept⟩ := takeSmallFrom_run (q := 0) hp so hmem huse lowest small h
    (Nat.zero_add _) (Nat.zero_le _)
  refine ⟨m', ?_, kept⟩
  rw [takeSmall, PoolM.bind_liftM (hp.pageData_eq_ok hi.le),
    PoolM.bind_liftM (Config.bitmapWords_eq_ok hclass), run]

theorem takeExact_run (exact : shift = p.config.exactShift) (h : Stores p a s.memory) :
    ∃ m', p.takeExact (nodeOffset (p.page i)) i shift s =
        .ok (some (p.chunkAt i shift k)) (s.withMemory m') ∧
      Stores p (a.fill p i shift k taken) m' ∧
      p.Framed a (a.fill p i shift k taken) s.memory m' := by
  obtain ⟨hk, hnot, hbelow⟩ := lowest
  have co := so.toCoherent
  have hi := co.listed_lt shift i hmem
  have hclass := co.listed_class shift i hmem
  have hle := so.chunks_le i hi shift taken huse
  have hnode := page_lt_nodes hi
  subst exact
  have hmarks := (h.encodes.pages i hi).marks
  rw [huse] at hmarks
  have hwindow := occupied_exact.1 hmarks
  rw [Config.chunkCount_exact] at hk hle
  have hlow := hwindow.lowest (b := k) hk (by rwa [Nat.zero_add]) fun j hj => by
    rw [Nat.zero_add]
    exact hbelow j hj
  have hnew := hwindow.insert (b := k) (by decide) hk
  rw [Nat.zero_add] at hnew
  obtain ⟨m₁, run₁, t₁⟩ := setSlab_run hp hnode
    ((table s.memory (p.page i)).slab ||| Bits.bit k) s
  have stores := h.setSlab hp co huse hi t₁ (occupied_exact.2 hnew)
  have hfull := exact_full_iff hnew
    (Finset.insert_subset (Finset.mem_range.2 hk) hle)
  rw [← Config.chunkCount_exact p.config] at hfull
  obtain ⟨m₂, run₂, stores₂, same₂⟩ := fill_run (s := s.withMemory m₁) hp co hmem huse
    (Config.kindFor_exact p.config).symm hfull stores
  refine ⟨m₂, ?_, stores₂, ((SameOutside.of_tabled t₁).framed).trans_same same₂⟩
  rw [takeExact, PoolM.bind_run (slab_run hp hnode s), hlow]
  dsimp only
  rw [PoolM.bind_run run₁, PoolM.when_run run₂, Arena.withMemory_withMemory,
    PoolM.bind_liftM (hp.pageData_eq_ok hi.le),
    chunk_run hp hi hclass (by rwa [Config.chunkCount_exact])]

theorem takeBig_run (big : p.config.exactShift < shift) (h : Stores p a s.memory) :
    ∃ m', p.takeBig (nodeOffset (p.page i)) i shift s =
        .ok (some (p.chunkAt i shift k)) (s.withMemory m') ∧
      Stores p (a.fill p i shift k taken) m' ∧
      p.Framed a (a.fill p i shift k taken) s.memory m' := by
  obtain ⟨hk, hnot, hbelow⟩ := lowest
  have co := so.toCoherent
  have hi := co.listed_lt shift i hmem
  have hclass := co.listed_class shift i hmem
  have hle := so.chunks_le i hi shift taken huse
  have hcount := Config.chunkCount_le_of_big big
  have hnode := page_lt_nodes hi
  have hmarks := (h.encodes.pages i hi).marks
  rw [huse] at hmarks
  obtain ⟨hshift, hwindow⟩ := (occupied_big big).1 hmarks
  have hlow := big_lowest hwindow hclass big hk hnot hbelow
  have hnew := hwindow.insert (b := k) (by decide) (by omega)
  rw [Nat.zero_add] at hnew
  obtain ⟨m₁, run₁, t₁⟩ := setSlab_run hp hnode
    ((table s.memory (p.page i)).slab ||| Bits.bit (mapShift + k)) s
  have hrecorded := (recordedShift_insert (table s.memory (p.page i)).slab
    (k := mapShift + k) (by change 5 ≤ 32 + k; omega) (by change 32 + k < 64; omega)).trans hshift
  have stores := h.setSlab hp co huse hi t₁ ((occupied_big big).2 ⟨hrecorded, hnew⟩)
  have hfull := big_full_iff hnew hclass big
    (Finset.insert_subset (Finset.mem_range.2 hk) hle)
  obtain ⟨m₂, run₂, stores₂, same₂⟩ := fill_run (s := s.withMemory m₁) hp co hmem huse
    (Config.kindFor_big big).symm hfull stores
  refine ⟨m₂, ?_, stores₂, ((SameOutside.of_tabled t₁).framed).trans_same same₂⟩
  rw [takeBig]
  dsimp only
  rw [PoolM.bind_run (slab_run hp hnode s), hlow]
  dsimp only
  rw [PoolM.bind_run run₁, PoolM.when_run run₂, Arena.withMemory_withMemory,
    PoolM.bind_liftM (hp.pageData_eq_ok hi.le), Nat.add_sub_cancel_left,
    chunk_run hp hi hclass hk]

end Listed

theorem takeChunk_run (st : a.Steady p.config p.pageCount) (h : Stores p a s.memory)
    (hmem : i ∈ a.listed shift) :
    ∃ off a' m', a.takeChunk p i shift = (some off, a') ∧
      p.takeChunk (nodeOffset (p.page i)) shift s = .ok (some off) (s.withMemory m') ∧
      Stores p a' m' ∧ p.Framed a a' s.memory m' := by
  obtain ⟨taken, k, huse, lowest, heq⟩ := st.takeChunk_eq hmem
  have so := st.toSound
  rw [takeChunk, PoolM.bind_liftM (hp.pageIndex_eq_ok i)]
  dsimp only
  rcases Nat.lt_trichotomy shift p.config.exactShift with small | exact | big
  · obtain ⟨m', run, kept⟩ := takeSmall_run hp so hmem huse lowest small h
    refine ⟨_, _, m', heq, ?_, kept⟩
    rw [Config.kindFor_small small]
    dsimp only
    rw [PoolM.bind_run run]
    rfl
  · obtain ⟨m', run, kept⟩ := takeExact_run hp so hmem huse lowest exact h
    refine ⟨_, _, m', heq, ?_, kept⟩
    rw [show p.config.kindFor shift = .exact by rw [exact, Config.kindFor_exact]]
    dsimp only
    rw [PoolM.bind_run run]
    rfl
  · obtain ⟨m', run, kept⟩ := takeBig_run hp so hmem huse lowest big h
    refine ⟨_, _, m', heq, ?_, kept⟩
    rw [Config.kindFor_big big]
    dsimp only
    rw [PoolM.bind_run run]
    rfl

theorem prefixWords_run (hi : i < p.pageCount) (small : shift < p.config.exactShift) (n : Nat)
    (s : Arena) :
    ∃ m', PoolM.forUp 0 (fun q => do p.setBitmapWord (p.dataOf i) q (← prefixWord q n))
        (p.config.words shift) s = .ok () (s.withMemory m') ∧
      (∀ y, (∀ l < p.config.words shift, y ≠ p.bitmapIndex i l) →
        m'.word y = s.memory.word y) ∧
      ∀ l < p.config.words shift,
        Bits.Window (m'.word (p.bitmapIndex i l)) 0 64 (64 * l) (Finset.range n) := by
  have hpage := p.config.pageSize_le
  obtain ⟨m', run, other, bits⟩ := PoolM.forUp_run
    (fun q => do p.setBitmapWord (p.dataOf i) q (← prefixWord q n)) 0 (p.config.words shift)
    (m := s.memory)
    (fun q m => (∀ y, (∀ l < p.config.words shift, y ≠ p.bitmapIndex i l) →
        m.word y = s.memory.word y) ∧
      ∀ l < q, Bits.Window (m.word (p.bitmapIndex i l)) 0 64 (64 * l) (Finset.range n)) s.journal
    ⟨fun _ _ => rfl, fun l hl => absurd hl (Nat.not_lt_zero l)⟩ fun q m _ high kept => by
      obtain ⟨other, bits⟩ := kept
      have hq : q < p.config.words shift := by omega
      have hsize := Config.eight_mul_lt small hq
      obtain ⟨w, hw, hwindow⟩ := prefixWord_eq_ok q n (by rw [wordLimit_eq]; omega)
      refine ⟨m.setWord (p.bitmapIndex i q) w, ?_, fun y hy => ?_, fun l hl => ?_⟩
      · rw [PoolM.bind_liftM hw, setBitmapWord_run hp hi hsize.le]
        rfl
      · rw [Memory.word_setWord_of_ne _ _ (hy q hq).symm, other y hy]
      · rcases Nat.lt_succ_iff_lt_or_eq.1 hl with hlt | rfl
        · have hne : p.bitmapIndex i q ≠ p.bitmapIndex i l := by
            simp only [bitmapIndex]
            omega
          rw [Memory.word_setWord_of_ne _ _ hne]
          exact bits l hlt
        · rwa [Memory.word_setWord_self]
  rw [Nat.zero_add] at bits
  exact ⟨m', run, other, bits⟩

theorem word_eq_of_outside (small : shift < p.config.exactShift)
    (other : ∀ y, (∀ l < p.config.words shift, y ≠ p.bitmapIndex i l) → m'.word y = m.word y) :
    (∀ y < 10 + 3 * p.nodes, m'.word y = m.word y) ∧
      ∀ j < p.pageCount, j ≠ i → ∀ l, 8 * l < p.config.pageSize →
        m'.word (p.bitmapIndex j l) = m.word (p.bitmapIndex j l) := by
  constructor
  · intro y hy
    refine other y fun l _ => ?_
    have htable := hp.table_le_bitmapIndex i l
    omega
  · intro j _ hne l hl
    refine other _ fun q hq heq => ?_
    exact hne (hp.bitmapIndex_inj hl (Config.eight_mul_lt small hq) heq).1

section Start

variable (co : a.Coherent p.config p.pageCount) (h : Stores p a s.memory) (hi : i < p.pageCount)
  (huse : a.use i = .runStart 1) (hclass : p.config.IsClass shift)
include co h hi huse hclass

theorem startSmall_run (small : shift < p.config.exactShift)
    (hn : n = p.config.reserved shift) :
    ∃ m', (do
          PoolM.forUp 0 (fun q => do p.setBitmapWord (p.dataOf i) q (← prefixWord q (n + 1)))
            (← p.config.bitmapWords shift)
          p.setSlab (nodeOffset (p.page i)) (UInt64.ofNat shift)
          p.pushFront (nodeOffset (p.slot shift)) (nodeOffset (p.page i)) .small
          return some (← Checked.add (p.dataOf i) (← Checked.shiftLeft n shift)) :
            PoolM (Option Nat)) s = .ok (some (p.chunkAt i shift n)) (s.withMemory m') ∧
      Stores p { a.setTaken i shift (Finset.range (n + 1)) with
        listed := Ledger.enlist shift i a.listed } m' ∧
      (∀ y, y < 9 ∨ 10 + 3 * p.nodes ≤ y → (∀ l < p.config.words shift, y ≠ p.bitmapIndex i l) →
        m'.word y = s.memory.word y) ∧
      (LinksAligned p.nodes s.memory → LinksAligned p.nodes m') := by
  have hroom := Config.reserved_add_two_le hclass
  obtain ⟨m₁, run₁, other, bits⟩ := prefixWords_run hp hi small (n + 1) s
  obtain ⟨below, bitmaps⟩ := word_eq_of_outside hp small other
  have htable : ∀ j < p.nodes, table m₁ j = table s.memory j := fun j hj => by
    simp only [table]
    rw [below _ (by omega), below _ (by omega), below _ (by omega)]
  obtain ⟨m₂, m₃, run₂, run₃, stores, same⟩ := h.start_run (s := s.withMemory m₁) hp co hi huse
    hclass htable bitmaps (below 9 (by omega)) ((occupied_small small).2 ⟨rfl, bits⟩)
  rw [Config.kindFor_small small] at run₃
  refine ⟨m₃, ?_, stores, fun y hy out => (same.words y hy).trans (other y out),
    fun aligned => same.links (aligned.congr fun j hj => by
      rw [Arena.memory_withMemory, htable j hj])⟩
  rw [PoolM.bind_liftM (Config.bitmapWords_eq_ok hclass), PoolM.bind_run run₁,
    PoolM.bind_run run₂, PoolM.bind_run run₃, Arena.withMemory_withMemory,
    chunk_run hp hi hclass (by omega)]

theorem startSlab_run {kind : PageKind} (hkind : kind = p.config.kindFor shift)
    (marks : Occupied p i shift (Finset.range 1) x s.memory.word) :
    ∃ m', (do
          p.setSlab (nodeOffset (p.page i)) x
          p.pushFront (nodeOffset (p.slot shift)) (nodeOffset (p.page i)) kind
          return some (p.dataOf i) : PoolM (Option Nat)) s =
        .ok (some (p.chunkAt i shift 0)) (s.withMemory m') ∧
      Stores p { a.setTaken i shift (Finset.range 1) with
        listed := Ledger.enlist shift i a.listed } m' ∧ p.SameOutside s.memory m' := by
  obtain ⟨m₁, m₂, run₁, run₂, stores, same⟩ := h.start_run (s := s) hp co hi huse hclass
    (fun _ _ => rfl) (fun _ _ _ _ _ => rfl) rfl marks
  refine ⟨m₂, ?_, stores, same⟩
  rw [PoolM.bind_run run₁, hkind, PoolM.bind_run run₂, chunkAt, Nat.zero_mul, Nat.add_zero]
  rfl

end Start

theorem startPage_run (st : a.Steady p.config p.pageCount) (h : Stores p a s.memory)
    (hclass : p.config.IsClass shift) :
    Served p a s 1 (a.startPage p shift) (p.startPage (nodeOffset (p.slot shift)) shift s) := by
  rw [Ledger.startPage, startPage]
  cases htake : a.take 1 with
  | none =>
    rw [PoolM.bind_run (takePages_none hp st.toSound h Nat.one_pos htake)]
    exact .refused
  | some found =>
    obtain ⟨i, a₁⟩ := found
    obtain ⟨m₁, run₁, stores₁, same₁⟩ := takePages_some hp st.toSound h Nat.one_pos htake
    have co₁ := (st.take Nat.one_pos htake).toCoherent
    have hi : i < p.pageCount := st.toCoherent.take_le htake
    have huse : a₁.use i = .runStart 1 := by
      rw [Ledger.take_use htake]
      exact Ledger.holdRun_start i 1 a.use
    rw [PoolM.bind_run run₁]
    dsimp only
    rw [PoolM.bind_liftM (hp.pageNode_eq_ok hi.le), PoolM.bind_liftM (hp.pageData_eq_ok hi.le)]
    rcases Nat.lt_trichotomy shift p.config.exactShift with small | rfl | big
    · obtain ⟨m₂, run₂, stores₂, other, links⟩ := startSmall_run (s := s.withMemory m₁) hp co₁ stores₁ hi
        huse hclass small rfl
      rw [Config.kindFor_small small]
      dsimp only
      rw [PoolM.bind_liftM (Config.reservedChunks_eq_ok hclass small), run₂,
        Arena.withMemory_withMemory]
      refine .given stores₂ ⟨fun y hy _ hnew => ?_, links ∘ same₁.links⟩
      have out : ∀ l < p.config.words shift, y ≠ p.bitmapIndex i l := fun l hl heq =>
        hnew ⟨i, hi, shift, _, Ledger.setTaken_self .., small, l, hl, heq⟩
      exact (other y hy out).trans (same₁.words y hy)
    · rw [Config.kindFor_exact, Config.reserved_of_not_small (lt_irrefl _)]
      obtain ⟨m₂, run₂, stores₂, same₂⟩ := startSlab_run (s := s.withMemory m₁) hp co₁ stores₁ hi
        huse hclass (Config.kindFor_exact p.config).symm (occupied_exact_first i _)
      dsimp only
      rw [run₂, Arena.withMemory_withMemory]
      exact .given stores₂ (same₁.framed.trans_same same₂)
    · rw [Config.kindFor_big big, Config.reserved_of_not_small (by omega)]
      obtain ⟨m₂, run₂, stores₂, same₂⟩ := startSlab_run (s := s.withMemory m₁) hp co₁ stores₁ hi
        huse hclass (Config.kindFor_big big).symm (occupied_big_first hclass big i _)
      dsimp only
      rw [run₂, Arena.withMemory_withMemory]
      exact .given stores₂ (same₁.framed.trans_same same₂)

def pagesAsked (p : Pool) (size : Nat) : Nat :=
  if p.config.maxSize < size then p.config.page.pagesFor size else 1

theorem alloc_run (st : a.Steady p.config p.pageCount) (h : Stores p a s.memory)
    (hpos : 0 < size) :
    Served p a s (p.pagesAsked size) (a.alloc p size) (p.alloc size s) := by
  rw [Ledger.alloc, alloc, if_neg hpos.ne', pagesAsked]
  by_cases hlarge : p.config.maxSize < size
  · have hn := p.config.page.pagesFor_pos hpos
    rw [if_pos hlarge, if_pos hlarge]
    dsimp only
    rw [if_pos hlarge]
    cases htake : a.take (p.config.page.pagesFor size) with
    | none =>
      rw [PoolM.bind_run (takePages_none hp st.toSound h hn htake)]
      exact .refused
    | some found =>
      obtain ⟨i, a₁⟩ := found
      obtain ⟨m₁, run₁, stores₁, same₁⟩ := takePages_some hp st.toSound h hn htake
      have hle := st.toCoherent.take_le htake
      rw [PoolM.bind_run run₁]
      dsimp only
      rw [PoolM.bind_liftM (hp.pageData_eq_ok (i := i) (by omega))]
      exact .given stores₁ same₁.framed
  · have hclass := Config.isClass_shiftFor (not_lt.1 hlarge)
    have hring := h.encodes.rings.ring _ (slot_mem_heads hclass)
    have hslot := slot_lt_nodes hclass
    rw [if_neg hlarge, if_neg hlarge]
    dsimp only
    rw [if_neg hlarge, PoolM.bind_liftM (hp.slotFor_eq_ok hclass),
      PoolM.bind_run (ringIsEmpty_run hp hring hslot), ringOf_slot hclass]
    cases hlist : a.listed (p.config.shiftFor size) with
    | nil => exact startPage_run hp st h hclass
    | cons i rest =>
      have hnext := hring.next_sentinel
      rw [ringOf_slot hclass, hlist, List.map_cons, List.headD_cons] at hnext
      obtain ⟨off, a', m', heq, run, stores, framed⟩ := takeChunk_run (i := i) hp st h
        (hlist ▸ List.mem_cons_self)
      rw [if_neg (by simp), PoolM.bind_run (next_run hp hslot s), hnext, PoolM.bind_run run]
      dsimp only
      rw [heq]
      exact .given stores framed

end Take

end Pool

end SharedSlab.Slab
