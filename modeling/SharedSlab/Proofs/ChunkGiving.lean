import SharedSlab.Proofs.ChunkTaking
import SharedSlab.Proofs.RunGiving

set_option autoImplicit false

namespace SharedSlab.Slab

variable {p : Pool} {a : Ledger} {i k n off within shift : Nat} {taken : Finset Nat} {s : Arena}

/-- How a free is answered: as the ledger has it. `refusal` is what is left of a refused one. -/
inductive Freed (p : Pool) (a : Ledger) (s : Arena) (refusal : PoolError → Arena) :
    Except PoolError Unit × Ledger → EStateM.Result Fault Arena (Except PoolError Unit) → Prop
  | refused {cause : PoolError} :
      Freed p a s refusal (.error cause, a) (.ok (.error cause) (refusal cause))
  | done {a' : Ledger} {m' : Memory} (stores : Stores p a' m')
      (framed : p.Framed a a' s.memory m') :
      Freed p a s refusal (.ok (), a') (.ok (.ok ()) (s.withMemory m'))

def Ledger.freeWithin (p : Pool) (i shift : Nat) (taken : Finset Nat) (within : Nat) (a : Ledger) :
    Except PoolError Unit × Ledger :=
  if within % 2 ^ shift ≠ 0 ∨ within / 2 ^ shift < p.config.reserved shift then
    (.error .wrongChunk, a)
  else if within / 2 ^ shift ∉ taken then (.error .alreadyFree, a)
  else (.ok (), a.clearChunk p i shift (within / 2 ^ shift))

def Ledger.freeIn (p : Pool) (i within : Nat) (a : Ledger) : Except PoolError Unit × Ledger :=
  match a.use i with
  | .free => (.error .alreadyFree, a)
  | .runRest => (.error .wrongChunk, a)
  | .runStart n => if within = 0 then (.ok (), a.give i n) else (.error .wrongChunk, a)
  | .chunks shift taken => a.freeWithin p i shift taken within

theorem Ledger.free_eq (inside : ¬(off < p.start ∨ p.finish ≤ off)) :
    a.free p off = a.freeIn p (p.pageOf off) ((off - p.start) % p.config.pageSize) := by
  rw [Ledger.free, if_neg inside]
  rfl

theorem Ledger.freeIn_ne_invalid : (a.freeIn p i within).1 ≠ .error .invalidAddress := by
  unfold Ledger.freeIn Ledger.freeWithin
  split
  · simp
  · simp
  · split <;> simp
  · split
    · simp
    · split <;> simp

namespace Pool

def clearSmall (p : Pool) (i shift k : Nat) (w : UInt64) : PoolM (Except PoolError Unit) := do
  p.setBitmapWord (p.dataOf i) (k / 64) (w &&& ~~~Bits.bit (k % 64))
  p.relist (nodeOffset (p.page i)) shift .small
  if ← PoolM.allUp 0 (fun q => do
      return (← p.bitmapWord (p.dataOf i) q) = (← prefixWord q (p.config.reserved shift)))
      (← p.config.bitmapWords shift) then
    p.givePages i 1
  return .ok ()

section Give

variable (hp : p.Placed) (so : a.Sound p.config p.pageCount) (hi : i < p.pageCount)
include hp so hi

section Chunk

variable (huse : a.use i = .chunks shift taken)
include huse

theorem relist_run {kind : PageKind} (hkind : kind = p.config.kindFor shift)
    (h : Stores p (a.setTaken i shift (taken.erase k)) s.memory) :
    ∃ m', p.relist (nodeOffset (p.page i)) shift kind s = .ok () (s.withMemory m') ∧
      Stores p (a.clear p i shift k taken) m' ∧ p.SameOutside s.memory m' := by
  have co := so.toCoherent
  have hclass := so.chunks_class i hi shift taken huse
  have co' : (a.setTaken i shift (taken.erase k)).Coherent p.config p.pageCount :=
    co.setTaken (by simp [huse]) fun _ hs => co.shift_eq_of_listed huse hs
  have hself : (a.setTaken i shift (taken.erase k)).use i = .chunks shift (taken.erase k) :=
    Ledger.setTaken_self ..
  have hfull : (table s.memory (p.page i)).next = 0 ↔
      taken = Finset.range (p.config.chunkCount shift) := by
    rw [h.encodes.next_eq_zero_iff co' hi, co'.linked_iff_of_chunks hself]
    change i ∉ a.listed shift ↔ _
    rw [so.listed_iff i hi shift taken huse, ne_eq, not_not]
  rw [relist, PoolM.bind_run (next_run hp (page_lt_nodes hi) s)]
  by_cases hlast : taken = Finset.range (p.config.chunkCount shift)
  · have hnot : ¬(a.setTaken i shift (taken.erase k)).Linked i :=
      (h.encodes.next_eq_zero_iff co' hi).1 (hfull.2 hlast)
    obtain ⟨m', run, stores, same⟩ := h.pushFront_run hp co' hi hself hclass hnot
    refine ⟨m', ?_, ?_, same⟩
    · rw [if_pos (hfull.2 hlast), PoolM.bind_liftM (hp.slotFor_eq_ok hclass), hkind, run]
    · rwa [Ledger.clear, if_pos hlast]
  · refine ⟨s.memory, ?_, ?_, .refl p _⟩
    · rw [if_neg fun hzero => hlast (hfull.1 hzero)]
      rfl
    · rwa [Ledger.clear, if_neg hlast]

theorem giveIdle_run (hk : k ∈ taken) (hres : p.config.reserved shift ≤ k)
    {idle : Prop} [Decidable idle]
    (hidle : idle ↔ taken.erase k = Finset.range (p.config.reserved shift))
    (h : Stores p (a.clear p i shift k taken) s.memory) :
    ∃ m', (if idle then p.givePages i 1 else pure ()) s = .ok () (s.withMemory m') ∧
      Stores p (a.clearChunk p i shift k) m' ∧ p.SameOutside s.memory m' := by
  have cleared := so.clear hi huse hk hres
  by_cases hlast : taken.erase k = Finset.range (p.config.reserved shift)
  · obtain ⟨m', run, stores, same⟩ := givePages_run hp cleared hi (Ledger.clear_givenOut ..) h
    refine ⟨m', ?_, ?_, same⟩
    · rw [if_pos (hidle.2 hlast), run]
    · rwa [a.clearChunk_eq huse, if_pos hlast]
  · refine ⟨s.memory, ?_, ?_, .refl p _⟩
    · rw [if_neg fun h => hlast (hidle.1 h)]
      rfl
    · rwa [a.clearChunk_eq huse, if_neg hlast]

theorem clearSlab_run {kind : PageKind} {w : UInt64} {idle : Prop} [Decidable idle]
    (h : Stores p a s.memory) (hkind : kind = p.config.kindFor shift) (hk : k ∈ taken)
    (hres : p.config.reserved shift ≤ k)
    (marks : Occupied p i shift (taken.erase k) w s.memory.word)
    (hidle : idle ↔ taken.erase k = Finset.range (p.config.reserved shift)) :
    Freed p a s (fun _ => s) (.ok (), a.clearChunk p i shift k)
      ((do
        p.setSlab (nodeOffset (p.page i)) w
        p.relist (nodeOffset (p.page i)) shift kind
        if idle then p.givePages i 1
        return (.ok () : Except PoolError Unit)) s) := by
  obtain ⟨m₁, run₁, t₁⟩ := setSlab_run hp (page_lt_nodes hi) w s
  have stores := h.setSlab hp so.toCoherent huse hi t₁ marks
  obtain ⟨m₂, run₂, stores₂, same₂⟩ := relist_run (s := s.withMemory m₁) hp so hi huse hkind stores
  obtain ⟨m₃, run₃, stores₃, same₃⟩ := giveIdle_run (s := s.withMemory m₂) hp so hi huse hk hres
    hidle stores₂
  rw [PoolM.bind_run run₁, PoolM.bind_run run₂, Arena.withMemory_withMemory, PoolM.when_run run₃,
    Arena.withMemory_withMemory]
  exact .done stores₃ (((SameOutside.of_tabled t₁).framed.trans_same same₂).trans_same same₃)

omit so huse in
theorem idleScan_run (small : shift < p.config.exactShift) (hclass : p.config.IsClass shift)
    {rest : Finset Nat} (hle : rest ⊆ Finset.range (p.config.chunkCount shift))
    (bits : ∀ q < p.config.words shift,
      Bits.Window (s.memory.word (p.bitmapIndex i q)) 0 64 (64 * q) rest) :
    ∃ idle, PoolM.allUp 0 (fun q => do
        return (← p.bitmapWord (p.dataOf i) q) = (← prefixWord q (p.config.reserved shift)))
        (p.config.words shift) s = .ok idle s ∧
      (idle = true ↔ rest = Finset.range (p.config.reserved shift)) := by
  have hprefix : ∀ q < p.config.words shift, ∃ v,
      prefixWord q (p.config.reserved shift) = .ok v ∧
        Bits.Window v 0 64 (64 * q) (Finset.range (p.config.reserved shift)) := fun q hq => by
    have hpage := p.config.pageSize_le
    have hsize := Config.eight_mul_lt small hq
    exact prefixWord_eq_ok _ _ (by rw [wordLimit_eq]; omega)
  choose! v hv hvs using hprefix
  have hroom := Config.reserved_add_two_le hclass
  have hidle := small_prefix_iff small bits (by omega) hle hvs
  refine ⟨_, PoolM.allUp_run _ 0 _ (t := fun q => decide (s.memory.word (p.bitmapIndex i q) = v q))
    fun q low high => ?_, ?_⟩
  · rw [PoolM.bind_run (bitmapWord_run hp hi (Config.eight_mul_lt small (by omega)).le _),
      PoolM.bind_liftM (hv q (by omega))]
    rfl
  · rw [hidle, List.all_eq_true]
    simp only [List.mem_range'_1, decide_eq_true_eq]
    exact ⟨fun hup q hq => hup q ⟨Nat.zero_le q, by omega⟩, fun hup q hq => hup q (by omega)⟩

/-- A chunk is cleared in the bitmap of its page. The bitmap keeps its words when the page goes. -/
theorem clearSmall_run (small : shift < p.config.exactShift) (h : Stores p a s.memory)
    (hk : k ∈ taken) (hres : p.config.reserved shift ≤ k) :
    ∃ m', p.clearSmall i shift k (s.memory.word (p.bitmapIndex i (k / 64))) s =
        .ok (.ok ()) (s.withMemory m') ∧
      Stores p (a.clearChunk p i shift k) m' ∧
      p.Framed a (a.clearChunk p i shift k) s.memory m' ∧
      ∀ q < p.config.words shift,
        Bits.Window (m'.word (p.bitmapIndex i q)) 0 64 (64 * q) (taken.erase k) := by
  have hclass := so.chunks_class i hi shift taken huse
  have hle := so.chunks_le i hi shift taken huse
  have hwords := Config.words_mul small
  have hlt := Finset.mem_range.1 (hle hk)
  have hq : k / 64 < p.config.words shift := by omega
  have hmarks := (h.encodes.pages i hi).marks
  rw [huse] at hmarks
  have hnew := (((occupied_small small).1 hmarks).2 (k / 64) hq).erase (b := k % 64) (by decide)
    (Nat.mod_lt k (by decide))
  rw [Nat.zero_add, Nat.div_add_mod] at hnew
  have stores := h.setBitmap hp so.toCoherent huse small hi hq hnew fun b hb =>
    Finset.mem_erase.trans (and_iff_right (by rintro rfl; exact hb rfl))
  generalize hm₁ : s.memory.setWord (p.bitmapIndex i (k / 64)) _ = m₁ at stores
  obtain ⟨m₂, run₂, stores₂, same₂⟩ := relist_run (s := s.withMemory m₁) hp so hi huse
    (Config.kindFor_small small).symm stores
  have hmarks₂ := (stores₂.encodes.pages i hi).marks
  rw [Ledger.clear_use] at hmarks₂
  have hbits := ((occupied_small small).1 hmarks₂).2
  obtain ⟨idle, scan, hidle⟩ := idleScan_run (s := s.withMemory m₂) hp hi small hclass
    ((Finset.erase_subset k taken).trans hle) hbits
  obtain ⟨m₃, run₃, stores₃, same₃⟩ := giveIdle_run (s := s.withMemory m₂) hp so hi huse hk hres
    hidle stores₂
  refine ⟨m₃, ?_, stores₃, Framed.trans_same (Framed.trans_same ?_ same₂) same₃, fun q hq => ?_⟩
  · rw [clearSmall, PoolM.bind_run (setBitmapWord_run hp hi (Config.eight_mul_lt small hq).le _ s),
      hm₁, PoolM.bind_run run₂, Arena.withMemory_withMemory,
      PoolM.bind_liftM (Config.bitmapWords_eq_ok hclass), PoolM.bind_run scan, PoolM.when_run run₃,
      Arena.withMemory_withMemory]
    rfl
  · rw [Arena.memory_withMemory, ← hm₁]
    exact Framed.setBitmap hp hi huse small hq
  · have htable := hp.table_le_bitmapIndex i q
    rw [same₃.words _ (.inr htable), Arena.memory_withMemory]
    exact hbits q hq

variable (hwithin : within < p.config.pageSize) (h : Stores p a s.memory)
include hwithin h

theorem freeSmall_eq (small : shift < p.config.exactShift) :
    p.freeSmall (nodeOffset (p.page i)) i within s =
      if within % 2 ^ shift ≠ 0 ∨ within / 2 ^ shift < p.config.reserved shift then
        .ok (.error .wrongChunk) s
      else if within / 2 ^ shift ∉ taken then .ok (.error .alreadyFree) s
      else p.clearSmall i shift (within / 2 ^ shift)
        (s.memory.word (p.bitmapIndex i (within / 2 ^ shift / 64))) s := by
  have hclass := so.chunks_class i hi shift taken huse
  have hlt := Config.shift_lt_of_isClass hclass
  have hwords := Config.words_mul small
  have hmarks := (h.encodes.pages i hi).marks
  rw [huse] at hmarks
  obtain ⟨hslab, hbits⟩ := (occupied_small small).1 hmarks
  have hk := Config.div_lt_chunkCount hclass hwithin
  rw [freeSmall, PoolM.bind_run (slab_run hp (page_lt_nodes hi) s), hslab,
    recordedShift_ofNat (by omega)]
  dsimp only
  rw [Nat.one_shiftLeft, Nat.shiftRight_eq_div_pow]
  generalize within / 2 ^ shift = k at hk ⊢
  by_cases hmod : within % 2 ^ shift ≠ 0
  · rw [if_pos hmod, if_pos (.inl hmod)]
    rfl
  rw [if_neg hmod, PoolM.bind_liftM (Config.reservedChunks_eq_ok hclass small)]
  by_cases hres : k < p.config.reserved shift
  · rw [if_pos hres, if_pos (.inr hres)]
    rfl
  have hq : k / 64 < p.config.words shift := by omega
  have hsplit : 64 * (k / 64) + k % 64 = k := Nat.div_add_mod k 64
  have htest := hbits (k / 64) hq (k % 64) (Nat.mod_lt k (by decide))
  rw [Nat.zero_add, hsplit] at htest
  rw [if_neg hres, if_neg (not_or.2 ⟨hmod, hres⟩), PoolM.bind_liftM (hp.pageData_eq_ok hi.le),
    PoolM.bind_run (bitmapWord_run hp hi (Config.eight_mul_lt small hq).le s), htest]
  by_cases htaken : k ∈ taken
  · rw [decide_eq_true htaken, if_neg (show ¬(!true) = true by decide), if_neg (not_not.2 htaken)]
    rfl
  · rw [decide_eq_false htaken, if_pos (show (!false) = true by decide), if_pos htaken]
    rfl

theorem freeSmall_run (small : shift < p.config.exactShift) :
    Freed p a s (fun _ => s) (a.freeWithin p i shift taken within)
      (p.freeSmall (nodeOffset (p.page i)) i within s) := by
  rw [freeSmall_eq hp so hi huse hwithin h small, Ledger.freeWithin]
  by_cases hwrong : within % 2 ^ shift ≠ 0 ∨ within / 2 ^ shift < p.config.reserved shift
  · rw [if_pos hwrong, if_pos hwrong]
    exact .refused
  rw [if_neg hwrong, if_neg hwrong]
  by_cases hfree : within / 2 ^ shift ∉ taken
  · rw [if_pos hfree, if_pos hfree]
    exact .refused
  · obtain ⟨m', run, stores, framed, _⟩ := clearSmall_run hp so hi huse small h (not_not.1 hfree)
      (not_lt.1 (not_or.1 hwrong).2)
    rw [if_neg hfree, if_neg hfree, run]
    exact .done stores framed

theorem freeExact_run (exact : shift = p.config.exactShift) :
    Freed p a s (fun _ => s) (a.freeWithin p i shift taken within)
      (p.freeExact (nodeOffset (p.page i)) i within s) := by
  have co := so.toCoherent
  have hclass := so.chunks_class i hi shift taken huse
  have hle := so.chunks_le i hi shift taken huse
  have hnode := page_lt_nodes hi
  have hk := Config.div_lt_chunkCount hclass hwithin
  subst exact
  have hmarks := (h.encodes.pages i hi).marks
  rw [huse] at hmarks
  have hwindow := occupied_exact.1 hmarks
  have hres : p.config.reserved p.config.exactShift = 0 :=
    Config.reserved_of_not_small (lt_irrefl _)
  rw [Config.chunkCount_exact] at hk hle
  rw [freeExact, Ledger.freeWithin]
  dsimp only
  rw [Nat.one_shiftLeft, Nat.shiftRight_eq_div_pow]
  generalize within / 2 ^ p.config.exactShift = k at hk ⊢
  by_cases hmod : within % 2 ^ p.config.exactShift ≠ 0
  · rw [if_pos hmod, if_pos (.inl hmod)]
    exact .refused
  have htest := hwindow k hk
  rw [Nat.zero_add] at htest
  rw [if_neg hmod, if_neg (not_or.2 ⟨hmod, by omega⟩), PoolM.bind_run (slab_run hp hnode s), htest]
  by_cases htaken : k ∈ taken
  · have hnew := hwindow.erase (b := k) (by decide) hk
    rw [Nat.zero_add] at hnew
    have hidle := exact_idle_iff hnew ((Finset.erase_subset k taken).trans hle)
    rw [← hres] at hidle
    rw [decide_eq_true htaken, if_neg (show ¬(!true) = true by decide), if_neg (not_not.2 htaken)]
    exact clearSlab_run hp so hi huse h (Config.kindFor_exact p.config).symm htaken (by omega)
      (occupied_exact.2 hnew) hidle
  · rw [decide_eq_false htaken, if_pos (show (!false) = true by decide), if_pos htaken]
    exact .refused

theorem freeBig_run (big : p.config.exactShift < shift) :
    Freed p a s (fun _ => s) (a.freeWithin p i shift taken within)
      (p.freeBig (nodeOffset (p.page i)) i within s) := by
  have co := so.toCoherent
  have hclass := so.chunks_class i hi shift taken huse
  have hle := so.chunks_le i hi shift taken huse
  have hcount := Config.chunkCount_le_of_big big
  have hnode := page_lt_nodes hi
  have hk := Config.div_lt_chunkCount hclass hwithin
  have hmarks := (h.encodes.pages i hi).marks
  rw [huse] at hmarks
  obtain ⟨hshift, hwindow⟩ := (occupied_big big).1 hmarks
  have hres : p.config.reserved shift = 0 := Config.reserved_of_not_small (by omega)
  rw [freeBig, PoolM.bind_run (slab_run hp hnode s), Ledger.freeWithin]
  dsimp only
  rw [hshift, Nat.one_shiftLeft, Nat.shiftRight_eq_div_pow]
  generalize within / 2 ^ shift = k at hk ⊢
  by_cases hmod : within % 2 ^ shift ≠ 0
  · rw [if_pos hmod, if_pos (.inl hmod)]
    exact .refused
  have hbit : 5 ≤ mapShift + k ∧ mapShift + k < 64 := by
    change 5 ≤ 32 + k ∧ 32 + k < 64
    omega
  have htest := hwindow k (by omega)
  rw [Nat.zero_add] at htest
  rw [if_neg hmod, if_neg (not_or.2 ⟨hmod, by omega⟩), Nat.add_comm k mapShift,
    if_neg (not_le.2 hbit.2), htest]
  by_cases htaken : k ∈ taken
  · have hnew := hwindow.erase (b := k) (by decide) (by omega)
    rw [Nat.zero_add] at hnew
    have hrecorded := (recordedShift_erase (table s.memory (p.page i)).slab hbit.1 hbit.2).trans
      hshift
    have hidle := big_idle_iff hnew ((Finset.erase_subset k taken).trans
      (hle.trans (Finset.range_subset_range.2 hcount)))
    rw [← hres] at hidle
    rw [decide_eq_true htaken, if_neg (show ¬(!true) = true by decide), if_neg (not_not.2 htaken)]
    exact clearSlab_run hp so hi huse h (Config.kindFor_big big).symm htaken (by omega)
      ((occupied_big big).2 ⟨hrecorded, hnew⟩) hidle
  · rw [decide_eq_false htaken, if_pos (show (!false) = true by decide), if_pos htaken]
    exact .refused

end Chunk

section Page

variable (h : Stores p a s.memory)
include h

theorem slab_of_free (huse : a.use i = .free) :
    ∃ n < 2 ^ 54, (table s.memory (p.page i)).slab = UInt64.ofNat n := by
  have hlt := hp.pageCount_lt
  by_cases hfirst : ∃ r ∈ a.runs, r.first = i
  · obtain ⟨r, hr, rfl⟩ := hfirst
    have hle := so.run_le r hr
    simp only [PageRun.finish] at hle
    exact ⟨r.len, by omega, (h.encodes.runs r hr).length⟩
  · exact ⟨0, by decide, (h.encodes.pages i hi).blank huse fun r hr heq => hfirst ⟨r, hr, heq⟩⟩

theorem freeRun_run (within : Nat) (huse : ∀ shift taken, a.use i ≠ .chunks shift taken) :
    Freed p a s (fun _ => s) (a.freeIn p i within)
      (p.freeRun (nodeOffset (p.page i)) i within s) := by
  have hlt := hp.pageCount_lt
  have hmarks := (h.encodes.pages i hi).marks
  rw [freeRun, PoolM.bind_run (slab_run hp (page_lt_nodes hi) s), Ledger.freeIn]
  cases hcase : a.use i with
  | free =>
    obtain ⟨n, hn, hslab⟩ := slab_of_free hp so hi h hcase
    rw [hslab, if_neg (ofNat_ne_runInterior hn), if_pos (ofNat_and_runStart hn)]
    exact .refused
  | runRest =>
    rw [hcase] at hmarks
    have hslab : (table s.memory (p.page i)).slab = runInterior := hmarks
    rw [if_pos hslab]
    exact .refused
  | runStart n =>
    rw [hcase] at hmarks
    have hle := so.start_le i hi n hcase
    have hslab : (table s.memory (p.page i)).slab = UInt64.ofNat n ||| runStart := hmarks
    rw [hslab, if_neg (started_ne_runInterior (by omega)), if_neg (started_and_runStart)]
    dsimp only
    by_cases hzero : within = 0
    · obtain ⟨m', run, stores, same⟩ := givePages_run hp so hi (.inl hcase) h
      rw [if_neg (not_not.2 hzero), if_pos hzero, toNat_started (by omega), PoolM.bind_run run]
      exact .done stores same.framed
    · rw [if_pos hzero, if_neg hzero]
      exact .refused
  | chunks shift taken => exact absurd hcase (huse shift taken)

theorem freePage_run (hwithin : within < p.config.pageSize) :
    Freed p a s (fun _ => s) (a.freeIn p i within)
      ((match (a.use i).kind p.config with
        | .small => p.freeSmall (nodeOffset (p.page i)) i within
        | .exact => p.freeExact (nodeOffset (p.page i)) i within
        | .big => p.freeBig (nodeOffset (p.page i)) i within
        | .page => p.freeRun (nodeOffset (p.page i)) i within) s) := by
  have hrun := fun huse => freeRun_run hp so hi h within huse
  cases hcase : a.use i with
  | free => exact hrun (by simp [hcase])
  | runRest => exact hrun (by simp [hcase])
  | runStart n => exact hrun (by simp [hcase])
  | chunks shift taken =>
    have hkind : (PageUse.chunks shift taken).kind p.config = p.config.kindFor shift := rfl
    have hin : a.freeIn p i within = a.freeWithin p i shift taken within := by
      rw [Ledger.freeIn, hcase]
    rw [hkind, hin]
    rcases Nat.lt_trichotomy shift p.config.exactShift with small | exact | big
    · rw [Config.kindFor_small small]
      exact freeSmall_run hp so hi hcase hwithin h small
    · rw [show p.config.kindFor shift = .exact by rw [exact, Config.kindFor_exact]]
      exact freeExact_run hp so hi hcase hwithin h exact
    · rw [Config.kindFor_big big]
      exact freeBig_run hp so hi hcase hwithin h big

end Page

end Give

def refusal (p : Pool) (off : Nat) (kind : PageKind) : PoolError → Event
  | .invalidAddress => .offsetOutside off p.start p.finish
  | cause => .freeRejected off kind (p.pageOf off) cause

theorem refusal_of_ne (kind : PageKind) {cause : PoolError} (h : cause ≠ .invalidAddress) :
    p.refusal off kind cause = .freeRejected off kind (p.pageOf off) cause := by
  cases cause with
  | invalidAddress => exact absurd rfl h
  | _ => rfl

theorem report_run (off : Nat) (kind : PageKind) {x : PoolM (Except PoolError Unit)}
    {answer : Except PoolError Unit × Ledger} (freed : Freed p a s (fun _ => s) answer (x s))
    (hcause : answer.1 ≠ .error .invalidAddress) :
    Freed p a s (fun cause => s.noting (p.refusal off kind cause)) answer
      ((do
        let answer ← x
        if let .error cause := answer then
          PoolM.note (.freeRejected off kind (p.pageOf off) cause)
        return answer) s) := by
  generalize hx : x s = result at freed
  cases freed with
  | @refused cause =>
    have hne : cause ≠ .invalidAddress := fun heq => hcause (by rw [heq])
    rw [PoolM.bind_run hx]
    dsimp only
    rw [PoolM.bind_run (PoolM.note_run _ s), ← refusal_of_ne kind hne]
    exact .refused
  | done stores framed =>
    rw [PoolM.bind_run hx]
    exact .done stores framed

/-- A free is done or refused as the ledger has it. -/
theorem free_run (hp : p.Placed) (st : a.Steady p.config p.pageCount) (h : Stores p a s.memory)
    (off : Nat) :
    Freed p a s (fun cause => s.noting (p.refusal off ((a.use (p.pageOf off)).kind p.config) cause))
      (a.free p off) (p.free off s) := by
  rw [free]
  by_cases hout : off < p.start ∨ p.finish ≤ off
  · rw [if_pos hout, Ledger.free, if_pos hout]
    exact .refused
  · have hi : p.pageOf off < p.pageCount := hp.div_lt (by omega) (by omega)
    have hwithin := Nat.mod_lt (off - p.start) p.config.pageSize_pos
    have hpage : (off - p.start) >>> p.config.pageShift = p.pageOf off := by
      rw [Nat.shiftRight_eq_div_pow, ← Config.pageSize_eq, pageOf]
    have freed := freePage_run (s := s) hp st.toSound hi h hwithin
    rw [if_neg hout, Ledger.free_eq hout]
    dsimp only
    rw [hpage, PoolM.bind_liftM (hp.pageNode_eq_ok hi.le),
      PoolM.bind_run (kind_run hp (page_lt_nodes hi) s), (h.encodes.pages _ hi).kind]
    generalize (a.use (p.pageOf off)).kind p.config = kind at freed ⊢
    have report := report_run off kind freed Ledger.freeIn_ne_invalid
    cases kind <;> exact report

end Pool

end SharedSlab.Slab
