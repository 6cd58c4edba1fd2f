import SharedSlab.Proofs.RunGiving

set_option autoImplicit false

namespace SharedSlab

theorem Checked.of_bind {α β : Type} {x : Except Fault α} {f : α → Except Fault β} {b : β}
    (h : x >>= f = .ok b) : ∃ a, x = .ok a ∧ f a = .ok b := by
  cases x with
  | error e => cases h
  | ok a => exact ⟨a, rfl, h⟩

theorem Checked.eq_of_add {a b n : Nat} (h : add a b = .ok n) : n = a + b := by
  unfold add at h
  split at h
  · cases h
    rfl
  · cases h

theorem Checked.eq_of_mul {a b n : Nat} (h : mul a b = .ok n) : n = a * b := by
  unfold mul at h
  split at h
  · cases h
    rfl
  · cases h

theorem Geometry.alignUp_spec {g : Geometry} {value start : Nat} (h : g.alignUp value = .ok start) :
    value ≤ start ∧ g.size ∣ start := by
  obtain ⟨past, hpast, h⟩ := Checked.of_bind h
  cases Checked.eq_of_add hpast
  cases h
  have hpos := g.size_pos
  have hdiv := Nat.div_add_mod' (value + g.size - 1) g.size
  have hmod := Nat.mod_lt (value + g.size - 1) hpos
  rw [alignDown_eq]
  exact ⟨by omega, Nat.dvd_mul_left _ _⟩

namespace Slab

/-- The parts of a layout lie in order, and end inside `len` bytes. -/
structure Layout.Fits (c : Config) (len : Nat) (l : Layout) : Prop where
  slots : l.slots = headerSize
  pages : l.pages = headerSize + c.slotCount * descriptorSize
  pageCount_pos : 0 < l.pageCount
  table_le : l.pages + l.pageCount * descriptorSize ≤ l.start
  aligned : c.pageSize ∣ l.start
  finish_le : l.start + l.pageCount * c.pageSize ≤ len

theorem Layout.compute_fits {c : Config} {len : Nat} {l : Layout}
    (h : compute c len = .ok (some l)) : l.Fits c len := by
  unfold compute at h
  dsimp only at h
  split at h
  · cases h
  generalize (len - (headerSize + c.slotCount * descriptorSize)) / (c.pageSize + descriptorSize) =
    estimate at h
  obtain ⟨descriptors, hmul, htable⟩ := Checked.of_bind h
  obtain ⟨table, hadd, hstart⟩ := Checked.of_bind htable
  obtain ⟨start, halign, hrest⟩ := Checked.of_bind hstart
  cases Checked.eq_of_mul hmul
  cases Checked.eq_of_add hadd
  obtain ⟨hle, hdvd⟩ := Geometry.alignUp_spec halign
  split at hrest
  · cases hrest
  next hlen =>
  split at hrest
  · cases hrest
  next hcount =>
  cases hrest
  have hdescriptors : min estimate ((len - start) >>> c.pageShift) * descriptorSize ≤
      estimate * descriptorSize := Nat.mul_le_mul_right _ (Nat.min_le_left ..)
  have hpages : min estimate ((len - start) >>> c.pageShift) * c.pageSize ≤ len - start := by
    refine (Nat.mul_le_mul_right _ (Nat.min_le_right ..)).trans ?_
    rw [Nat.shiftRight_eq_div_pow, ← Config.pageSize_eq]
    exact Nat.div_mul_le_self _ _
  refine ⟨rfl, rfl, Nat.pos_of_ne_zero hcount, ?_, hdvd, ?_⟩
  · dsimp only
    omega
  · dsimp only
    omega

namespace Pool

variable {p : Pool} {s : Arena} {m : Memory} {x : Nat}

theorem ofLayout_eq_ok {region : Region} {config : Config} {layout : Layout}
    (fits : layout.Fits config region.len) (hlen : region.len < wordLimit) :
    ∃ p, ofLayout region config layout = .ok p ∧ p.region = region ∧ p.config = config ∧
      p.layout = layout ∧ p.Placed := by
  obtain ⟨hslots, hpages, hpos, htable, haligned, hfinish⟩ := fits
  have hpage := config.pageSize_eq
  have hshift : Checked.shiftLeft layout.pageCount config.pageShift =
      .ok (layout.pageCount * 2 ^ config.pageShift) :=
    Checked.shiftLeft_eq_ok config.page.shift_lt (by rw [← hpage]; omega)
  have hadd : Checked.add layout.start (layout.pageCount * 2 ^ config.pageShift) =
      .ok (layout.start + layout.pageCount * config.pageSize) := by
    rw [← hpage]
    exact Checked.add_eq_ok (by omega)
  refine ⟨⟨region, config, layout, layout.start + layout.pageCount * config.pageSize⟩, ?_, rfl, rfl,
    rfl, ⟨hslots, hpages, hpos, ?_, haligned, rfl, hfinish, hlen⟩⟩
  · simp only [ofLayout, hshift, hadd, bind, Except.bind, pure, Except.pure]
  · simp only [nodeOffset, freeHead, descriptorSize, nodes, pageCount, start, headerSize] at *
    omega

section Lay

variable (hp : p.Placed)
include hp

theorem initRing_run (hx : x < p.nodes) (s : Arena) :
    ∃ m', p.initRing (nodeOffset x) s = .ok () (s.withMemory m') ∧
      Tabled p.nodes s.memory m' (Function.update (table s.memory) x
        ⟨0, nodeOffset x, .page, nodeOffset x⟩) := by
  have hlt := hp.nodeOffset_lt hx.le
  obtain ⟨m₁, run₁, t₁⟩ := setSlab_run hp hx 0 s
  obtain ⟨m₂, run₂, t₂⟩ := setPrev_run hp hx hlt (nodeOffset_mod_eight x) .page (s.withMemory m₁)
  obtain ⟨m₃, run₃, t₃⟩ := setNext_run hp hx hlt (s.withMemory m₂)
  refine ⟨m₃, ?_, ((t₁.trans t₂).trans t₃).congr ?_⟩
  · rw [initRing, PoolM.bind_run run₁, PoolM.bind_run run₂]
    exact run₃
  · rw [Arena.memory_withMemory, t₂.table_eq, Arena.memory_withMemory, t₁.table_eq]
    funext k
    by_cases hk : k = x
    · subst hk
      simp [Table.setSlab, Table.setNext, Table.setPrev]
    · simp [Table.setSlab, Table.setNext, Table.setPrev, hk]

omit hp in
theorem forUp_describe (step : Nat → PoolM Unit) (lo count : Nat) (e : Nat → Desc)
    (round : ∀ k s, k < count → ∃ m', step k s = .ok () (s.withMemory m') ∧
      Tabled p.nodes s.memory m' (Function.update (table s.memory) (lo + k) (e (lo + k))))
    (s : Arena) :
    ∃ m', PoolM.forUp 0 step count s = .ok () (s.withMemory m') ∧
      Tabled p.nodes s.memory m'
        fun j => if lo ≤ j ∧ j < lo + count then e j else table s.memory j := by
  obtain ⟨m', run, kept⟩ := PoolM.forUp_run step 0 count (m := s.memory)
    (fun k m => Tabled p.nodes s.memory m
      fun j => if lo ≤ j ∧ j < lo + k then e j else table s.memory j) s.journal
    ((Tabled.refl p.nodes s.memory).congr (by
      funext j
      rw [if_neg (by omega)])) fun k m _ high kept => by
      obtain ⟨m', run, t⟩ := round k ⟨m, s.journal⟩ (by omega)
      refine ⟨m', run, (kept.trans t).congr ?_⟩
      funext j
      rw [kept.table_eq, Function.update_apply]
      by_cases hj : j = lo + k
      · rw [if_pos hj, if_pos (by omega), hj]
      · rw [if_neg hj]
        by_cases hin : lo ≤ j ∧ j < lo + k
        · rw [if_pos hin, if_pos (by omega)]
        · rw [if_neg hin, if_neg (by omega)]
  rw [Nat.zero_add] at kept
  exact ⟨m', run, kept⟩

theorem layTable_run (s : Arena) : ∃ m₁ m₂ m₃,
    PoolM.forUp 0 (fun slot => do p.initRing (← p.slotNode slot)) p.config.slotCount s =
      .ok () (s.withMemory m₁) ∧
    PoolM.forUp 0 (fun idx => do p.clear (← p.pageNode idx)) p.layout.pageCount
      (s.withMemory m₁) = .ok () (s.withMemory m₂) ∧
    p.initRing freeHead (s.withMemory m₂) = .ok () (s.withMemory m₃) ∧
    (∀ g ∈ p.heads, (table m₃ g).next = nodeOffset g ∧ (table m₃ g).link = nodeOffset g) ∧
    (∀ i < p.pageCount, table m₃ (p.page i) = Desc.blank) ∧
    ∀ x < 10, m₃.word x = s.memory.word x := by
  obtain ⟨m₁, run₁, t₁⟩ := forUp_describe (p := p)
    (fun slot => do p.initRing (← p.slotNode slot)) 1 p.config.slotCount
    (fun j => ⟨0, nodeOffset j, .page, nodeOffset j⟩) (fun k s hk => by
      rw [PoolM.bind_liftM (hp.slotNode_eq_ok hk)]
      exact initRing_run hp (by simp only [nodes]; omega) s) s
  obtain ⟨m₂, run₂, t₂⟩ := forUp_describe (p := p)
    (fun idx => do p.clear (← p.pageNode idx)) (p.page 0) p.layout.pageCount
    (fun _ => Desc.blank) (fun k s hk => by
      have hk' : k < p.pageCount := hk
      rw [PoolM.bind_liftM (hp.pageNode_eq_ok hk'.le)]
      exact clear_run hp (page_lt_nodes hk') s) (s.withMemory m₁)
  obtain ⟨m₃, run₃, t₃⟩ := initRing_run hp p.zero_lt_nodes (s.withMemory m₂)
  refine ⟨m₁, m₂, m₃, run₁, run₂, run₃, fun g hg => ?_, fun i hi => ?_,
    fun x hx => ((t₁.trans t₂).trans t₃).elsewhere x (.inl hx)⟩
  · have hle : g ≤ p.config.slotCount := hg
    rw [t₃.table_eq, Arena.memory_withMemory, t₂.table_eq, Arena.memory_withMemory, t₁.table_eq,
      Function.update_apply]
    by_cases hzero : g = 0
    · rw [if_pos hzero, hzero]
      exact ⟨rfl, rfl⟩
    · have hpage : ¬(p.page 0 ≤ g ∧ g < p.page 0 + p.layout.pageCount) := by
        simp only [page]
        omega
      rw [if_neg hzero, if_neg hpage]
      dsimp only
      rw [if_pos (by omega)]
      exact ⟨rfl, rfl⟩
  · have hi' : i < p.layout.pageCount := hi
    have hne : p.page i ≠ 0 := by
      simp only [page]
      omega
    rw [t₃.table_eq, Arena.memory_withMemory, t₂.table_eq, Function.update_of_ne hne,
      if_pos (by simp only [page]; omega)]

end Lay

end Pool

section Fresh

variable {p : Pool} {d : Table}

theorem encodes_blank (heads : ∀ h ∈ p.heads, (d h).next = nodeOffset h ∧ (d h).link = nodeOffset h)
    (pages : ∀ i < p.pageCount, d (p.page i) = Desc.blank) (w : Nat → UInt64) :
    Encodes p { Ledger.fresh p.pageCount with runs := [] } d w where
  rings := by
    have hempty : ∀ h, p.ringOf { Ledger.fresh p.pageCount with runs := [] } h = [] := by
      intro h
      cases h <;> rfl
    refine ⟨fun h hh => ?_, fun g _ h _ x hx => ?_, fun g _ h _ hg => ?_⟩
    · rw [hempty]
      exact ⟨List.isChain_pair.2 (heads h hh).1, List.isChain_pair.2 (heads h hh).2,
        List.nodup_singleton h⟩
    · rw [hempty] at hx
      cases hx
    · rw [hempty] at hg
      cases hg
  pages i hi := .of_free rfl (by rw [pages i hi]; rfl) (fun _ => by rw [pages i hi]; rfl)
    fun _ => by rw [pages i hi]; rfl
  runs _ hr := nomatch hr

theorem links_blank (heads : ∀ h ∈ p.heads, (d h).next = nodeOffset h ∧ (d h).link = nodeOffset h)
    (pages : ∀ i < p.pageCount, d (p.page i) = Desc.blank) : ∀ j < p.nodes, 8 ∣ (d j).link := by
  intro j hj
  by_cases hhead : j ≤ p.config.slotCount
  · rw [(heads j hhead).2]
    exact Nat.dvd_of_mod_eq_zero (nodeOffset_mod_eight j)
  · obtain ⟨i, rfl⟩ := Nat.exists_eq_add_of_lt (not_le.1 hhead)
    rw [show p.config.slotCount + i + 1 = p.page i by simp only [Pool.page]; omega,
      pages i (by simp only [Pool.nodes] at hj; omega)]
    exact Nat.dvd_zero 8

end Fresh

theorem Stores.setHeader {p : Pool} {a : Ledger} {m : Memory} {i : Nat} {w : UInt64}
    (h : Stores p a m) (hp : p.Placed) (hi : i < 9) : Stores p a (m.setWord i w) := by
  refine ⟨?_, ?_⟩
  · rw [table_setWord_of_lt _ _ (by omega)]
    exact h.encodes.congr_words hp fun x hx => Memory.word_setWord_of_ne _ _ (by omega)
  · rw [Memory.word_setWord_of_ne _ _ (by omega), h.count]

theorem HeaderWord.index_lt {h : HeaderWord} (hne : h ≠ .freePages) : h.index < 9 := by
  cases h with
  | freePages => exact absurd rfl hne
  | _ => decide

namespace Pool

variable {region : Region} {config : Config} {layout : Layout} {p : Pool} {m : Memory}

def recorded (p : Pool) : HeaderWord → UInt64
  | .lock => 0
  | .magic => Slab.magic
  | .pageSize => UInt64.ofNat p.config.pageSize
  | .minShift => UInt64.ofNat p.config.minShift
  | .size => UInt64.ofNat p.region.len
  | .slots => UInt64.ofNat p.layout.slots
  | .pages => UInt64.ofNat p.layout.pages
  | .pageCount => UInt64.ofNat p.layout.pageCount
  | .start => UInt64.ofNat p.layout.start
  | .freePages => UInt64.ofNat p.pageCount

/-- What `init` leaves: a view of the region as it is laid out, and memory with every page free, the
lock too. -/
structure Laid (region : Region) (config : Config) (p : Pool) (m : Memory) : Prop where
  region_eq : p.region = region
  config_eq : p.config = config
  layout : Layout.compute config region.len = .ok (some p.layout)
  placed : p.Placed
  stores : Stores p (Ledger.fresh p.pageCount) m
  links : LinksAligned p.nodes m
  header : ∀ h : HeaderWord, m.word h.index = p.recorded h

theorem Laid.unlocked (laid : Laid region config p m) : m.word 0 = 0 :=
  laid.header .lock

theorem writeHeader_run (p : Pool) (s : Arena) : ∃ m', p.writeHeader s = .ok () (s.withMemory m') ∧
    ∀ h : HeaderWord, h ≠ .magic → h ≠ .freePages → m'.word h.index = p.recorded h := by
  refine ⟨_, rfl, fun h hmagic hcount => ?_⟩
  cases h <;> simp_all [Memory.word_setWord, HeaderWord.index, recorded]

theorem header_of_written (count : m.word 9 = UInt64.ofNat (Ledger.fresh p.pageCount).freePages)
    (written : ∀ h : HeaderWord, h ≠ .magic → h ≠ .freePages → m.word h.index = p.recorded h)
    (h : HeaderWord) : (m.setWord 1 Slab.magic).word h.index = p.recorded h := by
  by_cases hmagic : h = .magic
  · rw [hmagic]
    exact Memory.word_setWord_self ..
  have hne : 1 ≠ h.index := by
    cases h with
    | magic => exact absurd rfl hmagic
    | _ => decide
  rw [Memory.word_setWord_of_ne _ _ hne]
  by_cases hcount : h = .freePages
  · rw [hcount]
    exact count
  · exact written h hmagic hcount

/-- A region with room for a page is laid out, whatever it held. -/
theorem init_run (h : Layout.compute config region.len = .ok (some layout))
    (hlen : region.len < wordLimit) (s : Arena) :
    ∃ p s', init region config s = .ok (.ok p) s' ∧ Laid region config p s'.memory := by
  obtain ⟨p, hof, hregion, hconfig, hlayout, hp⟩ := ofLayout_eq_ok (Layout.compute_fits h) hlen
  subst hregion hconfig hlayout
  have hpos := hp.pageCount_pos
  obtain ⟨m₁, run₁, hheader₁⟩ := writeHeader_run p s
  obtain ⟨m₂, m₃, m₄, run₂, run₃, run₄, hheads, hpages, hkept⟩ :=
    layTable_run hp (s.withMemory m₁)
  have co : Ledger.Coherent p.config p.pageCount { Ledger.fresh p.pageCount with runs := [] } :=
    (Ledger.fresh_steady p.config hpos).toCoherent.withRuns_sublist (List.nil_sublist _)
  have encodes := encodes_blank hheads hpages m₄.word
  have hblank : Function.update (table m₄) (p.page 0) Desc.blank = table m₄ := by
    rw [← hpages 0 hpos, Function.update_eq_self]
  obtain ⟨m₅, d₅, run₅, t₅, encodes₅⟩ := insertRun_run (s := s.withMemory m₄)
    (r := ⟨0, p.pageCount⟩) hp co (by rwa [Arena.memory_withMemory, hblank]) hpos
    (Nat.zero_add _).le (fun _ _ _ => rfl) fun _ hq => absurd hq List.not_mem_nil
  obtain ⟨stores₅, same₅⟩ : Stores p (Ledger.fresh p.pageCount)
      (m₅.setWord 9 (UInt64.ofNat p.pageCount)) ∧
      p.SameOutside m₄ (m₅.setWord 9 (UInt64.ofNat p.pageCount)) :=
    Stores.of_tabled hp t₅ encodes₅
  generalize hm₆ : (m₅.setWord 9 (UInt64.ofNat p.pageCount)) = m₆ at stores₅ same₅
  have hlinks : LinksAligned p.nodes (m₆.setWord 1 Slab.magic) :=
    (same₅.links (links_blank hheads hpages)).congr fun j _ => by
      rw [table_setWord_of_lt _ _ (by decide)]
  have hheader := header_of_written (p := p) (m := m₆) stores₅.count fun h hmagic hcount => by
    have hlt := HeaderWord.index_lt hcount
    rw [same₅.words _ (.inl hlt), hkept _ (hlt.trans (by decide))]
    exact hheader₁ h hmagic hcount
  refine ⟨p, (s.withMemory (m₆.setWord 1 Slab.magic)).noting
    (.poolInitialized p.region.len p.pageCount p.config.pageSize p.start p.config.minSize
      p.config.maxSize), ?_, rfl, rfl, h, hp, stores₅.setHeader hp (by decide), hlinks, hheader⟩
  rw [init, PoolM.bind_liftM h]
  dsimp only
  rw [PoolM.bind_liftM hof, PoolM.bind_run run₁, PoolM.bind_run run₂, PoolM.bind_run run₃,
    PoolM.bind_run run₄, Arena.withMemory_withMemory]
  have hinsert : p.insertRun 0 p.layout.pageCount (s.withMemory m₄) =
      .ok () (s.withMemory m₅) := run₅
  rw [PoolM.bind_run hinsert, PoolM.bind_run (setFreePages_run _ _), ← hm₆]
  rfl

theorem init_host : ∃ p s', init ⟨0, 65536⟩ Config.host ⟨Memory.zeroed, #[]⟩ = .ok (.ok p) s' := by
  have hlayout : Layout.compute Config.host (⟨0, 65536⟩ : Region).len =
      .ok (some ⟨104, 320, 15, 4096⟩) := by decide
  obtain ⟨p, s', h, _⟩ := init_run hlayout (by decide) ⟨Memory.zeroed, #[]⟩
  exact ⟨p, s', h⟩

theorem init_spec {p : Pool} {s s' : Arena} (hlen : region.len < wordLimit)
    (h : init region config s = .ok (.ok p) s') : Laid region config p s'.memory := by
  cases hcompute : Layout.compute config region.len with
  | error e =>
    rw [init, hcompute] at h
    cases h
  | ok found =>
    cases found with
    | none =>
      rw [init, PoolM.bind_liftM hcompute] at h
      cases h
    | some layout =>
      obtain ⟨p', s'', hrun, laid⟩ := init_run hcompute hlen s
      cases hrun.symm.trans h
      exact laid

/-- The view of sixteen host pages. -/
def onHost : Pool := ⟨⟨0, 65536⟩, Config.host, ⟨104, 320, 15, 4096⟩, 65536⟩

theorem init_onHost :
    ∃ s', init ⟨0, 65536⟩ Config.host ⟨Memory.zeroed, #[]⟩ = .ok (.ok onHost) s' := by
  obtain ⟨p, s', h⟩ := init_host
  have laid := init_spec (by decide) h
  have hlayout : Layout.compute Config.host 65536 = .ok (some ⟨104, 320, 15, 4096⟩) := by decide
  have hfinish : p.finish = 65536 := by
    rw [laid.placed.finish, dataOf, start, pageCount, laid.config_eq,
      Option.some.inj (Except.ok.inj (laid.layout.symm.trans hlayout))]
    decide
  have heq : p = onHost := by
    obtain ⟨region, config, layout, finish⟩ := p
    cases laid.region_eq
    cases laid.config_eq
    cases hfinish
    cases laid.layout.symm.trans hlayout
    rfl
  exact ⟨s', heq ▸ h⟩

end Pool

end Slab

end SharedSlab
