import SharedSlab.Proofs.History
import SharedSlab.Proofs.Mirroring

set_option autoImplicit false

namespace SharedSlab.Slab

theorem Config.eq_of_pageSize_eq {c d : Config} (size : c.pageSize = d.pageSize)
    (min : c.minShift = d.minShift) : c = d := by
  rw [c.pageSize_eq, d.pageSize_eq] at size
  have hshift : c.page.shift = d.page.shift := Nat.pow_right_injective (le_refl 2) size
  obtain ⟨⟨shift, _⟩, minShift, _, _, _, _⟩ := c
  obtain ⟨⟨shift', _⟩, minShift', _, _, _, _⟩ := d
  cases hshift
  cases min
  rfl

namespace Pool

/-- The header is that of `p`; the lock and the counter may have any value. -/
def Recorded (p : Pool) (m : Memory) : Prop :=
  ∀ h : HeaderWord, h ≠ .lock → h ≠ .freePages → m.word h.index = p.recorded h

variable {p q : Pool} {r : Region} {a a' : Ledger} {m m' : Memory} {s t : Arena}

theorem Laid.recorded {region : Region} {config : Config} (laid : Laid region config p m) :
    p.Recorded m := fun h _ _ => laid.header h

theorem Recorded.congr (header : p.Recorded m) (same : m.AgreeFrom 1 m') : p.Recorded m' := by
  intro h lock count
  have hindex : 1 ≤ h.index := by
    cases h with
    | lock => exact absurd rfl lock
    | _ => decide
  rw [← same _ hindex]
  exact header h lock count

theorem Framed.recorded (framed : p.Framed a a' m m') (hp : p.Placed) (header : p.Recorded m) :
    p.Recorded m' := by
  intro h lock count
  rw [framed.word_of_lt hp (HeaderWord.index_lt count)]
  exact header h lock count

section Header

variable (hp : p.Placed) (header : p.Recorded s.memory)
include header

theorem Recorded.headerWord_run {h : HeaderWord} (lock : h ≠ .lock) (count : h ≠ .freePages) :
    headerWord h s = .ok (p.recorded h) s := by
  rw [headerWord, PoolM.word_run, header h lock count]

include hp

theorem recordedLayout_run : recordedLayout s = .ok p.layout s := by
  have hslots := hp.slots
  have hpages := hp.pages
  have htable := hp.table_le
  have hstart := hp.start_le_finish
  have hfinish := hp.finish_le
  have hlen := hp.len_lt
  have hcount := hp.pageCount_lt
  simp only [nodeOffset, freeHead, descriptorSize, nodes, headerSize, start] at *
  rw [recordedLayout, PoolM.bind_run (header.headerWord_run (h := .slots) (by decide) (by decide)),
    PoolM.bind_run (header.headerWord_run (h := .pages) (by decide) (by decide)),
    PoolM.bind_run (header.headerWord_run (h := .pageCount) (by decide) (by decide)),
    PoolM.bind_run (header.headerWord_run (h := .start) (by decide) (by decide))]
  simp only [Pool.recorded]
  rw [toNat_ofNat (n := p.layout.slots) (by omega), toNat_ofNat (n := p.layout.pages) (by omega),
    toNat_ofNat (n := p.layout.pageCount) (by simp only [pageCount] at *; omega),
    toNat_ofNat (n := p.layout.start) (by omega)]
  rfl

end Header

theorem Placed.ofLayout_inRegion (hp : p.Placed) (r : Region) :
    ofLayout r p.config p.layout = .ok (p.inRegion r) := by
  have hfinish := hp.finish
  have hle := hp.finish_le
  have hlen := hp.len_lt
  have hpage := p.config.pageSize_eq
  simp only [dataOf, start, pageCount] at hfinish
  have hshift : Checked.shiftLeft p.layout.pageCount p.config.pageShift =
      .ok (p.layout.pageCount * 2 ^ p.config.pageShift) :=
    Checked.shiftLeft_eq_ok p.config.page.shift_lt (by rw [← hpage]; omega)
  have hadd : Checked.add p.layout.start (p.layout.pageCount * 2 ^ p.config.pageShift) =
      .ok p.finish := by
    rw [← hpage, hfinish]
    exact Checked.add_eq_ok (by omega)
  simp only [ofLayout, hshift, hadd, bind, Except.bind, pure, Except.pure]
  rfl

section Attach

variable (hp : p.Placed) (layout : Layout.compute p.config p.region.len = .ok (some p.layout))
  (header : p.Recorded s.memory)
include hp layout header

theorem attach_eq (r : Region) (config : Config) : attach r config s =
    if r.len < headerSize then .ok (.error .invalidRegion) s
    else if config ≠ p.config then .ok (.error .invalidRegion)
      (s.noting (.geometryMismatch p.config.pageSize (1 <<< min p.config.minShift 63)
        config.pageSize config.minSize))
    else if r.len < p.region.len then .ok (.error .invalidRegion) s
    else .ok (.ok (p.inRegion r))
      (s.noting (.poolAttached p.region.len (s.memory.word 9).toNat p.pageCount)) := by
  have hpage := p.config.pageSize_le
  have hmin := p.config.min_lt
  have hmax := p.config.page_le
  have hlen := hp.len_lt
  have hsize : (p.recorded .size).toNat = p.region.len := toNat_ofNat hlen
  have hpageSize : (p.recorded .pageSize).toNat = p.config.pageSize :=
    toNat_ofNat (by rw [wordLimit_eq]; omega)
  have hminShift : (p.recorded .minShift).toNat = p.config.minShift :=
    toNat_ofNat (by rw [wordLimit_eq]; omega)
  have hmagic : ¬p.recorded .magic ≠ Slab.magic := not_not.2 rfl
  by_cases hhead : r.len < headerSize
  · rw [attach, if_pos hhead, if_pos hhead]
    rfl
  rw [attach, if_neg hhead, if_neg hhead,
    PoolM.bind_run (header.headerWord_run (h := .magic) (by decide) (by decide)), if_neg hmagic,
    PoolM.bind_run (header.headerWord_run (h := .pageSize) (by decide) (by decide)),
    PoolM.bind_run (header.headerWord_run (h := .minShift) (by decide) (by decide))]
  dsimp only
  rw [hpageSize, hminShift]
  by_cases hconfig : config = p.config
  · subst hconfig
    rw [if_neg (by simp), if_neg (not_not.2 rfl),
      PoolM.bind_run (header.headerWord_run (h := .size) (by decide) (by decide)), hsize]
    by_cases hshort : r.len < p.region.len
    · rw [if_pos hshort, if_pos hshort]
      rfl
    · rw [if_neg hshort, if_neg hshort, PoolM.bind_liftM layout]
      dsimp only
      rw [PoolM.bind_run (recordedLayout_run hp header), if_neg (not_not.2 rfl),
        PoolM.bind_liftM (hp.ofLayout_inRegion r)]
      rfl
  · have hgeometry : p.config.pageSize ≠ config.pageSize ∨ p.config.minShift ≠ config.minShift := by
      by_contra hsame
      rw [not_or, not_not, not_not] at hsame
      exact hconfig (Config.eq_of_pageSize_eq hsame.1.symm hsame.2.symm)
    rw [if_pos hgeometry, if_pos hconfig]
    rfl

theorem attach_run (hlen : p.region.len ≤ r.len) :
    ∃ t, attach r p.config s = .ok (.ok (p.inRegion r)) t ∧ t.memory = s.memory := by
  have hhead : headerSize ≤ r.len := by
    have htable := hp.nodeOffset_le (le_refl _)
    simp only [nodeOffset, nodes, freeHead, descriptorSize, headerSize] at *
    omega
  rw [attach_eq hp layout header, if_neg (not_lt.2 hhead), if_neg (not_not.2 rfl),
    if_neg (not_lt.2 hlen)]
  exact ⟨_, rfl, rfl⟩

/-- A region that is shorter than the recorded one, or another configuration, is refused. -/
theorem attach_spec {config : Config} (run : attach r config s = .ok (.ok q) t) :
    config = p.config ∧ q = p.inRegion r ∧ p.region.len ≤ r.len ∧ t.memory = s.memory := by
  rw [attach_eq hp layout header] at run
  split_ifs at run with hhead hconfig hshort <;> cases run
  exact ⟨not_not.1 hconfig, rfl, not_lt.1 hshort, rfl⟩

end Attach

end Pool

end SharedSlab.Slab
