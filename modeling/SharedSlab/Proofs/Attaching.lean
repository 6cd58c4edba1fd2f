import SharedSlab.Proofs.Attachment
import SharedSlab.Proofs.UserWrites

set_option autoImplicit false

namespace SharedSlab

theorem Checked.bind_run {α β : Type} {x : Except Fault α} {a : α} (h : x = .ok a)
    (f : α → Except Fault β) : x >>= f = f a := by
  rw [h]
  rfl

theorem Geometry.alignUp_total {g : Geometry} {value : Nat} (h : value + g.size < wordLimit) :
    ∃ start, g.alignUp value = .ok start :=
  ⟨_, Checked.bind_run (Checked.add_eq_ok h) _⟩

namespace Slab

theorem Config.table_lt (c : Config) :
    headerSize + c.slotCount * descriptorSize + c.pageSize < wordLimit := by
  have hpage := c.pageSize_le
  have hmax := c.page_le
  have hslots : c.slotCount ≤ 20 := (Nat.sub_le _ _).trans hmax
  rw [wordLimit_eq]
  simp only [headerSize, descriptorSize]
  omega

theorem Layout.round_lt {c : Config} {len pages estimate : Nat} (hlen : len < wordLimit)
    (hpages : pages + c.pageSize < wordLimit) (hshort : pages < len)
    (h : estimate * (c.pageSize + descriptorSize) ≤ len - pages) :
    pages + estimate * descriptorSize + c.pageSize < wordLimit := by
  rw [Nat.mul_add] at h
  rcases Nat.eq_zero_or_pos estimate with rfl | hpos
  · omega
  · have hone := Nat.le_mul_of_pos_left c.pageSize hpos
    omega

theorem Layout.compute_total (c : Config) {len : Nat} (hlen : len < wordLimit) :
    ∃ found, compute c len = .ok found := by
  unfold compute
  dsimp only
  by_cases hshort : len ≤ headerSize + c.slotCount * descriptorSize
  · rw [if_pos hshort]
    exact ⟨none, rfl⟩
  rw [if_neg hshort]
  have hround := round_lt hlen c.table_lt (not_le.1 hshort) (Nat.div_mul_le_self _ _)
  generalize headerSize + c.slotCount * descriptorSize = pages at hround ⊢
  generalize (len - pages) / (c.pageSize + descriptorSize) = estimate at hround ⊢
  obtain ⟨start, halign⟩ := Geometry.alignUp_total (g := c.page) hround
  rw [Checked.bind_run (Checked.mul_eq_ok (by omega)),
    Checked.bind_run (Checked.add_eq_ok (by omega)), Checked.bind_run halign]
  by_cases hend : len ≤ start
  · rw [if_pos hend]
    exact ⟨none, rfl⟩
  · rw [if_neg hend]
    by_cases hnone : min estimate ((len - start) >>> c.pageShift) = 0
    · rw [if_pos hnone]
      exact ⟨none, rfl⟩
    · rw [if_neg hnone]
      exact ⟨_, rfl⟩

def HeaderWord.compared : List HeaderWord :=
  [.magic, .pageSize, .minShift, .slots, .pages, .pageCount, .start]

namespace Pool

variable {p : Pool} {r region : Region} {config : Config} {s s' t : Arena} {m : Memory}

def recordedSize (m : Memory) : Nat := (m.word HeaderWord.size.index).toNat

theorem recordedSize_lt (m : Memory) : recordedSize m < wordLimit := UInt64.toNat_lt _

def layoutIn (m : Memory) : Layout where
  slots := (m.word HeaderWord.slots.index).toNat
  pages := (m.word HeaderWord.pages.index).toNat
  pageCount := (m.word HeaderWord.pageCount.index).toNat
  start := (m.word HeaderWord.start.index).toNat

theorem recordedLayout_eq (s : Arena) : recordedLayout s = .ok (layoutIn s.memory) s := rfl

theorem headerWord_eq (h : HeaderWord) (s : Arena) :
    headerWord h s = .ok (s.memory.word h.index) s := rfl

/-- Memory begins with the header that `init` writes for the recorded size, where `t` was before. -/
structure WrittenBy (r : Region) (config : Config) (m : Memory) (t : Arena) : Prop where
  head : headerSize ≤ r.len
  size_le : recordedSize m ≤ r.len
  init : ∃ p u, Pool.init ⟨r.base, recordedSize m⟩ config t = .ok (.ok p) u ∧
    ∀ h ∈ HeaderWord.compared, m.word h.index = u.memory.word h.index

theorem word_eq_of_toNat {w : UInt64} {n : Nat} (h : w.toNat = n) : w = UInt64.ofNat n := by
  rw [← h, UInt64.ofNat_toNat]

theorem writtenBy_of_words (head : headerSize ≤ r.len) (size_le : recordedSize m ≤ r.len)
    (magic : m.word HeaderWord.magic.index = Slab.magic)
    (pageSize : (m.word HeaderWord.pageSize.index).toNat = config.pageSize)
    (minShift : (m.word HeaderWord.minShift.index).toNat = config.minShift)
    (layout : Layout.compute config (recordedSize m) = .ok (some (layoutIn m))) (t : Arena) :
    WrittenBy r config m t := by
  have compute : Layout.compute config (⟨r.base, recordedSize m⟩ : Region).len =
    .ok (some (layoutIn m)) := layout
  obtain ⟨p, u, run, laid⟩ := init_run compute (recordedSize_lt m) t
  have hlayout : p.layout = layoutIn m :=
    Option.some.inj (Except.ok.inj (laid.layout.symm.trans compute))
  refine ⟨head, size_le, p, u, run, ?_⟩
  intro h compared
  rw [laid.header]
  cases h with
  | lock | freePages | size => simp [HeaderWord.compared] at compared
  | magic => exact magic
  | pageSize =>
    rw [recorded, laid.config_eq]
    exact word_eq_of_toNat pageSize
  | minShift =>
    rw [recorded, laid.config_eq]
    exact word_eq_of_toNat minShift
  | slots | pages | pageCount | start =>
    rw [recorded, hlayout]
    exact word_eq_of_toNat rfl

theorem WrittenBy.recorded (w : WrittenBy r config m t) :
    ∃ p u, Laid ⟨r.base, recordedSize m⟩ config p u ∧ p.Recorded m := by
  obtain ⟨_, _, p, u, run, same⟩ := w
  have laid := init_spec (recordedSize_lt m) run
  refine ⟨p, u.memory, laid, ?_⟩
  intro h lock count
  cases h with
  | lock => exact absurd rfl lock
  | freePages => exact absurd rfl count
  | size =>
    rw [Pool.recorded, laid.region_eq]
    exact word_eq_of_toNat rfl
  | magic => exact (same .magic (by decide)).trans (laid.header .magic)
  | pageSize => exact (same .pageSize (by decide)).trans (laid.header .pageSize)
  | minShift => exact (same .minShift (by decide)).trans (laid.header .minShift)
  | slots => exact (same .slots (by decide)).trans (laid.header .slots)
  | pages => exact (same .pages (by decide)).trans (laid.header .pages)
  | pageCount => exact (same .pageCount (by decide)).trans (laid.header .pageCount)
  | start => exact (same .start (by decide)).trans (laid.header .start)

theorem attach_total (r : Region) (config : Config) (s : Arena) :
    ∃ outcome s', attach r config s = .ok outcome s' ∧ s'.memory = s.memory ∧
      (outcome = .error .invalidRegion ∨
        (∃ p, outcome = .ok p) ∧ ∀ t, WrittenBy r config s.memory t) := by
  by_cases head : r.len < headerSize
  · rw [attach, if_pos head]
    exact ⟨_, s, rfl, rfl, .inl rfl⟩
  rw [attach, if_neg head, PoolM.bind_run (headerWord_eq .magic s)]
  by_cases magic : s.memory.word HeaderWord.magic.index = Slab.magic
  swap
  · rw [if_pos magic]
    exact ⟨_, s.noting _, rfl, rfl, .inl rfl⟩
  rw [if_neg (not_not.2 magic), PoolM.bind_run (headerWord_eq .pageSize s),
    PoolM.bind_run (headerWord_eq .minShift s)]
  dsimp only
  by_cases geometry : (s.memory.word HeaderWord.pageSize.index).toNat ≠ config.pageSize ∨
      (s.memory.word HeaderWord.minShift.index).toNat ≠ config.minShift
  · rw [if_pos geometry]
    exact ⟨_, s.noting _, rfl, rfl, .inl rfl⟩
  have size : (s.memory.word HeaderWord.size.index).toNat = recordedSize s.memory := rfl
  rw [if_neg geometry, PoolM.bind_run (headerWord_eq .size s), size]
  rw [not_or, not_not, not_not] at geometry
  by_cases short : r.len < recordedSize s.memory
  · rw [if_pos short]
    exact ⟨_, s, rfl, rfl, .inl rfl⟩
  rw [if_neg short]
  obtain ⟨found, compute⟩ := Layout.compute_total config (recordedSize_lt s.memory)
  rw [PoolM.bind_liftM compute]
  cases found with
  | none => exact ⟨_, s, rfl, rfl, .inl rfl⟩
  | some layout =>
    dsimp only
    rw [PoolM.bind_run (recordedLayout_eq s)]
    by_cases same : layoutIn s.memory = layout
    · rw [if_neg (not_not.2 same)]
      have fits : layout.Fits config (⟨r.base, recordedSize s.memory⟩ : Region).len :=
        Layout.compute_fits compute
      obtain ⟨p, _, _, hconfig, hlayout, hp⟩ := ofLayout_eq_ok fits (recordedSize_lt s.memory)
      have view := hp.ofLayout_inRegion r
      rw [hconfig, hlayout] at view
      rw [PoolM.bind_liftM view]
      rw [← same] at compute
      exact ⟨_, s.noting _, rfl, rfl, .inr ⟨⟨_, rfl⟩, writtenBy_of_words (not_lt.1 head)
        (not_lt.1 short) magic geometry.1 geometry.2 compute⟩⟩
    · rw [if_pos same]
      exact ⟨_, s.noting _, rfl, rfl, .inl rfl⟩

theorem WrittenBy.attach_run (w : WrittenBy r config s.memory t) :
    ∃ p s', attach r config s = .ok (.ok p) s' := by
  obtain ⟨p, u, laid, header⟩ := w.recorded
  have layout := laid.layout
  rw [← laid.config_eq, ← laid.region_eq] at layout
  have size_le : p.region.len ≤ r.len := by
    rw [laid.region_eq]
    exact w.size_le
  obtain ⟨s', run, _⟩ := Pool.attach_run laid.placed layout header size_le
  rw [laid.config_eq] at run
  exact ⟨_, s', run⟩

theorem attach_of_recorded (hp : p.Placed)
    (layout : Layout.compute p.config p.region.len = .ok (some p.layout))
    (header : p.Recorded s.memory) (r : Region) (config' : Config) :
    ∃ s', attach r config' s = .ok (if config' = p.config ∧ p.region.len ≤ r.len
        then .ok { p with region := r } else .error .invalidRegion) s' ∧
      s'.memory = s.memory := by
  by_cases found : config' = p.config ∧ p.region.len ≤ r.len
  · obtain ⟨s', run, same⟩ := Pool.attach_run hp layout header found.2
    rw [if_pos found, found.1]
    exact ⟨s', run, same⟩
  · rw [if_neg found, attach_eq hp layout header]
    by_cases head : r.len < headerSize
    · rw [if_pos head]
      exact ⟨s, rfl, rfl⟩
    rw [if_neg head]
    by_cases other : config' = p.config
    · rw [if_neg (not_not.2 other), if_pos (not_le.1 fun hle => found ⟨other, hle⟩)]
      exact ⟨s, rfl, rfl⟩
    · rw [if_pos other]
      exact ⟨s.noting _, rfl, rfl⟩

end Pool

/-- Whatever memory holds, `attach` answers and writes nothing. It finds a pool where the header is
what `init` writes for the recorded size; that of a pool in use is, for its own configuration and
any region that is long enough. -/
theorem attach_iff_written :
    (∀ (r : Region) (config : Config) (s : Arena), ∃ outcome s',
      Pool.attach r config s = .ok outcome s' ∧ s'.memory = s.memory ∧
      ((∃ p, outcome = .ok p) ∨ outcome = .error .invalidRegion) ∧
      ∀ t, (∃ p, outcome = .ok p) ↔ Pool.WrittenBy r config s.memory t) ∧
    ∀ (region : Region) (config : Config) (p : Pool) (s s' : Arena), region.len < wordLimit →
      Pool.init region config s = .ok (.ok p) s' →
      ∀ moves : List Move, ∃ replies live u, p.play moves [] s' = .ok (replies, live) u ∧
        ∀ (r : Region) (config' : Config), ∃ u',
          Pool.attach r config' u = .ok (if config' = config ∧ region.len ≤ r.len
            then .ok { p with region := r } else .error .invalidRegion) u' ∧
          u'.memory = u.memory := by
  constructor
  · intro r config s
    obtain ⟨outcome, s', run, same, answer⟩ := Pool.attach_total r config s
    refine ⟨outcome, s', run, same, ?_, fun t => ⟨?_, ?_⟩⟩
    · rcases answer with refused | ⟨found, _⟩
      · exact .inr refused
      · exact .inl found
    · rintro ⟨p, found⟩
      rcases answer with refused | ⟨_, written⟩
      · cases refused.symm.trans found
      · exact written t
    · intro written
      obtain ⟨p, s'', run'⟩ := written.attach_run
      cases run.symm.trans run'
      exact ⟨p, rfl⟩
  · intro region config p s s' hlen h moves
    have laid := Pool.init_spec hlen h
    obtain ⟨hp, f⟩ := follows_init hlen h
    obtain ⟨u, run, _, kept⟩ := f.play hp moves
    have header : p.Recorded u.memory := by
      intro word lock count
      rw [kept _ (HeaderWord.index_lt count)]
      exact laid.header word
    have layout := laid.layout
    rw [← laid.config_eq, ← laid.region_eq] at layout ⊢
    exact ⟨_, _, u, run, Pool.attach_of_recorded hp layout header⟩

/-- A region of which every bit is set, and a pool in use. -/
theorem attach_iff_written_host : (∃ outcome s',
      Pool.attach ⟨0, 65536⟩ Config.host ⟨Memory.filled 255, #[]⟩ = .ok outcome s' ∧
      s'.memory = Memory.filled 255 ∧
      ((∃ p, outcome = .ok p) ∨ outcome = .error .invalidRegion) ∧
      ∀ t, (∃ p, outcome = .ok p) ↔
        Pool.WrittenBy ⟨0, 65536⟩ Config.host (Memory.filled 255) t) ∧
    ∃ p s', Pool.init ⟨0, 65536⟩ Config.host ⟨Memory.zeroed, #[]⟩ = .ok (.ok p) s' ∧
      ∃ replies live u, p.play [.call (.alloc 64 (by decide)), .call (.free 17)] [] s' =
        .ok (replies, live) u ∧ ∀ (r : Region) (config' : Config), ∃ u',
          Pool.attach r config' u = .ok (if config' = Config.host ∧ 65536 ≤ r.len
            then .ok { p with region := r } else .error .invalidRegion) u' ∧
          u'.memory = u.memory := by
  constructor
  · exact attach_iff_written.1 ⟨0, 65536⟩ Config.host ⟨Memory.filled 255, #[]⟩
  · obtain ⟨p, s', h⟩ := Pool.init_host
    exact ⟨p, s', h, attach_iff_written.2 _ _ p _ s' (by decide) h _⟩

end Slab

end SharedSlab
