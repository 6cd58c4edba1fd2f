import SharedSlab.Proofs.Attaching
import SharedSlab.Proofs.HandleCalls
import SharedSlab.Proofs.LiveSnapshot

set_option autoImplicit false

namespace SharedSlab.Slab

variable {p q : Pool} {r region : Region} {config : Config} {a : Ledger} {live : List Block}
  {m n : Memory} {s t : Arena}

theorem Stores.inRegion (h : Stores p a m) (r : Region) : Stores (p.inRegion r) a m where
  encodes := by
    obtain ⟨rings, pages, runs⟩ := h.encodes
    refine ⟨rings, fun i hi => ?_, fun run hrun => ?_⟩
    · obtain ⟨kind, marks, idle, blank⟩ := pages i hi
      exact ⟨kind, marks, idle, blank⟩
    · obtain ⟨length, back⟩ := runs run hrun
      exact ⟨length, back⟩
  count := h.count

theorem Follows.inRegion (f : Follows p a live m) (r : Region) :
    Follows (p.inRegion r) a live m :=
  ⟨f.steady, f.stores.inRegion r, f.held, f.nodup, f.pos, f.fits⟩

namespace Pool

theorem Placed.inRegion (hp : p.Placed) (len_le : p.region.len ≤ r.len)
    (len_lt : r.len < wordLimit) : (p.inRegion r).Placed where
  slots := hp.slots
  pages := hp.pages
  pageCount_pos := hp.pageCount_pos
  table_le := hp.table_le
  aligned := hp.aligned
  finish := hp.finish
  finish_le := hp.finish_le.trans len_le
  len_lt := len_lt

structure InUse (p : Pool) (m : Memory) : Prop where
  placed : p.Placed
  layout : Layout.compute p.config p.region.len = .ok (some p.layout)
  header : p.Recorded m
  unlocked : m.word 0 = 0
  follows : ∃ a live, Follows p a live m

namespace InUse

theorem of_init (hlen : region.len < wordLimit)
    (h : Pool.init region config s = .ok (.ok p) t) : p.InUse t.memory := by
  have laid := init_spec hlen h
  have layout := laid.layout
  rw [← laid.config_eq, ← laid.region_eq] at layout
  exact ⟨laid.placed, layout, laid.recorded, laid.unlocked, _, _, (follows_init hlen h).2⟩

theorem init_total (config : Config) (hlen : region.len < wordLimit) (s : Arena) :
    (∃ e t, Pool.init region config s = .ok (.error e) t) ∨
      ∃ p t, Pool.init region config s = .ok (.ok p) t ∧ p.InUse t.memory ∧ p.region = region := by
  obtain ⟨found, compute⟩ := Layout.compute_total config hlen
  cases found with
  | none =>
    apply Or.inl
    rw [Pool.init, PoolM.bind_liftM compute]
    exact ⟨_, s, rfl⟩
  | some layout =>
    apply Or.inr
    obtain ⟨p, t, run, laid⟩ := init_run compute hlen s
    exact ⟨p, t, run, of_init hlen run, laid.region_eq⟩

theorem congr (u : p.InUse m) (agree : m.AgreeFrom 1 n) (free : n.word 0 = 0) : p.InUse n := by
  obtain ⟨a, live, f⟩ := u.follows
  exact ⟨u.placed, u.layout, u.header.congr agree, free, a, live, f.congr u.placed agree⟩

theorem inRegion (u : p.InUse m) (hlen : r.len = p.region.len) : (p.inRegion r).InUse m where
  placed := u.placed.inRegion hlen.ge (hlen.trans_lt u.placed.len_lt)
  layout := by
    have h := u.layout
    rw [← hlen] at h
    exact h
  header h lock count := by
    rw [u.header h lock count]
    cases h with
    | size => exact congrArg UInt64.ofNat hlen.symm
    | _ => rfl
  unlocked := u.unlocked
  follows := by
    obtain ⟨a, live, f⟩ := u.follows
    exact ⟨a, live, f.inRegion r⟩

theorem eq_of_recorded {h : HeaderWord} {k l : Nat} (hk : k < wordLimit) (hl : l < wordLimit)
    (first : m.word h.index = UInt64.ofNat k) (second : m.word h.index = UInt64.ofNat l) :
    k = l := by
  rw [← toNat_ofNat hk, ← toNat_ofNat hl, ← first, ← second]

theorem len_eq (u : p.InUse m) (v : q.InUse m) : q.region.len = p.region.len :=
  eq_of_recorded v.placed.len_lt u.placed.len_lt (v.header .size (by decide) (by decide))
    (u.header .size (by decide) (by decide))

theorem config_eq (u : p.InUse m) (v : q.InUse m) : q.config = p.config := by
  have hlt : ∀ c : Config, c.pageSize < wordLimit ∧ c.minShift < wordLimit := by
    intro c
    have hpage := c.pageSize_le
    have hmin := c.min_lt
    have hmax := c.page_le
    rw [wordLimit_eq]
    omega
  apply Config.eq_of_pageSize_eq
  · exact eq_of_recorded (hlt _).1 (hlt _).1 (v.header .pageSize (by decide) (by decide))
      (u.header .pageSize (by decide) (by decide))
  · exact eq_of_recorded (hlt _).2 (hlt _).2 (v.header .minShift (by decide) (by decide))
      (u.header .minShift (by decide) (by decide))

theorem eq_inRegion (u : p.InUse m) (v : q.InUse m) : q = p.inRegion q.region := by
  have hconfig := u.config_eq v
  have hlayout : q.layout = p.layout := by
    have h := v.layout
    rw [hconfig, u.len_eq v, u.layout] at h
    exact (Option.some.inj (Except.ok.inj h)).symm
  exact u.placed.eq_of_layout_eq v.placed hconfig hlayout

/-- A call is made with the lock held as it is without, and keeps the pool in use. -/
theorem call (u : p.InUse s.memory) (c : Call) :
    ∃ answer s', p.call c s = .ok answer s' ∧ p.InUse s'.memory ∧
      (∀ off, answer = .offset (some off) → off < p.region.len) ∧
      ∀ w t, t.memory = s.memory.setWord 0 w → ∃ t', p.call c t = .ok answer t' ∧
        s'.memory.AgreeFrom 1 t'.memory ∧ t'.memory.word 0 = w := by
  obtain ⟨a, live, f⟩ := u.follows
  obtain ⟨s', run, f', framed⟩ := f.call u.placed c
  refine ⟨_, s', run, ⟨u.placed, u.layout, framed.recorded u.placed u.header, ?_, _, _, f'⟩, ?_, ?_⟩
  · rw [framed.word_of_lt u.placed (by decide)]
    exact u.unlocked
  · intro off granted
    rw [granted] at run f'
    exact Follows.lt_of_granted u.placed run f'
  · -- no call looks at the word of the lock, so one that is held changes nothing
    intro w t held
    have agree : s.memory.AgreeFrom 1 t.memory := by
      intro x hx
      rw [held, Memory.word_setWord_of_ne _ _ (by omega)]
    obtain ⟨answer, s'', t', _, run', runHeld, _, agree', word⟩ :=
      f.callThrough u.placed (le_refl p.region.len) agree c
    cases run.symm.trans run'
    refine ⟨t', runHeld, agree', ?_⟩
    rw [word, held, Memory.word_setWord_self]

theorem len_pos (u : p.InUse m) : 0 < p.region.len :=
  (Nat.pos_of_ne_zero (nodeOffset_ne_zero 0)).trans_le (u.placed.nodeOffset_le (Nat.zero_le _))

theorem attach (u : p.InUse s.memory) (hlen : r.len = p.region.len) (config : Config) :
    ∃ t, Pool.attach r config s = .ok (if config = p.config then .ok (p.inRegion r)
      else .error .invalidRegion) t ∧ t.memory = s.memory := by
  obtain ⟨t, run, same⟩ := attach_of_recorded u.placed u.layout u.header r config
  simp only [hlen, le_refl, and_true] at run
  exact ⟨t, run, same⟩

/-- All views of one pool take the same snapshot, with the lock held or not. -/
theorem snapshot (u : p.InUse m) : ∃ snap, ∀ (q : Pool) (t : Arena), q.InUse m →
    m.AgreeFrom 1 t.memory → q.snapshot t = .ok snap t := by
  obtain ⟨a, live, f⟩ := u.follows
  refine ⟨a.snapshot p, fun q t v agree => ?_⟩
  have view := u.eq_inRegion v
  have f' := (f.inRegion q.region).congr (view ▸ v.placed) agree
  rw [view]
  exact f'.snapshot_run (view ▸ v.placed)

end InUse

end Pool

end SharedSlab.Slab
