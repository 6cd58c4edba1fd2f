import SharedSlab.Proofs.Occupancy
import SharedSlab.Proofs.RunTaking

set_option autoImplicit false

namespace SharedSlab.Slab

variable {p : Pool} {a : Ledger} {d d' : Table} {w : Nat → UInt64} {i j k shift : Nat}
  {taken : Finset Nat} {s : Arena} {m m' : Memory} {x : UInt64}

def Ledger.IsBitmap (p : Pool) (a : Ledger) (x : Nat) : Prop :=
  ∃ i < p.pageCount, ∃ shift taken, a.use i = .chunks shift taken ∧ shift < p.config.exactShift ∧
    ∃ k < p.config.words shift, x = p.bitmapIndex i k

/-- What changes from one ledger to the next: the counter of free pages, descriptors, and words of
bitmaps that the one or the other has. Links still are multiples of eight. -/
structure Pool.Framed (p : Pool) (a a' : Ledger) (m m' : Memory) : Prop where
  words : ∀ x, x < 9 ∨ 10 + 3 * p.nodes ≤ x → ¬a.IsBitmap p x → ¬a'.IsBitmap p x →
    m'.word x = m.word x
  links : LinksAligned p.nodes m → LinksAligned p.nodes m'

theorem Pool.Framed.refl (p : Pool) (a : Ledger) (m : Memory) : p.Framed a a m m :=
  ⟨fun _ _ _ _ => rfl, id⟩

theorem Pool.SameOutside.framed {a' : Ledger} (h : p.SameOutside m m') : p.Framed a a' m m' :=
  ⟨fun x hx _ _ => h.words x hx, h.links⟩

theorem Pool.SameOutside.of_tabled (t : Tabled p.nodes m m' d) : p.SameOutside m m' :=
  ⟨fun x hx => t.elsewhere x (hx.imp_left fun hlt => hlt.trans (by decide)), t.links⟩

theorem Encodes.congr_table (h : Encodes p a d w) (co : a.Coherent p.config p.pageCount)
    (same : ∀ j < p.nodes, d' j = d j) : Encodes p a d' w := by
  refine h.edit co ∅ ?_ ?_ (fun i _ hi => absurd hi (Set.notMem_empty i))
    fun r hr => .inl ⟨hr, fun j _ _ => Set.notMem_empty j⟩
  · refine h.rings.congr fun g hg y hy => ?_
    rw [same y (co.mem_lt_nodes hg hy)]
    exact ⟨rfl, rfl⟩
  · exact fun j hj _ => .of_eq rfl Iff.rfl Iff.rfl (same _ (Pool.page_lt_nodes hj))

theorem Stores.congr (h : Stores p a m) (co : a.Coherent p.config p.pageCount)
    (low : ∀ y, 9 ≤ y → y < 10 + 3 * p.nodes → m'.word y = m.word y)
    (bitmap : ∀ y, a.IsBitmap p y → m'.word y = m.word y) : Stores p a m' := by
  have hsame : ∀ j < p.nodes, table m' j = table m j := fun j hj => by
    simp only [table]
    rw [low _ (by omega) (by omega), low _ (by omega) (by omega), low _ (by omega) (by omega)]
  have encodes := h.encodes.congr_table co hsame
  refine ⟨⟨encodes.rings, fun i hi => ?_, encodes.runs⟩, ?_⟩
  · obtain ⟨kind, marks, idle, blank⟩ := encodes.pages i hi
    refine ⟨kind, marks.congr_bitmap fun shift taken huse small k hk => ?_, idle, blank⟩
    exact bitmap _ ⟨i, hi, shift, taken, huse, small, k, hk, rfl⟩
  · rw [low 9 (le_refl _) (by omega), h.count]

theorem Ledger.IsBitmap.table_le (h : a.IsBitmap p k) (hp : p.Placed) :
    10 + 3 * p.nodes ≤ k := by
  obtain ⟨i, _, _, _, _, _, l, _, rfl⟩ := h
  exact hp.table_le_bitmapIndex i l

theorem Pool.Framed.word_of_lt {a' : Ledger} (framed : p.Framed a a' m m') (hp : p.Placed)
    (hk : k < 9) : m'.word k = m.word k := by
  refine framed.words k (.inl hk) (fun h => ?_) fun h => ?_
  · have hle := h.table_le hp
    omega
  · have hle := h.table_le hp
    omega

section Steps

variable (hp : p.Placed) (co : a.Coherent p.config p.pageCount)
include hp

theorem table_setBitmap (i k : Nat) (v : UInt64) (m : Memory) :
    ∀ j < p.nodes, table (m.setWord (p.bitmapIndex i k) v) j = table m j := fun _ hj =>
  table_setWord_of_outside m v (.inr (hp.table_le_bitmapIndex i k)) hj

theorem word_setBitmap (i : Nat) {k : Nat} (hk : 8 * k < p.config.pageSize) (v : UInt64)
    (m : Memory)
    (hj : j ≠ i) {l : Nat} (hl : 8 * l < p.config.pageSize) :
    (m.setWord (p.bitmapIndex i k) v).word (p.bitmapIndex j l) = m.word (p.bitmapIndex j l) :=
  Memory.word_setWord_of_ne _ _ fun heq => hj (hp.bitmapIndex_inj hk hl heq).1.symm

theorem Pool.bitmapWord_run (hi : i < p.pageCount) (fits : 8 * k ≤ p.config.pageSize) (s : Arena) :
    p.bitmapWord (p.dataOf i) k s = .ok (s.memory.word (p.bitmapIndex i k)) s := by
  rw [bitmapWord, PoolM.bind_liftM (hp.bitmapCell_eq_ok hi fits), PoolM.word_run]

theorem Pool.setBitmapWord_run (hi : i < p.pageCount) (fits : 8 * k ≤ p.config.pageSize)
    (v : UInt64) (s : Arena) : p.setBitmapWord (p.dataOf i) k v s =
      .ok () (s.withMemory (s.memory.setWord (p.bitmapIndex i k) v)) := by
  rw [setBitmapWord, PoolM.bind_liftM (hp.bitmapCell_eq_ok hi fits), PoolM.setWord_run]

theorem Stores.setSlab (h : Stores p a m) (co : a.Coherent p.config p.pageCount)
    {taken' : Finset Nat} (huse : a.use i = .chunks shift taken)
    (hi : i < p.pageCount) (t : Tabled p.nodes m m' ((table m).setSlab (p.page i) x))
    (marks : Occupied p i shift taken' x m.word) : Stores p (a.setTaken i shift taken') m' := by
  refine ⟨t.encodes hp (h.encodes.reuse co (by simp [huse]) (by simp) (fun k hk => ?_) ?_ ?_ ?_
    fun _ _ _ _ _ => rfl), ?_⟩
  · simp [Table.setSlab, hk]
  · simp
  · rw [Table.kind_setSlab, (h.encodes.pages i hi).kind, huse]
    rfl
  · rw [Table.slab_setSlab, if_pos rfl]
    exact marks
  · rw [t.elsewhere 9 (.inl (by decide)), h.count]
    rfl

theorem Stores.setBitmap (h : Stores p a m) (co : a.Coherent p.config p.pageCount)
    {taken' : Finset Nat} (huse : a.use i = .chunks shift taken)
    (small : shift < p.config.exactShift) (hi : i < p.pageCount) (hk : k < p.config.words shift)
    (new : Bits.Window x 0 64 (64 * k) taken')
    (same : ∀ b, b / 64 ≠ k → (b ∈ taken' ↔ b ∈ taken)) :
    Stores p (a.setTaken i shift taken') (m.setWord (p.bitmapIndex i k) x) := by
  have hmarks := (h.encodes.pages i hi).marks
  rw [huse] at hmarks
  obtain ⟨hslab, hbits⟩ := (occupied_small small).1 hmarks
  have hsize := Config.eight_mul_lt small hk
  have htable : Encodes p a (table (m.setWord (p.bitmapIndex i k) x)) m.word :=
    h.encodes.congr_table co (table_setBitmap hp i k x m)
  refine ⟨htable.reuse co (by simp [huse]) (by simp) (fun _ _ => rfl) ⟨rfl, rfl⟩ ?_ ?_
    fun j _ hj l hl => word_setBitmap hp i hsize x m hj hl, ?_⟩
  · rw [(htable.pages i hi).kind, huse]
    rfl
  · refine (occupied_small small).2 ⟨?_, fun q hq => ?_⟩
    · rw [table_setBitmap hp i k x m _ (Pool.page_lt_nodes hi), hslab]
    · by_cases hqk : q = k
      · subst hqk
        rwa [Memory.word_setWord_self]
      · rw [Memory.word_setWord_of_ne _ _ fun heq => hqk (hp.bitmapIndex_inj hsize
          (Config.eight_mul_lt small hq) heq).2.symm]
        exact (hbits q hq).congr fun b hb => same _ (by omega)
  · have htable := hp.table_le_bitmapIndex i k
    rw [Memory.word_setWord_of_ne _ _ (by omega), h.count]
    rfl

include co

theorem Stores.retire_run (h : Stores p a s.memory) (hmem : i ∈ a.listed shift) :
    ∃ m', p.retire (nodeOffset (p.page i)) (p.config.kindFor shift) s =
        .ok () (s.withMemory m') ∧
      Stores p { a with listed := Ledger.unlist i a.listed } m' ∧ p.SameOutside s.memory m' := by
  obtain ⟨b, c, ⟨hb, hc⟩, ⟨hlink, hnext⟩, encodes⟩ := h.encodes.retire co hmem
  obtain ⟨m', run, t⟩ := Pool.retire_run hp (Pool.page_lt_nodes (co.listed_lt shift i hmem)) hb hc
    (p.config.kindFor shift) s hlink hnext
  exact ⟨m', run, ⟨t.encodes hp encodes, (t.elsewhere 9 (.inl (by decide))).trans h.count⟩,
    .of_tabled t⟩

theorem Stores.pushFront_run (h : Stores p a s.memory) (hi : i < p.pageCount)
    (huse : a.use i = .chunks shift taken) (hclass : p.config.IsClass shift)
    (hnot : ¬a.Linked i) :
    ∃ m', p.pushFront (nodeOffset (p.slot shift)) (nodeOffset (p.page i)) (p.config.kindFor shift)
        s = .ok () (s.withMemory m') ∧
      Stores p { a with listed := Ledger.enlist shift i a.listed } m' ∧
      p.SameOutside s.memory m' := by
  have hslot := slot_mem_heads hclass
  obtain ⟨m', run, t⟩ := Pool.pushFront_run hp (lt_nodes_of_mem_heads hslot) (Pool.page_lt_nodes hi)
    (co.mem_lt_nodes hslot (headD_mem_cons _ _)) (p.config.kindFor shift) s
    (h.encodes.rings.ring _ hslot).next_sentinel
  exact ⟨m', run, ⟨t.encodes hp (h.encodes.enlist co hclass huse hnot),
    (t.elsewhere 9 (.inl (by decide))).trans h.count⟩, .of_tabled t⟩

theorem Stores.start_run (h : Stores p a m) (hi : i < p.pageCount) (huse : a.use i = .runStart 1)
    (hclass : p.config.IsClass shift)
    (same : ∀ j < p.nodes, table s.memory j = table m j)
    (words : ∀ j < p.pageCount, j ≠ i → ∀ k, 8 * k < p.config.pageSize →
      s.memory.word (p.bitmapIndex j k) = m.word (p.bitmapIndex j k))
    (count : s.memory.word 9 = m.word 9) (marks : Occupied p i shift taken x s.memory.word) :
    ∃ m₁ m₂, p.setSlab (nodeOffset (p.page i)) x s = .ok () (s.withMemory m₁) ∧
      p.pushFront (nodeOffset (p.slot shift)) (nodeOffset (p.page i)) (p.config.kindFor shift)
        (s.withMemory m₁) = .ok () (s.withMemory m₂) ∧
      Stores p { a.setTaken i shift taken with listed := Ledger.enlist shift i a.listed } m₂ ∧
      p.SameOutside s.memory m₂ := by
  have hslot := slot_mem_heads hclass
  have hx := Pool.page_lt_nodes hi
  have hnot : ¬a.Linked i := co.not_linked_of_held (.inr ⟨1, huse⟩)
  have co' : (a.setTaken i shift taken).Coherent p.config p.pageCount :=
    co.setTaken (by simp [huse]) fun s hs => absurd (.inr ⟨s, hs⟩) hnot
  have encodes : Encodes p a (table s.memory) m.word := h.encodes.congr_table co same
  have encodes' : Encodes p (a.setTaken i shift taken)
      (((table s.memory).setSlab (p.page i) x).setPrev (p.page i) (table s.memory (p.page i)).link
        (p.config.kindFor shift)) s.memory.word := encodes.reuse co (by simp [huse]) (by simp)
    (fun k hk => by simp [Table.setPrev, Table.setSlab, hk]) (by simp)
    (by simp [PageUse.kind]) (by simpa [PageUse.Marks] using marks) words
  have hfirst := co.mem_lt_nodes hslot (headD_mem_cons (p.ringOf a (p.slot shift)) (p.slot shift))
  obtain ⟨m₁, run₁, t₁⟩ := Pool.setSlab_run hp hx x s
  obtain ⟨m₂, run₂, t₂⟩ := Pool.pushFront_run hp (lt_nodes_of_mem_heads hslot) hx hfirst
    (p.config.kindFor shift) (s.withMemory m₁) (by
      rw [Arena.memory_withMemory, t₁.table_eq, Table.next_setSlab,
        (encodes.rings.ring _ hslot).next_sentinel])
  rw [Arena.memory_withMemory, t₁.table_eq] at t₂
  have t := t₁.trans t₂
  refine ⟨m₁, m₂, run₁, run₂, ⟨t.encodes hp ?_, ?_⟩, .of_tabled t⟩
  · have hlisted := encodes'.enlist co' hclass (Ledger.setTaken_self ..) hnot
    rwa [Table.pushed_congr (d := (table s.memory).setSlab (p.page i) x) (by simp)
      fun k hk => by simp [Table.setPrev, hk]] at hlisted
  · rw [t.elsewhere 9 (.inl (by decide)), count, h.count]
    rfl

end Steps

end SharedSlab.Slab
