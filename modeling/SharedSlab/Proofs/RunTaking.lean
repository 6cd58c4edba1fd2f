import Mathlib.Data.List.Find
import SharedSlab.Proofs.EncodingEdits
import SharedSlab.Proofs.LedgerCount
import SharedSlab.Slab.Run

set_option autoImplicit false

namespace SharedSlab.Slab

/-- The memory of a pool holds a ledger, and the header counts its free pages. -/
structure Stores (p : Pool) (a : Ledger) (m : Memory) : Prop where
  encodes : Encodes p a (table m) m.word
  count : m.word 9 = UInt64.ofNat a.freePages

/-- Every word but those of the descriptors and the counter of free pages is the same, and links
still are multiples of eight. -/
structure Pool.SameOutside (p : Pool) (m m' : Memory) : Prop where
  words : ∀ i, i < 9 ∨ 10 + 3 * p.nodes ≤ i → m'.word i = m.word i
  links : LinksAligned p.nodes m → LinksAligned p.nodes m'

theorem Pool.SameOutside.refl (p : Pool) (m : Memory) : p.SameOutside m m := ⟨fun _ _ => rfl, id⟩

theorem table_setWord_of_lt (m : Memory) {i : Nat} (w : UInt64) (h : i < 10) :
    table (m.setWord i w) = table m := by
  funext j
  exact table_setWord_of_outside m w (.inl h) (Nat.lt_succ_self j)

variable {p : Pool} {a a' : Ledger} {d d' : Table} {w w' : Nat → UInt64}
  {i j k n x : Nat} {r : PageRun} {s : Arena} {m m' : Memory}

theorem Encodes.congr_words (hp : p.Placed) (h : Encodes p a d w)
    (words : ∀ i, 10 + 3 * p.nodes ≤ i → w' i = w i) : Encodes p a d w' where
  rings := h.rings
  pages i hi := by
    obtain ⟨kind, marks, idle, blank⟩ := h.pages i hi
    exact ⟨kind, marks.congr fun k _ => words _ (hp.table_le_bitmapIndex i k), idle, blank⟩
  runs := h.runs

theorem Tabled.encodes (t : Tabled p.nodes m m' d) (hp : p.Placed) (h : Encodes p a d m.word) :
    Encodes p a (table m') m'.word := by
  rw [t.table_eq]
  exact h.congr_words hp fun i hi => t.elsewhere i (.inr hi)

namespace Table

def fill (d : Table) (p : Pool) (lo hi : Nat) (e : Desc) : Table :=
  fun k => if p.page lo ≤ k ∧ k < p.page hi then e else d k

theorem fill_self (d : Table) (p : Pool) (lo : Nat) (e : Desc) : d.fill p lo lo e = d := by
  funext k
  exact if_neg (by omega)

theorem fill_succ (d : Table) (p : Pool) {lo hi : Nat} (e : Desc) (h : lo ≤ hi) :
    d.fill p lo (hi + 1) e = Function.update (d.fill p lo hi e) (p.page hi) e := by
  have hsucc : p.page (hi + 1) = p.page hi + 1 := rfl
  have hle : p.page lo ≤ p.page hi := Nat.add_le_add_left h _
  funext k
  rw [Function.update_apply, fill, fill, hsucc]
  by_cases hk : k = p.page hi
  · rw [if_pos hk, if_pos (by omega)]
  · rw [if_neg hk]
    by_cases hin : p.page lo ≤ k ∧ k < p.page hi
    · rw [if_pos hin, if_pos (by omega)]
    · rw [if_neg hin, if_neg (by omega)]

theorem fill_page (d : Table) (e : Desc) {lo hi : Nat} (low : lo ≤ j) (high : j < hi) :
    d.fill p lo hi e (p.page j) = e :=
  if_pos (by simp only [Pool.page]; omega)

theorem fill_outside (d : Table) (e : Desc) {lo hi : Nat}
    (h : ∀ j, lo ≤ j → j < hi → k ≠ p.page j) : d.fill p lo hi e k = d k := by
  refine if_neg fun hk => ?_
  simp only [Pool.page] at hk h
  exact h (k - (1 + p.config.slotCount)) (by omega) (by omega) (by omega)

end Table

namespace Pool

section Whole

variable (hp : p.Placed)
include hp

theorem occupy_run (hx : x < p.nodes) (slab : UInt64) (s : Arena) :
    ∃ m', p.occupy (nodeOffset x) slab s = .ok () (s.withMemory m') ∧
      Tabled p.nodes s.memory m' (Function.update (table s.memory) x ⟨slab, 0, .page, 0⟩) := by
  obtain ⟨m₁, m₂, m₃, run₁, run₂, run₃, t⟩ := describe_run hp hx ⟨slab, 0, .page, 0⟩
    (by decide : (0 : Nat) < wordLimit) rfl (by decide : (0 : Nat) < wordLimit) s
  refine ⟨m₃, ?_, t⟩
  rw [occupy, PoolM.bind_run run₁, PoolM.bind_run run₂, run₃]

theorem clear_run (hx : x < p.nodes) (s : Arena) :
    ∃ m', p.clear (nodeOffset x) s = .ok () (s.withMemory m') ∧
      Tabled p.nodes s.memory m' (Function.update (table s.memory) x Desc.blank) := by
  have hslab : ∀ s, p.setField (nodeOffset x) .slab 0 s = p.setSlab (nodeOffset x) 0 s :=
    fun _ => rfl
  have hprev : ∀ s, p.setField (nodeOffset x) .prev 0 s = p.setPrev (nodeOffset x) 0 .page s :=
    fun _ => rfl
  have hnext : ∀ s, p.setField (nodeOffset x) .next 0 s = p.setNext (nodeOffset x) 0 s :=
    fun _ => rfl
  have hzero : 0 < wordLimit := by decide
  obtain ⟨m₁, run₁, t₁⟩ := setSlab_run hp hx 0 s
  obtain ⟨m₂, run₂, t₂⟩ := setPrev_run hp hx hzero rfl .page (s.withMemory m₁)
  obtain ⟨m₃, run₃, t₃⟩ := setNext_run hp hx hzero (s.withMemory m₂)
  refine ⟨m₃, ?_, ((t₁.trans t₂).trans t₃).congr ?_⟩
  · rw [clear, PoolM.bind_run ((hslab s).trans run₁), PoolM.bind_run ((hprev _).trans run₂)]
    exact (hnext _).trans run₃
  · rw [Arena.memory_withMemory, t₂.table_eq, Arena.memory_withMemory, t₁.table_eq]
    funext k
    by_cases hk : k = x
    · subst hk
      simp [Table.setSlab, Table.setNext, Table.setPrev, Desc.blank]
    · simp [Table.setSlab, Table.setNext, Table.setPrev, hk]

omit hp in
theorem forUp_fill (step : Nat → PoolM Unit) (e : Desc) (hn : 0 < n) (hle : i + n ≤ p.pageCount)
    (round : ∀ k s, i + k < p.pageCount → ∃ m', step k s = .ok () (s.withMemory m') ∧
      Tabled p.nodes s.memory m' (Function.update (table s.memory) (p.page (i + k)) e))
    (s : Arena) :
    ∃ m', PoolM.forUp 1 step (n - 1) s = .ok () (s.withMemory m') ∧
      Tabled p.nodes s.memory m' ((table s.memory).fill p (i + 1) (i + n) e) := by
  obtain ⟨m', run, kept⟩ := PoolM.forUp_run step 1 (n - 1) (m := s.memory)
    (fun k m => Tabled p.nodes s.memory m ((table s.memory).fill p (i + 1) (i + k) e)) s.journal
    ((Tabled.refl p.nodes s.memory).congr (Table.fill_self _ p _ e).symm)
    fun k m low high kept => by
      obtain ⟨m', run, t⟩ := round k ⟨m, s.journal⟩ (by omega)
      refine ⟨m', run, (kept.trans t).congr ?_⟩
      rw [kept.table_eq, ← Nat.add_assoc, Table.fill_succ _ p e (by omega)]
  rw [show 1 + (n - 1) = n by omega] at kept
  exact ⟨m', run, kept⟩

end Whole

theorem freePages_run (so : a.Sound p.config p.pageCount) (hp : p.Placed)
    (count : s.memory.word 9 = UInt64.ofNat a.freePages) : freePages s = .ok a.freePages s := by
  have hle := so.freePages_le
  have hlt := hp.pageCount_lt
  have hread : headerWord .freePages s = .ok (s.memory.word 9) s := rfl
  rw [freePages, PoolM.bind_run hread, PoolM.pure_run, count,
    toNat_ofNat (by rw [wordLimit_eq]; omega)]

theorem setFreePages_run (n : Nat) (s : Arena) : setFreePages n s =
    .ok () (s.withMemory (s.memory.setWord 9 (UInt64.ofNat n))) := rfl

end Pool

theorem Stores.of_tabled (hp : p.Placed) (t : Tabled p.nodes m m' d)
    (h : Encodes p a d m.word) :
    Stores p a (m'.setWord 9 (UInt64.ofNat a.freePages)) ∧
      p.SameOutside m (m'.setWord 9 (UInt64.ofNat a.freePages)) := by
  have hother : ∀ i, i ≠ 9 → (m'.setWord 9 (UInt64.ofNat a.freePages)).word i = m'.word i :=
    fun i hi => Memory.word_setWord_of_ne _ _ (Ne.symm hi)
  have htable := table_setWord_of_lt m' (UInt64.ofNat a.freePages) (show 9 < 10 by decide)
  refine ⟨⟨?_, Memory.word_setWord_self ..⟩, fun i hi => ?_,
    fun aligned => (t.links aligned).congr fun j _ => by rw [htable]⟩
  · rw [htable]
    exact (t.encodes hp h).congr_words hp fun i hi => hother i (by omega)
  · rw [hother i (by omega), t.elsewhere i (by omega)]

namespace Pool

section Take

variable (hp : p.Placed)
include hp

theorem toNat_len (co : a.Coherent p.config p.pageCount) (hr : r ∈ a.runs) :
    (UInt64.ofNat r.len).toNat = r.len := by
  have hlt := hp.pageCount_lt
  have hle := co.run_le r hr
  simp only [PageRun.finish] at hle
  exact toNat_ofNat (by rw [wordLimit_eq]; omega)

theorem findRun_run (co : a.Coherent p.config p.pageCount)
    (h : Encodes p a (table s.memory) s.memory.word) (n : Nat) :
    p.findRun n s = .ok ((a.runs.find? fun r => n ≤ r.len).map fun r => nodeOffset (p.page r.first))
      s := by
  have hrun := ((h.threaded co).visits hp (zero_mem_heads p)).find
    (fun node => do return n ≤ (← p.slab node).toNat)
    (fun x => n ≤ (table s.memory x).slab.toNat) fun x hx => by
      rw [PoolM.bind_run (slab_run hp (co.ringOf_lt hx).1 s), PoolM.pure_run]
  rw [findRun]
  refine hrun.trans ?_
  rw [ringOf, List.find?_map, Option.map_map]
  congr 2
  refine List.find?_congr fun r hr => ?_
  rw [Function.comp_apply, (h.runs r hr).length, toNat_len hp co hr]

theorem splitRun_run (co : a.Coherent p.config p.pageCount)
    (h : Encodes p a (table s.memory) s.memory.word) {l₁ l₂ : List PageRun}
    (hruns : a.runs = l₁ ++ r :: l₂) (hn : 0 < n) (hlen : n < r.len) :
    ∃ m' d', p.cutRun (nodeOffset (p.page r.first)) r.first r.len n s =
        .ok () (s.withMemory m') ∧ Tabled p.nodes s.memory m' d' ∧
      Encodes p { a with runs := l₁ ++ (r.cut n ++ l₂) }
        (Function.update d' (p.page r.first) Desc.blank) s.memory.word := by
  have hle := co.run_le r (by simp [hruns])
  have hlt := hp.pageCount_lt
  have hfinish : r.finish = r.first + r.len := rfl
  have hpage : ∀ j, j < r.finish → p.page j < p.nodes := fun j hj => page_lt_nodes (by omega)
  have hlimit : r.finish < wordLimit := by
    rw [wordLimit_eq]
    omega
  obtain ⟨b, c, ⟨hb, hc⟩, ⟨hlink, hnext⟩, hencodes⟩ := Encodes.splitRun co hruns hn hlen h
  have hrest := hpage (r.first + n) (by omega)
  obtain ⟨m₁, run₁, t₁⟩ := setSlab_run hp hrest (UInt64.ofNat (r.len - n)) s
  obtain ⟨m₂, run₂, t₂⟩ := replace_run hp (hpage r.first (by omega)) hrest hb hc .page
    (s.withMemory m₁) (by rw [Arena.memory_withMemory, t₁.table_eq, Table.link_setSlab, hlink])
    (by rw [Arena.memory_withMemory, t₁.table_eq, Table.next_setSlab, hnext])
  rw [Arena.memory_withMemory, t₁.table_eq] at t₂
  have hadd : Checked.add r.first n = .ok (r.first + n) := Checked.add_eq_ok (by omega)
  rw [cutRun, if_pos hlen, PoolM.bind_liftM hadd,
    PoolM.bind_liftM (hp.pageNode_eq_ok (i := r.first + n) (by omega)), PoolM.bind_run run₁,
    PoolM.bind_run run₂, Arena.withMemory_withMemory]
  -- the last descriptor of the rest leads back to the first, if it is another
  by_cases hone : 1 < r.len - n
  · have hend : PageRun.finish ⟨r.first + n, r.len - n⟩ = r.finish := by
      simp only [PageRun.finish]
      omega
    obtain ⟨m₃, run₃, t₃⟩ := setPrev_run (j := p.page (r.finish - 1)) hp
      (hpage (r.finish - 1) (by omega)) (hp.nodeOffset_lt hrest.le)
      (nodeOffset_mod_eight (p.page (r.first + n))) .page (s.withMemory m₂)
    rw [Arena.memory_withMemory, t₂.table_eq] at t₃
    have hadd' : Checked.add r.first r.len = .ok r.finish := Checked.add_eq_ok (by omega)
    have hsub : Checked.sub r.finish 1 = .ok (r.finish - 1) := Checked.sub_eq_ok (by omega)
    refine ⟨m₃, _, ?_, ((t₁.trans t₂).trans t₃), ?_⟩
    · rw [if_pos hone, PoolM.bind_liftM hadd', PoolM.bind_liftM hsub,
        PoolM.bind_liftM (hp.pageNode_eq_ok (i := r.finish - 1) (by omega)), run₃]
      rfl
    · rwa [Table.split, Table.closed, if_pos hone, hend] at hencodes
  · refine ⟨m₂, _, by rw [if_neg hone]; rfl, t₁.trans t₂, ?_⟩
    rwa [Table.split, Table.closed, if_neg hone] at hencodes

theorem cutRun_run (co : a.Coherent p.config p.pageCount)
    (h : Encodes p a (table s.memory) s.memory.word) {l₁ l₂ : List PageRun}
    (hruns : a.runs = l₁ ++ r :: l₂) (hn : 0 < n) :
    ∃ m' d', p.cutRun (nodeOffset (p.page r.first)) r.first r.len n s =
        .ok () (s.withMemory m') ∧ Tabled p.nodes s.memory m' d' ∧
      Encodes p { a with runs := l₁ ++ (r.cut n ++ l₂) }
        (Function.update d' (p.page r.first) Desc.blank) s.memory.word := by
  have hr : r ∈ a.runs := by simp [hruns]
  by_cases hcut : n < r.len
  · exact splitRun_run hp co h hruns hn hcut
  · obtain ⟨b, c, ⟨hb, hc⟩, ⟨hlink, hnext⟩, hencodes⟩ := h.dropRun co hr
    obtain ⟨m₁, run₁, t₁⟩ := unlink_run hp (page_lt_nodes (co.first_lt hr)) hb hc s hlink hnext
    have hlist : l₁ ++ (r.cut n ++ l₂) = a.runs.filter (· ≠ r) := by
      have hnodup := co.runs_nodup
      rw [hruns, List.nodup_middle, List.nodup_cons] at hnodup
      rw [hruns, filter_ne_middle hnodup.1, PageRun.cut, if_neg hcut, List.nil_append]
    refine ⟨m₁, _, ?_, t₁, ?_⟩
    · rw [cutRun, if_neg hcut, run₁]
    · rwa [hlist]

theorem takePages_none (so : a.Sound p.config p.pageCount) (h : Stores p a s.memory) (hn : 0 < n)
    (htake : a.take n = none) :
    p.takePages n s = .ok none (s.noting (.noRun n a.freePages)) := by
  have hfind : a.runs.find? (fun r => n ≤ r.len) = none := by
    rw [List.find?_eq_none]
    intro r hr
    simpa using Ledger.take_eq_none_iff.1 htake r hr
  have hrun := findRun_run hp so.toCoherent h.encodes n
  rw [hfind] at hrun
  rw [takePages, if_neg hn.ne']
  dsimp only
  rw [PoolM.bind_run hrun, Option.map_none]
  dsimp only
  rw [PoolM.bind_run (freePages_run so hp h.count), PoolM.bind_run (PoolM.note_run _ s),
    PoolM.pure_run]

theorem holdPages_run (co : a.Coherent p.config p.pageCount) (hn : 0 < n)
    (hle : i + n ≤ p.pageCount)
    (hfree : ∀ j, i ≤ j → j < i + n → a.use j = .free ∧ ¬a.InRun j)
    (h : Encodes p a (Function.update (table s.memory) (p.page i) Desc.blank) w) :
    ∃ m₁ m₂ d', p.occupy (nodeOffset (p.page i)) (UInt64.ofNat n ||| runStart) s =
        .ok () (s.withMemory m₁) ∧
      PoolM.forUp 1 (fun k => do p.occupy (← p.pageNode (← Checked.add i k)) runInterior) (n - 1)
        (s.withMemory m₁) = .ok () (s.withMemory m₂) ∧
      Tabled p.nodes s.memory m₂ d' ∧
      Encodes p { a with use := Ledger.holdRun i n a.use } d' w := by
  have hlt := hp.pageCount_lt
  obtain ⟨m₁, run₁, t₁⟩ := occupy_run hp (page_lt_nodes (i := i) (by omega))
    (UInt64.ofNat n ||| runStart) s
  obtain ⟨m₂, run₂, t₂⟩ := forUp_fill (p := p) (i := i)
    (fun k => do p.occupy (← p.pageNode (← Checked.add i k)) runInterior)
    ⟨runInterior, 0, .page, 0⟩ hn hle (fun k s hk => by
      have hadd : Checked.add i k = .ok (i + k) := Checked.add_eq_ok (by rw [wordLimit_eq]; omega)
      rw [PoolM.bind_liftM hadd, PoolM.bind_liftM (hp.pageNode_eq_ok (i := i + k) (by omega))]
      exact occupy_run hp (page_lt_nodes (by omega)) runInterior s) (s.withMemory m₁)
  rw [Arena.memory_withMemory, t₁.table_eq] at t₂
  refine ⟨m₁, m₂, _, run₁, run₂, t₁.trans t₂, h.hold co hn hfree (fun k hk => ?_) ?_
    fun j low high => Table.fill_page _ _ low high⟩
  · have hne : k ≠ p.page i := hk i (le_refl _) (by omega)
    rw [Table.fill_outside _ _ fun j low high => hk j (by omega) high, Function.update_of_ne hne,
      Function.update_of_ne hne]
  · have hself : ∀ j, i + 1 ≤ j → j < i + n → p.page i ≠ p.page j := by
      intro j low _ heq
      have hij := page_inj.1 heq
      omega
    rw [Table.fill_outside _ _ hself, Function.update_self]

theorem takePages_some (so : a.Sound p.config p.pageCount) (h : Stores p a s.memory) (hn : 0 < n)
    (htake : a.take n = some (i, a')) :
    ∃ m', p.takePages n s = .ok (some i) (s.withMemory m') ∧ Stores p a' m' ∧
      p.SameOutside s.memory m' := by
  have hcount := Ledger.freePages_take so hn htake
  obtain ⟨l₁, r, l₂, hruns, hsmall, hlen, rfl, rfl⟩ := Ledger.take_eq_some htake
  have co := so.toCoherent
  have hr : r ∈ a.runs := by simp [hruns]
  have hle := co.run_le r hr
  have hfinish : r.finish = r.first + r.len := rfl
  have hlt := hp.pageCount_lt
  have hfirst : p.page r.first < p.nodes := page_lt_nodes (by omega)
  have hfind : a.runs.find? (fun r => n ≤ r.len) = some r := by
    rw [List.find?_eq_some_iff_append]
    exact ⟨by simpa using hlen, l₁, l₂, hruns, fun q hq => by simpa using hsmall q hq⟩
  have hrun := findRun_run hp co h.encodes n
  rw [hfind, Option.map_some] at hrun
  obtain ⟨m₁, d₁, run₁, t₁, encodes₁⟩ := cutRun_run hp co h.encodes hruns hn
  obtain ⟨m₂, m₃, d₃, run₂, run₃, t₃, encodes⟩ := holdPages_run (s := s.withMemory m₁) hp
    (co.withRuns_cut (n := n) hruns) hn (by omega) (fun j low high =>
      ⟨co.run_free r hr j low (by omega), co.not_inRun_cut hruns low high hlen⟩)
    (by rwa [Arena.memory_withMemory, t₁.table_eq])
  have t := t₁.trans t₃
  obtain ⟨stores, same⟩ := Stores.of_tabled hp t encodes
  refine ⟨_, ?_, stores, same⟩
  have hfree : freePages (s.withMemory m₃) = .ok a.freePages (s.withMemory m₃) :=
    freePages_run so hp ((t.elsewhere 9 (.inl (by decide))).trans h.count)
  have hsub : Checked.sub a.freePages n = .ok (a.freePages - n) := Checked.sub_eq_ok (by omega)
  rw [takePages, if_neg hn.ne']
  dsimp only
  rw [PoolM.bind_run hrun]
  dsimp only
  rw [PoolM.bind_liftM (hp.pageIndex_eq_ok r.first), PoolM.bind_run (slab_run hp hfirst s),
    (h.encodes.runs r hr).length, toNat_len hp co hr, PoolM.bind_run run₁, PoolM.bind_run run₂,
    PoolM.bind_run run₃, Arena.withMemory_withMemory, PoolM.bind_run hfree, PoolM.bind_liftM hsub,
    PoolM.bind_run (setFreePages_run _ _), PoolM.pure_run, ← hcount, Nat.add_sub_cancel]
  rfl

end Take

end Pool

end SharedSlab.Slab
