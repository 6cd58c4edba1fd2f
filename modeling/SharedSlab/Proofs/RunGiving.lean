import SharedSlab.Proofs.RunTaking

set_option autoImplicit false

namespace SharedSlab.Slab

variable {p : Pool} {a : Ledger} {d : Table} {i j n right len : Nat} {r : PageRun} {s : Arena}
  {m : Memory}

namespace Ledger

theorem unlist_of_not_mem {listed : Nat → List Nat} (h : ∀ shift, i ∉ listed shift) :
    unlist i listed = listed := by
  funext shift
  exact List.filter_eq_self.2 fun j hj => decide_eq_true fun heq => h shift (heq ▸ hj)

namespace Coherent

variable (co : a.Coherent p.config p.pageCount)
include co

theorem filter_first (hr : r ∈ a.runs) :
    a.runs.filter (· ≠ r) = a.runs.filter fun q => q.first ≠ r.first := by
  refine List.filter_congr fun q hq => ?_
  rw [decide_eq_decide]
  exact not_congr ⟨fun heq => heq ▸ rfl, co.run_eq_of_first_eq hq hr⟩

theorem filter_finish (hr : r ∈ a.runs) :
    a.runs.filter (· ≠ r) = a.runs.filter fun q => q.finish ≠ r.finish := by
  refine List.filter_congr fun q hq => ?_
  rw [decide_eq_decide]
  refine not_congr ⟨fun heq => heq ▸ rfl, fun heq => ?_⟩
  have hlt := co.first_lt_finish hq
  have hlt' := co.first_lt_finish hr
  exact co.run_unique (j := r.finish - 1) hq hr (by omega) (by omega)

theorem find_finish (hr : r ∈ a.runs) (hfinish : r.finish = n) :
    a.runs.find? (fun q => q.finish = n) = some r := by
  cases hfind : a.runs.find? fun q => q.finish = n with
  | none => exact absurd hfinish (by simpa using List.find?_eq_none.1 hfind r hr)
  | some q =>
    have hq := List.mem_of_find?_eq_some hfind
    have heq : q.finish = n := by simpa using List.find?_some hfind
    have hlt := co.first_lt_finish hq
    have hlt' := co.first_lt_finish hr
    rw [co.run_unique (j := n - 1) hq hr (by omega) (by omega)]

end Coherent

end Ledger

namespace Pool

def insertBeside (p : Pool) (before : Option Nat) (idx len : Nat) : PoolM Unit := do
  match before with
  | none => p.insertRun idx len
  | some node => do
    let len ← Checked.add len (← p.slab node).toNat
    p.unlink node
    p.insertRun (← p.pageIndex node) len

theorem givePages_eq (p : Pool) (idx n : Nat) : p.givePages idx n = (do
    let page ← p.pageNode idx
    let next ← p.next page
    let _ ← (if next ≠ 0 then p.unlink page else pure () : PoolM Unit)
    p.clear page
    PoolM.forUp 1 (fun i => do p.clear (← p.pageNode (← Checked.add idx i))) (n - 1)
    let len ← p.joinRight (← Checked.add idx n) n
    let before ← (if 0 < idx then p.runEndingAt (idx - 1) else pure none : PoolM (Option Nat))
    p.insertBeside before idx len
    setFreePages (← Checked.add (← freePages) n)) := by
  unfold givePages insertBeside
  refine bind_congr fun page => bind_congr fun next => ?_
  dsimp only
  split
  · refine bind_congr fun _ => bind_congr fun _ => bind_congr fun _ => bind_congr fun _ =>
      bind_congr fun _ => bind_congr fun before => ?_
    cases before <;> simp only [bind_assoc]
  · rw [pure_bind]
    refine bind_congr fun _ => bind_congr fun _ => bind_congr fun _ => bind_congr fun _ =>
      bind_congr fun before => ?_
    cases before <;> simp only [bind_assoc]

section Give

variable (hp : p.Placed)
include hp

theorem leave_run (so : a.Sound p.config p.pageCount) (hi : i < p.pageCount) (out : a.GivenOut i n)
    (h : Encodes p a (table s.memory) s.memory.word) :
    ∃ m' d', (if (table s.memory (p.page i)).next ≠ 0 then p.unlink (nodeOffset (p.page i))
        else pure ()) s = .ok () (s.withMemory m') ∧ Tabled p.nodes s.memory m' d' ∧
      Rings p.heads d' (p.ringOf (a.release i n)) ∧
      (∀ j, (d' (p.page j)).slab = (table s.memory (p.page j)).slab ∧
        (d' (p.page j)).kind = (table s.memory (p.page j)).kind) ∧
      ∀ j, ¬a.Linked j → (d' (p.page j)).next = (table s.memory (p.page j)).next ∧
        (d' (p.page j)).link = (table s.memory (p.page j)).link := by
  have co := so.toCoherent
  have hring : p.ringOf (a.release i n) =
      p.ringOf { a with listed := Ledger.unlist i a.listed } := by
    funext x
    cases x <;> rfl
  by_cases hlinked : a.Linked i
  · have hnext := (h.next_eq_zero_iff co hi).not.2 (not_not.2 hlinked)
    have hmem : ∃ shift, i ∈ a.listed shift := by
      refine hlinked.resolve_left ?_
      rintro ⟨r, hr, rfl⟩
      exact so.givenOut_not_inRun hi out (le_refl _) (by have := so.givenOut_pos hi out; omega)
        ⟨r, hr, le_refl _, co.first_lt_finish hr⟩
    obtain ⟨shift, hmem⟩ := hmem
    have hclass := co.listed_class shift i hmem
    obtain ⟨b, c, ⟨hb, hc⟩, _, ⟨hlink, hnext'⟩, hfar, rings⟩ := h.neighbours co
      (slot_mem_heads hclass) (ringOf_slot hclass ▸ page_mem_map.2 hmem)
    obtain ⟨m', run, t⟩ := unlink_run hp (page_lt_nodes hi) hb hc s hlink hnext'
    refine ⟨m', _, by rw [if_pos hnext, run], t, ?_, fun j => ?_, fun j hj => ?_⟩
    · rwa [hring, ringOf_unlist co hmem]
    · simp [Table.unlinked]
    · simp [Table.unlinked, hfar j hj]
  · have hnext := not_not.2 ((h.next_eq_zero_iff co hi).2 hlinked)
    refine ⟨s.memory, _, by rw [if_neg hnext]; rfl, .refl _ _, ?_, fun j => ⟨rfl, rfl⟩,
      fun j _ => ⟨rfl, rfl⟩⟩
    rw [hring, Ledger.unlist_of_not_mem fun shift hmem => hlinked (.inr ⟨shift, hmem⟩)]
    exact h.rings

theorem isFreeRun_run (co : a.Coherent p.config p.pageCount) (hj : j < p.pageCount)
    (h : Encodes p a (table s.memory) s.memory.word) :
    p.isFreeRun (nodeOffset (p.page j)) s = .ok (decide (∃ r ∈ a.runs, r.first = j)) s := by
  have hnext := h.next_eq_zero_iff co hj
  rw [isFreeRun, PoolM.bind_run (kind_run hp (page_lt_nodes hj) s)]
  by_cases hrun : ∃ r ∈ a.runs, r.first = j
  · obtain ⟨r, hr, rfl⟩ := hrun
    have hfree := co.run_free r hr r.first (le_refl _) (co.first_lt_finish hr)
    have hkind : (table s.memory (p.page r.first)).kind = .page := by
      rw [(h.pages r.first hj).kind, hfree]
      rfl
    rw [if_pos hkind, PoolM.bind_run (next_run hp (page_lt_nodes hj) s), PoolM.pure_run]
    have hlinked : a.Linked r.first := .inl ⟨r, hr, rfl⟩
    have hne := hnext.not.2 (not_not.2 hlinked)
    rw [decide_eq_true ⟨r, hr, rfl⟩]
    simp [hne]
  · rw [decide_eq_false hrun]
    by_cases hkind : (table s.memory (p.page j)).kind = .page
    · have hidle : ¬a.Linked j := by
        rintro (hfirst | ⟨shift, hmem⟩)
        · exact hrun hfirst
        · obtain ⟨taken, huse⟩ := co.listed_use shift j hmem
          rw [(h.pages j hj).kind, huse] at hkind
          exact p.config.kindFor_ne_page shift hkind
      rw [if_pos hkind, PoolM.bind_run (next_run hp (page_lt_nodes hj) s), PoolM.pure_run,
        hnext.2 hidle]
      rfl
    · rw [if_neg hkind, PoolM.pure_run]

theorem joinRight_run (right len : Nat) (co : a.Coherent p.config p.pageCount)
    (h : Encodes p a (table s.memory) s.memory.word) (hlen : len + p.pageCount < wordLimit) :
    ∃ m' d', p.joinRight right len s =
        .ok (len + ((a.runs.find? fun q => q.first = right).map PageRun.len).getD 0)
          (s.withMemory m') ∧ Tabled p.nodes s.memory m' d' ∧
      Encodes p { a with runs := a.runs.filter fun q => q.first ≠ right } d' s.memory.word := by
  cases hfind : a.runs.find? fun q => q.first = right with
  | none =>
    have hno : ∀ q ∈ a.runs, q.first ≠ right := fun q hq => by
      simpa using List.find?_eq_none.1 hfind q hq
    refine ⟨s.memory, _, ?_, .refl _ _, ?_⟩
    · rw [joinRight]
      by_cases hend : p.pageCount ≤ right
      · rw [if_pos hend]
        rfl
      · have hlt : right < p.pageCount := not_le.1 hend
        have hrun := isFreeRun_run hp co hlt h
        rw [decide_eq_false fun ⟨q, hq, heq⟩ => hno q hq heq] at hrun
        rw [if_neg hend, PoolM.bind_liftM (hp.pageNode_eq_ok hlt.le), PoolM.bind_run hrun,
          if_neg (by decide)]
        rfl
    · rwa [List.filter_eq_self.2 fun q hq => decide_eq_true (hno q hq)]
  | some r =>
    have hr : r ∈ a.runs := List.mem_of_find?_eq_some hfind
    have hfirst : r.first = right := by simpa using List.find?_some hfind
    subst hfirst
    have hlt := co.first_lt hr
    have hle := co.run_le r hr
    have hrun := isFreeRun_run hp co hlt h
    rw [decide_eq_true ⟨r, hr, rfl⟩] at hrun
    obtain ⟨b, c, ⟨hb, hc⟩, ⟨hlink, hnext⟩, encodes⟩ := h.dropRun co hr
    obtain ⟨m₁, run₁, t₁⟩ := unlink_run hp (page_lt_nodes hlt) hb hc s hlink hnext
    obtain ⟨m₂, run₂, t₂⟩ := clear_run hp (page_lt_nodes hlt) (s.withMemory m₁)
    rw [Arena.memory_withMemory, t₁.table_eq] at t₂
    have hadd : Checked.add len r.len = .ok (len + r.len) :=
      Checked.add_eq_ok (by simp only [PageRun.finish] at hle; omega)
    rw [co.filter_first hr] at encodes
    refine ⟨m₂, _, ?_, t₁.trans t₂, encodes⟩
    rw [joinRight, if_neg (not_le.2 hlt), PoolM.bind_liftM (hp.pageNode_eq_ok hlt.le),
      PoolM.bind_run hrun, if_pos rfl, PoolM.bind_run (slab_run hp (page_lt_nodes hlt) s),
      (h.runs r hr).length, toNat_len hp co hr, PoolM.bind_liftM hadd, PoolM.bind_run run₁,
      PoolM.bind_run run₂]
    rfl

section Ending

variable (co : a.Coherent p.config p.pageCount) (hj : j < p.pageCount)
  (h : Encodes p a (table s.memory) s.memory.word)
include co hj h

/-- A page whose word is not zero ends no run but one of which it is the first page. -/
theorem runEndingAt_self (hpage : (a.use j).kind p.config = .page)
    (hne : (table s.memory (p.page j)).slab ≠ 0) :
    p.runEndingAt j s = .ok (if ∃ r ∈ a.runs, r.first = j then some (nodeOffset (p.page j))
      else none) s := by
  have hkind := kind_run hp (page_lt_nodes hj) s
  rw [(h.pages j hj).kind] at hkind
  rw [runEndingAt, PoolM.bind_liftM (hp.pageNode_eq_ok hj.le), PoolM.bind_run hkind, if_pos hpage,
    PoolM.bind_run (slab_run hp (page_lt_nodes hj) s)]
  dsimp only
  rw [if_neg hne, PoolM.bind_run (PoolM.pure_run _ s), if_neg (nodeOffset_ne_zero _),
    PoolM.bind_run (isFreeRun_run hp co hj h)]
  by_cases hfirst : ∃ r ∈ a.runs, r.first = j
  · rw [decide_eq_true hfirst, if_pos rfl, if_pos hfirst, PoolM.pure_run]
  · rw [decide_eq_false hfirst, if_neg (by decide), if_neg hfirst, PoolM.pure_run]

theorem runEndingAt_last (hr : r ∈ a.runs) (hfinish : r.finish = j + 1) :
    p.runEndingAt j s = .ok (some (nodeOffset (p.page r.first))) s := by
  have hlt := co.first_lt_finish hr
  have hlen : r.finish = r.first + r.len := rfl
  have huse : a.use j = .free := co.run_free r hr j (by omega) (by omega)
  have hpage : (a.use j).kind p.config = .page := by
    rw [huse]
    rfl
  rcases Nat.eq_or_lt_of_le (show r.first ≤ j by omega) with rfl | hinner
  · have hone : r.len = 1 := by omega
    rw [runEndingAt_self hp co hj h hpage (by rw [(h.runs r hr).length, hone]; decide),
      if_pos ⟨r, hr, rfl⟩]
  · have hzero : (table s.memory (p.page j)).slab = 0 :=
      (h.pages j hj).blank huse fun q hq heq =>
        co.not_linked_of_inner hr hinner (by omega) (.inl ⟨q, hq, heq⟩)
    have hback := (h.runs r hr).back (by omega)
    rw [hfinish, Nat.add_sub_cancel] at hback
    have hkind := kind_run hp (page_lt_nodes hj) s
    rw [(h.pages j hj).kind] at hkind
    rw [runEndingAt, PoolM.bind_liftM (hp.pageNode_eq_ok hj.le), PoolM.bind_run hkind,
      if_pos hpage, PoolM.bind_run (slab_run hp (page_lt_nodes hj) s)]
    dsimp only
    rw [if_pos hzero, PoolM.bind_run (prevNode_run hp (page_lt_nodes hj) s), hback,
      if_neg (nodeOffset_ne_zero _), PoolM.bind_run (isFreeRun_run hp co (co.first_lt hr) h),
      decide_eq_true ⟨r, hr, rfl⟩, if_pos rfl, PoolM.pure_run]

theorem runEndingAt_held (huse : a.use j ≠ .free) : p.runEndingAt j s = .ok none s := by
  have hmarks := (h.pages j hj).marks
  have hnone : ¬∃ r ∈ a.runs, r.first = j := by
    rintro ⟨r, hr, rfl⟩
    exact huse (co.run_free r hr r.first (le_refl _) (co.first_lt_finish hr))
  cases hcase : a.use j with
  | free => exact absurd hcase huse
  | runRest =>
    rw [hcase] at hmarks
    have hslab : (table s.memory (p.page j)).slab = runInterior := hmarks
    rw [runEndingAt_self hp co hj h (by rw [hcase]; rfl) (by rw [hslab]; decide), if_neg hnone]
  | runStart m =>
    rw [hcase] at hmarks
    have hslab : (table s.memory (p.page j)).slab = UInt64.ofNat m ||| runStart := hmarks
    rw [runEndingAt_self hp co hj h (by rw [hcase]; rfl) (by rw [hslab]; exact runStart_ne_zero _),
      if_neg hnone]
  | chunks shift taken =>
    have hkind := kind_run hp (page_lt_nodes hj) s
    have hother : (PageUse.chunks shift taken).kind p.config ≠ .page :=
      p.config.kindFor_ne_page shift
    rw [(h.pages j hj).kind, hcase] at hkind
    rw [runEndingAt, PoolM.bind_liftM (hp.pageNode_eq_ok hj.le), PoolM.bind_run hkind,
      if_neg hother]
    rfl

/-- The run that ends after page `j` is found, provided that a free page `j` lies in a run that ends
there. -/
theorem runEndingAt_run (covered : a.use j = .free → a.InRun j) (hend : ¬a.InRun (j + 1)) :
    p.runEndingAt j s = .ok ((a.runs.find? fun q => q.finish = j + 1).map
      fun q => nodeOffset (p.page q.first)) s := by
  by_cases huse : a.use j = .free
  · obtain ⟨r, hr, low, high⟩ := covered huse
    have hfinish : r.finish = j + 1 := by
      by_contra hne
      exact hend ⟨r, hr, by omega, by omega⟩
    rw [co.find_finish hr hfinish, Option.map_some, runEndingAt_last hp co hj h hr hfinish]
  · -- a run that ends after a page has it, so the page is free
    have hnone : a.runs.find? (fun q => q.finish = j + 1) = none := by
      refine List.find?_eq_none.2 fun q hq => ?_
      simp only [decide_eq_true_eq]
      intro hfinish
      have hlt := co.first_lt_finish hq
      exact huse (co.run_free q hq j (by omega) (by omega))
    rw [hnone, Option.map_none, runEndingAt_held hp co hj h huse]

end Ending

theorem insertRun_run (co : a.Coherent p.config p.pageCount)
    (h : Encodes p a (Function.update (table s.memory) (p.page r.first) Desc.blank)
      s.memory.word)
    (hpos : 0 < r.len) (hle : r.finish ≤ p.pageCount)
    (hfree : ∀ j, r.first ≤ j → j < r.finish → a.use j = .free)
    (hapart : ∀ q ∈ a.runs, r.Apart q) :
    ∃ m' d', p.insertRun r.first r.len s = .ok () (s.withMemory m') ∧
      Tabled p.nodes s.memory m' d' ∧
      Encodes p { a with runs := r :: a.runs } d' s.memory.word := by
  have hfinish : r.finish = r.first + r.len := rfl
  have hlt := hp.pageCount_lt
  have hfirst : p.page r.first < p.nodes := page_lt_nodes (by omega)
  have hhead := co.mem_lt_nodes (zero_mem_heads p) (headD_mem_cons (p.ringOf a 0) 0)
  have hnext : (table s.memory 0).next = nodeOffset ((p.ringOf a 0).headD 0) := by
    have hsentinel := (h.rings.ring 0 (zero_mem_heads p)).next_sentinel
    rwa [Function.update_of_ne] at hsentinel
    exact fun heq => page_not_mem_heads p r.first (heq ▸ zero_mem_heads p)
  have encodes := h.insertRun co hpos hle hfree hapart
  obtain ⟨m₁, run₁, t₁⟩ := setSlab_run hp hfirst (UInt64.ofNat r.len) s
  obtain ⟨m₂, run₂, t₂⟩ := pushFront_run hp p.zero_lt_nodes hfirst hhead .page (s.withMemory m₁)
    (by rw [Arena.memory_withMemory, t₁.table_eq, Table.next_setSlab, hnext])
  rw [Arena.memory_withMemory, t₁.table_eq] at t₂
  rw [insertRun, PoolM.bind_liftM (hp.pageNode_eq_ok (i := r.first) (by omega)),
    PoolM.bind_run run₁]
  rw [show freeHead = nodeOffset 0 from rfl, PoolM.bind_run run₂, Arena.withMemory_withMemory]
  by_cases hlen : 1 < r.len
  · have hlast : p.page (r.finish - 1) < p.nodes := page_lt_nodes (by omega)
    obtain ⟨m₃, m₄, m₅, run₃, run₄, run₅, t₃⟩ := describe_run hp hlast
      ⟨0, nodeOffset (p.page r.first), .page, 0⟩ (hp.nodeOffset_lt hfirst.le)
      (nodeOffset_mod_eight _) (by decide : (0 : Nat) < wordLimit) (s.withMemory m₂)
    rw [Arena.memory_withMemory, t₂.table_eq] at t₃
    have hadd : Checked.add r.first r.len = .ok r.finish :=
      Checked.add_eq_ok (by rw [wordLimit_eq]; omega)
    have hsub : Checked.sub r.finish 1 = .ok (r.finish - 1) := Checked.sub_eq_ok (by omega)
    refine ⟨m₅, _, ?_, (t₁.trans t₂).trans t₃, ?_⟩
    · rw [if_pos hlen, PoolM.bind_liftM hadd, PoolM.bind_liftM hsub,
        PoolM.bind_liftM (hp.pageNode_eq_ok (i := r.finish - 1) (by omega)), PoolM.bind_run run₃,
        PoolM.bind_run run₄, run₅]
      rfl
    · rwa [Table.ended, if_pos hlen] at encodes
  · refine ⟨m₂, _, by rw [if_neg hlen]; rfl, t₁.trans t₂, ?_⟩
    rwa [Table.ended, if_neg hlen] at encodes

section Giving

variable (so : a.Sound p.config p.pageCount) (hi : i < p.pageCount) (out : a.GivenOut i n)
include so hi out

theorem clearPages_run (h : Encodes p a (table s.memory) s.memory.word) :
    ∃ m₁ m₂ m₃ d', (if (table s.memory (p.page i)).next ≠ 0 then p.unlink (nodeOffset (p.page i))
        else pure ()) s = .ok () (s.withMemory m₁) ∧
      p.clear (nodeOffset (p.page i)) (s.withMemory m₁) = .ok () (s.withMemory m₂) ∧
      PoolM.forUp 1 (fun k => do p.clear (← p.pageNode (← Checked.add i k))) (n - 1)
        (s.withMemory m₂) = .ok () (s.withMemory m₃) ∧ Tabled p.nodes s.memory m₃ d' ∧
      Encodes p (a.release i n) d' s.memory.word := by
  have co := so.toCoherent
  have hn := so.givenOut_pos hi out
  have hle := so.givenOut_le hi out
  have hlt := hp.pageCount_lt
  obtain ⟨m₁, d₁, run₁, t₁, rings, near, links⟩ := leave_run hp so hi out h
  obtain ⟨m₂, run₂, t₂⟩ := clear_run hp (page_lt_nodes hi) (s.withMemory m₁)
  rw [Arena.memory_withMemory, t₁.table_eq] at t₂
  obtain ⟨m₃, run₃, t₃⟩ := forUp_fill (p := p) (i := i)
    (fun k => do p.clear (← p.pageNode (← Checked.add i k))) Desc.blank hn hle
    (fun k s hk => by
      have hadd : Checked.add i k = .ok (i + k) :=
        Checked.add_eq_ok (by rw [wordLimit_eq]; omega)
      rw [PoolM.bind_liftM hadd, PoolM.bind_liftM (hp.pageNode_eq_ok (i := i + k) (by omega))]
      exact clear_run hp (page_lt_nodes (by omega)) s) (s.withMemory m₂)
  rw [Arena.memory_withMemory, t₂.table_eq] at t₃
  refine ⟨m₁, m₂, m₃, _, run₁, run₂, run₃, (t₁.trans t₂).trans t₃, ?_⟩
  have inner := fun j shift low high => so.givenOut_inner (j := j) hi out shift low high
  refine h.release co hn (fun j low high => so.givenOut_not_inRun hi out low high) rings
    (co.release inner) near links (fun k hk => ?_) fun j low high => ?_
  · rw [Table.fill_outside _ _ fun j low high => hk j (by omega) high,
      Function.update_of_ne (hk i (le_refl _) (by omega))]
  · rcases Nat.eq_or_lt_of_le low with rfl | hlt
    · rw [Table.fill_outside _ _ fun j low _ heq => by have := page_inj.1 heq; omega,
        Function.update_self]
    · exact Table.fill_page _ _ hlt high

/-- The run that ends before the pages is looked up once the run after them is gone. -/
theorem runBefore_run (h : Encodes p { a.release i n with
      runs := a.runs.filter fun q => q.first ≠ i + n } (table s.memory) s.memory.word) :
    (if 0 < i then p.runEndingAt (i - 1) else pure none) s =
      .ok ((a.runs.find? fun q => q.finish = i).map fun q => nodeOffset (p.page q.first)) s := by
  have co := so.toCoherent
  have hn := so.givenOut_pos hi out
  have inner := fun j shift low high => so.givenOut_inner (j := j) hi out shift low high
  by_cases hzero : 0 < i
  · have hkept : (a.runs.filter fun q => q.first ≠ i + n).Sublist (a.release i n).runs :=
      List.filter_sublist
    have co' := (co.release inner).withRuns_sublist hkept
    have hbefore : i - 1 + 1 = i := by omega
    have hrun := runEndingAt_run (j := i - 1) hp co' (by omega) h (fun huse => ?_) ?_
    · rw [if_pos hzero, hrun, hbefore, List.find?_filter]
      congr 2
      refine List.find?_congr fun q hq => ?_
      have hlt := co.first_lt_finish hq
      simp only [decide_eq_true_eq, decide_eq_decide]
      exact and_iff_right_of_imp fun hfinish => by omega
    · obtain ⟨q, hq, low, high⟩ := so.covered (i - 1) (by omega)
        ((Ledger.release_outside (by omega)).symm.trans huse)
      exact ⟨q, List.mem_filter.2 ⟨hq, decide_eq_true (by omega)⟩, low, high⟩
    · rw [hbefore]
      rintro ⟨q, hq, low, high⟩
      exact so.givenOut_not_inRun hi out (le_refl i) (by omega)
        ⟨q, (List.mem_filter.1 hq).1, low, high⟩
  · rw [if_neg hzero, PoolM.pure_run, List.find?_eq_none.2, Option.map_none]
    intro q hq
    have hlt := co.first_lt_finish hq
    simp only [decide_eq_true_eq]
    omega

theorem insertJoined_run (h : Encodes p { a.release i n with runs := Ledger.keptRuns i n a.runs }
      (Function.update (table s.memory) (p.page (Ledger.joined i n a.runs).first) Desc.blank)
      s.memory.word) :
    ∃ m' d', p.insertRun (Ledger.joined i n a.runs).first (Ledger.joined i n a.runs).len s =
        .ok () (s.withMemory m') ∧ Tabled p.nodes s.memory m' d' ∧
      Encodes p (a.give i n) d' s.memory.word := by
  have co := so.toCoherent
  have hn := so.givenOut_pos hi out
  have inner := fun j shift low high => so.givenOut_inner (j := j) hi out shift low high
  have hout := fun j low high => so.givenOut_not_inRun (j := j) hi out low high
  exact insertRun_run hp (co.kept inner) h (co.joined_pos hn)
    (co.joined_le (so.givenOut_le hi out)) (co.joined_free hn inner)
    fun _ hq => co.joined_apart hn hout hq

section Beside

variable (h : Encodes p { a.release i n with
  runs := a.runs.filter fun q => q.first ≠ i + n } (table s.memory) s.memory.word)
include h

theorem insertAlone_run (hbefore : a.runs.find? (fun q => q.finish = i) = none) :
    ∃ m' d', p.insertRun i
        (n + ((a.runs.find? fun q => q.first = i + n).map PageRun.len).getD 0) s =
        .ok () (s.withMemory m') ∧ Tabled p.nodes s.memory m' d' ∧
      Encodes p (a.give i n) d' s.memory.word := by
  have co := so.toCoherent
  have hn := so.givenOut_pos hi out
  have inner := fun j shift low high => so.givenOut_inner (j := j) hi out shift low high
  have hjoined : Ledger.joined i n a.runs =
      ⟨i, n + ((a.runs.find? fun q => q.first = i + n).map PageRun.len).getD 0⟩ := by
    simp [Ledger.joined, hbefore]
  have hno : ∀ q ∈ a.runs, q.finish ≠ i := fun q hq => by
    simpa using List.find?_eq_none.1 hbefore q hq
  have hkept := Ledger.keptRuns_eq i n a.runs
  rw [List.filter_eq_self.2 fun q hq => decide_eq_true (hno q (List.mem_filter.1 hq).1)] at hkept
  rw [← hkept] at h
  have hnone : ¬∃ q ∈ Ledger.keptRuns i n a.runs, q.first ≤ i ∧ i < q.finish := by
    rintro ⟨q, hq, low, high⟩
    exact so.givenOut_not_inRun hi out (le_refl i) (by omega)
      ⟨q, (Ledger.mem_keptRuns.1 hq).1, low, high⟩
  have hblank := h.blank (i := i) (co.kept inner) (Ledger.release_inside (le_refl i) (by omega))
    hnone
  obtain ⟨m', d', run, t, encodes⟩ := insertJoined_run hp so hi out (by rwa [hjoined])
  rw [hjoined] at run
  exact ⟨m', d', run, t, encodes⟩

theorem insertJoining_run (hbefore : a.runs.find? (fun q => q.finish = i) = some r) :
    ∃ m' d', p.insertBeside (some (nodeOffset (p.page r.first))) i
        (n + ((a.runs.find? fun q => q.first = i + n).map PageRun.len).getD 0) s =
        .ok () (s.withMemory m') ∧ Tabled p.nodes s.memory m' d' ∧
      Encodes p (a.give i n) d' s.memory.word := by
  have co := so.toCoherent
  have hlt := hp.pageCount_lt
  have inner := fun j shift low high => so.givenOut_inner (j := j) hi out shift low high
  have co' : Ledger.Coherent p.config p.pageCount { a.release i n with
      runs := a.runs.filter fun q => q.first ≠ i + n } :=
    (co.release inner).withRuns_sublist List.filter_sublist
  have hr : r ∈ a.runs := List.mem_of_find?_eq_some hbefore
  have hfinish : r.finish = i := by simpa using List.find?_some hbefore
  have hfirst := co.first_lt_finish hr
  have hjoined : Ledger.joined i n a.runs = ⟨r.first,
      n + ((a.runs.find? fun q => q.first = i + n).map PageRun.len).getD 0 + r.len⟩ := by
    simp [Ledger.joined, hbefore]
  have hr' : r ∈ a.runs.filter fun q => q.first ≠ i + n :=
    List.mem_filter.2 ⟨hr, decide_eq_true (by omega)⟩
  obtain ⟨b, c, ⟨hb, hc⟩, ⟨hlink, hnext⟩, encodes⟩ := h.dropRun co' hr'
  have hnode : p.page r.first < p.nodes := page_lt_nodes (co.first_lt hr)
  obtain ⟨m₁, run₁, t₁⟩ := unlink_run hp hnode hb hc s hlink hnext
  rw [co'.filter_finish hr', hfinish] at encodes
  dsimp only at encodes
  rw [← Ledger.keptRuns_eq i n a.runs, ← t₁.table_eq] at encodes
  obtain ⟨m₂, d₂, run₂, t₂, encodes₂⟩ := insertJoined_run (s := s.withMemory m₁) hp so hi out (by
    rw [hjoined]
    exact encodes.congr_words hp fun x hx => t₁.elsewhere x (.inr hx))
  rw [hjoined] at run₂
  have hend := co.joined_le (so.givenOut_le hi out)
  rw [hjoined] at hend
  simp only [PageRun.finish] at hend
  have hadd : Checked.add (n + ((a.runs.find? fun q => q.first = i + n).map PageRun.len).getD 0)
      r.len = .ok (n + ((a.runs.find? fun q => q.first = i + n).map PageRun.len).getD 0 + r.len) :=
    Checked.add_eq_ok (by rw [wordLimit_eq]; omega)
  refine ⟨m₂, d₂, ?_, t₁.trans t₂, ?_⟩
  · rw [insertBeside, PoolM.bind_run (slab_run hp hnode s),
      (h.runs r hr').length, toNat_len hp co hr, PoolM.bind_liftM hadd, PoolM.bind_run run₁,
      PoolM.bind_liftM (hp.pageIndex_eq_ok r.first), run₂]
    rfl
  · exact encodes₂.congr_words hp fun x hx => (t₁.elsewhere x (.inr hx)).symm

theorem insertBeside_run :
    ∃ m' d', p.insertBeside ((a.runs.find? fun q => q.finish = i).map
        fun q => nodeOffset (p.page q.first)) i
        (n + ((a.runs.find? fun q => q.first = i + n).map PageRun.len).getD 0) s =
        .ok () (s.withMemory m') ∧ Tabled p.nodes s.memory m' d' ∧
      Encodes p (a.give i n) d' s.memory.word := by
  cases hbefore : a.runs.find? fun q => q.finish = i with
  | none => exact insertAlone_run hp so hi out h hbefore
  | some r => exact insertJoining_run hp so hi out h hbefore

end Beside

theorem givePages_run (h : Stores p a s.memory) :
    ∃ m', p.givePages i n s = .ok () (s.withMemory m') ∧ Stores p (a.give i n) m' ∧
      p.SameOutside s.memory m' := by
  have co := so.toCoherent
  have hn := so.givenOut_pos hi out
  have hle := so.givenOut_le hi out
  have hlt := hp.pageCount_lt
  have hlimit : p.pageCount + p.pageCount < wordLimit := by
    rw [wordLimit_eq]
    omega
  have inner := fun j shift low high => so.givenOut_inner (j := j) hi out shift low high
  have hcount := Ledger.freePages_give so hi out
  have hmore := (so.give hi out).freePages_le
  obtain ⟨m₁, m₂, m₃, d₃, run₁, run₂, run₃, t₃, encodes₃⟩ := clearPages_run hp so hi out h.encodes
  obtain ⟨m₄, d₄, run₄, t₄, encodes₄⟩ := joinRight_run (s := s.withMemory m₃) hp (i + n) n
    (co.release inner) (t₃.encodes hp encodes₃) (by omega)
  rw [show (a.release i n).runs = a.runs from rfl] at run₄ encodes₄
  have run₅ := runBefore_run (s := s.withMemory m₄) hp so hi out (t₄.encodes hp encodes₄)
  obtain ⟨m₆, d₆, run₆, t₆, encodes₆⟩ := insertBeside_run (s := s.withMemory m₄) hp so hi out
    (t₄.encodes hp encodes₄)
  have t := (t₃.trans t₄).trans t₆
  obtain ⟨stores, same⟩ := Stores.of_tabled hp t
    (encodes₆.congr_words hp fun x hx => ((t₃.trans t₄).elsewhere x (.inr hx)).symm)
  refine ⟨_, ?_, stores, same⟩
  have hadd : Checked.add i n = .ok (i + n) := Checked.add_eq_ok (by omega)
  have hfree : freePages (s.withMemory m₆) = .ok a.freePages (s.withMemory m₆) :=
    freePages_run so hp ((t.elsewhere 9 (.inl (by decide))).trans h.count)
  have hsum : Checked.add a.freePages n = .ok (a.freePages + n) := Checked.add_eq_ok (by omega)
  rw [givePages_eq, PoolM.bind_liftM (hp.pageNode_eq_ok hi.le),
    PoolM.bind_run (next_run hp (page_lt_nodes hi) s), PoolM.bind_run run₁, PoolM.bind_run run₂,
    PoolM.bind_run run₃, PoolM.bind_liftM hadd, PoolM.bind_run run₄, Arena.withMemory_withMemory,
    PoolM.bind_run run₅, PoolM.bind_run run₆, Arena.withMemory_withMemory, PoolM.bind_run hfree,
    PoolM.bind_liftM hsum, setFreePages_run, hcount]
  rfl

end Giving

end Give

end Pool

end SharedSlab.Slab
