import SharedSlab.Proofs.History
import SharedSlab.Proofs.SnapshotReading

set_option autoImplicit false

namespace SharedSlab

/-- `t` continues the journal of `s`, with no error. -/
def Arena.Quiet (s t : Arena) : Prop :=
  ∃ events, t.journal.toList = s.journal.toList ++ events ∧ ∀ e ∈ events, e.level ≠ .error

namespace Arena.Quiet

variable {s t u : Arena}

theorem withMemory (s : Arena) (m : Memory) : s.Quiet (s.withMemory m) :=
  ⟨[], (List.append_nil _).symm, List.forall_mem_nil _⟩

theorem noting {e : Event} (s : Arena) (h : e.level ≠ .error) : s.Quiet (s.noting e) :=
  ⟨[e], Array.toList_push, List.forall_mem_singleton.2 h⟩

theorem trans (h : s.Quiet t) (h' : t.Quiet u) : s.Quiet u := by
  obtain ⟨events, heq, hlevel⟩ := h
  obtain ⟨events', heq', hlevel'⟩ := h'
  refine ⟨events ++ events', by rw [heq', heq, List.append_assoc], fun e he => ?_⟩
  rcases List.mem_append.1 he with he | he
  · exact hlevel e he
  · exact hlevel' e he

end Arena.Quiet

theorem Checked.mapM_ok {α β : Type} {f : α → Except Fault β} {l : List α}
    (h : ∀ x ∈ l, ∃ y, f x = .ok y) : ∃ ys, l.mapM f = .ok ys := by
  induction l with
  | nil => exact ⟨[], rfl⟩
  | cons x l ih =>
    obtain ⟨y, hy⟩ := h x List.mem_cons_self
    obtain ⟨ys, hys⟩ := ih fun x hx => h x (List.mem_cons_of_mem _ hx)
    refine ⟨y :: ys, ?_⟩
    rw [List.mapM_cons, hy, hys]
    rfl

namespace Slab

theorem Snapshot.classLine_ok {shift : Nat} (h : shift < 64) (pages : Nat) :
    ∃ line, classLine shift pages = .ok line := by
  rw [classLine]
  by_cases hzero : pages = 0
  · exact ⟨_, if_pos hzero⟩
  · rw [if_neg hzero, Checked.shiftLeft, if_pos h]
    exact ⟨_, rfl⟩

theorem Snapshot.classLines_ok {pages : List Nat} {shift : Nat} (h : shift + pages.length ≤ 64) :
    ∃ text, classLines shift pages = .ok text := by
  induction pages generalizing shift with
  | nil => exact ⟨_, rfl⟩
  | cons n pages ih =>
    rw [List.length_cons] at h
    have fits : shift < 64 := by omega
    have rest : shift + 1 + pages.length ≤ 64 := by omega
    obtain ⟨line, hline⟩ := classLine_ok fits n
    obtain ⟨text, htext⟩ := ih rest
    refine ⟨line ++ text, ?_⟩
    rw [classLines, hline, htext]
    rfl

theorem Snapshot.report_ok {snap : Snapshot} (runs : ∀ r ∈ snap.freeRuns, r.finish < wordLimit)
    (classes : snap.minShift + snap.slotPages.length ≤ 64) : ∃ text, snap.report = .ok text := by
  obtain ⟨lines, hlines⟩ := Checked.mapM_ok (f := runLine) fun r hr =>
    ⟨_, by rw [runLine, Checked.add_eq_ok (runs r hr)]; rfl⟩
  obtain ⟨text, htext⟩ := classLines_ok classes
  rw [report, hlines, htext]
  exact ⟨_, rfl⟩

variable {p : Pool} {a : Ledger} {live : List Block} {s t : Arena}

theorem Ledger.Sound.report_ok (so : a.Sound p.config p.pageCount) (hp : p.Placed) :
    ∃ text, (a.snapshot p).report = .ok text := by
  have hcount := hp.pageCount_lt
  have hmin := p.config.min_lt
  have hpage := p.config.page_le
  refine Snapshot.report_ok (fun r hr => ?_) ?_
  · have hle := so.run_le r (List.mem_mergeSort.1 hr)
    rw [wordLimit_eq]
    omega
  · simp only [Ledger.snapshot, List.length_map, List.length_range, Config.slotCount]
    omega

inductive Action where
  | call (c : Call)
  | snapshot
  | dump

def Pool.act (p : Pool) : Action → PoolM Unit
  | .call c => do let _ ← p.call c
  | .snapshot => do let _ ← p.snapshot
  | .dump => do let _ ← p.dump

theorem Pool.refusal_level (p : Pool) (off : Nat) (kind : PageKind) (cause : PoolError) :
    (p.refusal off kind cause).level ≠ .error := by
  cases cause <;> exact Level.noConfusion

namespace Follows

theorem call_quiet {answer : Answer} (f : Follows p a live s.memory) (hp : p.Placed) (c : Call)
    (run : p.call c s = .ok answer t) : s.Quiet t := by
  cases c with
  | alloc size pos =>
    have served := Pool.alloc_run hp f.steady f.stores pos
    rw [Pool.call] at run
    generalize hrun : p.alloc size s = result at served
    generalize a.alloc p size = outcome at served
    cases served with
    | refused =>
      cases (PoolM.bind_run hrun).symm.trans run
      exact .noting s Level.noConfusion
    | given =>
      cases (PoolM.bind_run hrun).symm.trans run
      exact .withMemory s _
  | free off =>
    have freed := Pool.free_run hp f.steady f.stores off
    rw [Pool.call] at run
    generalize hrun : p.free off s = result at freed
    generalize a.free p off = outcome at freed
    cases freed with
    | refused =>
      cases (PoolM.bind_run hrun).symm.trans run
      exact .noting s (p.refusal_level off _ _)
    | done =>
      cases (PoolM.bind_run hrun).symm.trans run
      exact .withMemory s _

/-- One action is done without a fault, and leaves a pool that is as sound as before. -/
theorem act (f : Follows p a live s.memory) (hp : p.Placed) (links : LinksAligned p.nodes s.memory)
    (v : Action) : ∃ t a' live', p.act v s = .ok () t ∧ Follows p a' live' t.memory ∧
      LinksAligned p.nodes t.memory ∧ s.Quiet t := by
  have hsnap := Pool.snapshot_run hp f.steady.toSound f.stores
  cases v with
  | call c =>
    obtain ⟨t, run, f', framed⟩ := f.call hp c
    exact ⟨t, _, _, PoolM.bind_run run, f', framed.links links, f.call_quiet hp c run⟩
  | snapshot => exact ⟨s, a, live, PoolM.bind_run hsnap, f, links, .withMemory s s.memory⟩
  | dump =>
    obtain ⟨text, htext⟩ := f.steady.toSound.report_ok hp
    have hdump : p.dump s = .ok text (s.noting (.report text)) := by
      rw [Pool.dump, PoolM.bind_run hsnap, PoolM.bind_liftM htext]
      rfl
    exact ⟨_, a, live, PoolM.bind_run hdump, f, links, .noting s Level.noConfusion⟩

theorem actions (hp : p.Placed) (vs : List Action) {a : Ledger} {live : List Block} {s : Arena}
    (f : Follows p a live s.memory) (links : LinksAligned p.nodes s.memory) :
    ∃ t, vs.forM p.act s = .ok () t ∧ LinksAligned p.nodes t.memory ∧ s.Quiet t := by
  induction vs generalizing a live s with
  | nil => exact ⟨s, rfl, links, .withMemory s s.memory⟩
  | cons v vs ih =>
    obtain ⟨s₁, a₁, live₁, run₁, f₁, links₁, quiet₁⟩ := f.act hp links v
    obtain ⟨s₂, run₂, links₂, quiet₂⟩ := ih f₁ links₁
    exact ⟨s₂, (PoolM.bind_run run₁).trans run₂, links₂, quiet₁.trans quiet₂⟩

end Follows

/-- After `init`, any requests, frees, snapshots and reports are done without a fault and without an
error in the journal, and all links are multiples of eight. -/
theorem actions_never_fault {region : Region} {config : Config} {s s' : Arena}
    (hlen : region.len < wordLimit) (h : Pool.init region config s = .ok (.ok p) s')
    (actions : List Action) :
    ∃ t events, actions.forM p.act s' = .ok () t ∧
      t.journal.toList = s'.journal.toList ++ events ∧ (∀ e ∈ events, e.level ≠ .error) ∧
      ∀ j < p.nodes, 8 ∣ (table t.memory j).link := by
  have laid := Pool.init_spec hlen h
  obtain ⟨hp, f⟩ := follows_init hlen h
  obtain ⟨t, run, links, events, hjournal, hlevel⟩ := f.actions hp actions laid.links
  exact ⟨t, events, run, hjournal, hlevel, links⟩

/-- Requests of each kind, one that no run can serve, frees that are done and refused, and reports in
between. -/
theorem actions_never_fault_host : ∃ p s',
    Pool.init ⟨0, 65536⟩ Config.host ⟨Memory.zeroed, #[]⟩ = .ok (.ok p) s' ∧
    ∃ t events, [.call (.alloc 8 (by decide)), .call (.alloc 64 (by decide)),
        .call (.alloc 5000 (by decide)), .dump, .call (.alloc 18446744073709551615 (by decide)),
        .call (.free 4160), .call (.free 4160), .call (.free 17), .snapshot].forM p.act s' =
        .ok () t ∧
      t.journal.toList = s'.journal.toList ++ events ∧ (∀ e ∈ events, e.level ≠ .error) ∧
      ∀ j < p.nodes, 8 ∣ (table t.memory j).link := by
  obtain ⟨p, s', h⟩ := Pool.init_host
  exact ⟨p, s', h, actions_never_fault (by decide) h _⟩

end Slab

end SharedSlab
