import SharedSlab.Proofs.Attachment
import SharedSlab.Proofs.LiveSnapshot
import SharedSlab.Proofs.MirroredCalls

set_option autoImplicit false

namespace SharedSlab

theorem Region.offsetOf?_base_add_eq (r : Region) {off : Nat} :
    r.offsetOf? (r.base + off) = if off < r.len then some off else none := by
  by_cases hoff : off < r.len
  · rw [if_pos hoff, offsetOf?_base_add hoff]
  · rw [if_neg hoff, offsetOf?, if_neg (by omega)]

namespace Slab

open PoolM (Mirrors)

inductive Request
  | alloc (size : Nat)
  | allocOffset (size : Nat)
  | free (address : Nat)
  | freeOffset (off : Nat)
  | freePages
  | snapshot

inductive Response
  | chunk (found : Option Nat)
  | freed (outcome : Except PoolError Unit)
  | pages (count : Nat)
  | seen (snap : Snapshot)

namespace Request

def Empty : Request → Prop
  | .alloc size | .allocOffset size => size = 0
  | _ => False

def track (base : Nat) (live : List Block) : Request → Except Fault Response → List Block
  | .alloc size, .ok (.chunk (some address)) => ⟨address - base, size⟩ :: live
  | .allocOffset size, .ok (.chunk (some off)) => ⟨off, size⟩ :: live
  | .free address, .ok (.freed (.ok ())) => live.filter (base + ·.off ≠ address)
  | .freeOffset off, .ok (.freed (.ok ())) => live.filter (·.off ≠ off)
  | _, _ => live

def trackAll (base : Nat) : List Request → List (Except Fault Response) → List Block → List Block
  | request :: requests, response :: responses, live =>
    trackAll base requests responses (request.track base live response)
  | _, _, live => live

end Request

inductive Step
  | attach (len : Nat)
  | ask (view : Nat) (request : Request)

def Step.len? : Step → Option Nat
  | .attach len => some len
  | .ask .. => none

def Step.request? : Step → Option Request
  | .attach _ => none
  | .ask _ request => some request

namespace Pool

def answer (p : Pool) : Request → PoolM Response
  | .alloc size => do return .chunk (← p.allocAddress size)
  | .allocOffset size => do return .chunk (← p.alloc size)
  | .free address => do return .freed (← p.freeAddress address)
  | .freeOffset off => do return .freed (← p.free off)
  | .freePages => do return .pages (← Pool.freePages)
  | .snapshot => do return .seen (← p.snapshot)

def ask (p : Pool) (request : Request) : PoolM (Except Fault Response) := fun s =>
  match p.answer request s with
  | .ok response t => .ok (.ok response) t
  | .error fault t => .ok (.error fault) t

/-- Makes the steps in order: all responses, and the views in the end. A number that no view has
stands for `p`. -/
def share (p : Pool) : List Step → List Pool → PoolM (List (Except Fault Response) × List Pool)
  | [], views => return ([], views)
  | .attach len :: steps, views => do
    match ← attach ⟨p.region.base, len⟩ p.config with
    | .ok q => p.share steps (views ++ [q])
    | .error _ => p.share steps views
  | .ask view request :: steps, views => do
    let response ← (views.getD view p).ask request
    let (responses, views) ← p.share steps views
    return (response :: responses, views)

/-- The view that a process has that sees the region in this length. -/
def ofLength (p : Pool) (len : Nat) : Pool := p.inRegion ⟨p.region.base, len⟩

def IsView (p q : Pool) : Prop := ∃ len, p.region.len ≤ len ∧ q = p.ofLength len

variable {p q : Pool} {a : Ledger} {live : List Block} {s t : Arena} {off size : Nat}
  {request : Request} {response : Response}

theorem isView_self (p : Pool) : p.IsView p := ⟨p.region.len, le_refl _, rfl⟩

theorem isView_getD {views : List Pool} (h : ∀ q ∈ views, p.IsView q) (i : Nat) :
    p.IsView (views.getD i p) := by
  rcases lt_or_ge i views.length with hi | hi
  · rw [List.getD_eq_getElem _ _ hi]
    exact h _ (List.getElem_mem hi)
  · rw [List.getD_eq_default _ _ hi]
    exact p.isView_self

theorem ask_of_answer (run : p.answer request s = .ok response t) :
    p.ask request s = .ok (.ok response) t := by
  rw [ask, run]

/-- A request for no bytes breaks the contract; nothing is done. -/
theorem ask_of_empty (p : Pool) (h : request.Empty) (s : Arena) :
    p.ask request s = .ok (.error .emptyRequest) s := by
  cases request with
  | alloc size | allocOffset size =>
    cases h
    rfl
  | _ => exact h.elim

theorem IsView.mirrors (view : p.IsView q) (hp : p.Placed) (request : Request) :
    Mirrors 0 (p.answer request) (q.answer request) := by
  obtain ⟨len, hlen, rfl⟩ := view
  have v : p.Wider ⟨p.region.base, len⟩ 0 := ⟨hp, hlen, Nat.zero_le 1⟩
  cases request with
  | alloc size => exact (v.allocAddress rfl size).bind fun _ => .pure _
  | allocOffset size => exact (v.alloc size).bind fun _ => .pure _
  | free address => exact (v.freeAddress rfl address).bind fun _ => .pure _
  | freeOffset off => exact (v.free off).bind fun _ => .pure _
  | freePages => exact v.freePages.bind fun _ => .pure _
  | snapshot => exact v.snapshot.bind fun _ => .pure _

theorem freeAddress_of_free {outcome : Except PoolError Unit} {address : Nat}
    (finish_le : p.finish ≤ p.region.len)
    (seen : p.region.offsetOf? address = if off < p.region.len then some off else none)
    (run : p.free off s = .ok outcome t) :
    ∃ u, p.freeAddress address s = .ok outcome u ∧ u.memory = t.memory := by
  rw [freeAddress, seen]
  by_cases hoff : off < p.region.len
  · rw [if_pos hoff]
    exact ⟨t, run, rfl⟩
  · rw [Wider.free_of_outside (.inr (by omega))] at run
    cases run
    rw [if_neg hoff]
    exact ⟨_, rfl, rfl⟩

end Pool

namespace Follows

variable {p q : Pool} {a : Ledger} {live : List Block} {s t : Arena} {off size : Nat}

theorem allocBoth (f : Follows p a live s.memory) (hp : p.Placed) (pos : 0 < size) :
    ∃ found t a', p.alloc size s = .ok found t ∧
      p.allocAddress size s = .ok (found.map (p.region.base + ·)) t ∧
      Follows p a' (track (.alloc size pos) (.offset found) live) t.memory ∧
      p.Framed a a' s.memory t.memory := by
  obtain ⟨t, run, f', framed⟩ := f.call hp (.alloc size pos)
  obtain ⟨found, u, hfound, hanswer⟩ := PoolM.of_bind run
  generalize hledger : a.call p (.alloc size pos) = outcome at run f' framed hanswer
  obtain ⟨answer, a'⟩ := outcome
  cases hanswer
  refine ⟨found, t, a', hfound, ?_, f', framed⟩
  rw [Pool.allocAddress, PoolM.bind_run hfound]
  cases found with
  | none => rfl
  | some off => exact PoolM.bind_liftM (f'.addressOf_eq_ok hp List.mem_cons_self) _ _

theorem freeOffset (f : Follows p a live s.memory) (hp : p.Placed) (off : Nat) :
    ∃ outcome t a', p.free off s = .ok outcome t ∧
      Follows p a' (track (.free off) (.freed outcome) live) t.memory ∧
      p.Framed a a' s.memory t.memory := by
  obtain ⟨t, run, f', framed⟩ := f.call hp (.free off)
  obtain ⟨outcome, u, houtcome, hanswer⟩ := PoolM.of_bind run
  generalize hledger : a.call p (.free off) = result at run f' framed hanswer
  obtain ⟨answer, a'⟩ := result
  cases hanswer
  exact ⟨outcome, t, a', houtcome, f', framed⟩

/-- Every request but an empty one is answered, and leaves a pool that is as sound as before. -/
theorem answer (f : Follows p a live s.memory) (hp : p.Placed) {request : Request}
    (asks : ¬request.Empty) :
    ∃ response t a', p.answer request s = .ok response t ∧
      Follows p a' (request.track p.region.base live (.ok response)) t.memory ∧
      p.Framed a a' s.memory t.memory := by
  cases request with
  | alloc size =>
    obtain ⟨found, t, a', _, run, f', framed⟩ := f.allocBoth hp (Nat.pos_of_ne_zero asks)
    refine ⟨_, t, a', PoolM.bind_run run, ?_, framed⟩
    cases found with
    | none => exact f'
    | some off =>
      rw [Option.map_some, Request.track, Nat.add_sub_cancel_left]
      exact f'
  | allocOffset size =>
    obtain ⟨found, t, a', run, _, f', framed⟩ := f.allocBoth hp (Nat.pos_of_ne_zero asks)
    refine ⟨_, t, a', PoolM.bind_run run, ?_, framed⟩
    cases found with
    | none => exact f'
    | some off => exact f'
  | free address =>
    by_cases below : address < p.region.base
    · have hnone : p.region.offsetOf? address = none := by
        rw [Region.offsetOf?, if_neg (by omega)]
      refine ⟨.freed (.error .invalidAddress), s.noting .pointerOutside, a, ?_, f, .refl p a _⟩
      rw [Pool.answer, Pool.freeAddress, hnone]
      rfl
    · obtain ⟨off, rfl⟩ := Nat.exists_eq_add_of_le (not_lt.1 below)
      obtain ⟨outcome, t, a', run, f', framed⟩ := f.freeOffset hp off
      obtain ⟨u, hrun, hmemory⟩ :=
        Pool.freeAddress_of_free hp.finish_le p.region.offsetOf?_base_add_eq run
      rw [← hmemory] at f' framed
      refine ⟨_, u, a', PoolM.bind_run hrun, ?_, framed⟩
      rcases outcome with _ | ⟨⟨⟩⟩
      · exact f'
      · simpa only [Request.track, track, ne_eq, Nat.add_left_cancel_iff] using f'
  | freeOffset off =>
    obtain ⟨outcome, t, a', run, f', framed⟩ := f.freeOffset hp off
    refine ⟨_, t, a', PoolM.bind_run run, ?_, framed⟩
    rcases outcome with _ | ⟨⟨⟩⟩
    · exact f'
    · exact f'
  | freePages =>
    have hcount := Pool.freePages_run f.steady.toSound hp f.stores.count
    exact ⟨_, s, a, PoolM.bind_run hcount, f, .refl p a _⟩
  | snapshot =>
    have hsnap := Pool.snapshot_run hp f.steady.toSound f.stores
    exact ⟨_, s, a, PoolM.bind_run hsnap, f, .refl p a _⟩

theorem ask (f : Follows p a live s.memory) (hp : p.Placed) (view : p.IsView q)
    (agree : s.memory.AgreeFrom 0 t.memory) (request : Request) :
    ∃ response s' t' a', p.ask request s = .ok response s' ∧ q.ask request t = .ok response t' ∧
      s'.memory.AgreeFrom 0 t'.memory ∧
      Follows p a' (request.track p.region.base live response) s'.memory ∧
      p.Framed a a' s.memory s'.memory ∧
      ∀ fault, response = .error fault → fault = .emptyRequest := by
  by_cases asks : request.Empty
  · refine ⟨_, s, t, a, p.ask_of_empty asks s, q.ask_of_empty asks t, agree, ?_, .refl p a _,
      fun _ heq => (Except.error.inj heq).symm⟩
    cases request <;> exact f
  · obtain ⟨response, s', a', run, f', framed⟩ := f.answer hp asks
    obtain ⟨t', mirrored, agree'⟩ := view.mirrors hp request s t response s' agree run
    exact ⟨.ok response, s', t', a', Pool.ask_of_answer run, Pool.ask_of_answer mirrored, agree',
      f', framed, nofun⟩

theorem freeThrough (f : Follows p a live s.memory) (hp : p.Placed) (view : p.IsView q)
    (agree : s.memory.AgreeFrom 0 t.memory) {b : Block} (hb : b ∈ live) :
    (∃ u, q.free b.off t = .ok (.ok ()) u) ∧
      ∃ u, q.freeAddress (p.region.base + b.off) t = .ok (.ok ()) u := by
  obtain ⟨len, hlen, rfl⟩ := view
  have v : p.Wider ⟨p.region.base, len⟩ 0 := ⟨hp, hlen, Nat.zero_le 1⟩
  obtain ⟨_, s₁, run₁, _⟩ := f.free_live hp ⟨b, hb, rfl⟩
  obtain ⟨s₂, run₂, _⟩ :=
    Pool.freeAddress_of_free hp.finish_le p.region.offsetOf?_base_add_eq run₁
  obtain ⟨u₁, hfree, _⟩ := v.free b.off s t _ s₁ agree run₁
  obtain ⟨u₂, hfreeAddress, _⟩ := v.freeAddress rfl _ s t _ s₂ agree run₂
  exact ⟨⟨u₁, hfree⟩, u₂, hfreeAddress⟩

end Follows

section Schedule

variable {p : Pool} (hp : p.Placed)
  (layout : Layout.compute p.config p.region.len = .ok (some p.layout))
include hp layout

theorem Follows.share (steps : List Step) (long : ∀ len, .attach len ∈ steps → p.region.len ≤ len)
    {a : Ledger} {live : List Block} {views : List Pool} {s t : Arena}
    (f : Follows p a live s.memory) (header : p.Recorded s.memory)
    (agree : s.memory.AgreeFrom 0 t.memory) (isView : ∀ q ∈ views, p.IsView q) :
    ∃ responses s' t' a',
      p.share steps views t =
        .ok (responses, views ++ (steps.filterMap Step.len?).map p.ofLength) t' ∧
      (steps.filterMap Step.request?).mapM p.ask s = .ok responses s' ∧
      s'.memory.AgreeFrom 0 t'.memory ∧
      Follows p a' (Request.trackAll p.region.base (steps.filterMap Step.request?) responses live)
        s'.memory ∧
      ∀ fault, .error fault ∈ responses → fault = .emptyRequest := by
  induction steps generalizing a live views s t with
  | nil =>
    refine ⟨[], s, t, a, ?_, rfl, agree, f, nofun⟩
    rw [List.filterMap_nil, List.map_nil, List.append_nil]
    rfl
  | cons step steps ih =>
    have long' : ∀ len, .attach len ∈ steps → p.region.len ≤ len := fun len hmem =>
      long len (List.mem_cons_of_mem step hmem)
    cases step with
    | attach len =>
      have hlen := long len List.mem_cons_self
      have header' := header.congr fun x _ => agree x (Nat.zero_le x)
      obtain ⟨t₁, run₁, hmemory⟩ :=
        Pool.attach_run (r := ⟨p.region.base, len⟩) hp layout header' hlen
      have isView' : ∀ q ∈ views ++ [p.ofLength len], p.IsView q := fun q hq => by
        rcases List.mem_append.1 hq with hq | hq
        · exact isView q hq
        · exact ⟨len, hlen, List.mem_singleton.1 hq⟩
      rw [← hmemory] at agree
      obtain ⟨responses, s', t', a', run, rest⟩ := ih long' f header agree isView'
      refine ⟨responses, s', t', a', ?_, rest⟩
      rw [Pool.share, PoolM.bind_run run₁]
      rw [List.append_assoc] at run
      exact run
    | ask view request =>
      obtain ⟨response, s₁, t₁, a₁, run₁, mirrored₁, agree₁, f₁, framed, hfault⟩ :=
        f.ask hp (Pool.isView_getD isView view) agree request
      obtain ⟨responses, s', t', a', run₂, run, agree', f', hfaults⟩ :=
        ih long' f₁ (framed.recorded hp header) agree₁ isView
      refine ⟨response :: responses, s', t', a', ?_, ?_, agree', f', fun fault hmem => ?_⟩
      · rw [Pool.share, PoolM.bind_run mirrored₁, PoolM.bind_run run₂]
        rfl
      · change (request :: steps.filterMap Step.request?).mapM p.ask s = _
        rw [List.mapM_cons, PoolM.bind_run run₁, PoolM.bind_run run]
        rfl
      · rcases List.mem_cons.1 hmem with heq | hmem
        · exact hfault fault heq.symm
        · exact hfaults fault hmem

end Schedule

/-- After `init`, requests may be made through any views, which are attached at any time over the
same base and any length from the recorded one on: no attachment fails, all responses are those of
the same requests made through the first view, and so is the memory in the end. Only a request for no
bytes is cut short. Whatever was got through some view and is live can be freed through every view,
by its offset and by its address. -/
theorem views_interchangeable {region : Region} {config : Config} {p : Pool} {s s' : Arena}
    (hlen : region.len < wordLimit) (h : Pool.init region config s = .ok (.ok p) s')
    (steps : List Step) (long : ∀ len, .attach len ∈ steps → region.len ≤ len) :
    ∃ responses t t₀,
      p.share steps [p] s' = .ok (responses, p :: (steps.filterMap Step.len?).map p.ofLength) t ∧
      (steps.filterMap Step.request?).mapM p.ask s' = .ok responses t₀ ∧
      (∀ x, t.memory.word x = t₀.memory.word x) ∧
      (∀ fault, .error fault ∈ responses → fault = .emptyRequest) ∧
      ∀ b ∈ Request.trackAll region.base (steps.filterMap Step.request?) responses [],
        ∀ q ∈ p :: (steps.filterMap Step.len?).map p.ofLength,
          (∃ u, q.free b.off t = .ok (.ok ()) u) ∧
          ∃ u, q.freeAddress (region.base + b.off) t = .ok (.ok ()) u := by
  have laid := Pool.init_spec hlen h
  obtain ⟨hp, f⟩ := follows_init hlen h
  obtain ⟨rfl, rfl⟩ := And.intro laid.region_eq laid.config_eq
  obtain ⟨responses, t₀, t, a, run, run₀, agree, f', hfaults⟩ :=
    f.share hp laid.layout steps long laid.recorded (fun _ _ => rfl)
      (List.forall_mem_singleton.2 p.isView_self)
  refine ⟨responses, t, t₀, run, run₀, fun x => (agree x (Nat.zero_le x)).symm, hfaults,
    fun b hb q hq => ?_⟩
  have view : p.IsView q := by
    rcases List.mem_cons.1 hq with rfl | hq
    · exact q.isView_self
    · obtain ⟨len, hmem, rfl⟩ := List.mem_map.1 hq
      obtain ⟨step, hstep, hsome⟩ := List.mem_filterMap.1 hmem
      cases step with
      | attach _ =>
        cases hsome
        exact ⟨len, long len hstep, rfl⟩
      | ask => cases hsome
  exact f'.freeThrough hp view agree hb

/-- A longer view is attached after a first request, and one of the recorded length after the next;
what the second view got is freed through the third and then again through the first. -/
theorem views_interchangeable_host : ∃ p s',
    Pool.init ⟨0, 65536⟩ Config.host ⟨Memory.zeroed, #[]⟩ = .ok (.ok p) s' ∧
    ∃ steps : List Step,
      steps = [.ask 0 (.alloc 24), .attach 70000, .ask 1 (.allocOffset 5000), .attach 65536,
        .ask 2 (.free 8192), .ask 0 (.freeOffset 8192), .ask 1 (.free 68000), .ask 2 (.alloc 0),
        .ask 1 .freePages, .ask 2 .snapshot] ∧
      (∀ len, .attach len ∈ steps → 65536 ≤ len) ∧
      ∃ responses t t₀,
        p.share steps [p] s' = .ok (responses, p :: (steps.filterMap Step.len?).map p.ofLength) t ∧
        (steps.filterMap Step.request?).mapM p.ask s' = .ok responses t₀ ∧
        (∀ x, t.memory.word x = t₀.memory.word x) ∧
        (∀ fault, .error fault ∈ responses → fault = .emptyRequest) ∧
        ∀ b ∈ Request.trackAll 0 (steps.filterMap Step.request?) responses [],
          ∀ q ∈ p :: (steps.filterMap Step.len?).map p.ofLength,
            (∃ u, q.free b.off t = .ok (.ok ()) u) ∧
            ∃ u, q.freeAddress (0 + b.off) t = .ok (.ok ()) u := by
  obtain ⟨p, s', h⟩ := Pool.init_host
  have long : ∀ len, Step.attach len ∈ [.ask 0 (.alloc 24), .attach 70000,
      .ask 1 (.allocOffset 5000), .attach 65536, .ask 2 (.free 8192), .ask 0 (.freeOffset 8192),
      .ask 1 (.free 68000), .ask 2 (.alloc 0), .ask 1 .freePages, .ask 2 .snapshot] →
      65536 ≤ len := fun len hmem => by
    simp only [List.mem_cons, Step.attach.injEq, reduceCtorEq, List.not_mem_nil, false_or,
      or_false] at hmem
    omega
  exact ⟨p, s', h, _, rfl, long, views_interchangeable (by decide) h _ long⟩

end Slab

end SharedSlab
