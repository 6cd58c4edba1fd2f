import SharedSlab.Proofs.History

set_option autoImplicit false

namespace SharedSlab.Slab

namespace Table

variable (d : Table) {a b f h x y z : Nat}

theorem unlinked_of_ne (hb : z ≠ b) (ha : z ≠ a) : d.unlinked b a z = d z := by
  simp only [unlinked, setLink, setNext, if_neg hb, if_neg ha]

theorem pushed_of_ne (hh : z ≠ h) (hf : z ≠ f) (hx : z ≠ x) (kind : PageKind) :
    d.pushed h f x kind z = d z := by
  simp only [pushed, setLink, setNext, setPrev, if_neg hh, if_neg hf, if_neg hx]

theorem replaced_of_ne (hb : z ≠ b) (ha : z ≠ a) (hy : z ≠ y) (kind : PageKind) :
    d.replaced b a y kind z = d z := by
  simp only [replaced, setLink, setNext, setPrev, if_neg hb, if_neg ha, if_neg hy]

end Table

inductive RingCall where
  | push (head node : Nat) (kind : PageKind)
  | unlink (node : Nat)
  | replace (old new : Nat) (kind : PageKind)
  | retire (node : Nat) (kind : PageKind)

namespace RingCall

def run (p : Pool) : RingCall → PoolM Unit
  | push head node kind => p.pushFront (nodeOffset head) (nodeOffset node) kind
  | unlink node => p.unlink (nodeOffset node)
  | replace old new kind => p.replace (nodeOffset old) (nodeOffset new) kind
  | retire node kind => p.retire (nodeOffset node) kind

def edit (call : RingCall) (h : Nat) (l : List Nat) : List Nat :=
  match call with
  | push head node _ => if h = head then node :: l else l
  | unlink node | retire node _ => l.erase node
  | replace old new _ => l.replace old new

def retag (call : RingCall) (kind : Nat → PageKind) : Nat → PageKind :=
  match call with
  | push _ node new | replace _ node new | retire node new => Function.update kind node new
  | unlink _ => kind

def entering : RingCall → Option Nat
  | push _ node _ | replace _ node _ => some node
  | unlink _ | retire _ _ => none

/-- What a call does to a table in which the nodes `R h` are on the list of each sentinel `h`. -/
structure Effect (call : RingCall) (heads : Set Nat) (R : Nat → List Nat) (d d' : Table) :
    Prop where
  rings : Rings heads d' fun h => call.edit h (R h)
  slab : ∀ j, (d' j).slab = (d j).slab
  kind : ∀ j, (d' j).kind = call.retag (fun j => (d j).kind) j
  /-- The lists that keep their sequence keep every word, their sentinels too. -/
  others : ∀ h ∈ heads, call.edit h (R h) = R h → ∀ x ∈ h :: R h, d' x = d x
  unlisted : ∀ x, (∀ h ∈ heads, x ∉ h :: R h) → call.entering ≠ some x → d' x = d x
  retired : ∀ node kind, call = .retire node kind → (d' node).link = 0 ∧ (d' node).next = 0

end RingCall

section Effects

variable {heads : Set Nat} {d : Table} {R R' : Nat → List Nat} {h head node old new x : Nat}

theorem Rings.relist (r : Rings heads d R) (same : ∀ h ∈ heads, R' h = R h) :
    Rings heads d R' where
  ring h hh := by
    rw [same h hh]
    exact r.ring h hh
  apart g hg h hh x hx hx' := by
    rw [same g hg] at hx
    rw [same h hh] at hx'
    exact r.apart g hg h hh x hx hx'
  inner g hg h hh := by
    rw [same h hh]
    exact r.inner g hg h hh

theorem mem_of_mem_replace {l : List Nat} {z : Nat} (hz : z ∈ l.replace old new) :
    z = new ∨ z ∈ l := by
  by_cases hold : old ∈ l
  · obtain ⟨l₁, l₂, rfl, hnot⟩ := List.eq_append_cons_of_mem hold
    rw [List.replace_append_right hnot, List.replace_cons_self] at hz
    simp only [List.mem_append, List.mem_cons] at hz ⊢
    tauto
  · exact .inr (List.replace_of_not_mem hold ▸ hz)

theorem RingCall.Effect.of_kept {call : RingCall} {d' : Table} (r : Rings heads d R)
    (hh : h ∈ heads) (rings : Rings heads d' fun g => call.edit g (R g))
    (slab : ∀ j, (d' j).slab = (d j).slab)
    (kind : ∀ j, (d' j).kind = call.retag (fun j => (d j).kind) j)
    (retired : ∀ node kind, call = .retire node kind → (d' node).link = 0 ∧ (d' node).next = 0)
    (moved : call.edit h (R h) ≠ R h)
    (fresh : ∀ x, call.entering = some x → ∀ g ∈ heads, x ∉ g :: R g)
    (kept : ∀ z, z ∉ h :: R h → call.entering ≠ some z → d' z = d z) :
    call.Effect heads R d d' := by
  refine ⟨rings, slab, kind, fun g hg same z hz => ?_, fun z hz => kept z (hz h hh), retired⟩
  have hne : g ≠ h := by
    rintro rfl
    exact moved same
  exact kept z (r.not_mem_of_ne hg hh hne hz) fun e => fresh z e g hg hz

theorem erase_ne (hx : node ∈ R h) : (R h).erase node ≠ R h := by
  intro same
  have hlength := congrArg List.length same
  rw [List.length_erase_of_mem hx] at hlength
  have hpos := List.length_pos_of_mem hx
  omega

variable (r : Rings heads d R)
include r

theorem Rings.effect_push (hh : head ∈ heads) (fresh : ∀ g ∈ heads, node ∉ g :: R g)
    (kind : PageKind) :
    (RingCall.push head node kind).Effect heads R d
      (d.pushed head ((R head).headD head) node kind) := by
  refine .of_kept r hh ((r.push hh fresh kind).relist fun g _ => ?_) (fun j => ?_) (fun j => ?_)
    (fun _ _ e => by cases e) ?_ ?_ fun z hz hne => ?_
  · by_cases hg : g = head
    · rw [hg, Function.update_self]
      exact if_pos rfl
    · rw [Function.update_of_ne hg]
      exact if_neg hg
  · simp [Table.pushed]
  · simp [Table.pushed, RingCall.retag, Function.update_apply]
  · intro same
    have hcons : node :: R head = R head := (if_pos rfl).symm.trans same
    exact List.cons_ne_self node _ hcons
  · rintro _ ⟨⟩
    exact fresh
  · refine d.pushed_of_ne ?_ ?_ ?_ kind
    · rintro rfl
      exact hz List.mem_cons_self
    · rintro rfl
      exact hz (headD_mem_cons (R head) head)
    · rintro rfl
      exact hne rfl

theorem Rings.erase_eq_update (hh : h ∈ heads) (hx : node ∈ R h) {g : Nat} (hg : g ∈ heads) :
    (R g).erase node = Function.update R h ((R h).filter (· ≠ node)) g := by
  by_cases hgh : g = h
  · subst hgh
    rw [Function.update_self, ((List.nodup_cons.1 (r.ring g hg).nodup).2).erase_eq_filter]
    refine List.filter_congr fun z _ => ?_
    rw [decide_not]
    rfl
  · rw [Function.update_of_ne hgh]
    exact List.erase_of_not_mem ((r.own_of_mem hh hx).2 g hg hgh)

theorem Rings.effect_unlink (hh : h ∈ heads) (hx : node ∈ R h) :
    ∃ b a, (b ∈ h :: R h ∧ a ∈ h :: R h) ∧
      ((d node).link = nodeOffset b ∧ (d node).next = nodeOffset a) ∧
      (RingCall.unlink node).Effect heads R d (d.unlinked b a) := by
  obtain ⟨b, a, hmem, _, hlinks, rings⟩ := r.unlink hh hx
  refine ⟨b, a, hmem, hlinks, .of_kept r hh (rings.relist fun g hg => r.erase_eq_update hh hx hg)
    (fun j => ?_) (fun j => ?_) (fun _ _ e => by cases e) (erase_ne hx) (fun _ e => by cases e)
    fun z hz _ => ?_⟩
  · simp [Table.unlinked]
  · simp [Table.unlinked, RingCall.retag]
  · exact d.unlinked_of_ne (fun e => hz (e ▸ hmem.1)) (fun e => hz (e ▸ hmem.2))

theorem Rings.effect_retire (hh : h ∈ heads) (hx : node ∈ R h) (kind : PageKind) :
    ∃ b a, (b ∈ h :: R h ∧ a ∈ h :: R h) ∧
      ((d node).link = nodeOffset b ∧ (d node).next = nodeOffset a) ∧
      (RingCall.retire node kind).Effect heads R d
        (((d.unlinked b a).setNext node 0).setPrev node 0 kind) := by
  obtain ⟨b, a, hmem, hlinks, e⟩ := r.effect_unlink hh hx
  have hother : ∀ z, z ≠ node →
      ((d.unlinked b a).setNext node 0).setPrev node 0 kind z = d.unlinked b a z := by
    intro z hz
    simp only [Table.setNext, Table.setPrev, if_neg hz]
  refine ⟨b, a, hmem, hlinks, .of_kept r hh (e.rings.overwrite (fun g hg hin => ?_) hother)
    (fun j => ?_) (fun j => ?_) ?_ (erase_ne hx) (fun _ e => by cases e) fun z hz _ => ?_⟩
  · rcases List.mem_cons.1 hin with rfl | hin
    · exact (r.own_of_mem hh hx).1 hg
    · exact (List.nodup_cons.1 (r.ring g hg).nodup).2.not_mem_erase hin
  · simp [Table.unlinked]
  · simp [Table.unlinked, RingCall.retag, Function.update_apply]
  · rintro _ _ ⟨⟩
    simp [Table.unlinked]
  · have hne : z ≠ node := by
      rintro rfl
      exact hz (List.mem_cons_of_mem h hx)
    rw [hother z hne]
    exact d.unlinked_of_ne (fun e => hz (e ▸ hmem.1)) (fun e => hz (e ▸ hmem.2))

theorem Rings.effect_replace (hh : h ∈ heads) (hx : old ∈ R h)
    (fresh : ∀ g ∈ heads, new ∉ g :: R g) (kind : PageKind) :
    ∃ b a, (b ∈ h :: R h ∧ a ∈ h :: R h) ∧
      ((d old).link = nodeOffset b ∧ (d old).next = nodeOffset a) ∧
      (RingCall.replace old new kind).Effect heads R d (d.replaced b a new kind) := by
  obtain ⟨l₁, l₂, hl, hnot⟩ := List.eq_append_cons_of_mem hx
  obtain ⟨b, a, hmem, _, hlinks, rings⟩ := r.replace hh hl fresh kind
  have hedit : (R h).replace old new = l₁ ++ new :: l₂ := by
    rw [hl, List.replace_append_right hnot, List.replace_cons_self]
  refine ⟨b, a, hmem, hlinks, .of_kept r hh (rings.relist fun g hg => ?_) (fun j => ?_)
    (fun j => ?_) (fun _ _ e => by cases e) (fun same => ?_) ?_ fun z hz hne => ?_⟩
  · by_cases hgh : g = h
    · subst hgh
      rw [Function.update_self]
      exact hedit
    · rw [Function.update_of_ne hgh]
      exact List.replace_of_not_mem ((r.own_of_mem hh hx).2 g hg hgh)
  · simp [Table.replaced]
  · simp [Table.replaced, RingCall.retag, Function.update_apply]
  · have hin : new ∈ (R h).replace old new := hedit ▸ List.mem_append_right l₁ List.mem_cons_self
    exact fresh h hh (List.mem_cons_of_mem h (same ▸ hin))
  · rintro _ ⟨⟩
    exact fresh
  · refine Table.replaced_of_ne _ ?_ ?_ ?_ kind
    · rintro rfl
      exact hz hmem.1
    · rintro rfl
      exact hz hmem.2
    · rintro rfl
      exact hne rfl

end Effects

def Pool.Loose (p : Pool) (heads : Set Nat) (R : Nat → List Nat) (x : Nat) : Prop :=
  (∃ i < p.pageCount, p.page i = x) ∧ ∀ h ∈ heads, x ∉ h :: R h

def RingCall.Allowed (p : Pool) (heads : Set Nat) (R : Nat → List Nat) : RingCall → Prop
  | push head node _ => head ∈ heads ∧ p.Loose heads R node
  | unlink node | retire node _ => ∃ h ∈ heads, node ∈ R h
  | replace old new _ => (∃ h ∈ heads, old ∈ R h) ∧ p.Loose heads R new

namespace Pool.Threaded

variable {p : Pool} {heads : Set Nat} {d d' : Table} {R : Nat → List Nat} {h x : Nat}

theorem after {call : RingCall} (t : p.Threaded heads d R) (allowed : call.Allowed p heads R)
    (e : call.Effect heads R d d') : p.Threaded heads d' fun h => call.edit h (R h) := by
  refine ⟨e.rings, t.heads_lt, fun h hh x hx => ?_⟩
  cases call with
  | push head node kind =>
    simp only [RingCall.edit] at hx
    split at hx
    · rcases List.mem_cons.1 hx with rfl | hx
      · exact allowed.2.1
      · exact t.pages h hh x hx
    · exact t.pages h hh x hx
  | unlink node => exact t.pages h hh x (List.mem_of_mem_erase hx)
  | replace old new kind =>
    rcases mem_of_mem_replace hx with rfl | hx
    · exact allowed.2.1
    · exact t.pages h hh x hx
  | retire node kind => exact t.pages h hh x (List.mem_of_mem_erase hx)

/-- Each call makes its edit, whichever of the nodes around it coincide. -/
theorem run_call {s : Arena} (t : p.Threaded heads (table s.memory) R) (hp : p.Placed)
    (call : RingCall) (allowed : call.Allowed p heads R) :
    ∃ m' d', call.run p s = .ok () (s.withMemory m') ∧ Tabled p.nodes s.memory m' d' ∧
      call.Effect heads R (table s.memory) d' := by
  cases call with
  | push head node kind =>
    obtain ⟨hh, ⟨i, hi, rfl⟩, fresh⟩ := allowed
    obtain ⟨m', run, tabled⟩ := pushFront_run hp (t.heads_lt head hh) (page_lt_nodes hi)
      (t.mem_lt hh (headD_mem_cons (R head) head)) kind s (t.rings.ring head hh).next_sentinel
    exact ⟨m', _, run, tabled, t.rings.effect_push hh fresh kind⟩
  | unlink node =>
    obtain ⟨h, hh, hx⟩ := allowed
    obtain ⟨b, a, ⟨hb, ha⟩, hlinks, effect⟩ := t.rings.effect_unlink hh hx
    obtain ⟨m', run, tabled⟩ := unlink_run hp (t.mem_lt hh (List.mem_cons_of_mem h hx))
      (t.mem_lt hh hb) (t.mem_lt hh ha) s hlinks.1 hlinks.2
    exact ⟨m', _, run, tabled, effect⟩
  | replace old new kind =>
    obtain ⟨⟨h, hh, hx⟩, ⟨i, hi, rfl⟩, fresh⟩ := allowed
    obtain ⟨b, a, ⟨hb, ha⟩, hlinks, effect⟩ := t.rings.effect_replace hh hx fresh kind
    obtain ⟨m', run, tabled⟩ := replace_run hp (t.mem_lt hh (List.mem_cons_of_mem h hx))
      (page_lt_nodes hi) (t.mem_lt hh hb) (t.mem_lt hh ha) kind s hlinks.1 hlinks.2
    exact ⟨m', _, run, tabled, effect⟩
  | retire node kind =>
    obtain ⟨h, hh, hx⟩ := allowed
    obtain ⟨b, a, ⟨hb, ha⟩, hlinks, effect⟩ := t.rings.effect_retire hh hx kind
    obtain ⟨m', run, tabled⟩ := retire_run hp (t.mem_lt hh (List.mem_cons_of_mem h hx))
      (t.mem_lt hh hb) (t.mem_lt hh ha) kind s hlinks.1 hlinks.2
    exact ⟨m', _, run, tabled, effect⟩

/-- A call on any number of lists edits their sequences, walks find the edited sequences, and all
else is as it was, in the table and outside it. -/
theorem call_edits_lists {s : Arena} (t : p.Threaded heads (table s.memory) R) (hp : p.Placed)
    (call : RingCall) (allowed : call.Allowed p heads R) :
    ∃ m', call.run p s = .ok () (s.withMemory m') ∧
      call.Effect heads R (table s.memory) (table m') ∧
      p.Threaded heads (table m') (fun h => call.edit h (R h)) ∧
      (∀ h ∈ heads, p.Visits (s.withMemory m') h (call.edit h (R h))) ∧
      ∀ i, i < 10 ∨ 10 + 3 * p.nodes ≤ i → m'.word i = s.memory.word i := by
  obtain ⟨m', d', run, tabled, effect⟩ := t.run_call hp call allowed
  rw [← tabled.table_eq] at effect
  have threaded := t.after allowed effect
  exact ⟨m', run, effect, threaded,
    fun h hh => visits (s := s.withMemory m') threaded hp hh, tabled.elsewhere⟩

/-- A fresh pool has one run, and the sentinel is before and after it; a page in the middle of the
run takes its place. -/
theorem call_edits_lists_onHost : ∃ s m',
    onHost.Threaded onHost.heads (table s.memory) (onHost.ringOf (Ledger.fresh 15)) ∧
    onHost.Placed ∧
    (RingCall.replace (onHost.page 0) (onHost.page 3) .exact).Allowed onHost onHost.heads
      (onHost.ringOf (Ledger.fresh 15)) ∧
    onHost.replace (nodeOffset (onHost.page 0)) (nodeOffset (onHost.page 3)) .exact s =
      .ok () (s.withMemory m') ∧
    onHost.Visits (s.withMemory m') 0 [onHost.page 3] := by
  obtain ⟨s, h⟩ := init_onHost
  obtain ⟨hp, f⟩ := follows_init (by decide) h
  have co := f.steady.toCoherent
  have t : onHost.Threaded onHost.heads (table s.memory) (onHost.ringOf (Ledger.fresh 15)) :=
    f.stores.encodes.threaded co
  have loose : ¬(Ledger.fresh 15).Linked 3 := by
    rintro (⟨r, hr, hfirst⟩ | ⟨_, hlisted⟩)
    · cases List.mem_singleton.1 hr
      cases hfirst
    · cases hlisted
  have allowed : (RingCall.replace (onHost.page 0) (onHost.page 3) .exact).Allowed onHost
      onHost.heads (onHost.ringOf (Ledger.fresh 15)) :=
    ⟨⟨0, zero_mem_heads onHost, List.mem_singleton_self _⟩, ⟨3, by decide, rfl⟩,
      not_mem_rings co loose⟩
  obtain ⟨m', run, _, _, visits, _⟩ := call_edits_lists t hp _ allowed
  exact ⟨s, m', t, hp, allowed, run, visits 0 (zero_mem_heads onHost)⟩

end Pool.Threaded

end SharedSlab.Slab
