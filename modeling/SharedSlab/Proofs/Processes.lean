import Mathlib.Logic.Function.Basic
import SharedSlab.Proofs.Opening

set_option autoImplicit false

/-!
# Processes with handles

A process creates pools and finds them, calls them, and lets its handles go, in any order. A handle
that goes takes along the name that it has created; calls through it keep all other handles open.
-/

namespace SharedSlab

open Slab

/-- A handle of a process. What the first half of `destroy` leaves of it, the second drops. -/
inductive Slot
  | live (h : SharedPool) (counters : Counters)
  | released (rest : SharedPool)
  | gone

def Slot.claim (self : Caller) : Slot → Option (String × Nat)
  | .live h _ => if h.isCreator self then h.name?.map fun n => (n, h.mapping.id) else none
  | _ => none

/-- `release` is the first half of `destroy`; the second is the drop of what is left. -/
inductive Act
  | create (name : Option String) (size : Nat) (o : PoolOptions)
  | get (name : String) (o : PoolOptions)
  | alloc (i size : Nat)
  | free (i address : Nat)
  | release (i : Nat)
  | drop (i : Nat)
  | destroy (i : Nat)

def Act.called? : Act → Option Nat
  | .alloc i _ | .free i _ => some i
  | _ => none

def Act.closed? : Act → Option Nat
  | .release i | .drop i | .destroy i => some i
  | _ => none

structure Process where
  host : Host
  slots : List Slot

namespace Process

def start (limits : Limits) : Process := ⟨Host.empty limits, []⟩

def admits (self : Caller) (st : Process) : Option String → Bool
  | none => true
  | some raw =>
    match Host.normalizeName raw with
    | .error _ => true
    | .ok n => st.slots.all fun s => (s.claim self).all (·.1 != n)

def upon {α : Type} (st : Process) (run : HostM α) (slots : α → List Slot) :
    Except Fault Process :=
  match run st.host with
  | .ok a host => .ok ⟨host, slots a⟩
  | .error e _ => .error e

def keep (slots : List Slot) : Except PoolError SharedPool → List Slot
  | .ok h => slots ++ [.live h ⟨0, 0⟩]
  | .error _ => slots

/-- Creations under the name of a live creator are left out, and so is what is asked of a handle
that is not there. -/
def act (self : Caller) (st : Process) : Act → Except Fault Process
  | .create name size o =>
    if st.admits self name then st.upon (SharedPool.create self name size o) (keep st.slots)
    else .ok st
  | .get name o => st.upon (SharedPool.attach self name o) (keep st.slots)
  | .alloc i size =>
    match st.slots[i]? with
    | some (.live h c) =>
      st.upon (h.run c (h.alloc self size)) fun answer => st.slots.set i (.live h answer.2)
    | _ => .ok st
  | .free i address =>
    match st.slots[i]? with
    | some (.live h c) =>
      st.upon (h.run c (h.free self address)) fun answer => st.slots.set i (.live h answer.2)
    | _ => .ok st
  | .release i =>
    match st.slots[i]? with
    | some (.live h _) => st.upon (h.release self) fun answer => st.slots.set i (.released answer.2)
    | _ => .ok st
  | .drop i =>
    match st.slots[i]? with
    | some (.live h _) | some (.released h) =>
      st.upon (h.drop self) fun _ => st.slots.set i .gone
    | _ => .ok st
  | .destroy i =>
    match st.slots[i]? with
    | some (.live h _) => st.upon (h.destroy self) fun _ => st.slots.set i .gone
    | _ => .ok st

def play (self : Caller) (limits : Limits) (acts : List Act) : Except Fault Process :=
  acts.foldlM (act self) (start limits)

end Process

/-- Each name has one creator, and leads to its object. -/
structure Registered (names : String → Option Nat) (claims : Nat → Option (String × Nat)) :
    Prop where
  lookup : ∀ n id, names n = some id ↔ ∃ i, claims i = some (n, id)
  unique : ∀ i j n id id', claims i = some (n, id) → claims j = some (n, id') → i = j

namespace Registered

variable {names names' : String → Option Nat} {claims : Nat → Option (String × Nat)} {i id : Nat}
  {n : String}

theorem congr (r : Registered names claims) (same : ∀ m, names' m = names m) :
    Registered names' claims where
  lookup n id := by
    rw [same]
    exact r.lookup n id
  unique := r.unique

theorem not_free (r : Registered names claims) (claimed : claims i = some (n, id)) :
    names n ≠ none := by
  rw [(r.lookup n id).2 ⟨i, claimed⟩]
  exact Option.some_ne_none id

theorem claims_of_update {claim : Option (String × Nat)} {j k : Nat} {m : String}
    (h : Function.update claims i claim j = some (m, k)) :
    j = i ∧ claim = some (m, k) ∨ j ≠ i ∧ claims j = some (m, k) := by
  by_cases hj : j = i
  · rw [hj, Function.update_self] at h
    exact .inl ⟨hj, h⟩
  · rw [Function.update_of_ne hj] at h
    exact .inr ⟨hj, h⟩

theorem add (r : Registered names claims) (idle : claims i = none) (free : names n = none)
    (added : ∀ m, names' m = if m = n then some id else names m) :
    Registered names' (Function.update claims i (some (n, id))) where
  lookup m k := by
    rw [added]
    constructor
    · intro h
      by_cases hm : m = n
      · rw [if_pos hm] at h
        cases h
        exact ⟨i, by rw [Function.update_self, hm]⟩
      · rw [if_neg hm, r.lookup] at h
        obtain ⟨j, hj⟩ := h
        have hji : j ≠ i := by
          rintro rfl
          rw [idle] at hj
          cases hj
        exact ⟨j, (Function.update_of_ne hji ..).trans hj⟩
    · rintro ⟨j, hj⟩
      rcases claims_of_update hj with ⟨_, hclaim⟩ | ⟨_, hclaim⟩
      · cases hclaim
        exact if_pos rfl
      · have hm : m ≠ n := fun heq => r.not_free hclaim (heq ▸ free)
        rw [if_neg hm]
        exact (r.lookup m k).2 ⟨j, hclaim⟩
  unique j k m x y hj hk := by
    rcases claims_of_update hj with ⟨rfl, hclaim⟩ | ⟨_, hclaim⟩
    · rcases claims_of_update hk with ⟨rfl, _⟩ | ⟨_, hclaim'⟩
      · rfl
      · cases hclaim
        exact absurd free (r.not_free hclaim')
    · rcases claims_of_update hk with ⟨rfl, hclaim'⟩ | ⟨_, hclaim'⟩
      · cases hclaim'
        exact absurd free (r.not_free hclaim)
      · exact r.unique j k m x y hclaim hclaim'

theorem remove (r : Registered names claims) (claimed : claims i = some (n, id))
    (removed : ∀ m, names' m = if m = n then none else names m) :
    Registered names' (Function.update claims i none) where
  lookup m k := by
    rw [removed]
    constructor
    · intro h
      by_cases hm : m = n
      · rw [if_pos hm] at h
        cases h
      · rw [if_neg hm, r.lookup] at h
        obtain ⟨j, hj⟩ := h
        have hji : j ≠ i := by
          rintro rfl
          rw [claimed] at hj
          cases hj
          exact hm rfl
        exact ⟨j, (Function.update_of_ne hji ..).trans hj⟩
    · rintro ⟨j, hj⟩
      rcases claims_of_update hj with ⟨_, hclaim⟩ | ⟨hji, hclaim⟩
      · cases hclaim
      · -- another creator of the name would be the one that goes
        have hm : m ≠ n := fun heq => hji (r.unique j i n k id (heq ▸ hclaim) claimed)
        rw [if_neg hm]
        exact (r.lookup m k).2 ⟨j, hclaim⟩
  unique j k m x y hj hk := by
    rcases claims_of_update hj with ⟨_, hclaim⟩ | ⟨_, hclaim⟩
    · cases hclaim
    · rcases claims_of_update hk with ⟨_, hclaim'⟩ | ⟨_, hclaim'⟩
      · cases hclaim'
      · exact r.unique j k m x y hclaim hclaim'

end Registered

def Host.without (H : Host) (n : String) : Host :=
  { H with names := H.names.filter (·.1 != n) }

def Slot.letGo (self : Caller) (s : Slot) (H : Host) : Host :=
  match s.claim self with
  | none => H
  | some (n, _) => H.without n

theorem Slot.letGo_eq (self : Caller) (s : Slot) (H : Host) :
    (s.letGo self H).limits = H.limits ∧ (s.letGo self H).objects = H.objects ∧
      (s.letGo self H).top = H.top ∧
      ∀ n id, (s.letGo self H).names.lookup n = some id → H.names.lookup n = some id := by
  rw [letGo]
  cases s.claim self with
  | none => exact ⟨rfl, rfl, rfl, fun _ _ => id⟩
  | some entry =>
    refine ⟨rfl, rfl, rfl, fun n id named => ?_⟩
    dsimp only [Host.without] at named
    rw [Host.lookup_filter] at named
    split at named
    · cases named
    · exact named

namespace SharedPool

variable {self : Caller} {h : SharedPool} {c : Counters} {H H' : Host} {m n : Memory}
  {name : String} {id : Nat}

theorem Open.grows (v : h.Open H m) (g : H.Grows H') : h.Open H' m := by
  obtain ⟨hid, _⟩ := Array.getElem?_eq_some_iff.1 v.object
  exact ⟨(g.objects _ hid).trans v.object, v.region, v.use⟩

theorem Open.of_writes {g : SharedPool} {m' : Memory} (w : g.Open H m') (v : h.Open H m)
    (writes : H.Writes H' h.mapping.id n) (use : h.pool.InUse n) : ∃ k, g.Open H' k := by
  obtain ⟨k, stored, agree, unlocked⟩ := writes
  by_cases same : g.mapping.id = h.mapping.id
  · have object := w.object
    rw [same, v.object] at object
    injection Option.some.inj object with size bytes
    subst bytes
    -- the other handle is a view of the pool that was called, and reads what that has written
    have view := v.use.eq_inRegion w.use
    have len := v.use.len_eq w.use
    have use' := (use.congr agree unlocked).inRegion len
    rw [← view] at use'
    refine ⟨k, ?_, w.region, use'⟩
    rw [same, ← size]
    exact stored.stored _ v.object
  · exact ⟨m', (stored.others _ same).trans w.object, w.region, w.use⟩

def unnamed (h : SharedPool) : SharedPool := { h with object := none }

def HasMade (h : SharedPool) (me : Caller) (n : String) : Prop :=
  h.isCreator me = true ∧ h.name? = some n

theorem Made.created {raw : Option String} (made : h.Made self H H' raw) :
    h.isCreator self = true := by
  rw [isCreator, made.creator]
  exact beq_self_eq_true _

theorem Made.hasMade {raw : String} (made : h.Made self H H' (some raw))
    (normal : Host.normalizeName raw = .ok name) : h.HasMade self name := by
  have naming := made.naming
  generalize hobject : h.object = object at naming
  cases naming with
  | named normal' _ _ =>
    cases normal.symm.trans normal'
    refine ⟨made.created, ?_⟩
    rw [name?, hobject]
    rfl

theorem claim_eq_some_iff : (Slot.live h c).claim self = some (name, id) ↔
    h.HasMade self name ∧ h.mapping.id = id := by
  rw [Slot.claim]
  constructor
  · intro claimed
    split at claimed
    · rename_i created
      obtain ⟨n, hn, heq⟩ := Option.map_eq_some_iff.1 claimed
      cases heq
      exact ⟨⟨created, hn⟩, rfl⟩
    · cases claimed
  · rintro ⟨⟨created, hn⟩, rfl⟩
    rw [if_pos created, hn]
    rfl

theorem release_run (named : ∀ name id, (Slot.live h c).claim self = some (name, id) →
    H.names.lookup name = some id) :
    h.release self H = .ok (.ok (), h.unnamed) ((Slot.live h c).letGo self H) := by
  rw [release]
  cases object : h.object with
  | none =>
    have unclaimed : (Slot.live h c).claim self = none := by
      rw [Slot.claim, name?, object]
      exact ite_self none
    rw [Slot.letGo, unclaimed]
    rfl
  | some ob =>
    by_cases created : h.isCreator self = true
    · have claimed : (Slot.live h c).claim self = some (ob.name, h.mapping.id) := by
        rw [Slot.claim, name?, object]
        exact if_pos created
      dsimp only
      rw [if_pos created, Host.bind_run (Host.unlinkNormal_run (named _ _ claimed)), Slot.letGo,
        claimed]
      rfl
    · have unclaimed : (Slot.live h c).claim self = none := if_neg created
      dsimp only
      rw [if_neg created, Slot.letGo, unclaimed]
      rfl

theorem drop_unnamed (self : Caller) (nameless : h.object = none) (H : Host) :
    h.drop self H = .ok () H := by
  have released : h.release self H = .ok (.ok (), h.unnamed) H := by
    rw [release, nameless]
    rfl
  rw [drop]
  exact Host.bind_run released

theorem drop_run {answer : Except PoolError Unit} {rest : SharedPool}
    (released : h.release self H = .ok (answer, rest) H') : h.drop self H = .ok () H' := by
  rw [drop]
  exact Host.bind_run released

/-- What is left of a released handle is dropped without any effect. -/
theorem destroy_run {answer : Except PoolError Unit}
    (released : h.release self H = .ok (answer, h.unnamed) H') :
    h.destroy self H = .ok answer H' := by
  rw [destroy, Host.bind_run released]
  exact Host.bind_run (drop_unnamed self rfl H')

/-- Letting go of the handle turns the host into `H'`, in each of the three ways. What a release
leaves has no effect on any later host. -/
structure Closes (h : SharedPool) (me : Caller) (H H' : Host) : Prop where
  release : h.release me H = .ok (.ok (), h.unnamed) H'
  drop : h.drop me H = .ok () H'
  destroy : h.destroy me H = .ok (.ok ()) H'
  rest : ∀ K, h.unnamed.drop me K = .ok () K

theorem Closes.letGo (named : ∀ name id, (Slot.live h c).claim self = some (name, id) →
    H.names.lookup name = some id) : h.Closes self H ((Slot.live h c).letGo self H) where
  release := release_run named
  drop := drop_run (release_run named)
  destroy := destroy_run (release_run named)
  rest := drop_unnamed self rfl

end SharedPool

end SharedSlab
