import SharedSlab.Proofs.Processes

set_option autoImplicit false

namespace SharedSlab

namespace Process

variable {self : Caller} {st : Process} {H : Host} {h : SharedPool} {c : Counters} {i : Nat}
  {s old : Slot} {slots : List Slot}

def claims (self : Caller) (slots : List Slot) (i : Nat) : Option (String × Nat) :=
  slots[i]?.bind (Slot.claim self)

theorem claims_eq_some_iff {n : String} {id : Nat} : claims self slots i = some (n, id) ↔
    ∃ (h : SharedPool) (c : Counters), slots[i]? = some (.live h c) ∧ h.HasMade self n ∧
      h.mapping.id = id := by
  constructor
  · intro claimed
    obtain ⟨s, there, claim⟩ := Option.bind_eq_some_iff.1 claimed
    cases s with
    | live h c =>
      obtain ⟨made, same⟩ := SharedPool.claim_eq_some_iff.1 claim
      exact ⟨h, c, there, made, same⟩
    | released rest => cases claim
    | gone => cases claim
  · rintro ⟨h, c, live, made, same⟩
    rw [claims, live]
    exact (SharedPool.claim_eq_some_iff (c := c)).2 ⟨made, same⟩

theorem claims_set (h : slots[i]? = some old) (s : Slot) :
    claims self (slots.set i s) = Function.update (claims self slots) i (s.claim self) := by
  obtain ⟨hi, _⟩ := List.getElem?_eq_some_iff.1 h
  funext j
  rw [claims, List.getElem?_set]
  by_cases hj : j = i
  · rw [hj, if_pos rfl, if_pos hi, Function.update_self]
    rfl
  · rw [if_neg (Ne.symm hj), Function.update_of_ne hj]
    rfl

theorem claims_length (self : Caller) (slots : List Slot) :
    claims self slots slots.length = none := by
  rw [claims, List.getElem?_eq_none (le_refl _)]
  rfl

theorem claims_concat (self : Caller) (slots : List Slot) (s : Slot) :
    claims self (slots ++ [s]) =
      Function.update (claims self slots) slots.length (s.claim self) := by
  funext j
  rw [claims, List.getElem?_append]
  by_cases hj : j = slots.length
  · rw [hj, if_neg (Nat.lt_irrefl _), Nat.sub_self, Function.update_self]
    rfl
  · rw [Function.update_of_ne hj, claims]
    by_cases hlt : j < slots.length
    · rw [if_pos hlt]
    · rw [if_neg hlt, List.getElem?_eq_none (not_lt.1 hlt), List.getElem?_eq_none]
      rw [List.length_singleton]
      omega

/-- The names are those that live handles have created, and can be opened; each live handle works on
a pool in use; what is left of a released handle has no name. -/
structure Sound (me : Caller) (st : Process) : Prop where
  unlimited : st.host.Unlimited
  placeable : st.host.Placeable
  opened : ∀ h c, .live h c ∈ st.slots → ∃ m, h.Open st.host m
  registry : Registered (fun n => st.host.names.lookup n) (claims me st.slots)
  opens : ∀ n id, st.host.names.lookup n = some id → st.host.limits.openFailure n = none
  released : ∀ rest, .released rest ∈ st.slots → rest.object = none

/-- A handle that the act does not let go stays, and so do its bytes if no handle on them is
called. -/
structure Kept (st : Process) (a : Act) (st' : Process) : Prop where
  stays : ∀ (j : Nat) (g : SharedPool) (d : Counters), st.slots[j]? = some (.live g d) →
    a.closed? ≠ some j → ∃ e, st'.slots[j]? = some (.live g e)
  bytes : ∀ (j : Nat) (g : SharedPool) (d : Counters), st.slots[j]? = some (.live g d) →
    (∀ (i : Nat) (h : SharedPool) (c : Counters), a.called? = some i →
      st.slots[i]? = some (.live h c) → h.mapping.id ≠ g.mapping.id) →
    st'.host.objects[g.mapping.id]? = st.host.objects[g.mapping.id]?

namespace Sound

theorem start {limits : Limits}
    (unlimited : ∀ anonymous len, limits.mapFailure anonymous len = none) :
    (start limits).Sound self where
  unlimited := unlimited
  placeable := ⟨Nat.succ_pos _, (by decide : 0x10000 % 8 = 0)⟩
  opened _ _ hmem := nomatch hmem
  registry := by
    constructor
    · exact fun n id => iff_of_false nofun fun ⟨_, claimed⟩ => nomatch claimed
    · exact fun _ _ _ _ _ claimed => nomatch claimed
  opens _ _ named := nomatch named
  released _ hmem := nomatch hmem

theorem keeps (so : st.Sound self) (k : st.host.Keeps H) : Sound self ⟨H, st.slots⟩ where
  unlimited := k.unlimited so.unlimited
  placeable := k.placeable so.placeable
  opened h c hmem := by
    obtain ⟨m, v⟩ := so.opened h c hmem
    exact ⟨m, v.grows k.toGrows⟩
  registry := so.registry.congr k.names
  opens n id named := by
    rw [k.limits]
    exact so.opens n id ((k.names n).symm.trans named)
  released := so.released

theorem concat (so : st.Sound self) (g : st.host.Grows H) {m : Memory} (v : h.Open H m)
    (registry : Registered (fun n => H.names.lookup n)
      (Function.update (claims self st.slots) st.slots.length ((Slot.live h c).claim self)))
    (opens : ∀ n id, H.names.lookup n = some id → H.limits.openFailure n = none) :
    Sound self ⟨H, st.slots ++ [.live h c]⟩ where
  unlimited := g.unlimited so.unlimited
  placeable := g.placeable so.placeable
  opened g' c' hmem := by
    rcases List.mem_append.1 hmem with hmem | hmem
    · obtain ⟨m', w⟩ := so.opened g' c' hmem
      exact ⟨m', w.grows g⟩
    · cases List.mem_singleton.1 hmem
      exact ⟨m, v⟩
  registry := by
    rw [claims_concat]
    exact registry
  opens := opens
  released rest hmem := by
    rcases List.mem_append.1 hmem with hmem | hmem
    · exact so.released rest hmem
    · cases List.mem_singleton.1 hmem

theorem attached (so : st.Sound self) {g : SharedPool} {m : Memory}
    (found : SharedPool.Found st.host H h g m) : Sound self ⟨H, st.slots ++ [.live g ⟨0, 0⟩]⟩ := by
  have unclaimed : (Slot.live g ⟨0, 0⟩).claim self = none :=
    if_neg (Bool.eq_false_iff.1 (found.foreign self))
  have kept := so.keeps found.keeps
  apply so.concat found.keeps.toGrows found.opened
  · rw [unclaimed, ← claims_length self st.slots, Function.update_eq_self]
    exact kept.registry
  · exact kept.opens

theorem made (so : st.Sound self) {name : Option String} (m : h.Made self st.host H name)
    (free : st.host.Free name) : Sound self ⟨H, st.slots ++ [.live h ⟨0, 0⟩]⟩ := by
  obtain ⟨bytes, opened⟩ := m.opened
  have claim : (Slot.live h ⟨0, 0⟩).claim self = h.name?.map fun n => (n, h.mapping.id) :=
    if_pos m.created
  have idle := claims_length self st.slots
  have naming := m.naming
  generalize hobject : h.object = object at naming
  cases naming with
  | unnamed names =>
    have unclaimed : (Slot.live h ⟨0, 0⟩).claim self = none := by
      rw [claim, SharedPool.name?, hobject]
      rfl
    apply so.concat m.grows opened
    · rw [unclaimed, ← idle, Function.update_eq_self]
      exact so.registry.congr names
    · intro n id named
      rw [m.grows.limits]
      exact so.opens n id ((names n).symm.trans named)
  | @named raw n normal opens names =>
    have claimed : (Slot.live h ⟨0, 0⟩).claim self = some (n, st.host.objects.size) := by
      rw [claim, SharedPool.name?, hobject, m.id]
      rfl
    apply so.concat m.grows opened
    · rw [claimed]
      exact so.registry.add idle (free n normal) names
    · intro k id named
      rw [names, Host.named] at named
      rw [m.grows.limits]
      by_cases hk : k = n
      · rw [hk]
        exact opens
      · rw [if_neg hk] at named
        exact so.opens k id named

theorem admits_free (so : st.Sound self) {name : Option String}
    (admitted : st.admits self name = true) : st.host.Free name := by
  cases name with
  | none => trivial
  | some raw =>
    intro n normal
    rw [admits, normal] at admitted
    cases named : st.host.names.lookup n with
    | none => rfl
    | some id =>
      obtain ⟨i, claimed⟩ := (so.registry.lookup n id).1 named
      obtain ⟨s, there, hclaim⟩ := Option.bind_eq_some_iff.1 claimed
      have other := List.all_eq_true.1 admitted s (List.mem_of_getElem? there)
      rw [hclaim] at other
      simp at other

theorem call (so : st.Sound self) {m n : Memory} (live : st.slots[i]? = some (.live h c))
    (v : h.Open st.host m) (writes : st.host.Writes H h.mapping.id n) (use : h.pool.InUse n)
    (d : Counters) : Sound self ⟨H, st.slots.set i (.live h d)⟩ := by
  have opened : ∀ g e, .live g e ∈ st.slots → ∃ k, g.Open H k := by
    intro g e hmem
    obtain ⟨m', w⟩ := so.opened g e hmem
    exact w.of_writes v writes use
  obtain ⟨k, stored, _⟩ := writes
  constructor
  case unlimited =>
    intro anonymous len
    rw [stored.limits]
    exact so.unlimited anonymous len
  case placeable =>
    rw [Host.Placeable, stored.top]
    exact so.placeable
  case opened =>
    intro g e hmem
    rcases List.mem_or_eq_of_mem_set hmem with hmem | heq
    · exact opened g e hmem
    · cases heq
      exact opened h c (List.mem_of_getElem? live)
  case registry =>
    -- a call counts, and leaves the handle as it is
    have same : (Slot.live h d).claim self = claims self st.slots i := by
      rw [claims, live]
      rfl
    rw [claims_set live, same, Function.update_eq_self, stored.names]
    exact so.registry
  case opens =>
    rw [stored.names, stored.limits]
    exact so.opens
  case released =>
    intro rest hmem
    rcases List.mem_or_eq_of_mem_set hmem with hmem | heq
    · exact so.released rest hmem
    · cases heq

theorem close (so : st.Sound self) (there : st.slots[i]? = some old)
    (closed : s = .gone ∨ ∃ rest, s = .released rest ∧ rest.object = none) :
    Sound self ⟨old.letGo self st.host, st.slots.set i s⟩ := by
  obtain ⟨limits, objects, top, names⟩ := old.letGo_eq self st.host
  have unclaimed : s.claim self = none := by
    rcases closed with rfl | ⟨_, rfl, _⟩ <;> rfl
  have claimed : claims self st.slots i = old.claim self := by
    rw [claims, there]
    rfl
  constructor
  case unlimited =>
    intro anonymous len
    rw [limits]
    exact so.unlimited anonymous len
  case placeable =>
    rw [Host.Placeable, top]
    exact so.placeable
  case opened =>
    intro g e hmem
    rcases List.mem_or_eq_of_mem_set hmem with hmem | heq
    · obtain ⟨m, v⟩ := so.opened g e hmem
      exact ⟨m, objects ▸ v.object, v.region, v.use⟩
    · rcases closed with rfl | ⟨_, rfl, _⟩ <;> cases heq
  case registry =>
    rw [claims_set there, unclaimed]
    cases claim : old.claim self with
    | none =>
      -- nothing was claimed, and nothing is
      rw [← claim, ← claimed, Function.update_eq_self, Slot.letGo, claim]
      exact so.registry
    | some entry =>
      apply so.registry.remove (claimed.trans claim)
      intro m
      rw [Slot.letGo, claim]
      exact Host.lookup_filter _ _ _
  case opens =>
    intro n id named
    rw [limits]
    exact so.opens n id (names n id named)
  case released =>
    intro rest hmem
    rcases List.mem_or_eq_of_mem_set hmem with hmem | heq
    · exact so.released rest hmem
    · rcases closed with rfl | ⟨_, rfl, nameless⟩
      · cases heq
      · cases heq
        exact nameless

theorem named_of_live (so : st.Sound self) (hmem : .live h c ∈ st.slots) (n : String) (id : Nat)
    (claim : (Slot.live h c).claim self = some (n, id)) : st.host.names.lookup n = some id := by
  obtain ⟨i, live⟩ := List.getElem?_of_mem hmem
  obtain ⟨made, same⟩ := SharedPool.claim_eq_some_iff.1 claim
  exact (so.registry.lookup n id).2 ⟨i, claims_eq_some_iff.2 ⟨h, c, live, made, same⟩⟩

theorem named_of_made (so : st.Sound self) {n : String} (hmem : .live h c ∈ st.slots)
    (made : h.HasMade self n) : st.host.names.lookup n = some h.mapping.id :=
  so.named_of_live hmem n h.mapping.id (SharedPool.claim_eq_some_iff.2 ⟨made, rfl⟩)

theorem closes (so : st.Sound self) (hmem : .live h c ∈ st.slots) :
    h.Closes self st.host ((Slot.live h c).letGo self st.host) :=
  .letGo (so.named_of_live hmem)

theorem get_named (so : st.Sound self) {raw n : String} (hmem : .live h c ∈ st.slots)
    (made : h.HasMade self n) (normal : Host.normalizeName raw = .ok n) (o : PoolOptions) :
    ∃ m, h.Open st.host m ∧
      if o.slab = h.pool.config then
        ∃ g H, SharedPool.attach self raw o st.host = .ok (.ok g) H ∧
          SharedPool.Found st.host H h g m
      else ∃ H, SharedPool.attach self raw o st.host = .ok (.error .invalidRegion) H ∧
        st.host.Keeps H := by
  obtain ⟨m, v⟩ := so.opened h c hmem
  have named := so.named_of_made hmem made
  exact ⟨m, v, SharedPool.attach_named v self so.unlimited so.placeable normal
    (so.opens n h.mapping.id named) named o⟩

/-- A name that is no object's leads nowhere, and there is a creator of any other. -/
theorem free_or_live (so : st.Sound self) (raw : String) :
    st.host.Free (some raw) ∨ ∃ (n : String) (h : SharedPool) (c : Counters),
      Host.normalizeName raw = .ok n ∧ .live h c ∈ st.slots ∧ h.HasMade self n := by
  cases normal : Host.normalizeName raw with
  | error e =>
    apply Or.inl
    intro n hn
    cases normal.symm.trans hn
  | ok n =>
    cases named : st.host.names.lookup n with
    | none =>
      apply Or.inl
      intro k hk
      cases normal.symm.trans hk
      exact named
    | some id =>
      apply Or.inr
      obtain ⟨i, claimed⟩ := (so.registry.lookup n id).1 named
      obtain ⟨h, c, live, made, _⟩ := claims_eq_some_iff.1 claimed
      exact ⟨n, h, c, rfl, List.mem_of_getElem? live, made⟩

theorem kept_of_grows (so : st.Sound self) (g : st.host.Grows H) (a : Act)
    (stays : ∀ (j : Nat) s, st.slots[j]? = some s → slots[j]? = some s) :
    st.Kept a ⟨H, slots⟩ where
  stays j h d there _ := ⟨d, stays j _ there⟩
  bytes j h d there _ := by
    obtain ⟨m, v⟩ := so.opened h d (List.mem_of_getElem? there)
    obtain ⟨hid, _⟩ := Array.getElem?_eq_some_iff.1 v.object
    exact g.objects _ hid

theorem kept_concat (so : st.Sound self) (g : st.host.Grows H) (a : Act) (s : Slot) :
    st.Kept a ⟨H, st.slots ++ [s]⟩ := by
  apply so.kept_of_grows g
  intro j t there
  obtain ⟨hj, _⟩ := List.getElem?_eq_some_iff.1 there
  exact (List.getElem?_append_left hj).trans there

theorem kept_idle (so : st.Sound self) (k : st.host.Keeps H) (a : Act) :
    st.Kept a ⟨H, st.slots⟩ :=
  so.kept_of_grows k.toGrows a fun _ _ there => there

theorem kept_call {a : Act} {n : Memory} (live : st.slots[i]? = some (.live h c))
    (writes : st.host.Writes H h.mapping.id n) (called : a.called? = some i) (e : Counters) :
    st.Kept a ⟨H, st.slots.set i (.live h e)⟩ where
  stays j g d there _ := by
    by_cases hj : i = j
    · subst hj
      cases live.symm.trans there
      obtain ⟨hi, _⟩ := List.getElem?_eq_some_iff.1 live
      exact ⟨e, List.getElem?_set_self hi⟩
    · exact ⟨d, (List.getElem?_set_ne hj).trans there⟩
  bytes j g d there other := by
    obtain ⟨k, stored, _⟩ := writes
    exact stored.others _ (other i h c called live).symm

theorem kept_close {a : Act} (self : Caller) (old s : Slot) (closed : a.closed? = some i) :
    st.Kept a ⟨old.letGo self st.host, st.slots.set i s⟩ where
  stays j g d there stays := by
    have hj : i ≠ j := fun heq => stays (heq ▸ closed)
    exact ⟨d, (List.getElem?_set_ne hj).trans there⟩
  bytes j g d _ _ := by
    obtain ⟨_, objects, _⟩ := old.letGo_eq self st.host
    rw [objects]

end Sound

theorem upon_run {α : Type} {run : HostM α} {a : α} (done : run st.host = .ok a H)
    (slots : α → List Slot) : st.upon run slots = .ok ⟨H, slots a⟩ := by
  rw [upon, done]

/-- The act is done, and what is known of the process holds of `st'` again. -/
structure Does (me : Caller) (st : Process) (a : Act) (st' : Process) : Prop where
  act : st.act me a = .ok st'
  sound : st'.Sound me
  kept : st.Kept a st'

namespace Does

theorem cons {a : Act} {acts : List Act} {st₁ st₂ : Process} (does : Does self st a st₁)
    (rest : acts.foldlM (Process.act self) st₁ = .ok st₂) :
    (a :: acts).foldlM (Process.act self) st = .ok st₂ := by
  rw [List.foldlM_cons, Checked.bind_run does.act]
  exact rest

variable {raw n : String} {name : Option String} {size address : Nat} {o : PoolOptions}
  {g : SharedPool} {m : Memory} (so : st.Sound self)
include so

theorem idle {a : Act} (unasked : st.act self a = .ok st) : Does self st a st :=
  ⟨unasked, so, so.kept_idle (.refl st.host) a⟩

theorem create_refused {e : PoolError} (admitted : st.admits self name = true)
    (run : SharedPool.create self name size o st.host = .ok (.error e) H)
    (keeps : st.host.Keeps H) : Does self st (.create name size o) ⟨H, st.slots⟩ where
  act := by
    rw [Process.act, if_pos admitted]
    exact upon_run run _
  sound := so.keeps keeps
  kept := so.kept_idle keeps _

theorem create_done (admitted : st.admits self name = true)
    (run : SharedPool.create self name size o st.host = .ok (.ok h) H)
    (made : h.Made self st.host H name) :
    Does self st (.create name size o) ⟨H, st.slots ++ [.live h ⟨0, 0⟩]⟩ where
  act := by
    rw [Process.act, if_pos admitted]
    exact upon_run run _
  sound := so.made made (so.admits_free admitted)
  kept := so.kept_concat made.grows _ _

theorem get_refused {e : PoolError} (run : SharedPool.attach self raw o st.host = .ok (.error e) H)
    (keeps : st.host.Keeps H) : Does self st (.get raw o) ⟨H, st.slots⟩ where
  act := upon_run run _
  sound := so.keeps keeps
  kept := so.kept_idle keeps _

theorem get_done (run : SharedPool.attach self raw o st.host = .ok (.ok g) H)
    (found : SharedPool.Found st.host H h g m) :
    Does self st (.get raw o) ⟨H, st.slots ++ [.live g ⟨0, 0⟩]⟩ where
  act := upon_run run _
  sound := so.attached found
  kept := so.kept_concat found.keeps.toGrows _ _

section Live

variable (live : st.slots[i]? = some (.live h c))
include live

theorem called {a : Act} {m n : Memory} {d : Counters} (v : h.Open st.host m)
    (writes : st.host.Writes H h.mapping.id n) (use : h.pool.InUse n) (calls : a.called? = some i)
    (done : st.act self a = .ok ⟨H, st.slots.set i (.live h d)⟩) :
    Does self st a ⟨H, st.slots.set i (.live h d)⟩ :=
  ⟨done, so.call live v writes use d, Sound.kept_call live writes calls d⟩

theorem alloc (size : Nat) :
    ∃ H d, Does self st (.alloc i size) ⟨H, st.slots.set i (.live h d)⟩ := by
  obtain ⟨m, v⟩ := so.opened h c (List.mem_of_getElem? live)
  have works := v.works self c
  rcases Nat.eq_zero_or_pos size with rfl | pos
  · obtain ⟨H, run, writes⟩ := works.nothing
    refine ⟨H, c, called so live v writes v.use rfl ?_⟩
    rw [Process.act, live]
    exact upon_run run _
  · obtain ⟨found, t, H, _, run, writes, use⟩ := works.alloc size pos
    refine ⟨H, c.count (.offset found), called so live v writes use rfl ?_⟩
    rw [Process.act, live]
    exact upon_run run _

theorem free (address : Nat) :
    ∃ H d, Does self st (.free i address) ⟨H, st.slots.set i (.live h d)⟩ := by
  obtain ⟨m, v⟩ := so.opened h c (List.mem_of_getElem? live)
  obtain ⟨outcome, t, H, _, run, writes, use⟩ := (v.works self c).free address
  refine ⟨H, c.count (.freed outcome), called so live v writes use rfl ?_⟩
  rw [Process.act, live]
  exact upon_run run _

theorem release : Does self st (.release i)
    ⟨(Slot.live h c).letGo self st.host, st.slots.set i (.released h.unnamed)⟩ where
  act := by
    rw [Process.act, live]
    exact upon_run (so.closes (List.mem_of_getElem? live)).release _
  sound := so.close live (.inr ⟨_, rfl, rfl⟩)
  kept := Sound.kept_close self _ _ rfl

theorem drop : Does self st (.drop i)
    ⟨(Slot.live h c).letGo self st.host, st.slots.set i .gone⟩ where
  act := by
    rw [Process.act, live]
    exact upon_run (so.closes (List.mem_of_getElem? live)).drop _
  sound := so.close live (.inl rfl)
  kept := Sound.kept_close self _ _ rfl

theorem destroy : Does self st (.destroy i)
    ⟨(Slot.live h c).letGo self st.host, st.slots.set i .gone⟩ where
  act := by
    rw [Process.act, live]
    exact upon_run (so.closes (List.mem_of_getElem? live)).destroy _
  sound := so.close live (.inl rfl)
  kept := Sound.kept_close self _ _ rfl

end Live

theorem drop_rest {rest : SharedPool} (left : st.slots[i]? = some (.released rest)) :
    Does self st (.drop i) ⟨st.host, st.slots.set i .gone⟩ where
  act := by
    have nameless := so.released rest (List.mem_of_getElem? left)
    rw [Process.act, left]
    exact upon_run (SharedPool.drop_unnamed self nameless st.host) _
  sound := so.close left (.inl rfl)
  kept := Sound.kept_close self (.released rest) _ rfl

end Does

namespace Sound

theorem act (so : st.Sound self) (a : Act) : ∃ st', Does self st a st' := by
  cases a with
  | create name size o =>
    by_cases admitted : st.admits self name = true
    · have free := so.admits_free admitted
      rcases SharedPool.create_spec self so.unlimited so.placeable free size o with
        ⟨e, H, run, keeps⟩ | ⟨h, H, run, made⟩
      · exact ⟨_, .create_refused so admitted run keeps⟩
      · exact ⟨_, .create_done so admitted run made⟩
    · exact ⟨st, .idle so (by rw [Process.act, if_neg admitted])⟩
  | get raw o =>
    rcases so.free_or_live raw with free | ⟨n, h, c, normal, hmem, made⟩
    · obtain ⟨e, H, run, keeps⟩ := SharedPool.attach_missing self free o
      exact ⟨_, .get_refused so run keeps⟩
    · obtain ⟨m, _, spec⟩ := so.get_named hmem made normal o
      split at spec
      · obtain ⟨g, H, run, found⟩ := spec
        exact ⟨_, .get_done so run found⟩
      · obtain ⟨H, run, keeps⟩ := spec
        exact ⟨_, .get_refused so run keeps⟩
  | alloc i size =>
    cases slot : st.slots[i]? with
    | some s =>
      cases s with
      | live h c =>
        obtain ⟨H, d, does⟩ := Does.alloc so slot size
        exact ⟨_, does⟩
      | released _ | gone => exact ⟨st, .idle so (by rw [Process.act, slot])⟩
    | none => exact ⟨st, .idle so (by rw [Process.act, slot])⟩
  | free i address =>
    cases slot : st.slots[i]? with
    | some s =>
      cases s with
      | live h c =>
        obtain ⟨H, d, does⟩ := Does.free so slot address
        exact ⟨_, does⟩
      | released _ | gone => exact ⟨st, .idle so (by rw [Process.act, slot])⟩
    | none => exact ⟨st, .idle so (by rw [Process.act, slot])⟩
  | release i =>
    cases slot : st.slots[i]? with
    | some s =>
      cases s with
      | live h c => exact ⟨_, .release so slot⟩
      | released _ | gone => exact ⟨st, .idle so (by rw [Process.act, slot])⟩
    | none => exact ⟨st, .idle so (by rw [Process.act, slot])⟩
  | drop i =>
    cases slot : st.slots[i]? with
    | some s =>
      cases s with
      | live h c => exact ⟨_, .drop so slot⟩
      | released rest => exact ⟨_, .drop_rest so slot⟩
      | gone => exact ⟨st, .idle so (by rw [Process.act, slot])⟩
    | none => exact ⟨st, .idle so (by rw [Process.act, slot])⟩
  | destroy i =>
    cases slot : st.slots[i]? with
    | some s =>
      cases s with
      | live h c => exact ⟨_, .destroy so slot⟩
      | released _ | gone => exact ⟨st, .idle so (by rw [Process.act, slot])⟩
    | none => exact ⟨st, .idle so (by rw [Process.act, slot])⟩

theorem play {limits : Limits} (unlimited : ∀ anonymous len, limits.mapFailure anonymous len = none)
    (acts : List Act) : ∃ st, Process.play self limits acts = .ok st ∧ st.Sound self := by
  -- the first act is done first, so the state is any sound one
  have run : ∀ (acts : List Act) {st : Process}, st.Sound self →
      ∃ st', acts.foldlM (Process.act self) st = .ok st' ∧ st'.Sound self := by
    intro acts
    induction acts with
    | nil => exact fun so => ⟨_, rfl, so⟩
    | cons a acts ih =>
      intro st so
      obtain ⟨st₁, does⟩ := so.act a
      obtain ⟨st₂, done, sound⟩ := ih does.sound
      exact ⟨st₂, does.cons done, sound⟩
  exact run acts (start unlimited)

end Sound

end Process

end SharedSlab
