import SharedSlab.Proofs.CreationFailures
import SharedSlab.Proofs.ProcessHistories

set_option autoImplicit false

namespace SharedSlab

namespace SharedPool

structure Alike (g h : SharedPool) (me : Caller) (H : Host) : Prop where
  size : g.size = h.size
  config : g.config = h.config
  object : g.mapping.id = h.mapping.id
  len : g.mapping.len = h.mapping.len
  snapshot : ∀ c d, ∃ snap H₁ H₂, g.run c (g.snapshot me) H = .ok (snap, c) H₁ ∧
    h.run d (h.snapshot me) H = .ok (snap, d) H₂

variable {me : Caller} {H : Host} {g h : SharedPool} {m : Memory}

theorem Open.alike (v : g.Open H m) (w : h.Open H m) (object : g.mapping.id = h.mapping.id) :
    g.Alike h me H where
  size := w.use.len_eq v.use
  config := w.use.config_eq v.use
  object := object
  len := by rw [← v.len_eq, ← w.len_eq, w.use.len_eq v.use]
  snapshot c d := by
    obtain ⟨snap, H₁, read, run, _⟩ := v.snapshot_works me c
    obtain ⟨snap', H₂, read', run', _⟩ := w.snapshot_works me d
    -- both pools are views of these bytes
    obtain ⟨shown, shows⟩ := v.use.snapshot
    cases read.symm.trans (shows g.pool ⟨m, H.journal⟩ v.use fun _ _ => rfl)
    cases read'.symm.trans (shows h.pool ⟨m, H.journal⟩ w.use fun _ _ => rfl)
    exact ⟨snap, H₁, H₂, run, run'⟩

end SharedPool

namespace Process

/-- The process has created the name through a handle that is live. -/
def Owns (me : Caller) (st : Process) (n : String) (h : SharedPool) : Prop :=
  (∃ c, .live h c ∈ st.slots) ∧ h.HasMade me n

structure NamesLive (me : Caller) (st : Process) : Prop where
  registered : ∀ n id, st.host.names.lookup n = some id ↔
    ∃ h, st.Owns me n h ∧ h.mapping.id = id
  creates : ∀ name size o, st.admits me name = true →
    (∃ e H, SharedPool.create me name size o st.host = .ok (.error e) H ∧
      SharedPool.Ends st.host name size o (.error e) H ∧ st.host.Keeps H) ∨
    ∃ h H, SharedPool.create me name size o st.host = .ok (.ok h) H ∧
      SharedPool.Ends st.host name size o (.ok h) H ∧ h.Made me st.host H name
  finds : ∀ raw n h o, Host.normalizeName raw = .ok n → st.Owns me n h →
    if o.slab = h.config then
      ∃ g H, SharedPool.attach me raw o st.host = .ok (.ok g) H ∧ st.host.Keeps H ∧
        g.isCreator me = false ∧ g.Alike h me H
    else ∃ H, SharedPool.attach me raw o st.host = .ok (.error .invalidRegion) H ∧ st.host.Keeps H
  misses : ∀ raw o, (∀ n, Host.normalizeName raw = .ok n → st.host.names.lookup n = none) →
    ∃ e H, SharedPool.attach me raw o st.host = .ok (.error e) H ∧ st.host.Keeps H
  /-- A handle that was found, or that has no name, leaves all names when it goes. -/
  leaves : ∀ h c, .live h c ∈ st.slots → (∀ n, ¬h.HasMade me n) → h.Closes me st.host st.host
  /-- A creator removes its name, and nothing else. -/
  unlinks : ∀ n h, st.Owns me n h → h.Closes me st.host (st.host.without n)
  works : ∀ h c, .live h c ∈ st.slots → ∃ m, h.Open st.host m ∧ h.Works me st.host c m
  kept : ∀ a st', st.act me a = .ok st' → st.Kept a st'

namespace Sound

variable {me : Caller} {st : Process} {n : String} {h : SharedPool}

theorem registered (so : st.Sound me) (n : String) (id : Nat) :
    st.host.names.lookup n = some id ↔ ∃ h, st.Owns me n h ∧ h.mapping.id = id := by
  rw [so.registry.lookup]
  constructor
  · rintro ⟨i, claimed⟩
    obtain ⟨h, c, live, made, same⟩ := claims_eq_some_iff.1 claimed
    exact ⟨h, ⟨⟨c, List.mem_of_getElem? live⟩, made⟩, same⟩
  · rintro ⟨h, ⟨⟨c, hmem⟩, made⟩, same⟩
    obtain ⟨i, live⟩ := List.getElem?_of_mem hmem
    exact ⟨i, claims_eq_some_iff.2 ⟨h, c, live, made, same⟩⟩

theorem creates (so : st.Sound me) {name : Option String} (admitted : st.admits me name = true)
    (size : Nat) (o : PoolOptions) :
    (∃ e H, SharedPool.create me name size o st.host = .ok (.error e) H ∧
      SharedPool.Ends st.host name size o (.error e) H ∧ st.host.Keeps H) ∨
    ∃ h H, SharedPool.create me name size o st.host = .ok (.ok h) H ∧
      SharedPool.Ends st.host name size o (.ok h) H ∧ h.Made me st.host H name := by
  obtain ⟨answer, H', ended, ends⟩ := SharedPool.create_run me so.placeable name size o
  rcases SharedPool.create_spec me so.unlimited so.placeable (so.admits_free admitted) size o with
    ⟨e, H, run, keeps⟩ | ⟨h, H, run, made⟩
  · cases run.symm.trans ended
    exact .inl ⟨e, H', run, ends, keeps⟩
  · cases run.symm.trans ended
    exact .inr ⟨h, H', run, ends, made⟩

theorem finds (so : st.Sound me) {raw : String} (normal : Host.normalizeName raw = .ok n)
    (owns : st.Owns me n h) (o : PoolOptions) :
    if o.slab = h.config then
      ∃ g H, SharedPool.attach me raw o st.host = .ok (.ok g) H ∧ st.host.Keeps H ∧
        g.isCreator me = false ∧ g.Alike h me H
    else ∃ H, SharedPool.attach me raw o st.host = .ok (.error .invalidRegion) H ∧
      st.host.Keeps H := by
  obtain ⟨⟨c, hmem⟩, made⟩ := owns
  obtain ⟨m, v, spec⟩ := so.get_named hmem made normal o
  rw [SharedPool.config]
  by_cases config : o.slab = h.pool.config
  · rw [if_pos config] at spec
    rw [if_pos config]
    obtain ⟨g, H, run, found⟩ := spec
    exact ⟨g, H, run, found.keeps, found.foreign me,
      found.opened.alike (v.grows found.keeps.toGrows) found.id⟩
  · rw [if_neg config] at spec
    rw [if_neg config]
    exact spec

theorem namesLive (so : st.Sound me) : NamesLive me st where
  registered := so.registered
  creates _ size o admitted := so.creates admitted size o
  finds _ _ _ o normal owns := so.finds normal owns o
  misses _ o free := SharedPool.attach_missing me free o
  leaves h c hmem foreign := by
    have closes := so.closes hmem
    rw [Slot.letGo] at closes
    cases claim : (Slot.live h c).claim me with
    | none =>
      rw [claim] at closes
      exact closes
    | some entry => exact absurd (SharedPool.claim_eq_some_iff.1 claim).1 (foreign entry.1)
  unlinks n h owns := by
    obtain ⟨⟨c, hmem⟩, made⟩ := owns
    have closes := so.closes hmem
    rw [Slot.letGo, SharedPool.claim_eq_some_iff.2 ⟨made, rfl⟩] at closes
    exact closes
  works h c hmem := by
    obtain ⟨m, v⟩ := so.opened h c hmem
    exact ⟨m, v, v.works me c⟩
  kept a st' done := by
    obtain ⟨st'', does⟩ := so.act a
    cases done.symm.trans does.act
    exact does.kept

end Sound

def openLimits : Limits := ⟨fun _ => none, fun _ => none, fun _ _ => none⟩

def opener : Caller := ⟨1, by decide, by decide, fun _ => false⟩

def sharing : List Act := [.create (some "/pool") 4096 .standard, .get "pool" .standard]

def recreation : List Act := [.release 0, .create (some "pool") 4096 .standard, .drop 0, .free 1 0]

section OpenLimits

variable {me : Caller} {st : Process} {raw n : String} {f g : SharedPool}

/-- A name that no creator holds is created where the host refuses nothing. -/
theorem Sound.create_open (so : st.Sound me) (limits : st.host.limits = openLimits)
    (normal : Host.normalizeName raw = .ok n) (admitted : st.admits me (some raw) = true)
    {size len : Nat} {o : PoolOptions} (pos : 0 < size)
    (sized : SharedPool.regionSize? size o = some len) (two : 2 ≤ o.minPages) :
    ∃ h H, Does me st (.create (some raw) size o) ⟨H, st.slots ++ [.live h ⟨0, 0⟩]⟩ ∧
      h.Made me st.host H (some raw) ∧ h.config = o.slab := by
  have named : ∀ e, ¬st.host.RefusesName (some raw) e := by
    rintro e (bad | ⟨normal', closed⟩)
    · cases normal.symm.trans bad
    · rw [limits] at closed
      cases closed
  have granted : ∀ e, ¬st.host.RefusesRegion len (some raw) e := by
    rintro e (closed | ⟨_, closed⟩)
    · rw [limits] at closed
      cases closed
    · rw [limits] at closed
      cases closed
  rcases so.creates admitted size o with ⟨e, H, _, ends, _⟩ | ⟨h, H, run, ends, made⟩
  · obtain ⟨h, done, _⟩ := ends.granted pos sized two named granted
    cases done
  · obtain ⟨_, done, config⟩ := ends.granted pos sized two named granted
    cases done
    exact ⟨h, H, .create_done so admitted run made, made, config⟩

theorem standard_sized : SharedPool.regionSize? 4096 .standard = some 32768 := by decide

/-- `f` has created the name, and `g` has found it. -/
structure Shares (me : Caller) (st : Process) (f g : SharedPool) : Prop where
  sound : st.Sound me
  limits : st.host.limits = openLimits
  slots : st.slots = [.live f ⟨0, 0⟩, .live g ⟨0, 0⟩]
  created : f.HasMade me "/pool"
  foreign : g.isCreator me = false
  same : g.mapping.id = f.mapping.id

theorem sharing_run (me : Caller) : ∃ st f g, play me openLimits sharing = .ok st ∧
    Shares me st f g := by
  have start : Sound me (start openLimits) := .start fun _ _ => rfl
  have normal : Host.normalizeName "/pool" = .ok "/pool" := by decide
  have normal' : Host.normalizeName "pool" = .ok "/pool" := by decide
  obtain ⟨f, H₁, created, made, config⟩ :=
    start.create_open rfl normal rfl (by decide) standard_sized (by decide)
  have maker := made.hasMade normal
  have there : Slot.live f ⟨0, 0⟩ ∈ [Slot.live f ⟨0, 0⟩] := List.mem_singleton_self _
  obtain ⟨m, _, spec⟩ := created.sound.get_named there maker normal' .standard
  rw [SharedPool.config] at config
  rw [if_pos config.symm] at spec
  obtain ⟨g, H₂, run, found⟩ := spec
  have got := Does.get_done created.sound run found
  exact ⟨_, f, g, created.cons (got.cons rfl), got.sound,
    found.keeps.limits.trans made.grows.limits, rfl, maker, found.foreign me, found.id⟩

/-- `g` is left on the first object of the name, which leads to that of `k` now. -/
structure Renews (me : Caller) (st : Process) (g k : SharedPool) (d : Counters) : Prop where
  sound : st.Sound me
  slots : st.slots = [.gone, .live g d, .live k ⟨0, 0⟩]
  created : k.HasMade me "/pool"
  other : k.mapping.id ≠ g.mapping.id

theorem recreation_run (shares : Shares me st f g) :
    ∃ st₁ k d, recreation.foldlM (act me) st = .ok st₁ ∧ Renews me st₁ g k d := by
  have normal : Host.normalizeName "pool" = .ok "/pool" := by decide
  have live : st.slots[0]? = some (.live f ⟨0, 0⟩) := by rw [shares.slots, List.getElem?_cons_zero]
  have released := Does.release shares.sound live
  obtain ⟨limits, objects, _⟩ := (Slot.live f ⟨0, 0⟩).letGo_eq me st.host
  have slots : st.slots.set 0 (.released f.unnamed) =
      [.released f.unnamed, .live g ⟨0, 0⟩] := by rw [shares.slots, List.set_cons_zero]
  rw [slots] at released
  -- neither what is left of the creator nor the handle that was found claims the name
  have unclaimed : (Slot.live g ⟨0, 0⟩).claim me = none :=
    if_neg (Bool.eq_false_iff.1 shares.foreign)
  have admitted : Process.admits me ⟨(Slot.live f ⟨0, 0⟩).letGo me st.host,
      [.released f.unnamed, .live g ⟨0, 0⟩]⟩ (some "pool") = true := by
    rw [admits, normal]
    dsimp only
    rw [List.all_cons, List.all_cons, unclaimed]
    rfl
  obtain ⟨k, H, created, made, _⟩ :=
    released.sound.create_open (limits.trans shares.limits) normal admitted (by decide)
      standard_sized (by decide)
  have dropped := Does.drop_rest (i := 0) created.sound rfl
  obtain ⟨H', d, freed⟩ := Does.free (i := 1) dropped.sound rfl 0
  refine ⟨_, k, d, released.cons (created.cons (dropped.cons (freed.cons rfl))), freed.sound, rfl,
    made.hasMade normal, ?_⟩
  -- the object of the handle that was found is an old one
  have hmem : Slot.live g ⟨0, 0⟩ ∈ st.slots := by
    rw [shares.slots]
    exact List.mem_cons_of_mem _ (List.mem_singleton_self _)
  obtain ⟨m, v⟩ := shares.sound.opened g ⟨0, 0⟩ hmem
  obtain ⟨hid, _⟩ := Array.getElem?_eq_some_iff.1 v.object
  rw [made.id, objects]
  exact hid.ne'

end OpenLimits

/-- Where no mapping is refused, every history of creations, gets, calls and handles let go is
played to its end. -/
theorem names_live_with_creators {limits : Limits}
    (unlimited : ∀ anonymous len, limits.mapFailure anonymous len = none) (me : Caller)
    (acts : List Act) : ∃ st, play me limits acts = .ok st ∧ NamesLive me st := by
  obtain ⟨st, played, so⟩ := Sound.play unlimited acts
  exact ⟨st, played, so.namesLive⟩

/-- A name is created and found; its creator is released, and the name created anew while the handle
that was found is left; what was released is dropped after that. -/
theorem recreated_name_lives : ∃ before f g after k d,
    play opener openLimits sharing = .ok before ∧ NamesLive opener before ∧
      before.slots = [.live f ⟨0, 0⟩, .live g ⟨0, 0⟩] ∧ f.HasMade opener "/pool" ∧
      before.host.names.lookup "/pool" = some f.mapping.id ∧
      g.isCreator opener = false ∧ g.mapping.id = f.mapping.id ∧
    play opener openLimits (sharing ++ recreation) = .ok after ∧ NamesLive opener after ∧
      after.slots = [.gone, .live g d, .live k ⟨0, 0⟩] ∧ k.HasMade opener "/pool" ∧
      after.host.names.lookup "/pool" = some k.mapping.id ∧ k.mapping.id ≠ g.mapping.id := by
  have unlimited : ∀ anonymous len, openLimits.mapFailure anonymous len = none := fun _ _ => rfl
  obtain ⟨before, played, lives⟩ := names_live_with_creators unlimited opener sharing
  obtain ⟨after, played', lives'⟩ :=
    names_live_with_creators unlimited opener (sharing ++ recreation)
  obtain ⟨_, f, g, run, shares⟩ := sharing_run opener
  cases played.symm.trans run
  obtain ⟨_, k, d, run', renews⟩ := recreation_run shares
  have whole : play opener openLimits (sharing ++ recreation) =
      recreation.foldlM (act opener) before := by
    rw [play, List.foldlM_append]
    exact Checked.bind_run run _
  cases played'.symm.trans (whole.trans run')
  have hmem : .live f ⟨0, 0⟩ ∈ before.slots := by
    rw [shares.slots]
    exact List.mem_cons_self
  have hmem' : .live k ⟨0, 0⟩ ∈ after.slots := by
    rw [renews.slots]
    exact List.mem_cons_of_mem _ (List.mem_cons_of_mem _ List.mem_cons_self)
  exact ⟨before, f, g, after, k, d,
    played, lives, shares.slots, shares.created, shares.sound.named_of_made hmem shares.created,
    shares.foreign, shares.same,
    played', lives', renews.slots, renews.created, renews.sound.named_of_made hmem' renews.created,
    renews.other⟩

end Process

end SharedSlab
