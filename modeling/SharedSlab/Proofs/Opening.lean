import SharedSlab.Proofs.OpenHandles
import SharedSlab.Proofs.PageRounding

set_option autoImplicit false

namespace SharedSlab

open Slab

namespace Host

variable {H H' : Host} {raw n : String} {len id : Nat}

def Unlimited (H : Host) : Prop := ∀ anonymous len, H.limits.mapFailure anonymous len = none

theorem Grows.unlimited (g : H.Grows H') (u : H.Unlimited) : H'.Unlimited := by
  intro anonymous len
  rw [g.limits]
  exact u anonymous len

theorem unlink_restores (g : H.Grows H') (free : H.names.lookup n = none)
    (names : ∀ m, H'.names.lookup m = H.named n (some id) m) :
    ∃ H'', unlinkNormal n H' = .ok (.ok ()) H'' ∧ H.Keeps H'' := by
  have found : H'.names.lookup n = some id := (names n).trans (if_pos rfl)
  refine ⟨_, unlinkNormal_run found, ⟨⟨g.limits, g.size_le, g.objects, g.placeable⟩, fun m => ?_⟩⟩
  rw [lookup_filter, names]
  by_cases hm : m = n
  · rw [if_pos hm, hm, free]
  · rw [if_neg hm, named, if_neg hm]

def reserve (H : Host) (n : String) (len : Nat) : Host :=
  { H with
    objects := H.objects.push ⟨len, Memory.zeroed⟩
    names := (n, H.objects.size) :: H.names.filter (·.1 != n) }

theorem reserve_grows (H : Host) (n : String) (len : Nat) : H.Grows (H.reserve n len) where
  limits := rfl
  size_le := by
    rw [reserve, Array.size_push]
    exact Nat.le_succ _
  objects id hid := by
    rw [reserve, Array.getElem?_push, if_neg hid.ne]
  placeable := id

theorem lookup_reserve (H : Host) (n : String) (len : Nat) (m : String) :
    (H.reserve n len).names.lookup m = H.named n (some H.objects.size) m := by
  rw [reserve, named, lookup_cons, lookup_filter]
  by_cases hm : m = n
  · rw [if_pos hm, if_pos hm]
  · rw [if_neg hm, if_neg hm, if_neg hm]

theorem checkName_run (n : String) (H : Host) :
    checkName n H = .ok (match H.limits.openFailure n with
      | some code => Except.error (HostError.os code)
      | none => Except.ok ()) H := rfl

theorem truncate_refused {code : Int} (closed : H.limits.openFailure n = some code) :
    truncate n H = .ok (.error (.os code)) H := by
  rw [truncate, bind_run (checkName_run n H), closed]
  rfl

theorem truncate_run (opens : H.limits.openFailure n = none) (free : H.names.lookup n = none) :
    truncate n H = .ok (.ok ⟨n, H.objects.size⟩) (H.reserve n 0) := by
  have missing : lookup? n H = .ok none H := by
    rw [← free]
    rfl
  rw [truncate, bind_run (checkName_run n H), opens]
  exact bind_run missing

theorem modify_push {γ : Type} (xs : Array γ) (a b : γ) :
    (xs.push a).modify xs.size (fun _ => b) = xs.push b := by
  apply Array.ext_getElem?
  intro i
  rw [Array.getElem?_modify, Array.getElem?_push, Array.getElem?_push]
  by_cases hi : i = xs.size
  · rw [hi, if_pos rfl, if_pos rfl, if_pos rfl]
    rfl
  · rw [if_neg (Ne.symm hi), if_neg hi, if_neg hi]

theorem resize_refused {object : SharedObject} {code : Int}
    (oversized : H.limits.resizeFailure len = some code) :
    resize object len H = .ok (.error (.os code)) H := by
  have limits : (get : HostM Host) H = .ok H H := rfl
  rw [resize, bind_run limits, oversized]
  rfl

theorem resize_run (sized : H.limits.resizeFailure len = none) :
    resize ⟨n, H.objects.size⟩ len (H.reserve n 0) = .ok (.ok ()) (H.reserve n len) := by
  have limits : (get : HostM Host) (H.reserve n 0) = .ok (H.reserve n 0) (H.reserve n 0) := rfl
  have reset : reset H.objects.size len (H.reserve n 0) = .ok () (H.reserve n len) := by
    change EStateM.Result.ok () { H.reserve n 0 with
      objects := (H.objects.push ⟨0, Memory.zeroed⟩).modify H.objects.size fun _ =>
        ⟨len, Memory.zeroed⟩ } = _
    rw [modify_push]
    rfl
  have sized' : (H.reserve n 0).limits.resizeFailure len = none := sized
  rw [resize, bind_run limits, sized']
  exact bind_run reset

theorem create_run (normal : normalizeName raw = .ok n) (pos : 0 < len)
    (free : H.names.lookup n = none) :
    (∃ e H', create raw len H = .ok (.error e) H' ∧ H.Keeps H') ∨
      create raw len H = .ok (.ok ⟨n, H.objects.size⟩) (H.reserve n len) ∧
        H.limits.openFailure n = none := by
  rw [create, if_neg pos.ne', normal]
  dsimp only
  cases opens : H.limits.openFailure n with
  | some code =>
    obtain ⟨H', noted, keeps, _⟩ := note_run (.createFailed n (.os code)) H
    rw [bind_run (truncate_refused opens)]
    exact .inl ⟨_, H', bind_run noted, keeps⟩
  | none =>
    rw [bind_run (truncate_run opens free)]
    dsimp only
    cases sized : H.limits.resizeFailure len with
    | none =>
      rw [bind_run (resize_run sized)]
      exact .inr ⟨rfl, rfl⟩
    | some code =>
      -- the name is there before the size is refused, and has to go again
      have oversized : (H.reserve n 0).limits.resizeFailure len = some code := sized
      obtain ⟨H', noted, keeps, _⟩ := note_run (.resizeFailed n len (.os code)) (H.reserve n 0)
      have names : ∀ m, H'.names.lookup m = H.named n (some H.objects.size) m := fun m =>
        (keeps.names m).trans (H.lookup_reserve n 0 m)
      obtain ⟨H'', unlinked, restored⟩ :=
        unlink_restores ((H.reserve_grows n 0).trans keeps.toGrows) free names
      rw [bind_run (resize_refused oversized)]
      dsimp only
      rw [bind_run noted, bind_run unlinked]
      exact .inl ⟨_, H'', rfl, restored⟩

/-- Nothing is named, or the name of a new object is. -/
inductive Naming (H H' : Host) : Option String → Option SharedObject → Prop
  | unnamed (names : ∀ m, H'.names.lookup m = H.names.lookup m) : Naming H H' none none
  | named {raw n : String} (normal : normalizeName raw = .ok n)
    (opens : H.limits.openFailure n = none)
    (names : ∀ m, H'.names.lookup m = H.named n (some H.objects.size) m) :
    Naming H H' (some raw) (some ⟨n, H.objects.size⟩)

theorem Naming.congr {H'' : Host} {name : Option String} {object : Option SharedObject}
    (naming : H.Naming H' name object) (same : ∀ m, H''.names.lookup m = H'.names.lookup m) :
    H.Naming H'' name object := by
  cases naming with
  | unnamed names => exact .unnamed fun m => (same m).trans (names m)
  | named normal opens names => exact .named normal opens fun m => (same m).trans (names m)

def Free (H : Host) : Option String → Prop
  | none => True
  | some raw => ∀ n, normalizeName raw = .ok n → H.names.lookup n = none

theorem map_run (granted : H.limits.mapFailure false len = none) (hp : H.Placeable) (pos : 0 < len)
    (object : SharedObject) :
    ∃ mapping H', map object len H = .ok (.ok mapping) H' ∧ Shows mapping object.id len ∧
      H.Keeps H' ∧ H'.objects = H.objects := by
  obtain ⟨mapping, H', placed, shows, keeps, same⟩ := place_run object.id len Protection.data hp
  refine ⟨mapping, H', ?_, shows, keeps, same⟩
  rw [map, bind_run (permit_run pos granted)]
  exact bind_run placed

theorem map_protection {object : SharedObject} {mapping : Mapping}
    (run : map object len H = .ok (.ok mapping) H') : mapping.protection = Protection.data := by
  obtain ⟨answer, H₁, _, run⟩ := of_bind run
  cases answer with
  | error e => cases run
  | ok _ =>
    obtain ⟨_, H₂, placed, run⟩ := of_bind run
    cases placed
    cases run
    rfl

theorem allocate_grows (H : Host) (len : Nat) :
    ∃ H', allocate len H = .ok H.objects.size H' ∧ H.Keeps H' ∧
      H'.objects[H.objects.size]? = some ⟨len, Memory.zeroed⟩ := by
  refine ⟨_, rfl, ⟨⟨rfl, ?_, fun id hid => ?_, id⟩, fun _ => rfl⟩, ?_⟩
  · rw [Array.size_push]
    exact Nat.le_succ _
  · rw [Array.getElem?_push, if_neg hid.ne]
  · rw [Array.getElem?_push, if_pos rfl]

theorem mapAnonymous_run (granted : H.limits.mapFailure true len = none) (hp : H.Placeable)
    (pos : 0 < len) :
    ∃ mapping H', mapAnonymous len Protection.data H = .ok (.ok mapping) H' ∧
      Shows mapping H.objects.size len ∧ H.Keeps H' ∧
      H'.objects[H.objects.size]? = some ⟨len, Memory.zeroed⟩ := by
  obtain ⟨H₁, allocated, keeps₁, object⟩ := H.allocate_grows len
  obtain ⟨mapping, H₂, placed, shows, keeps₂, same⟩ :=
    place_run H.objects.size len Protection.data (keeps₁.placeable hp)
  rw [← same] at object
  refine ⟨mapping, H₂, ?_, shows, keeps₁.trans keeps₂, object⟩
  rw [mapAnonymous, bind_run (permit_run pos granted)]
  dsimp only
  rw [bind_run allocated]
  exact bind_run placed

structure NewRegion (H H' : Host) (name : Option String) (len : Nat) (mapping : Mapping)
    (object : Option SharedObject) : Prop where
  grows : H.Grows H'
  shows : Shows mapping H.objects.size len
  zeroed : H'.objects[H.objects.size]? = some ⟨len, Memory.zeroed⟩
  naming : H.Naming H' name object

theorem newRegion_run (u : H.Unlimited) (hp : H.Placeable) (pos : 0 < len) {name : Option String}
    (free : H.Free name) :
    (∃ e H', SharedPool.newRegion name len H = .ok (.error e) H' ∧ H.Keeps H') ∨
      ∃ mapping object H', SharedPool.newRegion name len H = .ok (.ok (mapping, object)) H' ∧
        H.NewRegion H' name len mapping object := by
  cases name with
  | none =>
    apply Or.inr
    obtain ⟨mapping, H₂, mapped, shows, keeps, object⟩ := mapAnonymous_run (u true len) hp pos
    refine ⟨mapping, none, H₂, ?_, keeps.toGrows, shows, object, .unnamed keeps.names⟩
    rw [SharedPool.newRegion]
    exact bind_run mapped
  | some raw =>
    cases normal : normalizeName raw with
    | error e =>
      have refused : create raw len H = .ok (.error e) H := by
        rw [create, if_neg pos.ne', normal]
        rfl
      apply Or.inl
      rw [SharedPool.newRegion]
      exact ⟨e, H, bind_run refused, .refl H⟩
    | ok n =>
      rw [SharedPool.newRegion]
      rcases create_run normal pos (free n normal) with ⟨e, H', refused, keeps⟩ | ⟨made, opens⟩
      · exact .inl ⟨e, H', bind_run refused, keeps⟩
      · apply Or.inr
        have grows := H.reserve_grows n len
        obtain ⟨mapping, H', mapped, shows, keeps, same⟩ :=
          map_run (grows.unlimited u false len) (grows.placeable hp) pos ⟨n, H.objects.size⟩
        have object : H'.objects[H.objects.size]? = some ⟨len, Memory.zeroed⟩ := by
          rw [same, reserve, Array.getElem?_push, if_pos rfl]
        have names : ∀ m, H'.names.lookup m = H.named n (some H.objects.size) m := fun m =>
          (keeps.names m).trans (H.lookup_reserve n len m)
        rw [bind_run made]
        dsimp only
        rw [bind_run mapped]
        exact ⟨_, _, H', rfl, grows.trans keeps.toGrows, shows, object, .named normal opens names⟩

end Host

namespace SharedPool

variable {H H' : Host} {name : Option String} {len size : Nat} {mapping : Mapping}
  {object : Option SharedObject} {o : PoolOptions}

theorem lock_bind {base : Nat} (pos : 0 < base) (spin : Nat) :
    Lock.bind base spin = .ok ⟨base, spin⟩ := if_neg pos.ne'

theorem view_new (r : H.NewRegion H' name len mapping object) (hlen : len < wordLimit)
    (o : PoolOptions) :
    (∃ e m H'', view mapping o true H' = .ok (.error e) H'' ∧ H'.Stored H'' mapping.id m) ∨
      ∃ pool lock m H'', view mapping o true H' = .ok (.ok (pool, lock)) H'' ∧
        H'.Stored H'' mapping.id m ∧ pool.InUse m ∧
        pool.region = ⟨mapping.base, mapping.len⟩ := by
  obtain ⟨id, hmap, pos, aligned⟩ := r.shows
  have zeroed := r.zeroed
  rw [← id] at zeroed
  have region : Region.ofAddress mapping.base mapping.len = .ok ⟨mapping.base, mapping.len⟩ :=
    if_pos aligned
  have short : (⟨mapping.base, mapping.len⟩ : Region).len < wordLimit := hmap.trans_lt hlen
  rw [view, Host.bind_liftM region]
  rcases Pool.InUse.init_total o.slab short ⟨Memory.zeroed, H'.journal⟩ with
    ⟨e, t, run⟩ | ⟨pool, t, run, use, hregion⟩
  · obtain ⟨H'', hrun, stored⟩ := Host.onMemory_run zeroed run
    exact .inl ⟨e, t.memory, H'', Host.bind_run hrun, stored⟩
  · obtain ⟨H'', hrun, stored⟩ := Host.onMemory_run zeroed run
    refine .inr ⟨pool, ⟨mapping.base, o.spin⟩, t.memory, H'', ?_, stored, use, hregion⟩
    refine (Host.bind_run hrun).trans ?_
    dsimp only
    rw [Host.bind_liftM (lock_bind pos o.spin)]
    rfl

structure Made (me : Caller) (H H' : Host) (name : Option String) (h : SharedPool) : Prop where
  grows : H.Grows H'
  opened : ∃ m, h.Open H' m
  id : h.mapping.id = H.objects.size
  creator : h.creator = some me.pid
  naming : H.Naming H' name h.object

theorem ofMapping_new (self : Caller) (r : H.NewRegion H' name len mapping object)
    (hlen : len < wordLimit) (free : H.Free name) (o : PoolOptions) :
    (∃ e H'', ofMapping self mapping object o true H' = .ok (.error e) H'' ∧ H.Keeps H'') ∨
      ∃ h H'', ofMapping self mapping object o true H' = .ok (.ok h) H'' ∧
        h.Made self H H'' name := by
  have fresh : H.objects.size ≤ mapping.id := r.shows.id.ge
  rw [ofMapping]
  rcases view_new r hlen o with
    ⟨e, m, H₁, run, stored⟩ | ⟨pool, lock, m, H₁, run, stored, use, region⟩
  · apply Or.inl
    have grows := r.grows.stored stored fresh
    have naming := r.naming.congr fun n => by rw [stored.names]
    rw [Host.bind_run run]
    -- the region is too short for a pool, and a name that it got is removed
    cases naming with
    | unnamed names => exact ⟨e, H₁, rfl, grows, names⟩
    | named normal opens names =>
      obtain ⟨H₂, unlinked, keeps⟩ := Host.unlink_restores grows (free _ normal) names
      exact ⟨e, H₂, Host.bind_run unlinked, keeps⟩
  · apply Or.inr
    rw [Host.bind_run run]
    dsimp only
    obtain ⟨H₂, noted, keeps, same⟩ := Host.note_run (.poolReady true (object.map SharedObject.name)
      mapping.len pool.pageCount o.slab.pageSize) H₁
    rw [Host.bind_run noted]
    have names : ∀ n, H₂.names.lookup n = H'.names.lookup n := fun n => by
      rw [keeps.names, stored.names]
    refine ⟨_, H₂, rfl, (r.grows.stored stored fresh).trans keeps.toGrows, ⟨m, ?_, region, use⟩,
      r.shows.id, rfl, r.naming.congr names⟩
    have zeroed := r.zeroed
    rw [← r.shows.id, ← r.shows.len] at zeroed
    rw [same, stored.stored _ zeroed]

theorem regionSize?_spec (pos : 0 < size) (h : regionSize? size o = some len) :
    0 < len ∧ len < wordLimit := by
  rw [regionSize?] at h
  obtain ⟨rfl, hlt⟩ := Geometry.alignUp?_eq_some_iff.1 h
  exact ⟨pos.trans_le ((le_max_left _ _).trans (Geometry.le_boundary _ _)), hlt⟩

theorem create_spec (self : Caller) (u : H.Unlimited) (hp : H.Placeable) (free : H.Free name)
    (size : Nat) (o : PoolOptions) :
    (∃ e H', create self name size o H = .ok (.error e) H' ∧ H.Keeps H') ∨
      ∃ h H', create self name size o H = .ok (.ok h) H' ∧ h.Made self H H' name := by
  rw [create]
  by_cases hzero : size = 0
  · rw [if_pos hzero]
    exact .inl ⟨_, H, rfl, .refl H⟩
  rw [if_neg hzero]
  cases sized : regionSize? size o with
  | none => exact .inl ⟨_, H, rfl, .refl H⟩
  | some len =>
    obtain ⟨pos, short⟩ := regionSize?_spec (Nat.pos_of_ne_zero hzero) sized
    dsimp only
    rcases Host.newRegion_run u hp pos free with ⟨e, H₁, run, keeps⟩ | ⟨mapping, object, H₁, run, r⟩
    · exact .inl ⟨_, H₁, Host.bind_run run, keeps⟩
    · rw [Host.bind_run run]
      exact ofMapping_new self r short free o

variable {raw n : String} {h : SharedPool} {m : Memory} {id : Nat}

theorem find_missing (free : H.names.lookup n = none) :
    ∃ e, Host.find n H = .ok (.error e) H := by
  rw [Host.find, Host.bind_run (Host.checkName_run n H)]
  cases H.limits.openFailure n with
  | some code => exact ⟨_, rfl⟩
  | none =>
    have missing : Host.lookup? n H = .ok none H := by
      rw [← free]
      rfl
    exact ⟨_, Host.bind_run missing⟩

theorem find_run (opens : H.limits.openFailure n = none) (named : H.names.lookup n = some id) :
    Host.find n H = .ok (.ok ⟨n, id⟩) H := by
  have found : Host.lookup? n H = .ok (some id) H := by
    rw [← named]
    rfl
  rw [Host.find, Host.bind_run (Host.checkName_run n H), opens]
  exact Host.bind_run found

theorem attach_missing (self : Caller) (free : H.Free (some raw)) (o : PoolOptions) :
    ∃ e H', attach self raw o H = .ok (.error e) H' ∧ H.Keeps H' := by
  rw [attach]
  cases normal : Host.normalizeName raw with
  | error e =>
    have refused : Host.openNamed raw H = .ok (.error e) H := by
      rw [Host.openNamed, normal]
      rfl
    exact ⟨_, H, Host.bind_run refused, .refl H⟩
  | ok n =>
    obtain ⟨e, missing⟩ := find_missing (free n normal)
    obtain ⟨H', noted, keeps, _⟩ := Host.note_run (.openFailed n e) H
    have refused : Host.openNamed raw H = .ok (.error e) H' := by
      rw [Host.openNamed, normal]
      dsimp only
      rw [Host.bind_run missing]
      exact Host.bind_run noted
    exact ⟨_, H', Host.bind_run refused, keeps⟩

def foundAt (pool : Pool) (object : SharedObject) (spin : Nat) : SharedPool :=
  ⟨pool, ⟨pool.region.base, spin⟩, ⟨object.id, pool.region.base, pool.region.len, Protection.data⟩,
    some object, none⟩

theorem foundAt_whole {object : SharedObject} (id : mapping.id = object.id)
    (len : mapping.len = h.size) (protection : mapping.protection = Protection.data)
    (spin : Nat) : foundAt (h.pool.inRegion ⟨mapping.base, h.size⟩) object spin =
      ⟨h.pool.inRegion ⟨mapping.base, mapping.len⟩, ⟨mapping.base, spin⟩, mapping, some object,
        none⟩ := by
  rw [← len]
  cases mapping
  cases id
  cases protection
  rfl

/-- A handle on the object of another one, at an address of its own. -/
structure Found (H H' : Host) (h h' : SharedPool) (m : Memory) : Prop where
  keeps : H.Keeps H'
  opened : h'.Open H' m
  id : h'.mapping.id = h.mapping.id
  len : h'.mapping.len = h.mapping.len
  creator : h'.creator = none

theorem Found.foreign {h' : SharedPool} (found : Found H H' h h' m) (me : Caller) :
    h'.isCreator me = false := by
  rw [isCreator, found.creator]
  rfl

section Named

variable (v : h.Open H m)
include v

theorem view_found (shows : Host.Shows mapping h.mapping.id h.mapping.len) (o : PoolOptions) :
    ∃ H', H.Keeps H' ∧ H'.objects[h.mapping.id]? = H.objects[h.mapping.id]? ∧
      view mapping o false H =
        .ok (if o.slab = h.pool.config then .ok (h.pool.inRegion ⟨mapping.base, mapping.len⟩,
          ⟨mapping.base, o.spin⟩) else .error .invalidRegion) H' := by
  obtain ⟨id, len, pos, aligned⟩ := shows
  have region : Region.ofAddress mapping.base mapping.len = .ok ⟨mapping.base, mapping.len⟩ :=
    if_pos aligned
  have object := v.object
  rw [← id] at object
  have use : h.pool.InUse (⟨m, H.journal⟩ : Arena).memory := v.use
  obtain ⟨t, run, same⟩ := use.attach (r := ⟨mapping.base, mapping.len⟩) (len.trans v.len_eq.symm)
    o.slab
  obtain ⟨H', hrun, stored⟩ := Host.onMemory_run object run
  rw [same] at stored
  have keeps := stored.keeps object
  refine ⟨H', keeps, ?_, ?_⟩
  · rw [← id, stored.stored _ object, object]
  · rw [view, Host.bind_liftM region]
    refine (Host.bind_run hrun).trans ?_
    by_cases config : o.slab = h.pool.config
    · rw [if_pos config, if_pos config]
      dsimp only
      rw [Host.bind_liftM (lock_bind pos o.spin)]
      rfl
    · rw [if_neg config, if_neg config]
      rfl

/-- A name leads to the pool in its object, at an address of the caller, for the configuration of
that pool. -/
theorem attach_named_run (self : Caller) (u : H.Unlimited) (hp : H.Placeable)
    (normal : Host.normalizeName raw = .ok n) (opens : H.limits.openFailure n = none)
    (named : H.names.lookup n = some h.mapping.id) (o : PoolOptions) :
    ∃ base H', H.Keeps H' ∧ H'.objects[h.mapping.id]? = H.objects[h.mapping.id]? ∧
      attach self raw o H = .ok (if o.slab = h.pool.config then
        .ok (foundAt (h.pool.inRegion ⟨base, h.size⟩) ⟨n, h.mapping.id⟩ o.spin)
        else .error .invalidRegion) H' := by
  have opened : Host.openNamed raw H = .ok (.ok ⟨n, h.mapping.id⟩) H := by
    rw [Host.openNamed, normal]
    exact Host.bind_run (find_run opens named)
  have pos : 0 < h.mapping.len := v.len_eq ▸ v.use.len_pos
  obtain ⟨mapping, H₁, mapped, shows, keeps₁, same₁⟩ :=
    Host.map_run (u false h.mapping.len) hp pos ⟨n, h.mapping.id⟩
  have v₁ : h.Open H₁ m := ⟨same₁ ▸ v.object, v.region, v.use⟩
  obtain ⟨H₂, keeps₂, same₂, viewed⟩ := view_found v₁ shows o
  rw [same₁] at same₂
  refine ⟨mapping.base, ?_⟩
  rw [attach, Host.bind_run opened]
  dsimp only
  rw [Host.bind_run (Host.sizeOf_run v.object)]
  dsimp only
  rw [if_neg pos.ne', Host.bind_run mapped]
  dsimp only
  rw [ofMapping, Host.bind_run viewed]
  by_cases config : o.slab = h.pool.config
  · rw [if_pos config, if_pos config]
    dsimp only
    obtain ⟨H₃, noted, keeps₃, same₃⟩ := Host.note_run (.poolReady false (some n) mapping.len
      (h.pool.inRegion ⟨mapping.base, mapping.len⟩).pageCount o.slab.pageSize) H₂
    refine ⟨H₃, (keeps₁.trans keeps₂).trans keeps₃, by rw [same₃, same₂], ?_⟩
    rw [foundAt_whole shows.id (shows.len.trans v.len_eq.symm) (Host.map_protection mapped)]
    exact Host.bind_run noted
  · rw [if_neg config, if_neg config]
    exact ⟨H₂, keeps₁.trans keeps₂, same₂, rfl⟩

theorem attach_named (self : Caller) (u : H.Unlimited) (hp : H.Placeable)
    (normal : Host.normalizeName raw = .ok n) (opens : H.limits.openFailure n = none)
    (named : H.names.lookup n = some h.mapping.id) (o : PoolOptions) :
    if o.slab = h.pool.config then
      ∃ h' H', attach self raw o H = .ok (.ok h') H' ∧ Found H H' h h' m
    else ∃ H', attach self raw o H = .ok (.error .invalidRegion) H' ∧ H.Keeps H' := by
  obtain ⟨base, H', keeps, same, run⟩ := attach_named_run v self u hp normal opens named o
  by_cases config : o.slab = h.pool.config
  · rw [if_pos config] at run ⊢
    refine ⟨_, H', run, keeps, ⟨?_, rfl, v.use.inRegion rfl⟩, rfl, v.len_eq, rfl⟩
    change H'.objects[h.mapping.id]? = some ⟨h.pool.region.len, m⟩
    rw [same, v.object, v.len_eq]
  · rw [if_neg config] at run ⊢
    exact ⟨H', run, keeps⟩

end Named

end SharedPool

end SharedSlab
