import SharedSlab.Proofs.LargestLayout
import SharedSlab.Proofs.Opening

set_option autoImplicit false

/-!
# Creations that fail

The host may refuse a name, a size or a mapping, and the region may be too short for a pool. Up to
the opening of its name a creation that fails has changed nothing. After it the object of the name
is new, or has lost its bytes, and a creation that fails removes the name. Other names and objects
stay in any case. A creation that is done has as many bytes as were asked for, in whole pages.
-/

namespace SharedSlab

open Slab

namespace Host

variable {H H' H'' : Host} {raw n : String} {len id : Nat} {target : Option Nat}

def memoryOf (H : Host) (id : Nat) : Memory :=
  match H.objects[id]? with
  | some o => o.memory
  | none => Memory.zeroed

/-- The name leads to `target`. Nothing else has changed but the object it led to before. -/
structure Rebinds (H H' : Host) (n : String) (target : Option Nat) : Prop where
  limits : H'.limits = H.limits
  placeable : H.Placeable → H'.Placeable
  size_le : H.objects.size ≤ H'.objects.size
  names : ∀ m, H'.names.lookup m = H.named n target m
  objects : ∀ id < H.objects.size, H.names.lookup n ≠ some id → H'.objects[id]? = H.objects[id]?

/-- The object is that of the name, or a new one. -/
def Owns (H : Host) (n : String) (id : Nat) : Prop :=
  H.names.lookup n = some id ∨ H.objects.size ≤ id

structure Edits (H H' : Host) (id : Nat) : Prop where
  limits : H'.limits = H.limits
  names : H'.names = H.names
  top : H'.top = H.top
  size_eq : H'.objects.size = H.objects.size
  others : ∀ j, j ≠ id → H'.objects[j]? = H.objects[j]?

namespace Rebinds

theorem edits (b : H.Rebinds H' n target) (owns : H.Owns n id) (e : H'.Edits H'' id) :
    H.Rebinds H'' n target where
  limits := e.limits.trans b.limits
  placeable hp := by
    rw [Placeable, e.top]
    exact b.placeable hp
  size_le := b.size_le.trans e.size_eq.ge
  names m := by rw [e.names, b.names]
  objects j hj other := by
    have hne : j ≠ id := by
      rintro rfl
      rcases owns with same | new
      · exact other same
      · omega
    rw [e.others j hne, b.objects j hj other]

theorem keeps (b : H.Rebinds H' n target) (k : H'.Keeps H'') : H.Rebinds H'' n target where
  limits := k.limits.trans b.limits
  placeable := k.placeable ∘ b.placeable
  size_le := b.size_le.trans k.size_le
  names m := (k.names m).trans (b.names m)
  objects j hj other := (k.objects j (hj.trans_le b.size_le)).trans (b.objects j hj other)

theorem unlink (b : H.Rebinds H' n (some id)) :
    ∃ H'', unlinkNormal n H' = .ok (.ok ()) H'' ∧ H.Rebinds H'' n none := by
  have found : H'.names.lookup n = some id := (b.names n).trans (if_pos rfl)
  refine ⟨_, unlinkNormal_run found, ⟨b.limits, b.placeable, b.size_le, fun m => ?_, b.objects⟩⟩
  rw [lookup_filter, b.names, named, named]
  by_cases hm : m = n
  · rw [if_pos hm, if_pos hm]
  · rw [if_neg hm, if_neg hm, if_neg hm]

end Rebinds

theorem reset_run (id size : Nat) (H : Host) :
    ∃ H', reset id size H = .ok () H' ∧ H.Edits H' id := by
  refine ⟨_, rfl, ⟨rfl, rfl, rfl, Array.size_modify, fun j hj => ?_⟩⟩
  rw [Array.getElem?_modify, if_neg hj.symm]

theorem onMemory_edits {α : Type} {act : PoolM α} {a : α} {t : Arena}
    (run : act ⟨H.memoryOf id, H.journal⟩ = .ok a t) :
    ∃ H', onMemory id act H = .ok a H' ∧ H.Edits H' id := by
  rw [memoryOf] at run
  cases object : H.objects[id]? with
  | some o =>
    rw [object] at run
    obtain ⟨H', done, stored⟩ := onMemory_run object run
    exact ⟨H', done, stored.limits, stored.names, stored.top, stored.size_eq, stored.others⟩
  | none =>
    rw [object] at run
    simp only [onMemory, object, run]
    refine ⟨_, rfl, ⟨rfl, rfl, rfl, ?_, fun j hj => ?_⟩⟩
    · simp only [Array.size_modify]
    · rw [Array.getElem?_modify, if_neg hj.symm, Array.getElem?_modify, if_neg hj.symm]

theorem truncate_opens (opens : H.limits.openFailure n = none) :
    ∃ id H', truncate n H = .ok (.ok ⟨n, id⟩) H' ∧ H.Rebinds H' n (some id) ∧ H.Owns n id := by
  cases found : H.names.lookup n with
  | some id =>
    have known : lookup? n H = .ok (some id) H := by
      rw [← found]
      rfl
    obtain ⟨H', blanked, edits⟩ := reset_run id 0 H
    have same : H.Rebinds H n (some id) := by
      refine ⟨rfl, fun hp => hp, le_refl _, fun m => ?_, fun _ _ _ => rfl⟩
      rw [named]
      by_cases hm : m = n
      · rw [if_pos hm, hm, found]
      · rw [if_neg hm]
    refine ⟨id, H', ?_, same.edits (.inl found) edits, .inl found⟩
    rw [truncate, bind_run (checkName_run n H), opens]
    refine (bind_run known).trans ?_
    exact bind_run blanked
  | none =>
    have grows := H.reserve_grows n 0
    exact ⟨H.objects.size, H.reserve n 0, truncate_run opens found,
      ⟨grows.limits, grows.placeable, grows.size_le, H.lookup_reserve n 0,
        fun j hj _ => grows.objects j hj⟩, .inr (le_refl _)⟩

def Opens (H : Host) : Option String → Prop
  | none => True
  | some raw => ∃ n, normalizeName raw = .ok n ∧ H.limits.openFailure n = none

/-- The name that was opened is gone, all else is as it was. -/
def Forgets (H H' : Host) : Option String → Prop
  | none => H.Keeps H'
  | some raw => ∃ n, normalizeName raw = .ok n ∧ H.Rebinds H' n none

theorem Forgets.names {name : Option String} (f : H.Forgets H' name) (m : String) :
    H'.names.lookup m = H.names.lookup m ∨ H'.names.lookup m = none := by
  cases name with
  | none => exact .inl (Keeps.names f m)
  | some raw =>
    obtain ⟨n, _, rebinds⟩ := f
    rw [rebinds.names, named]
    by_cases hm : m = n
    · exact .inr (if_pos hm)
    · exact .inl (if_neg hm)

inductive Binds (H H' : Host) (id : Nat) : Option String → Option SharedObject → Prop
  | unnamed (new : H.objects.size ≤ id) (keeps : H.Keeps H') : Binds H H' id none none
  | named {raw n : String} (normal : normalizeName raw = .ok n) (owns : H.Owns n id)
    (rebinds : H.Rebinds H' n (some id)) : Binds H H' id (some raw) (some ⟨n, id⟩)

inductive RefusesName (H : Host) : Option String → HostError → Prop
  | invalid {raw : String} {e : HostError} (bad : normalizeName raw = .error e) :
    RefusesName H (some raw) e
  | closed {raw n : String} {code : Int} (normal : normalizeName raw = .ok n)
    (closed : H.limits.openFailure n = some code) : RefusesName H (some raw) (.os code)

inductive RefusesRegion (H : Host) (len : Nat) : Option String → HostError → Prop
  | unsized {raw : String} {code : Int} (oversized : H.limits.resizeFailure len = some code) :
    RefusesRegion H len (some raw) (.os code)
  | unmapped {name : Option String} {code : Int}
    (sized : name = none ∨ H.limits.resizeFailure len = none)
    (closed : H.limits.mapFailure name.isNone len = some code) :
    RefusesRegion H len name (.os code)

section Binds

variable {name : Option String} {object : Option SharedObject}

theorem Binds.placeable (b : H.Binds H' id name object) (hp : H.Placeable) : H'.Placeable := by
  cases b with
  | unnamed _ keeps => exact keeps.placeable hp
  | named _ _ rebinds => exact rebinds.placeable hp

theorem Binds.keeps (b : H.Binds H' id name object) (k : H'.Keeps H'') :
    H.Binds H'' id name object := by
  cases b with
  | unnamed new keeps => exact .unnamed new (keeps.trans k)
  | named normal owns rebinds => exact .named normal owns (rebinds.keeps k)

theorem Binds.edits (b : H.Binds H' id name object) (e : H'.Edits H'' id) :
    H.Binds H'' id name object := by
  cases b with
  | unnamed new keeps =>
    refine .unnamed new ⟨⟨e.limits.trans keeps.limits, keeps.size_le.trans e.size_eq.ge,
      fun j hj => (e.others j (by omega)).trans (keeps.objects j hj), fun hp => ?_⟩, fun m => ?_⟩
    · rw [Placeable, e.top]
      exact keeps.placeable hp
    · rw [e.names, keeps.names]
  | named normal owns rebinds => exact .named normal owns (rebinds.edits owns e)

end Binds

section Create

variable (pos : 0 < len)
include pos

theorem create_badName {e : HostError} (bad : normalizeName raw = .error e) :
    create raw len H = .ok (.error e) H := by
  rw [create, if_neg pos.ne', bad]
  rfl

variable (normal : normalizeName raw = .ok n)
include normal

theorem create_closed {code : Int} (closed : H.limits.openFailure n = some code) :
    ∃ H', create raw len H = .ok (.error (.os code)) H' ∧ H.Keeps H' := by
  obtain ⟨H', noted, keeps, _⟩ := note_run (.createFailed n (.os code)) H
  refine ⟨H', ?_, keeps⟩
  rw [create, if_neg pos.ne', normal]
  dsimp only
  rw [bind_run (truncate_refused closed)]
  exact bind_run noted

variable (opens : H.limits.openFailure n = none)
include opens

theorem create_unsized {code : Int} (oversized : H.limits.resizeFailure len = some code) :
    ∃ H', create raw len H = .ok (.error (.os code)) H' ∧ H.Rebinds H' n none := by
  obtain ⟨id, H₁, opened, rebinds₁, _⟩ := truncate_opens opens
  have oversized₁ : H₁.limits.resizeFailure len = some code := by rwa [rebinds₁.limits]
  obtain ⟨H₂, noted, keeps, _⟩ := note_run (.resizeFailed n len (.os code)) H₁
  obtain ⟨H₃, unlinked, rebinds₃⟩ := (rebinds₁.keeps keeps).unlink
  refine ⟨H₃, ?_, rebinds₃⟩
  rw [create, if_neg pos.ne', normal]
  dsimp only
  rw [bind_run opened]
  dsimp only
  rw [bind_run (resize_refused oversized₁)]
  dsimp only
  rw [bind_run noted, bind_run unlinked]
  rfl

theorem create_sized (sized : H.limits.resizeFailure len = none) :
    ∃ id H', create raw len H = .ok (.ok ⟨n, id⟩) H' ∧
      H.Binds H' id (some raw) (some ⟨n, id⟩) := by
  obtain ⟨id, H₁, opened, rebinds₁, owns⟩ := truncate_opens opens
  have sized₁ : H₁.limits.resizeFailure len = none := by rwa [rebinds₁.limits]
  obtain ⟨H₂, blanked, edits⟩ := reset_run id len H₁
  have limits : (get : HostM Host) H₁ = .ok H₁ H₁ := rfl
  have resized : resize ⟨n, id⟩ len H₁ = .ok (.ok ()) H₂ := by
    rw [resize, bind_run limits, sized₁]
    exact bind_run blanked
  refine ⟨id, H₂, ?_, .named normal owns (rebinds₁.edits owns edits)⟩
  rw [create, if_neg pos.ne', normal]
  dsimp only
  rw [bind_run opened]
  dsimp only
  rw [bind_run resized]
  rfl

end Create

theorem permit_refused {anonymous : Bool} {code : Int} (pos : 0 < len)
    (closed : H.limits.mapFailure anonymous len = some code) :
    ∃ H', permit anonymous len H = .ok (.error (.os code)) H' ∧ H.Keeps H' := by
  have limits : (get : HostM Host) H = .ok H H := rfl
  obtain ⟨H', noted, keeps, _⟩ := note_run (.mapFailed anonymous len (.os code)) H
  refine ⟨H', ?_, keeps⟩
  rw [permit, if_neg pos.ne', bind_run limits, closed]
  exact bind_run noted

theorem mapAnonymous_refused {code : Int} (pos : 0 < len)
    (closed : H.limits.mapFailure true len = some code) :
    ∃ H', mapAnonymous len Protection.data H = .ok (.error (.os code)) H' ∧ H.Keeps H' := by
  obtain ⟨H', refused, keeps⟩ := permit_refused pos closed
  exact ⟨H', bind_run refused, keeps⟩

theorem map_refused {code : Int} (pos : 0 < len)
    (closed : H.limits.mapFailure false len = some code) (object : SharedObject) :
    ∃ H', map object len H = .ok (.error (.os code)) H' ∧ H.Keeps H' := by
  obtain ⟨H', refused, keeps⟩ := permit_refused pos closed
  exact ⟨H', bind_run refused, keeps⟩

end Host

namespace SharedPool

variable {H H' : Host} {raw n : String} {name : Option String} {object : Option SharedObject}
  {size len id : Nat} {o : PoolOptions} {mapping : Mapping}

theorem regionSize?_isLeast (h : regionSize? size o = some len) :
    IsLeast {n | o.slab.pageSize ∣ n ∧ size ≤ n ∧ o.minPages * o.slab.pageSize ≤ n} len := by
  have hpage : 2 ^ 10 ≤ o.slab.page.size := o.slab.le_pageSize
  rw [regionSize?] at h
  obtain ⟨rfl, hlt⟩ := Geometry.alignUp?_eq_some_iff.1 h
  have fits := (Geometry.boundary_lt_iff _ _).1 hlt
  -- a product that does not fit is cut off, but then there is no room for rounding
  have product : min (o.minPages * o.slab.page.size) (wordLimit - 1) =
      o.minPages * o.slab.page.size := by
    apply min_eq_left
    by_contra hlarge
    rw [min_eq_right (not_le.1 hlarge).le] at fits
    have hmax := le_max_right size (wordLimit - 1)
    omega
  rw [product]
  obtain ⟨⟨hle, hdvd⟩, least⟩ := o.slab.page.boundary_isLeast
    (max size (o.minPages * o.slab.page.size))
  obtain ⟨hsize, hpages⟩ := max_le_iff.1 hle
  exact ⟨⟨hdvd, hsize, hpages⟩, fun b hb => least ⟨max_le hb.2.1 hb.2.2, hb.1⟩⟩

/-- A region of two pages has room for one beside the descriptors. -/
theorem compute_ne_none (h : regionSize? size o = some len) (hlen : len < wordLimit)
    (two : 2 ≤ o.minPages) : Layout.compute o.slab len ≠ .ok none := by
  intro short
  obtain ⟨_, _, hpages⟩ := (regionSize?_isLeast h).1
  have hroom : (o.slab.Holds len).Nonempty :=
    ⟨1, le_refl _, o.slab.bytesFor_one.le.trans ((Nat.mul_le_mul_right _ two).trans hpages)⟩
  cases (Layout.isSome_iff hlen short).2 hroom

section New

variable (pos : 0 < len)
include pos

theorem newRegion_unmapped {code : Int} (closed : H.limits.mapFailure true len = some code) :
    ∃ H', newRegion none len H = .ok (.error (.os code)) H' ∧ H.Keeps H' := by
  obtain ⟨H', refused, keeps⟩ := Host.mapAnonymous_refused pos closed
  exact ⟨H', Host.bind_run refused, keeps⟩

theorem newRegion_badName {e : HostError} (bad : Host.normalizeName raw = .error e) :
    newRegion (some raw) len H = .ok (.error e) H := by
  rw [newRegion]
  exact Host.bind_run (Host.create_badName pos bad)

section Named

variable (normal : Host.normalizeName raw = .ok n)
include normal

theorem newRegion_closed {code : Int} (closed : H.limits.openFailure n = some code) :
    ∃ H', newRegion (some raw) len H = .ok (.error (.os code)) H' ∧ H.Keeps H' := by
  obtain ⟨H', refused, keeps⟩ := Host.create_closed pos normal closed
  refine ⟨H', ?_, keeps⟩
  rw [newRegion]
  exact Host.bind_run refused

variable (opens : H.limits.openFailure n = none)
include opens

theorem newRegion_unsized {code : Int} (oversized : H.limits.resizeFailure len = some code) :
    ∃ H', newRegion (some raw) len H = .ok (.error (.os code)) H' ∧ H.Forgets H' (some raw) := by
  obtain ⟨H', refused, rebinds⟩ := Host.create_unsized pos normal opens oversized
  refine ⟨H', ?_, n, normal, rebinds⟩
  rw [newRegion]
  exact Host.bind_run refused

variable (sized : H.limits.resizeFailure len = none)
include sized

theorem newRegion_named_unmapped {code : Int}
    (closed : H.limits.mapFailure false len = some code) :
    ∃ H', newRegion (some raw) len H = .ok (.error (.os code)) H' ∧ H.Forgets H' (some raw) := by
  obtain ⟨id, H₁, made, binds⟩ := Host.create_sized pos normal opens sized
  cases binds with
  | named _ _ rebinds =>
    have closed₁ : H₁.limits.mapFailure false len = some code := by rwa [rebinds.limits]
    obtain ⟨H₂, refused, keeps⟩ := Host.map_refused pos closed₁ ⟨n, id⟩
    obtain ⟨H₃, unlinked, rebinds₃⟩ := (rebinds.keeps keeps).unlink
    refine ⟨H₃, ?_, n, normal, rebinds₃⟩
    rw [newRegion, Host.bind_run made]
    dsimp only
    rw [Host.bind_run refused]
    exact Host.bind_run unlinked

theorem newRegion_named_run (hp : H.Placeable)
    (granted : H.limits.mapFailure false len = none) :
    ∃ id mapping H', newRegion (some raw) len H = .ok (.ok (mapping, some ⟨n, id⟩)) H' ∧
      Host.Shows mapping id len ∧ H.Binds H' id (some raw) (some ⟨n, id⟩) := by
  obtain ⟨id, H₁, made, binds⟩ := Host.create_sized pos normal opens sized
  have granted₁ : H₁.limits.mapFailure false len = none := by
    cases binds with
    | named _ _ rebinds => rwa [rebinds.limits]
  obtain ⟨mapping, H₂, mapped, shows, keeps, _⟩ :=
    Host.map_run granted₁ (binds.placeable hp) pos ⟨n, id⟩
  refine ⟨id, mapping, H₂, ?_, shows, binds.keeps keeps⟩
  rw [newRegion, Host.bind_run made]
  dsimp only
  rw [Host.bind_run mapped]
  rfl

end Named

inductive RegionEnds (H : Host) (name : Option String) (len : Nat) :
    Except HostError (Mapping × Option SharedObject) → Host → Prop
  | refused {e : HostError} {H' : Host} (cause : H.RefusesName name e) (keeps : H.Keeps H') :
    RegionEnds H name len (.error e) H'
  | abandoned {e : HostError} {H' : Host} (opens : H.Opens name)
    (cause : H.RefusesRegion len name e) (forgets : H.Forgets H' name) :
    RegionEnds H name len (.error e) H'
  | opened {id : Nat} {mapping : Mapping} {object : Option SharedObject} {H' : Host}
    (opens : H.Opens name) (granted : ∀ e, ¬H.RefusesRegion len name e)
    (shows : Host.Shows mapping id len) (binds : H.Binds H' id name object) :
    RegionEnds H name len (.ok (mapping, object)) H'

theorem newRegion_unnamed_ends (hp : H.Placeable) :
    ∃ answer H', newRegion none len H = .ok answer H' ∧ RegionEnds H none len answer H' := by
  cases granted : H.limits.mapFailure true len with
  | some code =>
    obtain ⟨H', run, keeps⟩ := newRegion_unmapped pos granted
    exact ⟨_, H', run, .abandoned trivial (.unmapped (.inl rfl) granted) keeps⟩
  | none =>
    obtain ⟨mapping, H', mapped, shows, keeps, _⟩ := Host.mapAnonymous_run granted hp pos
    refine ⟨_, H', Host.bind_run mapped, .opened trivial ?_ shows (.unnamed (le_refl _) keeps)⟩
    rintro e cause
    cases cause with
    | unmapped _ closed => cases granted.symm.trans closed

theorem newRegion_opened_ends (hp : H.Placeable) (normal : Host.normalizeName raw = .ok n)
    (opens : H.limits.openFailure n = none) :
    ∃ answer H', newRegion (some raw) len H = .ok answer H' ∧
      RegionEnds H (some raw) len answer H' := by
  have named : H.Opens (some raw) := ⟨n, normal, opens⟩
  cases sized : H.limits.resizeFailure len with
  | some code =>
    obtain ⟨H', run, forgets⟩ := newRegion_unsized pos normal opens sized
    exact ⟨_, H', run, .abandoned named (.unsized sized) forgets⟩
  | none =>
    cases granted : H.limits.mapFailure false len with
    | some code =>
      obtain ⟨H', run, forgets⟩ := newRegion_named_unmapped pos normal opens sized granted
      exact ⟨_, H', run, .abandoned named (.unmapped (.inr sized) granted) forgets⟩
    | none =>
      obtain ⟨id, mapping, H', run, shows, binds⟩ :=
        newRegion_named_run pos normal opens sized hp granted
      refine ⟨_, H', run, .opened named ?_ shows binds⟩
      rintro e cause
      cases cause with
      | unsized oversized => cases sized.symm.trans oversized
      | unmapped _ closed => cases granted.symm.trans closed

theorem newRegion_ends (hp : H.Placeable) (name : Option String) :
    ∃ answer H', newRegion name len H = .ok answer H' ∧ RegionEnds H name len answer H' := by
  cases name with
  | none => exact newRegion_unnamed_ends pos hp
  | some raw =>
    cases normal : Host.normalizeName raw with
    | error e => exact ⟨_, H, newRegion_badName pos normal, .refused (.invalid normal) (.refl H)⟩
    | ok n =>
      cases opens : H.limits.openFailure n with
      | some code =>
        obtain ⟨H', run, keeps⟩ := newRegion_closed pos normal opens
        exact ⟨_, H', run, .refused (.closed normal opens) keeps⟩
      | none => exact newRegion_opened_ends pos hp normal opens

end New

theorem view_none (shows : Host.Shows mapping id len) (o : PoolOptions)
    (short : Layout.compute o.slab len = .ok none) :
    ∃ H', view mapping o true H = .ok (.error .invalidSize) H' ∧ H.Edits H' id := by
  obtain ⟨rfl, rfl, pos, aligned⟩ := shows
  have region : Region.ofAddress mapping.base mapping.len = .ok ⟨mapping.base, mapping.len⟩ :=
    if_pos aligned
  have run : Pool.init ⟨mapping.base, mapping.len⟩ o.slab ⟨H.memoryOf mapping.id, H.journal⟩ = _ :=
    Pool.init_of_none short _
  obtain ⟨H', hrun, edits⟩ := Host.onMemory_edits run
  refine ⟨H', ?_, edits⟩
  rw [view, Host.bind_liftM region]
  exact Host.bind_run hrun

theorem view_some (shows : Host.Shows mapping id len) (o : PoolOptions) {layout : Layout}
    (hlen : len < wordLimit) (room : Layout.compute o.slab len = .ok (some layout)) :
    ∃ pool lock H', view mapping o true H = .ok (.ok (pool, lock)) H' ∧ H.Edits H' id ∧
      pool.region = ⟨mapping.base, mapping.len⟩ ∧ pool.config = o.slab := by
  obtain ⟨rfl, rfl, pos, aligned⟩ := shows
  have region : Region.ofAddress mapping.base mapping.len = .ok ⟨mapping.base, mapping.len⟩ :=
    if_pos aligned
  have room' : Layout.compute o.slab (⟨mapping.base, mapping.len⟩ : Region).len = _ := room
  obtain ⟨pool, t, run, laid⟩ := Pool.init_run room' hlen ⟨H.memoryOf mapping.id, H.journal⟩
  obtain ⟨H', hrun, edits⟩ := Host.onMemory_edits run
  refine ⟨pool, ⟨mapping.base, o.spin⟩, H', ?_, edits, laid.region_eq, laid.config_eq⟩
  rw [view, Host.bind_liftM region]
  refine (Host.bind_run hrun).trans ?_
  dsimp only
  rw [Host.bind_liftM (lock_bind pos o.spin)]
  rfl

theorem ofMapping_short (me : Caller) (binds : H.Binds H' id name object)
    (shows : Host.Shows mapping id len) (o : PoolOptions)
    (short : Layout.compute o.slab len = .ok none) :
    ∃ H'', ofMapping me mapping object o true H' = .ok (.error .invalidSize) H'' ∧
      H.Forgets H'' name := by
  obtain ⟨H₁, viewed, edits⟩ := view_none (H := H') shows o short
  have binds₁ := binds.edits edits
  rw [ofMapping, Host.bind_run viewed]
  cases binds₁ with
  | unnamed _ keeps => exact ⟨H₁, rfl, keeps⟩
  | named normal _ rebinds =>
    obtain ⟨H₂, unlinked, rebinds₂⟩ := rebinds.unlink
    exact ⟨H₂, Host.bind_run unlinked, _, normal, rebinds₂⟩

theorem ofMapping_run (me : Caller) (binds : H.Binds H' id name object)
    (shows : Host.Shows mapping id len) (o : PoolOptions) {layout : Layout}
    (hlen : len < wordLimit) (room : Layout.compute o.slab len = .ok (some layout)) :
    ∃ h H'', ofMapping me mapping object o true H' = .ok (.ok h) H'' ∧ h.size = len ∧
      h.config = o.slab ∧ H.Binds H'' h.mapping.id name h.object := by
  obtain ⟨pool, lock, H₁, viewed, edits, region, config⟩ := view_some (H := H') shows o hlen room
  obtain ⟨H₂, noted, keeps, _⟩ := Host.note_run (.poolReady true (object.map SharedObject.name)
    mapping.len pool.pageCount o.slab.pageSize) H₁
  refine ⟨⟨pool, lock, mapping, object, some me.pid⟩, H₂, ?_, ?_, config, ?_⟩
  · rw [ofMapping, Host.bind_run viewed]
    exact Host.bind_run noted
  · rw [SharedPool.size, region, shows.len]
  · rw [shows.id]
    exact (binds.edits edits).keeps keeps

/-- How a creation ends. -/
inductive Ends (H : Host) (name : Option String) (size : Nat) (o : PoolOptions) :
    Except PoolError SharedPool → Host → Prop
  | noSize (cause : size = 0 ∨ regionSize? size o = none) :
    Ends H name size o (.error .invalidSize) H
  | refused {e : HostError} {H' : Host} (cause : H.RefusesName name e) (keeps : H.Keeps H') :
    Ends H name size o (.error (.ofHost e)) H'
  | abandoned {e : HostError} {H' : Host} {len : Nat} (sized : regionSize? size o = some len)
    (opens : H.Opens name) (cause : H.RefusesRegion len name e) (forgets : H.Forgets H' name) :
    Ends H name size o (.error (.ofHost e)) H'
  | tooShort {H' : Host} {len : Nat} (sized : regionSize? size o = some len)
    (opens : H.Opens name) (few : o.minPages < 2) (cause : Layout.compute o.slab len = .ok none)
    (forgets : H.Forgets H' name) : Ends H name size o (.error .invalidSize) H'
  | made {h : SharedPool} {H' : Host} (sized : regionSize? size o = some h.size)
    (opens : H.Opens name) (granted : ∀ e, ¬H.RefusesRegion h.size name e)
    (least : IsLeast {n | o.slab.pageSize ∣ n ∧ size ≤ n ∧ o.minPages * o.slab.pageSize ≤ n} h.size)
    (config : h.config = o.slab) (binds : H.Binds H' h.mapping.id name h.object) :
    Ends H name size o (.ok h) H'

theorem Ends.names {answer : Except PoolError SharedPool} (ends : Ends H name size o answer H')
    {e : PoolError} (failed : answer = .error e) (m : String) :
    H'.names.lookup m = H.names.lookup m ∨ H'.names.lookup m = none := by
  cases ends with
  | noSize _ => exact .inl rfl
  | refused _ keeps => exact .inl (keeps.names m)
  | abandoned _ _ _ forgets => exact forgets.names m
  | tooShort _ _ _ _ forgets => exact forgets.names m
  | made => cases failed

theorem Ends.granted {answer : Except PoolError SharedPool} (ends : Ends H name size o answer H')
    (pos : 0 < size) (sized : regionSize? size o = some len) (two : 2 ≤ o.minPages)
    (named : ∀ e, ¬H.RefusesName name e) (granted : ∀ e, ¬H.RefusesRegion len name e) :
    ∃ h, answer = .ok h ∧ h.config = o.slab := by
  cases ends with
  | noSize cause =>
    rcases cause with zero | none
    · exact absurd zero pos.ne'
    · cases sized.symm.trans none
  | refused cause _ => exact absurd cause (named _)
  | abandoned sized' _ cause _ =>
    cases sized.symm.trans sized'
    exact absurd cause (granted _)
  | tooShort _ _ few _ _ => exact absurd two (not_le.2 few)
  | @made h _ _ _ _ _ config _ => exact ⟨h, rfl, config⟩

theorem create_run (me : Caller) (hp : H.Placeable) (name : Option String) (size : Nat)
    (o : PoolOptions) :
    ∃ answer H', create me name size o H = .ok answer H' ∧ Ends H name size o answer H' := by
  rw [create]
  by_cases hzero : size = 0
  · rw [if_pos hzero]
    exact ⟨_, H, rfl, .noSize (.inl hzero)⟩
  rw [if_neg hzero]
  cases sized : regionSize? size o with
  | none => exact ⟨_, H, rfl, .noSize (.inr sized)⟩
  | some len =>
    obtain ⟨pos, hlen⟩ := regionSize?_spec (Nat.pos_of_ne_zero hzero) sized
    dsimp only
    obtain ⟨answer, H₁, run, ends⟩ := newRegion_ends pos hp name
    rw [Host.bind_run run]
    cases ends with
    | refused cause keeps => exact ⟨_, H₁, rfl, .refused cause keeps⟩
    | abandoned opens cause forgets => exact ⟨_, H₁, rfl, .abandoned sized opens cause forgets⟩
    | opened opens granted shows binds =>
      obtain ⟨found, compute⟩ := Layout.compute_total o.slab hlen
      cases found with
      | none =>
        obtain ⟨H₂, run, forgets⟩ := ofMapping_short me binds shows o compute
        have few : o.minPages < 2 := not_le.1 fun two => compute_ne_none sized hlen two compute
        exact ⟨_, H₂, run, .tooShort sized opens few compute forgets⟩
      | some layout =>
        obtain ⟨h, H₂, run, hsize, config, binds⟩ := ofMapping_run me binds shows o hlen compute
        rw [← hsize] at sized granted
        exact ⟨_, H₂, run, .made sized opens granted (regionSize?_isLeast sized) config binds⟩

/-- Whatever the host refuses, a creation that fails leaves each name where it was or removes it, and
one that is done has the least whole pages that were asked for. -/
theorem creation_ends_clean (me : Caller) (hp : H.Placeable) (name : Option String) (size : Nat)
    (o : PoolOptions) :
    ∃ answer H', create me name size o H = .ok answer H' ∧ Ends H name size o answer H' ∧
      ∀ e, answer = .error e → ∀ m,
        H'.names.lookup m = H.names.lookup m ∨ H'.names.lookup m = none := by
  obtain ⟨answer, H', run, ends⟩ := create_run me hp name size o
  exact ⟨answer, H', run, ends, fun _ failed => ends.names failed⟩

/-- A host that maps nothing, and an object of one page with a name. -/
def hostWithoutMappings : Host where
  limits := ⟨fun _ => none, fun _ => none, fun _ _ => some 12⟩
  names := [("/pool", 0)]
  objects := #[⟨4096, Memory.zeroed⟩]
  top := 65536
  journal := #[]

/-- Its name is taken over by a creation that is given up when the mapping is refused. -/
theorem creation_ends_clean_unmapped : hostWithoutMappings.Placeable ∧ ∃ e H',
    create ⟨7, by decide, by decide, fun _ => false⟩ (some "pool") 1 .standard
      hostWithoutMappings = .ok (.error e) H' ∧ H'.names.lookup "/pool" = none := by
  have hp : hostWithoutMappings.Placeable := ⟨by decide, by decide⟩
  have normal : Host.normalizeName "pool" = .ok "/pool" := by decide
  have sized : regionSize? 1 .standard = some 32768 := by decide
  obtain ⟨answer, H', run, ends, _⟩ :=
    creation_ends_clean ⟨7, by decide, by decide, fun _ => false⟩ hp (some "pool") 1 .standard
  have gone : hostWithoutMappings.Forgets H' (some "pool") → H'.names.lookup "/pool" = none := by
    rintro ⟨n, normal', rebinds⟩
    cases normal.symm.trans normal'
    rw [rebinds.names]
    rfl
  cases ends with
  | noSize cause =>
    rcases cause with zero | none
    · cases zero
    · cases sized.symm.trans none
  | refused cause _ =>
    cases cause with
    | invalid bad => cases normal.symm.trans bad
    | closed _ closed => cases closed
  | abandoned _ _ _ forgets => exact ⟨hp, _, H', run, gone forgets⟩
  | tooShort _ _ _ _ forgets => exact ⟨hp, _, H', run, gone forgets⟩
  | made _ _ granted => exact absurd (.unmapped (.inr rfl) rfl) (granted (.os 12))

end SharedPool

end SharedSlab
