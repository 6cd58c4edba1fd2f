import SharedSlab.Proofs.Attaching
import SharedSlab.SharedPool

set_option autoImplicit false

namespace SharedSlab.Host

variable {α β : Type} {H H' H'' : Host} {n : String}

theorem bind_run {x : HostM α} {f : α → HostM β} {a : α} (h : x H = .ok a H') :
    (x >>= f) H = f a H' := by
  simp only [bind, EStateM.bind, h]

theorem of_bind {x : HostM α} {f : α → HostM β} {b : β} (h : (x >>= f) H = .ok b H'') :
    ∃ a H', x H = .ok a H' ∧ f a H' = .ok b H'' := by
  simp only [bind, EStateM.bind] at h
  split at h
  · next a H' hx => exact ⟨a, H', hx, h⟩
  · cases h

theorem bind_liftM {x : Except Fault α} {a : α} (h : x = .ok a) (f : α → HostM β) (H : Host) :
    ((liftM x : HostM α) >>= f) H = f a H := by
  rw [h]
  rfl

theorem lookup_cons (k : String) (id : Nat) (names : List (String × Nat)) (m : String) :
    ((k, id) :: names).lookup m = if m = k then some id else names.lookup m := by
  rw [List.lookup_cons]
  by_cases hm : m = k
  · rw [if_pos hm, hm, beq_self_eq_true]
  · rw [if_neg hm, beq_false_of_ne hm]

theorem lookup_filter (names : List (String × Nat)) (n m : String) :
    (names.filter (·.1 != n)).lookup m = if m = n then none else names.lookup m := by
  induction names with
  | nil => simp
  | cons entry names ih =>
    obtain ⟨k, id⟩ := entry
    by_cases hk : k = n
    · rw [List.filter_cons_of_neg (by simpa using hk), ih, lookup_cons, hk]
      by_cases hm : m = n
      · rw [if_pos hm, if_pos hm]
      · rw [if_neg hm, if_neg hm, if_neg hm]
    · rw [List.filter_cons_of_pos (by simpa using hk), lookup_cons, lookup_cons, ih]
      by_cases hm : m = k
      · have hne : m ≠ n := fun h => hk (hm.symm.trans h)
        rw [if_pos hm, if_neg hne, if_pos hm]
      · rw [if_neg hm, if_neg hm]

def named (H : Host) (n : String) (id : Option Nat) (m : String) : Option Nat :=
  if m = n then id else H.names.lookup m

theorem unlinkNormal_run {id : Nat} (h : H.names.lookup n = some id) :
    unlinkNormal n H = .ok (.ok ()) { H with names := H.names.filter (·.1 != n) } := by
  have found : lookup? n H = .ok (some id) H := by
    rw [← h]
    rfl
  rw [unlinkNormal, bind_run found]
  rfl

/-- Mappings can be placed where words are aligned, and not at address zero. -/
def Placeable (H : Host) : Prop := 0 < H.top ∧ H.top % 8 = 0

/-- There may be more objects, and less room for mappings. -/
structure Grows (H H' : Host) : Prop where
  limits : H'.limits = H.limits
  size_le : H.objects.size ≤ H'.objects.size
  objects : ∀ id < H.objects.size, H'.objects[id]? = H.objects[id]?
  placeable : H.Placeable → H'.Placeable

structure Keeps (H H' : Host) : Prop extends H.Grows H' where
  names : ∀ m, H'.names.lookup m = H.names.lookup m

theorem Grows.trans (h : H.Grows H') (h' : H'.Grows H'') : H.Grows H'' where
  limits := h'.limits.trans h.limits
  size_le := h.size_le.trans h'.size_le
  objects id hid := (h'.objects id (hid.trans_le h.size_le)).trans (h.objects id hid)
  placeable := h'.placeable ∘ h.placeable

theorem Keeps.refl (H : Host) : H.Keeps H := ⟨⟨rfl, le_refl _, fun _ _ => rfl, id⟩, fun _ => rfl⟩

theorem Keeps.trans (h : H.Keeps H') (h' : H'.Keeps H'') : H.Keeps H'' :=
  ⟨h.toGrows.trans h'.toGrows, fun m => (h'.names m).trans (h.names m)⟩

theorem note_run (e : Event) (H : Host) :
    ∃ H', note e H = .ok () H' ∧ H.Keeps H' ∧ H'.objects = H.objects :=
  ⟨_, rfl, ⟨⟨rfl, le_refl _, fun _ _ => rfl, id⟩, fun _ => rfl⟩, rfl⟩

/-- Only the bytes of object `id` change. -/
structure Stored (H H' : Host) (id : Nat) (m : Memory) : Prop where
  limits : H'.limits = H.limits
  names : H'.names = H.names
  top : H'.top = H.top
  size_eq : H'.objects.size = H.objects.size
  stored : ∀ o, H.objects[id]? = some o → H'.objects[id]? = some { o with memory := m }
  others : ∀ j, j ≠ id → H'.objects[j]? = H.objects[j]?

theorem onMemory_run {id : Nat} {act : PoolM α} {a : α} {t : Arena} {o : MemoryObject}
    (object : H.objects[id]? = some o) (run : act ⟨o.memory, H.journal⟩ = .ok a t) :
    ∃ H', onMemory id act H = .ok a H' ∧ H.Stored H' id t.memory := by
  simp only [onMemory, object, run]
  refine ⟨_, rfl, ⟨rfl, rfl, rfl, ?_, ?_, ?_⟩⟩
  · simp only [Array.size_modify]
  · intro o' object'
    rw [Array.getElem?_modify, if_pos rfl, Array.getElem?_modify, if_pos rfl, object']
    rfl
  · intro j hj
    rw [Array.getElem?_modify, if_neg hj.symm, Array.getElem?_modify, if_neg hj.symm]

theorem Grows.stored {id : Nat} {m : Memory} (h : H.Grows H') (s : H'.Stored H'' id m)
    (fresh : H.objects.size ≤ id) : H.Grows H'' where
  limits := s.limits.trans h.limits
  size_le := h.size_le.trans s.size_eq.ge
  objects j hj := (s.others j (by omega)).trans (h.objects j hj)
  placeable hp := by
    have hp' := h.placeable hp
    rw [Placeable, s.top]
    exact hp'

theorem Stored.keeps {id : Nat} {o : MemoryObject} (s : H.Stored H' id o.memory)
    (object : H.objects[id]? = some o) : H.Keeps H' where
  limits := s.limits
  size_le := s.size_eq.ge
  objects j _ := by
    by_cases hj : j = id
    · rw [hj, s.stored o object, object]
    · exact s.others j hj
  placeable hp := by
    rw [Placeable, s.top]
    exact hp
  names m := by rw [s.names]

theorem sizeOf_run {id : Nat} {o : MemoryObject} (object : H.objects[id]? = some o) :
    sizeOf id H = .ok o.size H := by
  have read : (get : HostM Host) H = .ok H H := rfl
  rw [sizeOf, bind_run read, object]
  rfl

structure Shows (mapping : Mapping) (id len : Nat) : Prop where
  id : mapping.id = id
  len : mapping.len = len
  base_pos : 0 < mapping.base
  aligned : mapping.base % 8 = 0

theorem place_run (id len : Nat) (protection : Protection) (hp : H.Placeable) :
    ∃ mapping H', place id len protection H = .ok mapping H' ∧ Shows mapping id len ∧
      H.Keeps H' ∧ H'.objects = H.objects := by
  obtain ⟨hpos, hmod⟩ := hp
  refine ⟨_, _, rfl, ⟨rfl, rfl, hpos, hmod⟩, ⟨⟨rfl, le_refl _, fun _ _ => rfl, fun _ => ?_⟩,
    fun _ => rfl⟩, rfl⟩
  have hpage : (((len + pageSize - 1) / pageSize + 1) * pageSize) % 8 = 0 := by
    rw [pageSize]
    omega
  exact ⟨Nat.add_pos_left hpos _, by dsimp only; omega⟩

theorem permit_run {anonymous : Bool} {len : Nat} (pos : 0 < len)
    (granted : H.limits.mapFailure anonymous len = none) :
    permit anonymous len H = .ok (.ok ()) H := by
  have limits : (get : HostM Host) H = .ok H H := rfl
  rw [permit, if_neg pos.ne', bind_run limits, granted]
  rfl

end SharedSlab.Host
