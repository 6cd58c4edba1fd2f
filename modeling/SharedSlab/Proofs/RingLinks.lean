import Mathlib.Data.List.Chain
import Mathlib.Data.List.Nodup
import SharedSlab.Proofs.Table
import SharedSlab.Slab.Ring

set_option autoImplicit false

/-!
# Rings of descriptors

`Ring d h l`: from the sentinel `h` the `next` fields of the table lead through the nodes `l` and
back to `h`, the links lead the same way back, and no node comes twice. The list operations change
at most one `next` and one link of nodes that stay, whatever coincides: sentinel and neighbours, or
both neighbours.
-/

namespace SharedSlab.Slab

namespace Table

/-- The table once the node between `b` and `a` was passed over. -/
def unlinked (d : Table) (b a : Nat) : Table :=
  (d.setNext b (nodeOffset a)).setLink a (nodeOffset b)

def pushed (d : Table) (h f x : Nat) (kind : PageKind) : Table :=
  (((d.setNext x (nodeOffset f)).setPrev x (nodeOffset h) kind).setLink f (nodeOffset x)).setNext h
    (nodeOffset x)

def replaced (d : Table) (b a y : Nat) (kind : PageKind) : Table :=
  (((d.setNext y (nodeOffset a)).setPrev y (nodeOffset b) kind).setNext b (nodeOffset y)).setLink a
    (nodeOffset y)

section Fields

variable (d : Table) (j k : Nat)

@[simp] theorem slab_setSlab (w : UInt64) :
    (d.setSlab j w k).slab = if k = j then w else (d k).slab := by
  unfold setSlab
  split <;> rfl

@[simp] theorem link_setSlab (w : UInt64) : (d.setSlab j w k).link = (d k).link := by
  unfold setSlab
  split <;> rfl

@[simp] theorem kind_setSlab (w : UInt64) : (d.setSlab j w k).kind = (d k).kind := by
  unfold setSlab
  split <;> rfl

@[simp] theorem next_setSlab (w : UInt64) : (d.setSlab j w k).next = (d k).next := by
  unfold setSlab
  split <;> rfl

@[simp] theorem slab_setNext (n : Nat) : (d.setNext j n k).slab = (d k).slab := by
  unfold setNext
  split <;> rfl

@[simp] theorem link_setNext (n : Nat) : (d.setNext j n k).link = (d k).link := by
  unfold setNext
  split <;> rfl

@[simp] theorem kind_setNext (n : Nat) : (d.setNext j n k).kind = (d k).kind := by
  unfold setNext
  split <;> rfl

@[simp] theorem next_setNext (n : Nat) :
    (d.setNext j n k).next = if k = j then n else (d k).next := by
  unfold setNext
  split <;> rfl

@[simp] theorem slab_setLink (n : Nat) : (d.setLink j n k).slab = (d k).slab := by
  unfold setLink
  split <;> rfl

@[simp] theorem link_setLink (n : Nat) :
    (d.setLink j n k).link = if k = j then n else (d k).link := by
  unfold setLink
  split <;> rfl

@[simp] theorem kind_setLink (n : Nat) : (d.setLink j n k).kind = (d k).kind := by
  unfold setLink
  split <;> rfl

@[simp] theorem next_setLink (n : Nat) : (d.setLink j n k).next = (d k).next := by
  unfold setLink
  split <;> rfl

@[simp] theorem slab_setPrev (n : Nat) (kind : PageKind) :
    (d.setPrev j n kind k).slab = (d k).slab := by
  unfold setPrev
  split <;> rfl

@[simp] theorem link_setPrev (n : Nat) (kind : PageKind) :
    (d.setPrev j n kind k).link = if k = j then n else (d k).link := by
  unfold setPrev
  split <;> rfl

@[simp] theorem kind_setPrev (n : Nat) (kind : PageKind) :
    (d.setPrev j n kind k).kind = if k = j then kind else (d k).kind := by
  unfold setPrev
  split <;> rfl

@[simp] theorem next_setPrev (n : Nat) (kind : PageKind) :
    (d.setPrev j n kind k).next = (d k).next := by
  unfold setPrev
  split <;> rfl

end Fields

end Table

theorem headD_mem_cons (l : List Nat) (h : Nat) : l.headD h ∈ h :: l := by
  cases l with
  | nil => exact List.mem_cons_self
  | cons y l => exact List.mem_cons_of_mem h List.mem_cons_self

section Chains

variable {d d' : Table}

abbrev Forward (d : Table) (l : List Nat) : Prop :=
  List.IsChain (fun x y => (d x).next = nodeOffset y) l

abbrev Backward (d : Table) (l : List Nat) : Prop :=
  List.IsChain (fun x y => (d y).link = nodeOffset x) l

theorem forward_congr {l : List Nat} {y : Nat} (h : Forward d (l ++ [y]))
    (agree : ∀ x ∈ l, (d' x).next = (d x).next) : Forward d' (l ++ [y]) := by
  induction l with
  | nil => exact .singleton y
  | cons x l ih =>
    have hx : (d' x).next = (d x).next := agree x List.mem_cons_self
    have hl : Forward d' (l ++ [y]) :=
      ih h.tail fun z hz => agree z (List.mem_cons_of_mem x hz)
    rw [List.cons_append] at h ⊢
    exact hl.cons fun z hz => hx.trans (h.rel_head? hz)

theorem backward_congr {l : List Nat} {y : Nat} (h : Backward d (y :: l))
    (agree : ∀ x ∈ l, (d' x).link = (d x).link) : Backward d' (y :: l) :=
  h.imp_of_mem_tail_imp fun _ b _ hb hlink => (agree b hb).trans hlink

end Chains

structure Ring (d : Table) (h : Nat) (l : List Nat) : Prop where
  forward : Forward d (h :: (l ++ [h]))
  backward : Backward d (h :: (l ++ [h]))
  nodup : (h :: l).Nodup

namespace Ring

variable {d d' : Table} {h x y a b f : Nat} {l l₁ l₂ : List Nat}

theorem congr (r : Ring d h l)
    (agree : ∀ x ∈ h :: l, (d' x).next = (d x).next ∧ (d' x).link = (d x).link) :
    Ring d' h l where
  forward := by
    rw [← List.cons_append]
    exact forward_congr r.forward fun x hx => (agree x hx).1
  backward := by
    apply backward_congr r.backward
    intro x hx
    rw [List.mem_append, List.mem_singleton] at hx
    rcases hx with hx | rfl
    · exact (agree x (List.mem_cons_of_mem h hx)).2
    · exact (agree x List.mem_cons_self).2
  nodup := r.nodup

theorem next_sentinel (r : Ring d h l) : (d h).next = nodeOffset (l.headD h) := by
  have hchain := r.forward
  cases l with
  | nil => exact (List.isChain_cons_cons.1 hchain).1
  | cons y l => exact (List.isChain_cons_cons.1 hchain).1

theorem seam {u v mid : List Nat} (r : Ring d h (l₁ ++ (mid ++ l₂))) (hub : h :: l₁ = u ++ [b])
    (hav : l₂ ++ [h] = a :: v) :
    ((∀ z ∈ u, z ∈ h :: l₁ ∧ z ≠ b) ∧ ∀ z ∈ l₂, z ≠ b) ∧
      (∀ z ∈ l₁, z ≠ a) ∧ ∀ z ∈ v, z ∈ h :: l₂ ∧ z ≠ a := by
  have hnodup := r.nodup
  rw [List.nodup_cons, List.nodup_append, List.nodup_append] at hnodup
  obtain ⟨hsentinel, hnodup₁, ⟨_, hnodup₂, _⟩, hapart⟩ := hnodup
  simp only [List.mem_append, not_or] at hsentinel hapart
  have hb : b ∈ h :: l₁ := hub ▸ List.mem_append_right _ (List.mem_singleton_self b)
  have ha : a ∈ l₂ ∨ a = h := by
    have hmem : a ∈ l₂ ++ [h] := hav ▸ List.mem_cons_self
    simpa using hmem
  refine ⟨⟨fun z hz => ?_, ?_⟩, ?_, fun z hz => ?_⟩
  · have hnodupu : (u ++ [b]).Nodup := hub ▸ List.nodup_cons.2 ⟨hsentinel.1, hnodup₁⟩
    refine ⟨hub ▸ List.mem_append_left _ hz, ?_⟩
    rintro rfl
    exact List.disjoint_of_nodup_append hnodupu hz (List.mem_singleton_self z)
  · rintro z hz rfl
    rcases List.mem_cons.1 hb with rfl | hb
    · exact hsentinel.2.2 hz
    · exact hapart z hb z (.inr hz) rfl
  · rintro z hz rfl
    rcases ha with ha | rfl
    · exact hapart z hz z (.inr ha) rfl
    · exact hsentinel.1 hz
  · have hnodupv : (a :: v).Nodup := by
      rw [← hav, List.nodup_append]
      refine ⟨hnodup₂, List.nodup_singleton h, ?_⟩
      rintro w hw x hx rfl
      exact hsentinel.2.2 (List.mem_singleton.1 hx ▸ hw)
    have hmem : z ∈ l₂ ++ [h] := hav ▸ List.mem_cons_of_mem a hz
    refine ⟨by simpa [or_comm] using hmem, ?_⟩
    rintro rfl
    exact (List.nodup_cons.1 hnodupv).1 hz

/-- What two edits at the seam between `b` and `a` leave of a ring: the way up to `b`, and the way
on from `a`. -/
theorem segments (d' : Table) (mid : List Nat) {u v : List Nat} (r : Ring d h (l₁ ++ (mid ++ l₂)))
    (hub : h :: l₁ = u ++ [b]) (hav : l₂ ++ [h] = a :: v)
    (hnext : ∀ z ∈ h :: (l₁ ++ (mid ++ l₂)), z ≠ b → (d' z).next = (d z).next)
    (hlink : ∀ z ∈ h :: (l₁ ++ (mid ++ l₂)), z ≠ a → (d' z).link = (d z).link) :
    (Forward d' (u ++ [b]) ∧ Forward d' (a :: v)) ∧
      (Backward d' (u ++ [b]) ∧ Backward d' (a :: v)) := by
  have hlist : h :: (l₁ ++ (mid ++ l₂) ++ [h]) = (u ++ [b]) ++ (mid ++ a :: v) := by
    rw [← hub, ← hav]
    simp
  have hforward := r.forward
  have hbackward := r.backward
  rw [hlist] at hforward hbackward
  obtain ⟨⟨hu, hl₂⟩, hl₁, hv⟩ := r.seam hub hav
  refine ⟨⟨?_, ?_⟩, ?_, ?_⟩
  · refine forward_congr hforward.left_of_append fun z hz => hnext z ?_ (hu z hz).2
    have hmem := (hu z hz).1
    simp only [List.mem_cons, List.mem_append] at hmem ⊢
    tauto
  · have hold := hforward.right_of_append.right_of_append
    rw [← hav] at hold ⊢
    refine forward_congr hold fun z hz => hnext z ?_ (hl₂ z hz)
    simp [hz]
  · have hold := hbackward.left_of_append
    rw [← hub] at hold ⊢
    refine backward_congr hold fun z hz => hlink z ?_ (hl₁ z hz)
    simp [hz]
  · refine backward_congr hbackward.right_of_append.right_of_append fun z hz =>
      hlink z ?_ (hv z hz).2
    have hmem := (hv z hz).1
    simp only [List.mem_cons, List.mem_append] at hmem ⊢
    tauto

theorem exists_cut (h : Nat) (l₁ l₂ : List Nat) :
    ∃ u b a v, h :: l₁ = u ++ [b] ∧ l₂ ++ [h] = a :: v := by
  refine ⟨_, _, (l₂ ++ [h]).head (by simp), (l₂ ++ [h]).tail,
    (List.dropLast_append_getLast (List.cons_ne_nil h l₁)).symm, ?_⟩
  rw [List.cons_head_tail]

theorem neighbours {u v : List Nat} (r : Ring d h (l₁ ++ x :: l₂)) (hub : h :: l₁ = u ++ [b])
    (hav : l₂ ++ [h] = a :: v) : (d x).link = nodeOffset b ∧ (d x).next = nodeOffset a := by
  have hlist : h :: (l₁ ++ x :: l₂ ++ [h]) = u ++ b :: x :: a :: v := by
    rw [List.append_assoc, List.cons_append, hav, ← List.cons_append, hub]
    simp
  have hforward := r.forward
  have hbackward := r.backward
  rw [hlist] at hforward hbackward
  exact ⟨(List.isChain_append_cons_cons.1 hbackward).2.1,
    (List.isChain_cons_cons.1 (List.isChain_append_cons_cons.1 hforward).2.2).1⟩

theorem cut (r : Ring d h (l₁ ++ x :: l₂)) :
    ∃ u b a v, (h :: l₁ = u ++ [b] ∧ l₂ ++ [h] = a :: v) ∧
      (b ∈ h :: (l₁ ++ x :: l₂) ∧ a ∈ h :: (l₁ ++ x :: l₂)) ∧ (b ≠ x ∧ a ≠ x) ∧
      (d x).link = nodeOffset b ∧ (d x).next = nodeOffset a := by
  obtain ⟨u, b, a, v, hub, hav⟩ := exists_cut h l₁ l₂
  have hnodup := r.nodup
  simp only [List.nodup_cons, List.nodup_append, List.mem_append, List.mem_cons, not_or] at hnodup
  obtain ⟨⟨_, hhx, _⟩, _, ⟨hx₂, _⟩, hapart⟩ := hnodup
  have hb : b ∈ h :: l₁ := hub ▸ List.mem_append_right _ (List.mem_singleton_self b)
  have ha : a ∈ l₂ ++ [h] := hav ▸ List.mem_cons_self
  refine ⟨u, b, a, v, ⟨hub, hav⟩, ⟨?_, ?_⟩, ⟨?_, ?_⟩, r.neighbours hub hav⟩
  · exact List.cons_subset_cons h (List.subset_append_left l₁ _) hb
  · simp only [List.mem_append, List.mem_cons] at ha ⊢
    tauto
  · rintro rfl
    rcases List.mem_cons.1 hb with rfl | hb
    · exact hhx rfl
    · exact hapart b hb b (.inl rfl) rfl
  · rintro rfl
    rcases List.mem_append.1 ha with ha | ha
    · exact hx₂ ha
    · exact hhx (List.mem_singleton.1 ha).symm

theorem unlink {u v : List Nat} (r : Ring d h (l₁ ++ x :: l₂)) (hub : h :: l₁ = u ++ [b])
    (hav : l₂ ++ [h] = a :: v) : Ring (d.unlinked b a) h (l₁ ++ l₂) := by
  obtain ⟨⟨fu, fv⟩, bu, bv⟩ := r.segments (d.unlinked b a) [x] hub hav
    (fun z _ hz => by simp [Table.unlinked, hz]) (fun z _ hz => by simp [Table.unlinked, hz])
  have hlist : h :: (l₁ ++ l₂ ++ [h]) = u ++ b :: a :: v := by
    rw [List.append_assoc, hav, ← List.cons_append, hub]
    simp
  refine ⟨?_, ?_, r.nodup.sublist ?_⟩
  · rw [hlist]
    exact List.isChain_append_cons_cons.2 ⟨fu, by simp [Table.unlinked], fv⟩
  · rw [hlist]
    exact List.isChain_append_cons_cons.2 ⟨bu, by simp [Table.unlinked], bv⟩
  · exact (List.Sublist.append_left (List.sublist_cons_self x l₂) l₁).cons_cons h

theorem insert (mid : List Nat) {u v : List Nat} (r : Ring d h (l₁ ++ (mid ++ l₂)))
    (hub : h :: l₁ = u ++ [b]) (hav : l₂ ++ [h] = a :: v) (fresh : y ∉ h :: (l₁ ++ l₂))
    (hnext : ∀ z ∈ h :: (l₁ ++ (mid ++ l₂)), z ≠ b → (d' z).next = (d z).next)
    (hlink : ∀ z ∈ h :: (l₁ ++ (mid ++ l₂)), z ≠ a → (d' z).link = (d z).link)
    (into : (d' b).next = nodeOffset y ∧ (d' y).link = nodeOffset b)
    (out : (d' y).next = nodeOffset a ∧ (d' a).link = nodeOffset y) :
    Ring d' h (l₁ ++ y :: l₂) := by
  obtain ⟨⟨fu, fv⟩, bu, bv⟩ := r.segments d' mid hub hav hnext hlink
  have hlist : h :: (l₁ ++ y :: l₂ ++ [h]) = u ++ b :: y :: a :: v := by
    rw [List.append_assoc, List.cons_append, hav, ← List.cons_append, hub]
    simp
  have hnodup : (h :: (l₁ ++ l₂)).Nodup := r.nodup.sublist
    ((List.Sublist.append_left (List.sublist_append_right mid l₂) l₁).cons_cons h)
  refine ⟨?_, ?_, ?_⟩
  · rw [hlist]
    exact List.isChain_append_cons_cons.2 ⟨fu, into.1, List.isChain_cons_cons.2 ⟨out.1, fv⟩⟩
  · rw [hlist]
    exact List.isChain_append_cons_cons.2 ⟨bu, into.2, List.isChain_cons_cons.2 ⟨out.2, bv⟩⟩
  · have hperm : (h :: (l₁ ++ y :: l₂)).Perm (y :: h :: (l₁ ++ l₂)) :=
      (List.perm_middle.cons h).trans (List.Perm.swap y h _)
    exact hperm.nodup_iff.2 (List.nodup_cons.2 ⟨fresh, hnodup⟩)

theorem push (r : Ring d h l) (fresh : x ∉ h :: l) (kind : PageKind) :
    Ring (d.pushed h (l.headD h) x kind) h (x :: l) := by
  obtain ⟨hx, hxl⟩ : x ≠ h ∧ x ∉ l := by simpa using fresh
  have hf : x ≠ l.headD h := by
    cases l with
    | nil => exact hx
    | cons y l => exact fun e => hxl (e ▸ List.mem_cons_self)
  have hav : l ++ [h] = l.headD h :: (l ++ [h]).tail := by cases l <;> rfl
  have hub : h :: ([] : List Nat) = [] ++ [h] := rfl
  have r' : Ring d h ([] ++ ([] ++ l)) := r
  refine r'.insert [] hub hav fresh ?_ ?_ ?_ ?_
  · intro z hz hzh
    have hzx : z ≠ x := fun e => fresh (e ▸ hz)
    simp [Table.pushed, hzh, hzx]
  · intro z hz hzf
    have hzx : z ≠ x := fun e => fresh (e ▸ hz)
    simp only [List.headD_eq_head?_getD] at hzf
    simp [Table.pushed, hzf, hzx]
  · simp only [List.headD_eq_head?_getD] at hf
    simp [Table.pushed, hf]
  · simp [Table.pushed, hx]

theorem replace {u v : List Nat} (r : Ring d h (l₁ ++ x :: l₂)) (hub : h :: l₁ = u ++ [b])
    (hav : l₂ ++ [h] = a :: v) (fresh : y ∉ h :: (l₁ ++ x :: l₂)) (kind : PageKind) :
    Ring (d.replaced b a y kind) h (l₁ ++ y :: l₂) := by
  have hb : b ∈ h :: l₁ := hub ▸ List.mem_append_right _ (List.mem_singleton_self b)
  have ha : a ∈ l₂ ++ [h] := hav ▸ List.mem_cons_self
  have hyb : y ≠ b := by
    rintro rfl
    exact fresh (List.cons_subset_cons h (List.subset_append_left l₁ _) hb)
  have hya : y ≠ a := by
    rintro rfl
    simp only [List.mem_append, List.mem_singleton] at ha
    simp only [List.mem_cons, List.mem_append] at fresh
    tauto
  refine Ring.insert [x] r hub hav ?_ ?_ ?_ ?_ ?_
  · intro hmem
    apply fresh
    simp only [List.mem_cons, List.mem_append] at hmem ⊢
    tauto
  · intro z hz hzb
    have hzy : z ≠ y := fun e => fresh (e ▸ hz)
    simp [Table.replaced, hzb, hzy]
  · intro z hz hza
    have hzy : z ≠ y := fun e => fresh (e ▸ hz)
    simp [Table.replaced, hza, hzy]
  · simp [Table.replaced, hya]
  · simp [Table.replaced, hyb]

end Ring

theorem filter_ne_middle {α : Type} [DecidableEq α] {l₁ l₂ : List α} {x : α}
    (h : x ∉ l₁ ++ l₂) : (l₁ ++ x :: l₂).filter (· ≠ x) = l₁ ++ l₂ := by
  have hkeep : (l₁ ++ l₂).filter (· ≠ x) = l₁ ++ l₂ :=
    List.filter_eq_self.2 fun z hz => decide_eq_true fun heq => h (heq ▸ hz)
  rw [List.filter_append, List.filter_cons_of_neg (by simp), ← List.filter_append, hkeep]

structure Rings (heads : Set Nat) (d : Table) (R : Nat → List Nat) : Prop where
  ring : ∀ h ∈ heads, Ring d h (R h)
  apart : ∀ g ∈ heads, ∀ h ∈ heads, ∀ x ∈ R g, x ∈ R h → g = h
  inner : ∀ g ∈ heads, ∀ h ∈ heads, g ∉ R h

namespace Rings

variable {heads : Set Nat} {d d' : Table} {R : Nat → List Nat} {g h x y : Nat} {l₁ l₂ : List Nat}

theorem not_mem_of_ne (r : Rings heads d R) (hg : g ∈ heads) (hh : h ∈ heads) (hne : g ≠ h)
    (hx : x ∈ g :: R g) : x ∉ h :: R h := by
  intro hx'
  rcases List.mem_cons.1 hx with rfl | hx
  · rcases List.mem_cons.1 hx' with rfl | hx'
    · exact hne rfl
    · exact r.inner x hg h hh hx'
  · rcases List.mem_cons.1 hx' with rfl | hx'
    · exact r.inner x hh g hg hx
    · exact hne (r.apart g hg h hh x hx hx')

theorem congr (r : Rings heads d R)
    (agree : ∀ h ∈ heads, ∀ x ∈ h :: R h, (d' x).next = (d x).next ∧ (d' x).link = (d x).link) :
    Rings heads d' R :=
  ⟨fun h hh => (r.ring h hh).congr (agree h hh), r.apart, r.inner⟩

theorem update {l : List Nat} (r : Rings heads d R) (hh : h ∈ heads) (new : Ring d' h l)
    (agree : ∀ g ∈ heads, g ≠ h → ∀ x ∈ g :: R g,
      (d' x).next = (d x).next ∧ (d' x).link = (d x).link)
    (own : ∀ x ∈ l, x ∉ heads ∧ ∀ g ∈ heads, g ≠ h → x ∉ R g) :
    Rings heads d' (Function.update R h l) where
  ring g hg := by
    by_cases hgh : g = h
    · subst hgh
      rwa [Function.update_self]
    · rw [Function.update_of_ne hgh]
      exact (r.ring g hg).congr (agree g hg hgh)
  apart g hg g' hg' x hx hx' := by
    by_cases hgh : g = h
    · subst hgh
      by_cases hgh' : g' = g
      · exact hgh'.symm
      · rw [Function.update_self] at hx
        rw [Function.update_of_ne hgh'] at hx'
        exact absurd hx' ((own x hx).2 g' hg' hgh')
    · rw [Function.update_of_ne hgh] at hx
      by_cases hgh' : g' = h
      · subst hgh'
        rw [Function.update_self] at hx'
        exact absurd hx ((own x hx').2 g hg hgh)
      · rw [Function.update_of_ne hgh'] at hx'
        exact r.apart g hg g' hg' x hx hx'
  inner g hg g' hg' hmem := by
    by_cases hgh' : g' = h
    · subst hgh'
      rw [Function.update_self] at hmem
      exact (own g hmem).1 hg
    · rw [Function.update_of_ne hgh'] at hmem
      exact r.inner g hg g' hg' hmem

theorem own_of_mem (r : Rings heads d R) (hh : h ∈ heads) (hx : x ∈ R h) :
    x ∉ heads ∧ ∀ g ∈ heads, g ≠ h → x ∉ R g :=
  ⟨fun hx' => r.inner x hx' h hh hx,
    fun g hg hgh hxg => hgh (r.apart g hg h hh x hxg hx)⟩

theorem unlink (r : Rings heads d R) (hh : h ∈ heads) (hx : x ∈ R h) :
    ∃ b a, (b ∈ h :: R h ∧ a ∈ h :: R h) ∧ (b ≠ x ∧ a ≠ x) ∧
      ((d x).link = nodeOffset b ∧ (d x).next = nodeOffset a) ∧
      Rings heads (d.unlinked b a) (Function.update R h ((R h).filter (· ≠ x))) := by
  obtain ⟨l₁, l₂, hl⟩ := List.append_of_mem hx
  have ring := r.ring h hh
  rw [hl] at ring
  obtain ⟨u, b, a, v, ⟨hub, hav⟩, hmem, hne, hlinks⟩ := ring.cut
  have hfilter : (R h).filter (· ≠ x) = l₁ ++ l₂ := by
    have hnodup := ring.nodup
    rw [List.nodup_cons, List.nodup_middle, List.nodup_cons] at hnodup
    rw [hl]
    exact filter_ne_middle hnodup.2.1
  rw [← hl] at hmem
  refine ⟨b, a, hmem, hne, hlinks, ?_⟩
  rw [hfilter]
  refine r.update hh (ring.unlink hub hav) ?_ ?_
  · intro g hg hgh z hz
    have hzh := r.not_mem_of_ne hg hh hgh hz
    have hzb : z ≠ b := fun e => hzh (e ▸ hmem.1)
    have hza : z ≠ a := fun e => hzh (e ▸ hmem.2)
    simp [Table.unlinked, hzb, hza]
  · intro z hz
    refine r.own_of_mem hh ?_
    rw [hl]
    simp only [List.mem_append, List.mem_cons] at hz ⊢
    tauto

theorem push (r : Rings heads d R) (hh : h ∈ heads) (fresh : ∀ g ∈ heads, x ∉ g :: R g)
    (kind : PageKind) :
    Rings heads (d.pushed h ((R h).headD h) x kind) (Function.update R h (x :: R h)) := by
  have hfirst := headD_mem_cons (R h) h
  refine r.update hh ((r.ring h hh).push (fresh h hh) kind) ?_ ?_
  · intro g hg hgh z hz
    have hzh := r.not_mem_of_ne hg hh hgh hz
    have hzx : z ≠ x := fun e => fresh g hg (e ▸ hz)
    have hzf : z ≠ (R h).headD h := fun e => hzh (e ▸ hfirst)
    have hne : z ≠ h := fun e => hzh (e ▸ List.mem_cons_self)
    simp only [List.headD_eq_head?_getD] at hzf
    simp [Table.pushed, hzx, hzf, hne]
  · intro z hz
    rcases List.mem_cons.1 hz with rfl | hz
    · exact ⟨fun hz => fresh z hz List.mem_cons_self,
        fun g hg _ hmem => fresh g hg (List.mem_cons_of_mem g hmem)⟩
    · exact r.own_of_mem hh hz

theorem replace (r : Rings heads d R) (hh : h ∈ heads) (hl : R h = l₁ ++ x :: l₂)
    (fresh : ∀ g ∈ heads, y ∉ g :: R g) (kind : PageKind) :
    ∃ b a, (b ∈ h :: R h ∧ a ∈ h :: R h) ∧ (b ≠ x ∧ a ≠ x) ∧
      ((d x).link = nodeOffset b ∧ (d x).next = nodeOffset a) ∧
      Rings heads (d.replaced b a y kind) (Function.update R h (l₁ ++ y :: l₂)) := by
  have ring := r.ring h hh
  have hfresh := fresh h hh
  rw [hl] at ring hfresh
  obtain ⟨u, b, a, v, ⟨hub, hav⟩, hmem, hne, hlinks⟩ := ring.cut
  rw [← hl] at hmem
  refine ⟨b, a, hmem, hne, hlinks, r.update hh (ring.replace hub hav hfresh kind) ?_ ?_⟩
  · intro g hg hgh z hz
    have hzh := r.not_mem_of_ne hg hh hgh hz
    have hzy : z ≠ y := fun e => fresh g hg (e ▸ hz)
    have hzb : z ≠ b := fun e => hzh (e ▸ hmem.1)
    have hza : z ≠ a := fun e => hzh (e ▸ hmem.2)
    simp [Table.replaced, hzy, hzb, hza]
  · intro z hz
    by_cases hzy : z = y
    · subst hzy
      exact ⟨fun hz => fresh z hz List.mem_cons_self,
        fun g hg _ hmem => fresh g hg (List.mem_cons_of_mem g hmem)⟩
    · refine r.own_of_mem hh ?_
      rw [hl]
      simp only [List.mem_append, List.mem_cons] at hz ⊢
      tauto

end Rings

end SharedSlab.Slab
