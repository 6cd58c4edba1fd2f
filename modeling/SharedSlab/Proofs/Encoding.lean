import SharedSlab.Proofs.LedgerChunks
import SharedSlab.Proofs.RingSteps

set_option autoImplicit false

/-!
# Ledgers in memory

`Encodes p a d w`: the table `d` of descriptors, together with the bitmap words among `w`, holds the
ledger `a`. Each descriptor says what its page is used for, the lists of the ledger are rings of
the table, and a free run is described at both ends. `Encodes.edit` is the one way to change a
ledger and its encoding together: a few pages are described anew, all others keep their words up to
the links of neighbours.
-/

namespace SharedSlab.Slab

/-- The occupancy of a page of a class: where the words of the page say which chunks are taken. -/
def Occupied (p : Pool) (i shift : Nat) (taken : Finset Nat) (slab : UInt64)
    (w : Nat → UInt64) : Prop :=
  match p.config.kindFor shift with
  | .small => slab = UInt64.ofNat shift ∧
      ∀ k < p.config.words shift, Bits.Window (w (p.bitmapIndex i k)) 0 64 (64 * k) taken
  | .exact => Bits.Window slab 0 64 0 taken
  | _ => Pool.recordedShift slab = shift ∧ Bits.Window slab mapShift 32 0 taken

def PageUse.Marks (p : Pool) (i : Nat) (slab : UInt64) (w : Nat → UInt64) : PageUse → Prop
  | .free => True
  | .runStart n => slab = UInt64.ofNat n ||| Slab.runStart
  | .runRest => slab = runInterior
  | .chunks shift taken => Occupied p i shift taken slab w

/-- The nodes of each list of a ledger, by the sentinel of the list. -/
def Pool.ringOf (p : Pool) (a : Ledger) : Nat → List Nat
  | 0 => a.runs.map fun r => p.page r.first
  | h + 1 => (a.listed (p.config.minShift + h)).map p.page

def Pool.heads (p : Pool) : Set Nat := {h | h ≤ p.config.slotCount}

structure Written (p : Pool) (a : Ledger) (d : Table) (w : Nat → UInt64) (i : Nat) : Prop where
  kind : (d (p.page i)).kind = (a.use i).kind p.config
  marks : (a.use i).Marks p i (d (p.page i)).slab w
  idle : ¬a.Linked i → (d (p.page i)).next = 0
  blank : a.use i = .free → (∀ r ∈ a.runs, r.first ≠ i) → (d (p.page i)).slab = 0

/-- The first descriptor of a free run has its length, the last one leads back to the first. -/
structure RunWritten (p : Pool) (d : Table) (r : PageRun) : Prop where
  length : (d (p.page r.first)).slab = UInt64.ofNat r.len
  back : 1 < r.len → (d (p.page (r.finish - 1))).link = nodeOffset (p.page r.first)

structure Encodes (p : Pool) (a : Ledger) (d : Table) (w : Nat → UInt64) : Prop where
  rings : Rings p.heads d (p.ringOf a)
  pages : ∀ i < p.pageCount, Written p a d w i
  runs : ∀ r ∈ a.runs, RunWritten p d r

/-- A page that is not described anew: the same to both ledgers, and its words are the same unless
it is a neighbour of one that was linked or unlinked. -/
structure SamePage (p : Pool) (a a' : Ledger) (d d' : Table) (w w' : Nat → UInt64) (i : Nat) :
    Prop where
  use : a'.use i = a.use i
  first : (∃ r ∈ a'.runs, r.first = i) ↔ ∃ r ∈ a.runs, r.first = i
  list : (∃ shift, i ∈ a'.listed shift) ↔ ∃ shift, i ∈ a.listed shift
  slab : (d' (p.page i)).slab = (d (p.page i)).slab
  kind : (d' (p.page i)).kind = (d (p.page i)).kind
  next : ¬a.Linked i → (d' (p.page i)).next = (d (p.page i)).next
  link : ¬a.Linked i → (d' (p.page i)).link = (d (p.page i)).link
  words : ∀ k, 8 * k < p.config.pageSize → w' (p.bitmapIndex i k) = w (p.bitmapIndex i k)

variable {p : Pool} {a a' : Ledger} {d d' : Table} {w w' : Nat → UInt64}
  {i j k n shift : Nat} {r : PageRun} {taken : Finset Nat}

section Occupied

variable {slab : UInt64}

theorem occupied_small (small : shift < p.config.exactShift) :
    Occupied p i shift taken slab w ↔ slab = UInt64.ofNat shift ∧
      ∀ k < p.config.words shift, Bits.Window (w (p.bitmapIndex i k)) 0 64 (64 * k) taken := by
  simp only [Occupied, Config.kindFor_small small]

theorem occupied_exact : Occupied p i p.config.exactShift taken slab w ↔
    Bits.Window slab 0 64 0 taken := by
  simp only [Occupied, Config.kindFor_exact]

theorem occupied_big (big : p.config.exactShift < shift) :
    Occupied p i shift taken slab w ↔
      Pool.recordedShift slab = shift ∧ Bits.Window slab mapShift 32 0 taken := by
  simp only [Occupied, Config.kindFor_big big]

end Occupied

theorem PageUse.Marks.congr_bitmap {u : PageUse} {slab : UInt64} (h : u.Marks p i slab w)
    (words : ∀ shift taken, u = .chunks shift taken → shift < p.config.exactShift →
      ∀ k < p.config.words shift, w' (p.bitmapIndex i k) = w (p.bitmapIndex i k)) :
    u.Marks p i slab w' := by
  cases u with
  | free => trivial
  | runStart n => exact h
  | runRest => exact h
  | chunks shift taken =>
    change Occupied p i shift taken slab w at h
    change Occupied p i shift taken slab w'
    rcases Nat.lt_trichotomy shift p.config.exactShift with small | rfl | big
    · rw [occupied_small small] at h ⊢
      refine ⟨h.1, fun k hk => ?_⟩
      rw [words shift taken rfl small k hk]
      exact h.2 k hk
    · rw [occupied_exact] at h ⊢
      exact h
    · rw [occupied_big big] at h ⊢
      exact h

theorem PageUse.Marks.congr {u : PageUse} {slab : UInt64} (h : u.Marks p i slab w)
    (words : ∀ k, 8 * k < p.config.pageSize → w' (p.bitmapIndex i k) = w (p.bitmapIndex i k)) :
    u.Marks p i slab w' :=
  h.congr_bitmap fun _ _ _ small k hk => words k (Config.eight_mul_lt small hk)

theorem SamePage.of_eq (use : a'.use i = a.use i)
    (first : (∃ r ∈ a'.runs, r.first = i) ↔ ∃ r ∈ a.runs, r.first = i)
    (list : (∃ shift, i ∈ a'.listed shift) ↔ ∃ shift, i ∈ a.listed shift)
    (same : d' (p.page i) = d (p.page i)) : SamePage p a a' d d' w w i where
  use := use
  first := first
  list := list
  slab := by rw [same]
  kind := by rw [same]
  next _ := by rw [same]
  link _ := by rw [same]
  words _ _ := rfl

theorem Written.keep (h : Written p a d w i) (same : SamePage p a a' d d' w w' i) :
    Written p a' d' w' i where
  kind := by rw [same.kind, same.use, h.kind]
  marks := by
    rw [same.slab, same.use]
    exact h.marks.congr same.words
  idle hnot := by
    have hold : ¬a.Linked i := fun hlinked => hnot (hlinked.imp same.first.2 same.list.2)
    rw [same.next hold, h.idle hold]
  blank hfree hfirst := by
    rw [same.slab]
    refine h.blank (same.use ▸ hfree) fun r hr heq => ?_
    obtain ⟨q, hq, hqi⟩ := same.first.2 ⟨r, hr, heq⟩
    exact hfirst q hq hqi

theorem Written.of_free (hfree : a.use i = .free) (kind : (d (p.page i)).kind = .page)
    (idle : ¬a.Linked i → (d (p.page i)).next = 0)
    (blank : (∀ r ∈ a.runs, r.first ≠ i) → (d (p.page i)).slab = 0) : Written p a d w i where
  kind := by
    rw [hfree, kind]
    rfl
  marks := by
    rw [hfree]
    trivial
  idle := idle
  blank _ := blank

theorem Encodes.edit (h : Encodes p a d w) (co : a.Coherent p.config p.pageCount) (S : Set Nat)
    (rings : Rings p.heads d' (p.ringOf a'))
    (far : ∀ i < p.pageCount, i ∉ S → SamePage p a a' d d' w w' i)
    (near : ∀ i < p.pageCount, i ∈ S → Written p a' d' w' i)
    (runs : ∀ r ∈ a'.runs, (r ∈ a.runs ∧ ∀ j, r.first ≤ j → j < r.finish → j ∉ S) ∨
      RunWritten p d' r) : Encodes p a' d' w' where
  rings := rings
  pages i hi := by
    by_cases hS : i ∈ S
    · exact near i hi hS
    · exact (h.pages i hi).keep (far i hi hS)
  runs r hr := by
    rcases runs r hr with ⟨hold, hS⟩ | hnew
    · have hlt := co.first_lt_finish hold
      have hle := co.run_le r hold
      have hfinish : r.finish = r.first + r.len := rfl
      refine ⟨?_, fun hlen => ?_⟩
      · rw [(far r.first (by omega) (hS r.first (le_refl _) hlt)).slab]
        exact (h.runs r hold).length
      · have hlast := far (r.finish - 1) (by omega) (hS (r.finish - 1) (by omega) (by omega))
        rw [hlast.link (co.not_linked_of_inner hold (by omega) (by omega))]
        exact (h.runs r hold).back hlen
    · exact hnew

theorem page_not_mem_heads (p : Pool) (i : Nat) : p.page i ∉ p.heads :=
  not_le.2 (p.slotCount_lt_page i)

theorem zero_mem_heads (p : Pool) : 0 ∈ p.heads := Nat.zero_le _

theorem slot_mem_heads (h : p.config.IsClass shift) : p.slot shift ∈ p.heads :=
  Pool.slot_le_slotCount h

theorem lt_nodes_of_mem_heads {x : Nat} (h : x ∈ p.heads) : x < p.nodes := by
  have hle : x ≤ p.config.slotCount := h
  simp only [Pool.nodes]
  omega

theorem ringOf_slot (hclass : p.config.IsClass shift) :
    p.ringOf a (p.slot shift) = (a.listed shift).map p.page := by
  have hslot : p.slot shift = shift - p.config.minShift + 1 := Nat.add_comm _ _
  have hle := hclass.1
  rw [hslot, Pool.ringOf, Nat.add_sub_cancel' hle]

theorem page_mem_map {l : List Nat} : p.page i ∈ l.map p.page ↔ i ∈ l := by
  rw [List.mem_map]
  constructor
  · rintro ⟨j, hj, heq⟩
    exact Pool.page_inj.1 heq ▸ hj
  · exact fun hi => ⟨i, hi, rfl⟩

theorem filter_map_page (l : List Nat) (i : Nat) :
    (l.map p.page).filter (· ≠ p.page i) = (l.filter (· ≠ i)).map p.page := by
  rw [List.filter_map]
  congr 2
  funext j
  simp [Pool.page_inj]

theorem Ledger.Coherent.mem_ringOf_iff (co : a.Coherent p.config p.pageCount) :
    (∃ h ∈ p.heads, p.page i ∈ p.ringOf a h) ↔ a.Linked i := by
  constructor
  · rintro ⟨h, hh, hmem⟩
    cases h with
    | zero =>
      obtain ⟨r, hr, heq⟩ := List.mem_map.1 hmem
      exact .inl ⟨r, hr, Pool.page_inj.1 heq⟩
    | succ x => exact .inr ⟨_, page_mem_map.1 hmem⟩
  · rintro (⟨r, hr, rfl⟩ | ⟨shift, hmem⟩)
    · exact ⟨0, zero_mem_heads p, List.mem_map_of_mem hr⟩
    · have hclass := co.listed_class shift i hmem
      refine ⟨p.slot shift, slot_mem_heads hclass, ?_⟩
      rw [ringOf_slot hclass]
      exact page_mem_map.2 hmem

theorem Ledger.Coherent.ringOf_lt (co : a.Coherent p.config p.pageCount) {h x : Nat}
    (hx : x ∈ p.ringOf a h) : x < p.nodes ∧ ∃ i, i < p.pageCount ∧ x = p.page i ∧ a.Linked i := by
  cases h with
  | zero =>
    obtain ⟨r, hr, rfl⟩ := List.mem_map.1 hx
    have hlt := co.first_lt hr
    exact ⟨Pool.page_lt_nodes hlt, r.first, hlt, rfl, .inl ⟨r, hr, rfl⟩⟩
  | succ y =>
    obtain ⟨i, hi, rfl⟩ := List.mem_map.1 hx
    have hlt := co.listed_lt _ i hi
    exact ⟨Pool.page_lt_nodes hlt, i, hlt, rfl, .inr ⟨_, hi⟩⟩

/-- The lists of a ledger are lists of pages. -/
theorem Encodes.threaded (h : Encodes p a d w) (co : a.Coherent p.config p.pageCount) :
    p.Threaded p.heads d (p.ringOf a) := by
  refine ⟨h.rings, fun _ => lt_nodes_of_mem_heads, fun g _ x hx => ?_⟩
  obtain ⟨_, i, hi, rfl, _⟩ := co.ringOf_lt hx
  exact ⟨i, hi, rfl⟩

theorem Ledger.Coherent.linked_of_mem (co : a.Coherent p.config p.pageCount) {h : Nat}
    (hh : h ∈ p.heads) (hmem : p.page i ∈ h :: p.ringOf a h) : a.Linked i := by
  rcases List.mem_cons.1 hmem with heq | hmem
  · exact absurd (heq ▸ hh) (page_not_mem_heads p i)
  · exact co.mem_ringOf_iff.1 ⟨h, hh, hmem⟩

theorem Ledger.Coherent.mem_lt_nodes (co : a.Coherent p.config p.pageCount) {h x : Nat}
    (hh : h ∈ p.heads) (hmem : x ∈ h :: p.ringOf a h) : x < p.nodes := by
  rcases List.mem_cons.1 hmem with rfl | hmem
  · exact lt_nodes_of_mem_heads hh
  · exact (co.ringOf_lt hmem).1

theorem not_mem_rings (co : a.Coherent p.config p.pageCount) (hnot : ¬a.Linked i) :
    ∀ h ∈ p.heads, p.page i ∉ h :: p.ringOf a h :=
  fun _ hh hmem => hnot (co.linked_of_mem hh hmem)

theorem ringOf_runs (runs : List PageRun) : p.ringOf { a with runs := runs } =
    Function.update (p.ringOf a) 0 (runs.map fun r => p.page r.first) := by
  funext h
  cases h with
  | zero => rw [Function.update_self, Pool.ringOf]
  | succ x => rw [Function.update_of_ne (Nat.succ_ne_zero x), Pool.ringOf, Pool.ringOf]

theorem ringOf_enlist (hclass : p.config.IsClass shift) :
    p.ringOf { a with listed := Ledger.enlist shift i a.listed } =
      Function.update (p.ringOf a) (p.slot shift) (p.page i :: p.ringOf a (p.slot shift)) := by
  have hle := hclass.1
  funext h
  cases h with
  | zero =>
    have hne : 0 ≠ p.slot shift := by
      rw [Pool.slot]
      omega
    rw [Function.update_of_ne hne, Pool.ringOf, Pool.ringOf]
  | succ x =>
    by_cases hx : p.config.minShift + x = shift
    · have hslot : x + 1 = p.slot shift := by
        rw [Pool.slot]
        omega
      rw [hslot, ringOf_slot hclass, Function.update_self, ringOf_slot hclass]
      simp [Ledger.enlist]
    · have hslot : x + 1 ≠ p.slot shift := by
        rw [Pool.slot]
        omega
      rw [Function.update_of_ne hslot, Pool.ringOf, Pool.ringOf]
      simp [Ledger.enlist, Function.update_of_ne hx]

theorem ringOf_unlist (co : a.Coherent p.config p.pageCount) (hmem : i ∈ a.listed shift) :
    p.ringOf { a with listed := Ledger.unlist i a.listed } =
      Function.update (p.ringOf a) (p.slot shift)
        ((p.ringOf a (p.slot shift)).filter (· ≠ p.page i)) := by
  have hclass := co.listed_class shift i hmem
  have hle := hclass.1
  obtain ⟨taken, htaken⟩ := co.listed_use shift i hmem
  funext h
  cases h with
  | zero =>
    have hne : 0 ≠ p.slot shift := by
      rw [Pool.slot]
      omega
    rw [Function.update_of_ne hne, Pool.ringOf, Pool.ringOf]
  | succ x =>
    by_cases hx : p.config.minShift + x = shift
    · have hslot : x + 1 = p.slot shift := by
        rw [Pool.slot]
        omega
      rw [hslot, ringOf_slot hclass, Function.update_self, ringOf_slot hclass, filter_map_page]
      rfl
    · have hslot : x + 1 ≠ p.slot shift := by
        rw [Pool.slot]
        omega
      have hnot : ∀ j ∈ a.listed (p.config.minShift + x), j ≠ i := by
        rintro j hj rfl
        exact hx (co.shift_eq_of_listed htaken hj)
      rw [Function.update_of_ne hslot, Pool.ringOf, Pool.ringOf]
      change ((a.listed (p.config.minShift + x)).filter (· ≠ i)).map p.page = _
      rw [List.filter_eq_self.2 fun j hj => decide_eq_true (hnot j hj)]

theorem Encodes.next_eq_zero_iff (h : Encodes p a d w) (co : a.Coherent p.config p.pageCount)
    (hi : i < p.pageCount) : (d (p.page i)).next = 0 ↔ ¬a.Linked i := by
  constructor
  · intro hzero hlinked
    obtain ⟨x, hx, hmem⟩ := co.mem_ringOf_iff.2 hlinked
    obtain ⟨b, c, _, _, ⟨_, hnext⟩, _⟩ := h.rings.unlink hx hmem
    exact nodeOffset_ne_zero c (hnext.symm.trans hzero)
  · exact (h.pages i hi).idle

end SharedSlab.Slab
