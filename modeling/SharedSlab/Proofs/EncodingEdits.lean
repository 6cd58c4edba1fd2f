import SharedSlab.Proofs.Encoding

set_option autoImplicit false

/-!
# Edits of an encoded ledger

One edit for each thing that an operation does to the descriptors: a page is used otherwise, joins a
list or leaves it, a run is cut, inserted or dropped, pages are held or released. A descriptor whose
run was cut or dropped keeps stale words for a while; it is described as if it were zeroed, for
whatever comes next overwrites them.
-/

namespace SharedSlab.Slab

variable {p : Pool} {a a' : Ledger} {d d' : Table} {w w' : Nat → UInt64}
  {i j k n x shift : Nat} {r : PageRun} {taken : Finset Nat}

theorem Rings.overwrite {heads : Set Nat} {R : Nat → List Nat} (rings : Rings heads d R)
    (fresh : ∀ h ∈ heads, x ∉ h :: R h) (others : ∀ k, k ≠ x → d' k = d k) : Rings heads d' R :=
  rings.congr fun h hh y hy => by
    have hne : y ≠ x := fun heq => fresh h hh (heq ▸ hy)
    rw [others y hne]
    exact ⟨rfl, rfl⟩

theorem Encodes.neighbours (h : Encodes p a d w) (co : a.Coherent p.config p.pageCount)
    (hx : x ∈ p.heads) (hmem : p.page i ∈ p.ringOf a x) :
    ∃ b c, (b < p.nodes ∧ c < p.nodes) ∧ (b ≠ p.page i ∧ c ≠ p.page i) ∧
      ((d (p.page i)).link = nodeOffset b ∧ (d (p.page i)).next = nodeOffset c) ∧
      (∀ j, ¬a.Linked j → p.page j ≠ b ∧ p.page j ≠ c) ∧
      Rings p.heads (d.unlinked b c)
        (Function.update (p.ringOf a) x ((p.ringOf a x).filter (· ≠ p.page i))) := by
  obtain ⟨b, c, ⟨hb, hc⟩, hne, hlinks, rings⟩ := h.rings.unlink hx hmem
  refine ⟨b, c, ⟨co.mem_lt_nodes hx hb, co.mem_lt_nodes hx hc⟩, hne, hlinks, ?_, rings⟩
  exact fun j hj => ⟨fun heq => hj (co.linked_of_mem hx (heq ▸ hb)),
    fun heq => hj (co.linked_of_mem hx (heq ▸ hc))⟩

section Classes

variable (h : Encodes p a d w) (co : a.Coherent p.config p.pageCount)
include h co

theorem Encodes.reuse {u : PageUse} (hold : a.use i ≠ .free) (hnew : u ≠ .free)
    (others : ∀ k, k ≠ p.page i → d' k = d k)
    (links : (d' (p.page i)).next = (d (p.page i)).next ∧
      (d' (p.page i)).link = (d (p.page i)).link)
    (kind : (d' (p.page i)).kind = u.kind p.config)
    (marks : u.Marks p i (d' (p.page i)).slab w')
    (words : ∀ j < p.pageCount, j ≠ i → ∀ k, 8 * k < p.config.pageSize →
      w' (p.bitmapIndex j k) = w (p.bitmapIndex j k)) :
    Encodes p { a with use := Function.update a.use i u } d' w' := by
  have hself : Ledger.use { a with use := Function.update a.use i u } i = u :=
    Function.update_self ..
  refine h.edit co {i} ?_ ?_ ?_ ?_
  · refine h.rings.congr fun g _ y _ => ?_
    by_cases hy : y = p.page i
    · rw [hy]
      exact links
    · rw [others y hy]
      exact ⟨rfl, rfl⟩
  · intro j hj hji
    have hne : p.page j ≠ p.page i := fun heq => hji (Pool.page_inj.1 heq)
    exact ⟨Function.update_of_ne hji .., Iff.rfl, Iff.rfl, by rw [others _ hne],
      by rw [others _ hne], fun _ => by rw [others _ hne], fun _ => by rw [others _ hne],
      words j hj hji⟩
  · rintro j hj rfl
    refine ⟨kind.trans ?_, ?_, fun hnot => ?_, fun hfree => ?_⟩
    · rw [hself]
    · rw [hself]
      exact marks
    · exact links.1.trans ((h.pages j hj).idle hnot)
    · exact absurd (hself.symm.trans hfree) hnew
  · intro r hr
    refine .inl ⟨hr, ?_⟩
    rintro j low high rfl
    exact hold (co.run_free r hr j low high)

theorem Encodes.enlist (hclass : p.config.IsClass shift) (huse : a.use i = .chunks shift taken)
    (hnot : ¬a.Linked i) :
    Encodes p { a with listed := Ledger.enlist shift i a.listed }
      (d.pushed (p.slot shift) ((p.ringOf a (p.slot shift)).headD (p.slot shift)) (p.page i)
        (p.config.kindFor shift)) w := by
  have hslot := slot_mem_heads hclass
  have hfirst := headD_mem_cons (p.ringOf a (p.slot shift)) (p.slot shift)
  refine h.edit co {i} ?_ ?_ ?_ ?_
  · rw [ringOf_enlist hclass]
    exact h.rings.push hslot (not_mem_rings co hnot) _
  · intro j hj hji
    have hne : p.page j ≠ p.page i := fun heq => hji (Pool.page_inj.1 heq)
    have hhead : p.page j ≠ p.slot shift := fun heq => page_not_mem_heads p j (heq ▸ hslot)
    refine ⟨rfl, Iff.rfl, ?_, ?_, ?_, fun _ => ?_, fun hidle => ?_, fun _ _ => rfl⟩
    · constructor
      · rintro ⟨s, hs⟩
        exact ⟨s, (Ledger.mem_enlist.1 hs).resolve_left fun hs => hji hs.2⟩
      · rintro ⟨s, hs⟩
        exact ⟨s, Ledger.mem_enlist.2 (.inr hs)⟩
    · simp [Table.pushed]
    · simp [Table.pushed, hne]
    · simp [Table.pushed, hne, hhead]
    · have hlast : p.page j ≠ (p.ringOf a (p.slot shift)).headD (p.slot shift) :=
        fun heq => hidle (co.linked_of_mem hslot (heq ▸ hfirst))
      simp only [List.headD_eq_head?_getD] at hlast
      simp [Table.pushed, hne, hlast]
  · rintro j hj rfl
    refine ⟨?_, ?_, fun hidle => ?_, fun hfree => ?_⟩
    · simp [Table.pushed, huse, PageUse.kind]
    · have hmarks := (h.pages j hj).marks
      simpa [Table.pushed] using hmarks
    · exact absurd (.inr ⟨shift, Ledger.mem_enlist.2 (.inl ⟨rfl, rfl⟩)⟩) hidle
    · cases huse.symm.trans hfree
  · intro r hr
    refine .inl ⟨hr, ?_⟩
    rintro j low high rfl
    cases huse.symm.trans (co.run_free r hr j low high)

theorem Encodes.retire (hmem : i ∈ a.listed shift) :
    ∃ b c, (b < p.nodes ∧ c < p.nodes) ∧
      ((d (p.page i)).link = nodeOffset b ∧ (d (p.page i)).next = nodeOffset c) ∧
      Encodes p { a with listed := Ledger.unlist i a.listed }
        (((d.unlinked b c).setNext (p.page i) 0).setPrev (p.page i) 0 (p.config.kindFor shift))
        w := by
  have hslot := slot_mem_heads (co.listed_class shift i hmem)
  obtain ⟨taken, huse⟩ := co.listed_use shift i hmem
  have hring : p.page i ∈ p.ringOf a (p.slot shift) := by
    rw [ringOf_slot (co.listed_class shift i hmem)]
    exact page_mem_map.2 hmem
  obtain ⟨b, c, hlt, hne, hlinks, hfar, rings⟩ := h.neighbours co hslot hring
  have hnot : ¬Ledger.Linked { a with listed := Ledger.unlist i a.listed } i := by
    rw [(co.unlist i).linked_iff_of_chunks huse]
    exact fun hi => (Ledger.mem_unlist.1 hi).2 rfl
  refine ⟨b, c, hlt, hlinks, h.edit co {i} ?_ ?_ ?_ ?_⟩
  · rw [← ringOf_unlist co hmem] at rings
    refine rings.overwrite (not_mem_rings (co.unlist i) hnot) fun k hk => ?_
    simp [Table.setPrev, Table.setNext, hk]
  · intro j hj hji
    have hpage : p.page j ≠ p.page i := fun heq => hji (Pool.page_inj.1 heq)
    refine ⟨rfl, Iff.rfl, ?_, ?_, ?_, fun hidle => ?_, fun hidle => ?_, fun _ _ => rfl⟩
    · constructor
      · rintro ⟨s, hs⟩
        exact ⟨s, (Ledger.mem_unlist.1 hs).1⟩
      · rintro ⟨s, hs⟩
        exact ⟨s, Ledger.mem_unlist.2 ⟨hs, hji⟩⟩
    · simp [Table.unlinked]
    · simp [Table.unlinked, hpage]
    · simp [Table.unlinked, hpage, (hfar j hidle).1]
    · simp [Table.unlinked, hpage, (hfar j hidle).2]
  · rintro j hj rfl
    refine ⟨?_, ?_, fun _ => ?_, fun hfree => ?_⟩
    · simp [huse, PageUse.kind]
    · have hmarks := (h.pages j hj).marks
      simpa [Table.unlinked] using hmarks
    · simp
    · cases huse.symm.trans hfree
  · intro r hr
    refine .inl ⟨hr, ?_⟩
    rintro j low high rfl
    cases huse.symm.trans (co.run_free r hr j low high)

end Classes

theorem Encodes.hold (h : Encodes p a d w) (co : a.Coherent p.config p.pageCount) (hn : 0 < n)
    (hfree : ∀ j, i ≤ j → j < i + n → a.use j = .free ∧ ¬a.InRun j)
    (others : ∀ k, (∀ j, i ≤ j → j < i + n → k ≠ p.page j) → d' k = d k)
    (first : d' (p.page i) = ⟨UInt64.ofNat n ||| runStart, 0, .page, 0⟩)
    (rest : ∀ j, i < j → j < i + n → d' (p.page j) = ⟨runInterior, 0, .page, 0⟩) :
    Encodes p { a with use := Ledger.holdRun i n a.use } d' w := by
  have hnot : ∀ j, i ≤ j → j < i + n → ¬a.Linked j := fun j low high =>
    co.not_linked_of_free (hfree j low high).1 (hfree j low high).2
  have hsame : ∀ j, ¬(i ≤ j ∧ j < i + n) → d' (p.page j) = d (p.page j) := fun j hj =>
    others _ fun k low high heq => hj (Pool.page_inj.1 heq ▸ ⟨low, high⟩)
  refine h.edit co {j | i ≤ j ∧ j < i + n} ?_ ?_ ?_ ?_
  · refine h.rings.congr fun g hg y hy => ?_
    rw [others y ?_]
    · exact ⟨rfl, rfl⟩
    · rintro j low high rfl
      exact hnot j low high (co.linked_of_mem hg hy)
  · intro j hj hjS
    exact .of_eq (Ledger.holdRun_outside hn hjS) Iff.rfl Iff.rfl (hsame j hjS)
  · rintro j hj ⟨low, high⟩
    rcases Nat.eq_or_lt_of_le low with rfl | hlt
    · have huse := Ledger.holdRun_start i n a.use
      refine ⟨?_, ?_, fun _ => ?_, fun hnow => ?_⟩
      · simp [first, huse, PageUse.kind]
      · simp [first, huse, PageUse.Marks]
      · simp [first]
      · cases huse.symm.trans hnow
    · have huse : Ledger.holdRun i n a.use j = .runRest := Ledger.holdRun_rest hlt high
      refine ⟨?_, ?_, fun _ => ?_, fun hnow => ?_⟩
      · simp [rest j hlt high, huse, PageUse.kind]
      · simp [rest j hlt high, huse, PageUse.Marks]
      · simp [rest j hlt high]
      · cases huse.symm.trans hnow
  · exact fun r hr => .inl ⟨hr, fun j low high hj => (hfree j hj.1 hj.2).2 ⟨r, hr, low, high⟩⟩

theorem Encodes.release (h : Encodes p a d w) (co : a.Coherent p.config p.pageCount)
    (hn : 0 < n) (hout : ∀ j, i ≤ j → j < i + n → ¬a.InRun j)
    {d₁ : Table} (rings : Rings p.heads d₁ (p.ringOf (a.release i n)))
    (co' : (a.release i n).Coherent p.config p.pageCount)
    (near : ∀ j, (d₁ (p.page j)).slab = (d (p.page j)).slab ∧
      (d₁ (p.page j)).kind = (d (p.page j)).kind)
    (links : ∀ j, ¬a.Linked j → (d₁ (p.page j)).next = (d (p.page j)).next ∧
      (d₁ (p.page j)).link = (d (p.page j)).link)
    (others : ∀ k, (∀ j, i ≤ j → j < i + n → k ≠ p.page j) → d' k = d₁ k)
    (cleared : ∀ j, i ≤ j → j < i + n → d' (p.page j) = Desc.blank) :
    Encodes p (a.release i n) d' w := by
  have hnot : ∀ j, i ≤ j → j < i + n → ¬(a.release i n).Linked j := fun j low high =>
    co'.not_linked_of_free (Ledger.release_inside low high) (hout j low high)
  have hsame : ∀ j, ¬(i ≤ j ∧ j < i + n) → d' (p.page j) = d₁ (p.page j) := fun j hj =>
    others _ fun k low high heq => hj (Pool.page_inj.1 heq ▸ ⟨low, high⟩)
  refine h.edit co {j | i ≤ j ∧ j < i + n} ?_ ?_ ?_ ?_
  · refine rings.congr fun g hg y hy => ?_
    rw [others y ?_]
    · exact ⟨rfl, rfl⟩
    · rintro j low high rfl
      exact hnot j low high (co'.linked_of_mem hg hy)
  · intro j hj hjS
    refine ⟨Ledger.release_outside hjS, Iff.rfl, ?_, ?_, ?_, fun hidle => ?_, fun hidle => ?_,
      fun _ _ => rfl⟩
    · constructor
      · rintro ⟨s, hs⟩
        exact ⟨s, (Ledger.mem_unlist.1 hs).1⟩
      · rintro ⟨s, hs⟩
        refine ⟨s, Ledger.mem_unlist.2 ⟨hs, ?_⟩⟩
        rintro rfl
        exact hjS ⟨le_refl _, by omega⟩
    · rw [hsame j hjS, (near j).1]
    · rw [hsame j hjS, (near j).2]
    · rw [hsame j hjS, (links j hidle).1]
    · rw [hsame j hjS, (links j hidle).2]
  · rintro j hj ⟨low, high⟩
    have huse : (a.release i n).use j = .free := Ledger.release_inside low high
    refine ⟨?_, ?_, fun _ => ?_, fun _ _ => ?_⟩
    · rw [cleared j low high, huse]
      rfl
    · rw [huse]
      trivial
    · rw [cleared j low high]
      rfl
    · rw [cleared j low high]
      rfl
  · exact fun r hr => .inl ⟨hr, fun j low high hj => hout j hj.1 hj.2 ⟨r, hr, low, high⟩⟩

theorem Encodes.blank (h : Encodes p a d w) (co : a.Coherent p.config p.pageCount)
    (huse : a.use i = .free) (hout : ¬a.InRun i) :
    Encodes p a (Function.update d (p.page i) Desc.blank) w := by
  have hnot : ¬a.Linked i := co.not_linked_of_free huse hout
  refine h.edit co {i} ?_ ?_ ?_ ?_
  · exact h.rings.overwrite (not_mem_rings co hnot) fun k hk => Function.update_of_ne hk ..
  · intro j hj hji
    have hpage : p.page j ≠ p.page i := fun heq => hji (Pool.page_inj.1 heq)
    exact .of_eq rfl Iff.rfl Iff.rfl (Function.update_of_ne hpage ..)
  · rintro j hj rfl
    refine .of_free huse ?_ (fun _ => ?_) fun _ => ?_ <;> rw [Function.update_self] <;> rfl
  · refine fun r hr => .inl ⟨hr, ?_⟩
    rintro j low high rfl
    exact hout ⟨r, hr, low, high⟩

section Runs

variable (co : a.Coherent p.config p.pageCount)
include co

theorem Ledger.Coherent.filter_map_first (hr : r ∈ a.runs) :
    (a.runs.map fun q => p.page q.first).filter (· ≠ p.page r.first) =
      (a.runs.filter (· ≠ r)).map fun q => p.page q.first := by
  rw [List.filter_map]
  congr 1
  refine List.filter_congr fun q hq => ?_
  simp only [Function.comp_apply, decide_eq_decide, ne_eq, Pool.page_inj]
  exact not_congr ⟨fun heq => co.run_eq_of_first_eq hq hr heq, fun heq => heq ▸ rfl⟩

theorem Encodes.dropRun (h : Encodes p a d w) (hr : r ∈ a.runs) :
    ∃ b c, (b < p.nodes ∧ c < p.nodes) ∧
      ((d (p.page r.first)).link = nodeOffset b ∧ (d (p.page r.first)).next = nodeOffset c) ∧
      Encodes p { a with runs := a.runs.filter (· ≠ r) }
        (Function.update (d.unlinked b c) (p.page r.first) Desc.blank) w := by
  have hring : p.page r.first ∈ p.ringOf a 0 := List.mem_map_of_mem hr
  have hlt := co.first_lt_finish hr
  have hfree := co.run_free r hr r.first (le_refl _) hlt
  obtain ⟨b, c, hbc, _, hlinks, hfar, rings⟩ := h.neighbours co (zero_mem_heads p) hring
  have hkept : (a.runs.filter (· ≠ r)).Sublist a.runs := List.filter_sublist
  have co' := co.withRuns_sublist hkept
  have hfirsts : ∀ q ∈ a.runs.filter (· ≠ r), q.first ≠ r.first := by
    intro q hq heq
    obtain ⟨hq, hne⟩ := List.mem_filter.1 hq
    exact of_decide_eq_true hne (co.run_eq_of_first_eq hq hr heq)
  have hnot : ¬Ledger.Linked { a with runs := a.runs.filter (· ≠ r) } r.first := by
    rintro (⟨q, hq, heq⟩ | ⟨s, hs⟩)
    · exact hfirsts q hq heq
    · exact co.not_listed_of_free hfree hs
  refine ⟨b, c, hbc, hlinks, h.edit co {r.first} ?_ ?_ ?_ ?_⟩
  · have hruns : p.ringOf a 0 = a.runs.map fun q => p.page q.first := rfl
    rw [hruns, co.filter_map_first hr, ← ringOf_runs] at rings
    exact rings.overwrite (not_mem_rings co' hnot) fun k hk => Function.update_of_ne hk ..
  · intro j hj hji
    have hpage : p.page j ≠ p.page r.first := fun heq => hji (Pool.page_inj.1 heq)
    refine ⟨rfl, ?_, Iff.rfl, ?_, ?_, fun hidle => ?_, fun hidle => ?_, fun _ _ => rfl⟩
    · constructor
      · rintro ⟨q, hq, heq⟩
        exact ⟨q, (List.mem_filter.1 hq).1, heq⟩
      · rintro ⟨q, hq, rfl⟩
        refine ⟨q, List.mem_filter.2 ⟨hq, decide_eq_true fun heq => hji ?_⟩, rfl⟩
        rw [heq]
        rfl
    · simp [Function.update_of_ne hpage, Table.unlinked]
    · simp [Function.update_of_ne hpage, Table.unlinked]
    · simp [Function.update_of_ne hpage, Table.unlinked, (hfar j hidle).1]
    · simp [Function.update_of_ne hpage, Table.unlinked, (hfar j hidle).2]
  · rintro j hj rfl
    refine ⟨?_, ?_, fun _ => ?_, fun _ _ => ?_⟩
    · simp [hfree, PageUse.kind, Desc.blank]
    · simp [hfree, PageUse.Marks]
    · simp [Desc.blank]
    · simp [Desc.blank]
  · intro q hq
    obtain ⟨hq', hne⟩ := List.mem_filter.1 hq
    refine .inl ⟨hq', ?_⟩
    rintro j low high rfl
    exact of_decide_eq_true hne (co.run_unique hq' hr ⟨low, high⟩ ⟨le_refl _, hlt⟩)

end Runs

namespace Table

variable (d : Table) (p : Pool) (r : PageRun) (k : Nat)

def closed : Table :=
  if 1 < r.len then d.setPrev (p.page (r.finish - 1)) (nodeOffset (p.page r.first)) .page else d

@[simp] theorem slab_closed : (d.closed p r k).slab = (d k).slab := by
  unfold closed
  split <;> simp

@[simp] theorem next_closed : (d.closed p r k).next = (d k).next := by
  unfold closed
  split <;> simp

theorem kind_closed (h : (d k).kind = .page) : (d.closed p r k).kind = .page := by
  unfold closed
  split <;> simp [h]

theorem link_closed (h : 1 < r.len) :
    (d.closed p r (p.page (r.finish - 1))).link = nodeOffset (p.page r.first) := by
  simp [closed, h]

theorem closed_of_ne (h : k ≠ p.page (r.finish - 1)) : d.closed p r k = d k := by
  unfold closed
  split
  · simp [setPrev, h]
  · rfl

/-- The table once the first `n` pages of a run were cut off, and what is left was put between `b`
and `c`. -/
def split (n b c : Nat) : Table :=
  Function.update (((d.setSlab (p.page (r.first + n)) (UInt64.ofNat (r.len - n))).replaced b c
    (p.page (r.first + n)) .page).closed p ⟨r.first + n, r.len - n⟩) (p.page r.first) Desc.blank

def ended : Table :=
  if 1 < r.len then
    Function.update d (p.page (r.finish - 1)) ⟨0, nodeOffset (p.page r.first), .page, 0⟩
  else d

theorem ended_of_ne (h : k ≠ p.page (r.finish - 1)) : d.ended p r k = d k := by
  unfold ended
  split
  · exact Function.update_of_ne h ..
  · rfl

theorem ended_first : d.ended p r (p.page r.first) = d (p.page r.first) := by
  by_cases hlen : 1 < r.len
  · refine ended_of_ne d p r _ fun heq => ?_
    have hfirst : r.first = r.first + r.len - 1 := Pool.page_inj.1 heq
    omega
  · rw [ended, if_neg hlen]

theorem ended_last (hlen : 1 < r.len) :
    d.ended p r (p.page (r.finish - 1)) = ⟨0, nodeOffset (p.page r.first), .page, 0⟩ := by
  rw [ended, if_pos hlen, Function.update_self]

/-- What a node held before it was pushed does not matter, but for its `slab` word. -/
theorem pushed_congr {d d' : Table} {h f x : Nat} {kind : PageKind}
    (slab : (d' x).slab = (d x).slab) (others : ∀ k, k ≠ x → d' k = d k) :
    d'.pushed h f x kind = d.pushed h f x kind := by
  funext k
  by_cases hk : k = x
  · subst hk
    simp only [pushed, setNext, setPrev, setLink, if_true, slab]
  · simp only [pushed, setNext, setPrev, setLink, if_neg hk, others k hk]

end Table

section Runs

variable (co : a.Coherent p.config p.pageCount)
include co

section Split

variable {l₁ l₂ : List PageRun} {b c : Nat} (hruns : a.runs = l₁ ++ r :: l₂) (hn : 0 < n)
  (hlen : n < r.len)
include hruns hn hlen

theorem Encodes.splitRings (h : Encodes p a d w) :
    ∃ b c, (b < p.nodes ∧ c < p.nodes) ∧
      ((d (p.page r.first)).link = nodeOffset b ∧ (d (p.page r.first)).next = nodeOffset c) ∧
      (∀ j, ¬a.Linked j → p.page j ≠ b ∧ p.page j ≠ c) ∧
      Rings p.heads (d.split p r n b c) (p.ringOf { a with runs := l₁ ++ (r.cut n ++ l₂) }) := by
  have hr : r ∈ a.runs := by simp [hruns]
  have hfinish : r.finish = r.first + r.len := rfl
  have hcut : r.cut n = [⟨r.first + n, r.len - n⟩] := if_pos hlen
  have hend : PageRun.finish ⟨r.first + n, r.len - n⟩ = r.finish := by
    simp only [PageRun.finish]
    omega
  have co' := co.withRuns_cut (n := n) hruns
  have hfirst := co'.not_linked_of_free (co.run_free r hr r.first (le_refl _) (by omega))
    (co.not_inRun_cut hruns (le_refl _) (by omega) hlen.le)
  have hinner := co.not_linked_of_inner hr (j := r.first + n) (by omega) (by omega)
  have hold : p.ringOf a 0 = l₁.map (fun q => p.page q.first) ++
      p.page r.first :: l₂.map fun q => p.page q.first := by
    rw [Pool.ringOf, hruns, List.map_append, List.map_cons]
  have hnew : l₁.map (fun q => p.page q.first) ++ p.page (r.first + n) ::
      l₂.map (fun q => p.page q.first) = (l₁ ++ (r.cut n ++ l₂)).map fun q => p.page q.first := by
    rw [hcut, List.map_append, List.map_append]
    rfl
  have hrings : Rings p.heads (d.setSlab (p.page (r.first + n)) (UInt64.ofNat (r.len - n)))
      (p.ringOf a) := h.rings.congr fun _ _ _ _ => by simp
  obtain ⟨b, c, ⟨hb, hc⟩, _, hlinks, rings⟩ := hrings.replace (zero_mem_heads p) hold
    (not_mem_rings co hinner) .page
  simp only [Table.link_setSlab, Table.next_setSlab] at hlinks
  refine ⟨b, c, ⟨co.mem_lt_nodes (zero_mem_heads p) hb, co.mem_lt_nodes (zero_mem_heads p) hc⟩,
    hlinks, fun j hj => ⟨fun heq => ?_, fun heq => ?_⟩, ?_⟩
  · exact hj (co.linked_of_mem (zero_mem_heads p) (heq ▸ hb))
  · exact hj (co.linked_of_mem (zero_mem_heads p) (heq ▸ hc))
  -- neither the old first page nor the last one is on a ring now, so their links are free to change
  · rw [hnew, ← ringOf_runs] at rings
    refine Rings.overwrite (d := Table.closed _ p ⟨r.first + n, r.len - n⟩) ?_
      (not_mem_rings co' hfirst) fun k hk => Function.update_of_ne hk ..
    by_cases hone : 1 < r.len - n
    · refine rings.overwrite (x := p.page (r.finish - 1)) (not_mem_rings co' ?_) fun k hk => ?_
      · exact co'.not_linked_of_inner (r := ⟨r.first + n, r.len - n⟩) (by simp [hcut])
          (by change r.first + n < _; omega) (by omega)
      · exact Table.closed_of_ne _ p _ k (hend.symm ▸ hk)
    · rwa [Table.closed, if_neg hone]

variable (hfar : ∀ j, ¬a.Linked j → p.page j ≠ b ∧ p.page j ≠ c)
include hfar

omit co hn in
theorem SamePage.split (hj : j ∉ ({r.first, r.first + n, r.finish - 1} : Set Nat)) :
    SamePage p a { a with runs := l₁ ++ (r.cut n ++ l₂) } d (d.split p r n b c) w w j := by
  have hcut : r.cut n = [⟨r.first + n, r.len - n⟩] := if_pos hlen
  have hend : PageRun.finish ⟨r.first + n, r.len - n⟩ = r.finish := by
    simp only [PageRun.finish]
    omega
  simp only [Set.mem_insert_iff, Set.mem_singleton_iff, not_or] at hj
  have hpages : p.page j ≠ p.page r.first ∧ p.page j ≠ p.page (r.first + n) ∧
      p.page j ≠ p.page (r.finish - 1) := by
    simpa only [ne_eq, Pool.page_inj] using hj
  rw [← hend] at hpages
  refine ⟨rfl, ?_, Iff.rfl, ?_, ?_, fun hidle => ?_, fun hidle => ?_, fun _ _ => rfl⟩
  · simp only [hcut, hruns, List.mem_append, List.mem_cons, List.not_mem_nil, or_false]
    constructor
    · rintro ⟨q, hq | rfl | hq, heq⟩
      · exact ⟨q, .inl hq, heq⟩
      · exact absurd heq.symm hj.2.1
      · exact ⟨q, .inr (.inr hq), heq⟩
    · rintro ⟨q, hq | rfl | hq, heq⟩
      · exact ⟨q, .inl hq, heq⟩
      · exact absurd heq.symm hj.1
      · exact ⟨q, .inr (.inr hq), heq⟩
  · simp [Table.split, Function.update_of_ne hpages.1, Table.replaced, hpages.2.1]
  · rw [Table.split, Function.update_of_ne hpages.1, Table.closed_of_ne _ _ _ _ hpages.2.2]
    simp [Table.replaced, hpages.2.1]
  · simp [Table.split, Function.update_of_ne hpages.1, Table.replaced, hpages.2.1,
      (hfar j hidle).1]
  · rw [Table.split, Function.update_of_ne hpages.1, Table.closed_of_ne _ _ _ _ hpages.2.2]
    simp [Table.replaced, hpages.2.1, (hfar j hidle).2]

theorem Written.split (h : Encodes p a d w) (hi : j < p.pageCount)
    (hj : j ∈ ({r.first, r.first + n, r.finish - 1} : Set Nat)) :
    Written p { a with runs := l₁ ++ (r.cut n ++ l₂) } (d.split p r n b c) w j := by
  have hr : r ∈ a.runs := by simp [hruns]
  have hfinish : r.finish = r.first + r.len := rfl
  have hcut : r.cut n = [⟨r.first + n, r.len - n⟩] := if_pos hlen
  simp only [Set.mem_insert_iff, Set.mem_singleton_iff] at hj
  have huse : a.use j = .free := co.run_free r hr j (by omega) (by omega)
  have hkind : (d (p.page j)).kind = .page := by
    rw [(h.pages j hi).kind, huse]
    rfl
  by_cases hzero : j = r.first
  · refine .of_free huse ?_ (fun _ => ?_) fun _ => ?_ <;>
      rw [hzero, Table.split, Function.update_self] <;> rfl
  have hpage : p.page j ≠ p.page r.first := fun heq => hzero (Pool.page_inj.1 heq)
  have hold : ¬a.Linked j := co.not_linked_of_inner hr (by omega) (by omega)
  -- a page that starts no run now is not the new first page, and was inside the old run
  have hrest : (∀ q ∈ l₁ ++ (r.cut n ++ l₂), q.first ≠ j) →
      p.page j ≠ p.page (r.first + n) := fun hno heq =>
    hno ⟨r.first + n, r.len - n⟩ (by simp [hcut]) (Pool.page_inj.1 heq).symm
  refine .of_free huse ?_ (fun hidle => ?_) fun hno => ?_
  · rw [Table.split, Function.update_of_ne hpage]
    refine Table.kind_closed _ p _ _ ?_
    by_cases hj : p.page j = p.page (r.first + n)
    · simp [Table.replaced, hj]
    · simpa [Table.replaced, hj] using hkind
  · have hne := hrest fun q hq heq => hidle (.inl ⟨q, hq, heq⟩)
    rw [← (h.pages j hi).idle hold]
    simp [Table.split, Function.update_of_ne hpage, Table.replaced, hne, (hfar j hold).1]
  · rw [← (h.pages j hi).blank huse fun q hq heq => hold (.inl ⟨q, hq, heq⟩)]
    simp [Table.split, Function.update_of_ne hpage, Table.replaced, hrest hno]

omit hfar

theorem Encodes.splitRun (h : Encodes p a d w) :
    ∃ b c, (b < p.nodes ∧ c < p.nodes) ∧
      ((d (p.page r.first)).link = nodeOffset b ∧ (d (p.page r.first)).next = nodeOffset c) ∧
      Encodes p { a with runs := l₁ ++ (r.cut n ++ l₂) } (d.split p r n b c) w := by
  have hr : r ∈ a.runs := by simp [hruns]
  have hfinish : r.finish = r.first + r.len := rfl
  have hcut : r.cut n = [⟨r.first + n, r.len - n⟩] := if_pos hlen
  have hend : PageRun.finish ⟨r.first + n, r.len - n⟩ = r.finish := by
    simp only [PageRun.finish]
    omega
  obtain ⟨b, c, hbc, hlinks, hfar, rings⟩ := Encodes.splitRings co hruns hn hlen h
  refine ⟨b, c, hbc, hlinks, h.edit co {r.first, r.first + n, r.finish - 1} rings
    (fun j _ hj => .split hruns hlen hfar hj)
    (fun j hi hj => .split co hruns hn hlen hfar h hi hj) fun q hq => ?_⟩
  rw [hcut, List.mem_append, List.mem_append, List.mem_singleton] at hq
  have hbeside : q ∈ l₁ ∨ q ∈ l₂ → q ∈ a.runs ∧
      ∀ j, q.first ≤ j → j < q.finish → j ∉ ({r.first, r.first + n, r.finish - 1} : Set Nat) := by
    intro hmem
    obtain ⟨hq, hne⟩ := co.mem_of_beside hruns hmem
    refine ⟨hq, fun j low high hjS => hne (co.run_unique hq hr ⟨low, high⟩ ?_)⟩
    simp only [Set.mem_insert_iff, Set.mem_singleton_iff] at hjS
    omega
  rcases hq with hq | rfl | hq
  · exact .inl (hbeside (.inl hq))
  · have hpage : ∀ j, r.first < j → p.page j ≠ p.page r.first := fun j hj heq =>
      hj.ne' (Pool.page_inj.1 heq)
    refine .inr ⟨?_, fun hone => ?_⟩
    · simp [Table.split, Function.update_of_ne (hpage (r.first + n) (by omega)), Table.replaced]
    · change 1 < r.len - n at hone
      rw [Table.split, Function.update_of_ne (hpage _ (by omega)), Table.link_closed _ p _ hone]
  · exact .inl (hbeside (.inr hq))

end Split

theorem Encodes.pushRun (h : Encodes p a (Function.update d (p.page r.first) Desc.blank) w)
    (hnot : ¬a.Linked r.first) :
    ∃ e, e = (d.setSlab (p.page r.first) (UInt64.ofNat r.len)).pushed 0 ((p.ringOf a 0).headD 0)
        (p.page r.first) .page ∧
      Rings p.heads e (p.ringOf { a with runs := r :: a.runs }) ∧
      ((e (p.page r.first)).slab = UInt64.ofNat r.len ∧ (e (p.page r.first)).kind = .page) ∧
      ∀ j, p.page j ≠ p.page r.first → (e (p.page j)).slab = (d (p.page j)).slab ∧
        (e (p.page j)).kind = (d (p.page j)).kind ∧ (e (p.page j)).next = (d (p.page j)).next ∧
        (¬a.Linked j → (e (p.page j)).link = (d (p.page j)).link) := by
  have hfirst := headD_mem_cons (p.ringOf a 0) 0
  have hnew : Rings p.heads (Table.setSlab (Function.update d (p.page r.first) Desc.blank)
      (p.page r.first) (UInt64.ofNat r.len)) (p.ringOf a) := h.rings.congr fun _ _ _ _ => by simp
  refine ⟨_, rfl, ?_, ?_, fun j hj => ?_⟩
  · have hrings := hnew.push (zero_mem_heads p) (not_mem_rings co hnot) .page
    have hlist : p.page r.first :: p.ringOf a 0 = (r :: a.runs).map fun q => p.page q.first := rfl
    rwa [hlist, ← ringOf_runs,
      Table.pushed_congr (d := d.setSlab (p.page r.first) (UInt64.ofNat r.len)) (by simp)
        fun k hk => by simp [Table.setSlab, hk]] at hrings
  · simp [Table.pushed]
  · have hzero : p.page j ≠ 0 := fun heq => page_not_mem_heads p j (heq ▸ zero_mem_heads p)
    refine ⟨by simp [Table.pushed, hj], by simp [Table.pushed, hj],
      by simp [Table.pushed, hj, hzero], fun hidle => ?_⟩
    have hne : p.page j ≠ (p.ringOf a 0).headD 0 := fun heq =>
      hidle (co.linked_of_mem (zero_mem_heads p) (heq ▸ hfirst))
    simp only [List.headD_eq_head?_getD] at hne
    simp [Table.pushed, hj, hne]

theorem Encodes.insertRun (h : Encodes p a (Function.update d (p.page r.first) Desc.blank) w)
    (hpos : 0 < r.len) (hle : r.finish ≤ p.pageCount)
    (hfree : ∀ j, r.first ≤ j → j < r.finish → a.use j = .free)
    (hapart : ∀ q ∈ a.runs, r.Apart q) :
    Encodes p { a with runs := r :: a.runs }
      (((d.setSlab (p.page r.first) (UInt64.ofNat r.len)).pushed 0 ((p.ringOf a 0).headD 0)
        (p.page r.first) .page).ended p r) w := by
  have hfinish : r.finish = r.first + r.len := rfl
  have co' := co.insertRun hpos hle hfree hapart
  have hmem : r ∈ r :: a.runs := List.mem_cons_self
  have hout : ∀ q ∈ a.runs, ∀ j, q.first ≤ j → j < q.finish → ¬(r.first ≤ j ∧ j < r.finish) := by
    intro q hq j low high hj
    rcases hapart q hq with hlt | hlt <;> omega
  have hnot : ¬a.Linked r.first := by
    refine co.not_linked_of_free (hfree r.first (le_refl _) (by omega)) ?_
    rintro ⟨q, hq, low, high⟩
    exact hout q hq r.first low high ⟨le_refl _, by omega⟩
  obtain ⟨e, he, rings, ⟨hslab, hkind⟩, hother⟩ := Encodes.pushRun co h hnot
  rw [← he]
  refine h.edit co {r.first, r.finish - 1} ?_ ?_ ?_ ?_
  · by_cases hlen : 1 < r.len
    · refine rings.overwrite (x := p.page (r.finish - 1)) (not_mem_rings co' ?_) fun k hk => ?_
      · exact co'.not_linked_of_inner hmem (by omega) (by omega)
      · exact Table.ended_of_ne e p r k hk
    · rwa [Table.ended, if_neg hlen]
  · intro j hj hjS
    simp only [Set.mem_insert_iff, Set.mem_singleton_iff, not_or] at hjS
    have hpages : p.page j ≠ p.page r.first ∧ p.page j ≠ p.page (r.finish - 1) := by
      simpa only [ne_eq, Pool.page_inj] using hjS
    obtain ⟨hslab, hkind, hnext, hlink⟩ := hother j hpages.1
    have hsame : e.ended p r (p.page j) = e (p.page j) := Table.ended_of_ne e p r _ hpages.2
    have hold : Function.update d (p.page r.first) Desc.blank (p.page j) = d (p.page j) :=
      Function.update_of_ne hpages.1 ..
    refine ⟨rfl, ?_, Iff.rfl, by rw [hsame, hold, hslab], by rw [hsame, hold, hkind],
      fun _ => by rw [hsame, hold, hnext], fun hidle => by rw [hsame, hold, hlink hidle],
      fun _ _ => rfl⟩
    rw [List.exists_mem_cons_iff]
    exact or_iff_right fun heq => hjS.1 heq.symm
  · intro j hj hjS
    simp only [Set.mem_insert_iff, Set.mem_singleton_iff] at hjS
    have huse : a.use j = .free := hfree j (by omega) (by omega)
    by_cases hjr : j = r.first
    · refine .of_free huse (by rw [hjr, Table.ended_first, hkind]) (fun hidle => ?_) fun hno => ?_
      · exact absurd (.inl ⟨r, hmem, hjr.symm⟩) hidle
      · exact absurd hjr.symm (hno r hmem)
    · have hdesc := Table.ended_last e p r (by omega)
      rw [← hjS.resolve_left hjr] at hdesc
      exact .of_free huse (by rw [hdesc]) (fun _ => by rw [hdesc]) fun _ => by rw [hdesc]
  · intro q hq
    rcases List.mem_cons.1 hq with rfl | hq
    · exact .inr ⟨by rw [Table.ended_first, hslab], fun hlen => by rw [Table.ended_last _ _ _ hlen]⟩
    · refine .inl ⟨hq, fun j low high hjS => hout q hq j low high ?_⟩
      simp only [Set.mem_insert_iff, Set.mem_singleton_iff] at hjS
      omega

end Runs

end SharedSlab.Slab
