import Mathlib.Data.Finset.Card
import SharedSlab.Proofs.RingLinks

set_option autoImplicit false

namespace SharedSlab.Slab.Pool

variable {p : Pool} {h x y a b f : Nat}

section Edits

variable (hp : p.Placed)
include hp

theorem unlink_run (hx : x < p.nodes) (hb : b < p.nodes) (ha : a < p.nodes) (s : Arena)
    (link : (table s.memory x).link = nodeOffset b)
    (next : (table s.memory x).next = nodeOffset a) :
    ∃ m', p.unlink (nodeOffset x) s = .ok () (s.withMemory m') ∧
      Tabled p.nodes s.memory m' ((table s.memory).unlinked b a) := by
  obtain ⟨m₁, run₁, t₁⟩ := setNext_run hp hb (hp.nodeOffset_lt ha.le) s
  obtain ⟨m₂, run₂, t₂⟩ := relink_run hp ha (hp.nodeOffset_lt hb.le) (nodeOffset_mod_eight b)
    (s.withMemory m₁)
  refine ⟨m₂, ?_, (t₁.trans t₂).congr ?_⟩
  · rw [unlink, PoolM.bind_run (prevNode_run hp hx s), PoolM.bind_run (next_run hp hx s), link,
      next, PoolM.bind_run run₁, run₂]
    rfl
  · rw [Arena.memory_withMemory, t₁.table_eq]
    rfl

theorem pushFront_run (hh : h < p.nodes) (hx : x < p.nodes) (hf : f < p.nodes) (kind : PageKind)
    (s : Arena) (first : (table s.memory h).next = nodeOffset f) :
    ∃ m', p.pushFront (nodeOffset h) (nodeOffset x) kind s = .ok () (s.withMemory m') ∧
      Tabled p.nodes s.memory m' ((table s.memory).pushed h f x kind) := by
  obtain ⟨m₁, run₁, t₁⟩ := setNext_run hp hx (hp.nodeOffset_lt hf.le) s
  obtain ⟨m₂, run₂, t₂⟩ := setPrev_run hp hx (hp.nodeOffset_lt hh.le) (nodeOffset_mod_eight h) kind
    (s.withMemory m₁)
  obtain ⟨m₃, run₃, t₃⟩ := relink_run hp hf (hp.nodeOffset_lt hx.le) (nodeOffset_mod_eight x)
    (s.withMemory m₂)
  obtain ⟨m₄, run₄, t₄⟩ := setNext_run hp hh (hp.nodeOffset_lt hx.le) (s.withMemory m₃)
  refine ⟨m₄, ?_, (((t₁.trans t₂).trans t₃).trans t₄).congr ?_⟩
  · rw [pushFront, PoolM.bind_run (next_run hp hh s), first, PoolM.bind_run run₁,
      PoolM.bind_run run₂, Arena.withMemory_withMemory, PoolM.bind_run run₃,
      Arena.withMemory_withMemory, run₄]
    rfl
  · rw [Arena.memory_withMemory, t₃.table_eq, Arena.memory_withMemory, t₂.table_eq,
      Arena.memory_withMemory, t₁.table_eq]
    rfl

theorem replace_run (hx : x < p.nodes) (hy : y < p.nodes) (hb : b < p.nodes) (ha : a < p.nodes)
    (kind : PageKind) (s : Arena) (link : (table s.memory x).link = nodeOffset b)
    (next : (table s.memory x).next = nodeOffset a) :
    ∃ m', p.replace (nodeOffset x) (nodeOffset y) kind s = .ok () (s.withMemory m') ∧
      Tabled p.nodes s.memory m' ((table s.memory).replaced b a y kind) := by
  obtain ⟨m₁, run₁, t₁⟩ := setNext_run hp hy (hp.nodeOffset_lt ha.le) s
  obtain ⟨m₂, run₂, t₂⟩ := setPrev_run hp hy (hp.nodeOffset_lt hb.le) (nodeOffset_mod_eight b) kind
    (s.withMemory m₁)
  obtain ⟨m₃, run₃, t₃⟩ := setNext_run hp hb (hp.nodeOffset_lt hy.le) (s.withMemory m₂)
  obtain ⟨m₄, run₄, t₄⟩ := relink_run hp ha (hp.nodeOffset_lt hy.le) (nodeOffset_mod_eight y)
    (s.withMemory m₃)
  refine ⟨m₄, ?_, (((t₁.trans t₂).trans t₃).trans t₄).congr ?_⟩
  · rw [replace, PoolM.bind_run (prevNode_run hp hx s), PoolM.bind_run (next_run hp hx s), link,
      next, PoolM.bind_run run₁, PoolM.bind_run run₂, Arena.withMemory_withMemory,
      PoolM.bind_run run₃, Arena.withMemory_withMemory, run₄]
    rfl
  · rw [Arena.memory_withMemory, t₃.table_eq, Arena.memory_withMemory, t₂.table_eq,
      Arena.memory_withMemory, t₁.table_eq]
    rfl

theorem retire_run (hx : x < p.nodes) (hb : b < p.nodes) (ha : a < p.nodes) (kind : PageKind)
    (s : Arena) (link : (table s.memory x).link = nodeOffset b)
    (next : (table s.memory x).next = nodeOffset a) :
    ∃ m', p.retire (nodeOffset x) kind s = .ok () (s.withMemory m') ∧
      Tabled p.nodes s.memory m'
        ((((table s.memory).unlinked b a).setNext x 0).setPrev x 0 kind) := by
  have hzero : 0 < wordLimit := by decide
  obtain ⟨m₁, run₁, t₁⟩ := unlink_run hp hx hb ha s link next
  obtain ⟨m₂, run₂, t₂⟩ := setNext_run hp hx hzero (s.withMemory m₁)
  obtain ⟨m₃, run₃, t₃⟩ := setPrev_run hp hx hzero (by decide) kind (s.withMemory m₂)
  refine ⟨m₃, ?_, ((t₁.trans t₂).trans t₃).congr ?_⟩
  · rw [retire, PoolM.bind_run run₁, PoolM.bind_run run₂, Arena.withMemory_withMemory, run₃]
    rfl
  · rw [Arena.memory_withMemory, t₂.table_eq, Arena.memory_withMemory, t₁.table_eq]

theorem describe_run (hx : x < p.nodes) (e : Desc) (fits : e.link < wordLimit)
    (aligned : e.link % 8 = 0) (fits' : e.next < wordLimit) (s : Arena) :
    ∃ m₁ m₂ m₃, p.setSlab (nodeOffset x) e.slab s = .ok () (s.withMemory m₁) ∧
      p.setNext (nodeOffset x) e.next (s.withMemory m₁) = .ok () (s.withMemory m₂) ∧
      p.setPrev (nodeOffset x) e.link e.kind (s.withMemory m₂) = .ok () (s.withMemory m₃) ∧
      Tabled p.nodes s.memory m₃ (Function.update (table s.memory) x e) := by
  obtain ⟨m₁, run₁, t₁⟩ := setSlab_run hp hx e.slab s
  obtain ⟨m₂, run₂, t₂⟩ := setNext_run hp hx fits' (s.withMemory m₁)
  obtain ⟨m₃, run₃, t₃⟩ := setPrev_run hp hx fits aligned e.kind (s.withMemory m₂)
  refine ⟨m₁, m₂, m₃, run₁, run₂, run₃, ((t₁.trans t₂).trans t₃).congr ?_⟩
  rw [Arena.memory_withMemory, t₂.table_eq, Arena.memory_withMemory, t₁.table_eq]
  funext k
  by_cases hk : k = x
  · subst hk
    simp [Table.setSlab, Table.setNext, Table.setPrev]
  · simp [Table.setSlab, Table.setNext, Table.setPrev, hk]

end Edits

/-- A walk at a node goes on: it is not back at the sentinel, and the next node is that of the
list. -/
theorem at_node {d : Table} {l : List Nat} (forward : Forward d (x :: l ++ [h]))
    (apart : h ∉ x :: l) :
    ¬(nodeOffset x = nodeOffset h ∨ nodeOffset x = 0) ∧ (d x).next = nodeOffset (l.headD h) := by
  constructor
  · rw [nodeOffset_inj]
    rintro (rfl | hzero)
    · exact apart List.mem_cons_self
    · exact nodeOffset_ne_zero x hzero
  · cases l with
    | nil => exact (List.isChain_cons_cons.1 forward).1
    | cons y l => exact (List.isChain_cons_cons.1 forward).1

section Walks

variable (hp : p.Placed) {s : Arena} {l : List Nat}
include hp

theorem findFrom_run {test : Nat → PoolM Bool} {t : Nat → Bool} {budget : Nat}
    (forward : Forward (table s.memory) (l ++ [h])) (apart : h ∉ l)
    (bound : ∀ x ∈ l, x < p.nodes) (enough : l.length ≤ budget)
    (reads : ∀ x ∈ l, test (nodeOffset x) s = .ok (t x) s) :
    p.findFrom (nodeOffset h) test budget (nodeOffset (l.headD h)) s =
      .ok ((l.find? t).map nodeOffset) s := by
  induction l generalizing budget with
  | nil =>
    unfold findFrom
    simp
  | cons x l ih =>
    obtain ⟨budget, rfl⟩ : ∃ k, budget = k + 1 := ⟨budget - 1, by simp at enough; omega⟩
    obtain ⟨hne, hnext⟩ := at_node forward apart
    have enough' : l.length ≤ budget := by simpa using enough
    have hrest := ih forward.tail (fun hmem => apart (List.mem_cons_of_mem x hmem))
      (fun z hz => bound z (List.mem_cons_of_mem x hz)) enough'
      (fun z hz => reads z (List.mem_cons_of_mem x hz))
    rw [findFrom, List.headD_cons, if_neg hne,
      PoolM.bind_run (next_run hp (bound x List.mem_cons_self) s),
      PoolM.bind_run (reads x List.mem_cons_self), hnext]
    by_cases ht : t x = true
    · rw [if_pos ht, List.find?_cons_of_pos ht]
      rfl
    · rw [if_neg ht, List.find?_cons_of_neg ht]
      exact hrest

theorem foldFrom_run {β : Type} {visit : β → Nat → PoolM β} {v : β → Nat → β} {budget : Nat}
    {acc : β} (forward : Forward (table s.memory) (l ++ [h])) (apart : h ∉ l)
    (bound : ∀ x ∈ l, x < p.nodes) (enough : l.length ≤ budget)
    (reads : ∀ x ∈ l, ∀ acc, visit acc (nodeOffset x) s = .ok (v acc x) s) :
    p.foldFrom (nodeOffset h) visit budget (nodeOffset (l.headD h)) acc s =
      .ok (l.foldl v acc) s := by
  induction l generalizing budget acc with
  | nil =>
    unfold foldFrom
    simp
  | cons x l ih =>
    obtain ⟨budget, rfl⟩ : ∃ k, budget = k + 1 := ⟨budget - 1, by simp at enough; omega⟩
    obtain ⟨hne, hnext⟩ := at_node forward apart
    rw [foldFrom, List.headD_cons, if_neg hne,
      PoolM.bind_run (next_run hp (bound x List.mem_cons_self) s),
      PoolM.bind_run (reads x List.mem_cons_self acc), hnext]
    exact ih forward.tail (fun hmem => apart (List.mem_cons_of_mem x hmem))
      (fun z hz => bound z (List.mem_cons_of_mem x hz)) (by simpa using enough)
      (fun z hz => reads z (List.mem_cons_of_mem x hz))

theorem findRing_run (test : Nat → PoolM Bool) {t : Nat → Bool} (ring : Ring (table s.memory) h l)
    (hh : h < p.nodes) (bound : ∀ x ∈ l, x < p.nodes) (enough : l.length ≤ p.pageCount)
    (reads : ∀ x ∈ l, test (nodeOffset x) s = .ok (t x) s) :
    p.findRing (nodeOffset h) test s = .ok ((l.find? t).map nodeOffset) s := by
  rw [findRing, PoolM.bind_run (next_run hp hh s), ring.next_sentinel]
  exact findFrom_run hp ring.forward.tail (List.nodup_cons.1 ring.nodup).1 bound enough reads

theorem foldRing_run {β : Type} (visit : β → Nat → PoolM β) (acc : β) {v : β → Nat → β}
    (ring : Ring (table s.memory) h l) (hh : h < p.nodes) (bound : ∀ x ∈ l, x < p.nodes)
    (enough : l.length ≤ p.pageCount)
    (reads : ∀ x ∈ l, ∀ acc, visit acc (nodeOffset x) s = .ok (v acc x) s) :
    p.foldRing (nodeOffset h) visit acc s = .ok (l.foldl v acc) s := by
  rw [foldRing, PoolM.bind_run (next_run hp hh s), ring.next_sentinel]
  exact foldFrom_run hp ring.forward.tail (List.nodup_cons.1 ring.nodup).1 bound enough reads

theorem ringIsEmpty_run (ring : Ring (table s.memory) h l) (hh : h < p.nodes) :
    p.ringIsEmpty (nodeOffset h) s = .ok l.isEmpty s := by
  rw [ringIsEmpty, PoolM.bind_run (next_run hp hh s), ring.next_sentinel]
  cases l with
  | nil => simp
  | cons y l =>
    have hne : nodeOffset y ≠ nodeOffset h := by
      rw [Ne, nodeOffset_inj]
      rintro rfl
      exact (List.nodup_cons.1 ring.nodup).1 List.mem_cons_self
    simp [hne]

end Walks

/-- The sentinels in `heads` are descriptors, and each is that of a list of pages. -/
structure Threaded (p : Pool) (heads : Set Nat) (d : Table) (R : Nat → List Nat) :
    Prop where
  rings : Rings heads d R
  heads_lt : ∀ h ∈ heads, h < p.nodes
  pages : ∀ h ∈ heads, ∀ x ∈ R h, ∃ i < p.pageCount, p.page i = x

/-- A walk over the list of `h` comes to each of the nodes `l` once, in order, and then stops,
whatever it reads on its way. -/
structure Visits (p : Pool) (s : Arena) (h : Nat) (l : List Nat) : Prop where
  once : l.Nodup
  fold : ∀ {β : Type} (visit : β → Nat → PoolM β) (v : β → Nat → β) (acc : β),
    (∀ x ∈ l, ∀ acc, visit acc (nodeOffset x) s = .ok (v acc x) s) →
      p.foldRing (nodeOffset h) visit acc s = .ok (l.foldl v acc) s
  find : ∀ (test : Nat → PoolM Bool) (t : Nat → Bool),
    (∀ x ∈ l, test (nodeOffset x) s = .ok (t x) s) →
      p.findRing (nodeOffset h) test s = .ok ((l.find? t).map nodeOffset) s

namespace Threaded

variable {heads : Set Nat} {d : Table} {R : Nat → List Nat}

theorem mem_lt (t : p.Threaded heads d R) (hh : h ∈ heads) (hx : x ∈ h :: R h) : x < p.nodes := by
  rcases List.mem_cons.1 hx with rfl | hx
  · exact t.heads_lt x hh
  · obtain ⟨i, hi, rfl⟩ := t.pages h hh x hx
    exact page_lt_nodes hi

theorem length_le (t : p.Threaded heads d R) (hh : h ∈ heads) : (R h).length ≤ p.pageCount := by
  have hsubset : (R h).toFinset ⊆ (Finset.range p.pageCount).image p.page := by
    intro x hx
    obtain ⟨i, hi, rfl⟩ := t.pages h hh x (List.mem_toFinset.1 hx)
    exact Finset.mem_image_of_mem p.page (Finset.mem_range.2 hi)
  have hcard := (Finset.card_le_card hsubset).trans Finset.card_image_le
  rwa [List.toFinset_card_of_nodup (List.nodup_cons.1 (t.rings.ring h hh).nodup).2,
    Finset.card_range] at hcard

theorem visits {s : Arena} (t : p.Threaded heads (table s.memory) R) (hp : p.Placed)
    (hh : h ∈ heads) : p.Visits s h (R h) where
  once := (List.nodup_cons.1 (t.rings.ring h hh).nodup).2
  fold visit _ acc reads := foldRing_run hp visit acc (t.rings.ring h hh) (t.heads_lt h hh)
    (fun _ hx => t.mem_lt hh (List.mem_cons_of_mem h hx)) (t.length_le hh) reads
  find test _ reads := findRing_run hp test (t.rings.ring h hh) (t.heads_lt h hh)
    (fun _ hx => t.mem_lt hh (List.mem_cons_of_mem h hx)) (t.length_le hh) reads

end Threaded

end SharedSlab.Slab.Pool
