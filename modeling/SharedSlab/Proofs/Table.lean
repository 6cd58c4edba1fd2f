import Mathlib.Logic.Function.Basic
import SharedSlab.Proofs.Placement
import SharedSlab.Proofs.Steps
import SharedSlab.Proofs.WordBits

set_option autoImplicit false

/-!
# The table of descriptors

Memory seen as a table: for each descriptor its `slab` word, its two links and its kind. The
accessors of a pool read one entry, the setters change one part of one entry, and `Tabled` says what
a program made of the table while it left every word outside the table alone.
-/

namespace SharedSlab.Slab

/-- A descriptor taken apart. -/
structure Desc where
  slab : UInt64
  link : Nat
  kind : PageKind
  next : Nat
deriving DecidableEq

def Desc.blank : Desc := ⟨0, 0, .page, 0⟩

abbrev Table := Nat → Desc

def table (m : Memory) : Table := fun j =>
  ⟨m.word (10 + 3 * j), prevLink (m.word (11 + 3 * j)), PageKind.ofTag (m.word (11 + 3 * j)),
    (m.word (12 + 3 * j)).toNat⟩

namespace Table

def setSlab (d : Table) (j : Nat) (w : UInt64) : Table :=
  fun k => if k = j then { d k with slab := w } else d k

def setNext (d : Table) (j next : Nat) : Table :=
  fun k => if k = j then { d k with next := next } else d k

def setLink (d : Table) (j link : Nat) : Table :=
  fun k => if k = j then { d k with link := link } else d k

def setPrev (d : Table) (j link : Nat) (kind : PageKind) : Table :=
  fun k => if k = j then { d k with link := link, kind := kind } else d k

end Table

theorem tag_lt (k : PageKind) : k.tag.toNat < 4 := by cases k <;> decide

theorem prevLink_pack {link : Nat} (fits : link < wordLimit) (aligned : link % 4 = 0)
    (k : PageKind) : prevLink (UInt64.ofNat link ||| k.tag) = link := by
  have hmask : (0xfffffffffffffffc : UInt64).toNat = 2 ^ 2 * (2 ^ 62 - 1) := rfl
  have htag := tag_lt k
  obtain ⟨q, rfl⟩ : 4 ∣ link := Nat.dvd_of_mod_eq_zero aligned
  rw [prevLink, UInt64.toNat_and, UInt64.toNat_or, toNat_ofNat fits, hmask]
  rw [wordLimit_eq] at fits
  apply Nat.eq_of_testBit_eq
  intro i
  rw [Nat.testBit_and, Nat.testBit_or, Nat.testBit_two_pow_mul, Nat.testBit_two_pow_sub_one,
    show 4 * q = 2 ^ 2 * q from rfl, Nat.testBit_two_pow_mul]
  by_cases hi : 2 ≤ i
  · have hpow : 2 ^ 2 ≤ 2 ^ i := Nat.pow_le_pow_right (by decide) hi
    rw [Nat.testBit_lt_two_pow (x := k.tag.toNat) (by omega)]
    by_cases hhigh : i - 2 < 62
    · simp [hi, hhigh]
    · have hq : q < 2 ^ (i - 2) :=
        lt_of_lt_of_le (b := 2 ^ 62) (by omega) (Nat.pow_le_pow_right (by decide) (by omega))
      simp [hhigh, Nat.testBit_lt_two_pow hq]
  · simp [hi]

theorem ofTag_pack {link : Nat} (fits : link < wordLimit) (aligned : link % 4 = 0)
    (k : PageKind) : PageKind.ofTag (UInt64.ofNat link ||| k.tag) = k := by
  have hlink : UInt64.ofNat link &&& 3 = 0 := by
    rw [← UInt64.toNat_inj, UInt64.toNat_and, toNat_ofNat fits]
    exact (Nat.and_two_pow_sub_one_eq_mod link 2).trans aligned
  have hlow : (UInt64.ofNat link ||| k.tag) &&& 3 = k.tag &&& 3 := by
    have hdistrib : (UInt64.ofNat link ||| k.tag) &&& 3 =
        (UInt64.ofNat link &&& 3) ||| (k.tag &&& 3) :=
      UInt64.toBitVec_inj.1 BitVec.and_or_distrib_right
    rw [hdistrib, hlink, UInt64.zero_or]
  rw [PageKind.ofTag, hlow]
  exact PageKind.ofTag_tag k

theorem packPrev_eq_ok {link : Nat} (aligned : link % 4 = 0) (k : PageKind) :
    packPrev link k = .ok (UInt64.ofNat link ||| k.tag) := if_pos aligned

theorem nodeOffset_mod_eight (j : Nat) : nodeOffset j % 8 = 0 := by
  simp only [nodeOffset, freeHead, descriptorSize]
  omega

theorem table_setSlab (m : Memory) (j : Nat) (w : UInt64) :
    table (m.setWord (10 + 3 * j) w) = (table m).setSlab j w := by
  funext k
  by_cases h : k = j
  · subst h
    simp only [table, Table.setSlab, if_true, Memory.word_setWord]
    rw [if_neg (by omega), if_neg (by omega)]
  · simp only [table, Table.setSlab, if_neg h, Memory.word_setWord]
    rw [if_neg (by omega), if_neg (by omega), if_neg (by omega)]

theorem table_setPrev (m : Memory) (j : Nat) {link : Nat} (fits : link < wordLimit)
    (aligned : link % 4 = 0) (kind : PageKind) :
    table (m.setWord (11 + 3 * j) (UInt64.ofNat link ||| kind.tag)) =
      (table m).setPrev j link kind := by
  funext k
  by_cases h : k = j
  · subst h
    simp only [table, Table.setPrev, if_true, Memory.word_setWord, prevLink_pack fits aligned,
      ofTag_pack fits aligned]
    rw [if_neg (by omega), if_neg (by omega)]
  · simp only [table, Table.setPrev, if_neg h, Memory.word_setWord]
    rw [if_neg (by omega), if_neg (by omega), if_neg (by omega)]

theorem table_setNext (m : Memory) (j : Nat) {next : Nat} (fits : next < wordLimit) :
    table (m.setWord (12 + 3 * j) (UInt64.ofNat next)) = (table m).setNext j next := by
  have hnext : (UInt64.ofNat next).toNat = next := toNat_ofNat fits
  funext k
  by_cases h : k = j
  · subst h
    simp only [table, Table.setNext, if_true, Memory.word_setWord, hnext]
    rw [if_neg (by omega), if_neg (by omega)]
  · simp only [table, Table.setNext, if_neg h, Memory.word_setWord]
    rw [if_neg (by omega), if_neg (by omega), if_neg (by omega)]

theorem table_setWord_of_outside (m : Memory) {nodes i j : Nat} (w : UInt64)
    (outside : i < 10 ∨ 10 + 3 * nodes ≤ i) (h : j < nodes) :
    table (m.setWord i w) j = table m j := by
  simp only [table, Memory.word_setWord]
  rw [if_neg (by omega), if_neg (by omega), if_neg (by omega)]

/-- The links to the node before are multiples of eight, stale ones too. -/
def LinksAligned (nodes : Nat) (m : Memory) : Prop := ∀ j < nodes, 8 ∣ (table m j).link

theorem LinksAligned.congr {nodes : Nat} {m m' : Memory} (h : LinksAligned nodes m)
    (same : ∀ j < nodes, (table m' j).link = (table m j).link) : LinksAligned nodes m' :=
  fun j hj => (same j hj).symm.subst (h j hj)

/-- `m'` holds the table `d`, and outside the first `nodes` descriptors what `m` holds. What was
written to `m` linked descriptors at multiples of eight alone. -/
structure Tabled (nodes : Nat) (m m' : Memory) (d : Table) : Prop where
  table_eq : table m' = d
  elsewhere : ∀ i, i < 10 ∨ 10 + 3 * nodes ≤ i → m'.word i = m.word i
  links : LinksAligned nodes m → LinksAligned nodes m'

namespace Tabled

variable {nodes : Nat} {m m' m'' : Memory} {d d' : Table}

theorem refl (nodes : Nat) (m : Memory) : Tabled nodes m m (table m) :=
  ⟨rfl, fun _ _ => rfl, id⟩

theorem trans (h : Tabled nodes m m' d) (h' : Tabled nodes m' m'' d') :
    Tabled nodes m m'' d' :=
  ⟨h'.table_eq, fun i hi => (h'.elsewhere i hi).trans (h.elsewhere i hi), h'.links ∘ h.links⟩

theorem congr (h : Tabled nodes m m' d) (e : d = d') : Tabled nodes m m' d' := e ▸ h

end Tabled

namespace Pool

variable {p : Pool} {j : Nat} {s : Arena}

theorem cell_eq_ok (hp : p.Placed) (hj : j < p.nodes) (f : Field) :
    p.cell (nodeOffset j) f = .ok (10 + 3 * j + f.index) := by
  have hle := hp.nodeOffset_le hj.le
  have hcell : nodeOffset j % 8 = 0 ∧ nodeOffset j / 8 = 10 + 3 * j := by
    simp only [nodeOffset, freeHead, descriptorSize]
    omega
  rw [cell, if_neg (by omega), if_pos hcell.1, hcell.2]

section Accessors

variable (hp : p.Placed) (hj : j < p.nodes)
include hp hj

theorem field_run (f : Field) (s : Arena) :
    p.field (nodeOffset j) f s = .ok (s.memory.word (10 + 3 * j + f.index)) s := by
  rw [field, PoolM.bind_liftM (cell_eq_ok hp hj f), PoolM.word_run]

theorem setField_run (f : Field) (w : UInt64) (s : Arena) :
    p.setField (nodeOffset j) f w s =
      .ok () (s.withMemory (s.memory.setWord (10 + 3 * j + f.index) w)) := by
  rw [setField, PoolM.bind_liftM (cell_eq_ok hp hj f), PoolM.setWord_run]

theorem slab_run (s : Arena) : p.slab (nodeOffset j) s = .ok (table s.memory j).slab s :=
  field_run hp hj .slab s

theorem prevNode_run (s : Arena) : p.prevNode (nodeOffset j) s = .ok (table s.memory j).link s := by
  rw [prevNode, prev, PoolM.bind_run (field_run hp hj .prev s)]
  simp only [Field.index, PoolM.pure_run, table]
  rw [show 10 + 3 * j + 1 = 11 + 3 * j by omega]

theorem kind_run (s : Arena) : p.kind (nodeOffset j) s = .ok (table s.memory j).kind s := by
  rw [kind, prev, PoolM.bind_run (field_run hp hj .prev s)]
  simp only [Field.index, PoolM.pure_run, table]
  rw [show 10 + 3 * j + 1 = 11 + 3 * j by omega]

theorem next_run (s : Arena) : p.next (nodeOffset j) s = .ok (table s.memory j).next s := by
  rw [next, PoolM.bind_run (field_run hp hj .next s)]
  simp only [Field.index, PoolM.pure_run, table]
  rw [show 10 + 3 * j + 2 = 12 + 3 * j by omega]

theorem setSlab_run (w : UInt64) (s : Arena) :
    ∃ m', p.setSlab (nodeOffset j) w s = .ok () (s.withMemory m') ∧
      Tabled p.nodes s.memory m' ((table s.memory).setSlab j w) := by
  have htable := table_setSlab s.memory j w
  refine ⟨_, setField_run hp hj .slab w s, htable, fun i hi => ?_, fun h => h.congr fun k _ => ?_⟩
  · exact Memory.word_setWord_of_ne _ _ (by simp only [Field.index]; omega)
  · exact (congrArg Desc.link (congrFun htable k)).trans (by simp only [Table.setSlab]; split <;> rfl)

theorem setPrev_run {link : Nat} (fits : link < wordLimit) (aligned : link % 8 = 0)
    (kind : PageKind) (s : Arena) :
    ∃ m', p.setPrev (nodeOffset j) link kind s = .ok () (s.withMemory m') ∧
      Tabled p.nodes s.memory m' ((table s.memory).setPrev j link kind) := by
  have untagged : link % 4 = 0 := by omega
  have htable := table_setPrev s.memory j fits untagged kind
  refine ⟨s.memory.setWord (11 + 3 * j) (UInt64.ofNat link ||| kind.tag), ?_, htable,
    fun i hi => ?_, fun h k hk => ?_⟩
  · rw [setPrev, PoolM.bind_liftM (packPrev_eq_ok untagged kind), setField_run hp hj .prev]
    simp only [Field.index]
    rw [show 10 + 3 * j + 1 = 11 + 3 * j by omega]
  · exact Memory.word_setWord_of_ne _ _ (by omega)
  · rw [htable, Table.setPrev]
    split
    · exact Nat.dvd_of_mod_eq_zero aligned
    · exact h k hk

theorem setNext_run {next : Nat} (fits : next < wordLimit) (s : Arena) :
    ∃ m', p.setNext (nodeOffset j) next s = .ok () (s.withMemory m') ∧
      Tabled p.nodes s.memory m' ((table s.memory).setNext j next) := by
  have htable := table_setNext s.memory j fits
  refine ⟨s.memory.setWord (12 + 3 * j) (UInt64.ofNat next), ?_, htable, fun i hi => ?_,
    fun h => h.congr fun k _ => ?_⟩
  · rw [setNext, setField_run hp hj .next]
    simp only [Field.index]
    rw [show 10 + 3 * j + 2 = 12 + 3 * j by omega]
  · exact Memory.word_setWord_of_ne _ _ (by omega)
  · exact (congrArg Desc.link (congrFun htable k)).trans (by simp only [Table.setNext]; split <;> rfl)

theorem relink_run {link : Nat} (fits : link < wordLimit) (aligned : link % 8 = 0) (s : Arena) :
    ∃ m', p.relink (nodeOffset j) link s = .ok () (s.withMemory m') ∧
      Tabled p.nodes s.memory m' ((table s.memory).setLink j link) := by
  obtain ⟨m', run, kept⟩ := setPrev_run hp hj fits aligned (table s.memory j).kind s
  refine ⟨m', ?_, kept.congr ?_⟩
  · rw [relink, PoolM.bind_run (kind_run hp hj s), run]
  · funext k
    by_cases h : k = j
    · subst h
      simp only [Table.setPrev, Table.setLink, if_true]
    · simp only [Table.setPrev, Table.setLink, if_neg h]

end Accessors

end Pool

end SharedSlab.Slab
