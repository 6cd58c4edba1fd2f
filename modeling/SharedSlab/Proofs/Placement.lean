import SharedSlab.Proofs.ChunkGrid
import SharedSlab.Slab.Setup

set_option autoImplicit false

/-!
# Where the parts of a pool lie

Descriptors are numbered through: the sentinel of the free runs is number 0, those of the classes
follow, then come the pages. `Placed` says that a view has the layout of a region that is large
enough; every address that an operation computes inside it is then exact.
-/

namespace SharedSlab.Slab

def nodeOffset (j : Nat) : Nat := freeHead + descriptorSize * j

theorem nodeOffset_inj {j k : Nat} : nodeOffset j = nodeOffset k ↔ j = k := by
  simp only [nodeOffset, freeHead, descriptorSize]
  omega

theorem nodeOffset_ne_zero (j : Nat) : nodeOffset j ≠ 0 := by
  simp only [nodeOffset, freeHead]
  omega

namespace Pool

variable {p : Pool}

def slot (p : Pool) (shift : Nat) : Nat := 1 + (shift - p.config.minShift)

def page (p : Pool) (i : Nat) : Nat := 1 + p.config.slotCount + i

def nodes (p : Pool) : Nat := 1 + p.config.slotCount + p.pageCount

def dataOf (p : Pool) (i : Nat) : Nat := p.start + i * p.config.pageSize

def bitmapIndex (p : Pool) (i k : Nat) : Nat := p.dataOf i / 8 + k

/-- The view of a pool whose parts lie in this order, and inside its region. -/
structure Placed (p : Pool) : Prop where
  slots : p.layout.slots = headerSize
  pages : p.layout.pages = headerSize + p.config.slotCount * descriptorSize
  pageCount_pos : 0 < p.pageCount
  table_le : nodeOffset p.nodes ≤ p.start
  aligned : p.config.pageSize ∣ p.start
  finish : p.finish = p.dataOf p.pageCount
  finish_le : p.finish ≤ p.region.len
  len_lt : p.region.len < wordLimit

theorem page_inj {i j : Nat} : p.page i = p.page j ↔ i = j := by
  simp only [page]
  omega

theorem page_lt_nodes {i : Nat} (h : i < p.pageCount) : p.page i < p.nodes := by
  simp only [page, nodes]
  omega

theorem zero_lt_nodes (p : Pool) : 0 < p.nodes := by
  simp only [nodes]
  omega

theorem slot_le_slotCount {shift : Nat} (h : p.config.IsClass shift) :
    p.slot shift ≤ p.config.slotCount := by
  have hlow := h.1
  have hhigh : shift < p.config.page.shift := h.2
  simp only [slot, Config.slotCount]
  omega

theorem slot_lt_nodes {shift : Nat} (h : p.config.IsClass shift) : p.slot shift < p.nodes := by
  have hle := slot_le_slotCount h
  simp only [nodes]
  omega

theorem slotCount_lt_page (p : Pool) (i : Nat) : p.config.slotCount < p.page i := by
  simp only [page]
  omega

theorem dataOf_succ (p : Pool) (i : Nat) : p.dataOf (i + 1) = p.dataOf i + p.config.pageSize := by
  simp only [dataOf]
  ring

theorem dataOf_mono {i j : Nat} (h : i ≤ j) : p.dataOf i ≤ p.dataOf j :=
  Nat.add_le_add_left (Nat.mul_le_mul_right _ h) _

theorem dataOf_lt_dataOf {i j : Nat} : p.dataOf i < p.dataOf j ↔ i < j := by
  constructor
  · intro h
    by_contra hle
    exact absurd h (not_lt.2 (dataOf_mono (not_lt.1 hle)))
  · intro h
    have hmono := p.dataOf_mono (Nat.succ_le_of_lt h)
    have hpage := p.config.pageSize_pos
    rw [Nat.succ_eq_add_one, dataOf_succ] at hmono
    omega

namespace Placed

variable (hp : p.Placed)
include hp

theorem dataOf_le_finish {i : Nat} (h : i ≤ p.pageCount) : p.dataOf i ≤ p.finish := by
  rw [hp.finish]
  exact dataOf_mono h

theorem dataOf_add_le {i : Nat} (h : i < p.pageCount) :
    p.dataOf i + p.config.pageSize ≤ p.finish := by
  rw [← dataOf_succ]
  exact hp.dataOf_le_finish h

theorem dataOf_lt {i : Nat} (h : i ≤ p.pageCount) : p.dataOf i < wordLimit :=
  (hp.dataOf_le_finish h).trans_lt (hp.finish_le.trans_lt hp.len_lt)

theorem div_lt {off : Nat} (low : p.start ≤ off) (high : off < p.finish) :
    (off - p.start) / p.config.pageSize < p.pageCount := by
  have hfinish := hp.finish
  rw [dataOf] at hfinish
  rw [Nat.div_lt_iff_lt_mul p.config.pageSize_pos]
  omega

theorem start_le_finish : p.start ≤ p.finish := by
  have h := hp.dataOf_le_finish (Nat.zero_le _)
  simpa only [dataOf, Nat.zero_mul, Nat.add_zero] using h

theorem pageSize_dvd_dataOf (i : Nat) : p.config.pageSize ∣ p.dataOf i :=
  Nat.dvd_add hp.aligned (Nat.dvd_mul_left _ _)

theorem eight_dvd_dataOf (i : Nat) : 8 ∣ p.dataOf i :=
  p.config.eight_dvd_pageSize.trans (hp.pageSize_dvd_dataOf i)

theorem nodeOffset_le {j : Nat} (h : j ≤ p.nodes) : nodeOffset j ≤ p.region.len := by
  have htable := hp.table_le
  have hstart := hp.start_le_finish
  have hfinish := hp.finish_le
  simp only [nodeOffset, freeHead, descriptorSize] at *
  omega

theorem nodeOffset_lt {j : Nat} (h : j ≤ p.nodes) : nodeOffset j < wordLimit :=
  (hp.nodeOffset_le h).trans_lt hp.len_lt

/-- A page is larger than its descriptor, so page counts are far below a word's limit. -/
theorem pageCount_lt : p.pageCount < 2 ^ 54 := by
  have hle := hp.finish_le.trans_lt hp.len_lt
  have hpage := p.config.le_pageSize
  have hmul : p.pageCount * 2 ^ 10 ≤ p.pageCount * p.config.pageSize :=
    Nat.mul_le_mul_left _ hpage
  rw [hp.finish, wordLimit_eq, dataOf] at hle
  omega

theorem slotFor_eq_ok {shift : Nat} (h : p.config.IsClass shift) :
    p.slotFor shift = .ok (nodeOffset (p.slot shift)) := by
  have hlt := hp.nodeOffset_lt (slot_lt_nodes h).le
  have hsub : Checked.sub shift p.config.minShift = .ok (shift - p.config.minShift) :=
    Checked.sub_eq_ok h.1
  have hslots := hp.slots
  simp only [slot, nodeOffset, freeHead, descriptorSize, headerSize] at hlt hslots
  simp only [slotFor, slotNode, hsub, bind, Except.bind, descriptorSize,
    Checked.mul_eq_ok (a := shift - p.config.minShift) (b := 24) (by omega), hslots]
  rw [Checked.add_eq_ok (by omega)]
  simp only [slot, nodeOffset, freeHead, descriptorSize, Except.ok.injEq]
  omega

theorem slotNode_eq_ok {k : Nat} (h : k < p.config.slotCount) :
    p.slotNode k = .ok (nodeOffset (1 + k)) := by
  have hlt := hp.nodeOffset_lt (j := 1 + k) (by simp only [nodes]; omega)
  have hslots := hp.slots
  simp only [nodeOffset, freeHead, descriptorSize, headerSize] at hlt hslots
  simp only [slotNode, bind, Except.bind, descriptorSize,
    Checked.mul_eq_ok (a := k) (b := 24) (by omega), hslots]
  rw [Checked.add_eq_ok (by omega)]
  simp only [nodeOffset, freeHead, descriptorSize, Except.ok.injEq]
  omega

theorem pageNode_eq_ok {i : Nat} (h : i ≤ p.pageCount) :
    p.pageNode i = .ok (nodeOffset (p.page i)) := by
  have hlt := hp.nodeOffset_lt (j := p.page i) (by simp only [nodes, page]; omega)
  have hpages := hp.pages
  simp only [page, nodeOffset, freeHead, descriptorSize, headerSize] at hlt hpages
  simp only [pageNode, bind, Except.bind, descriptorSize,
    Checked.mul_eq_ok (a := i) (b := 24) (by omega), hpages]
  rw [Checked.add_eq_ok (by omega)]
  simp only [page, nodeOffset, freeHead, descriptorSize, Except.ok.injEq]
  omega

theorem pageIndex_eq_ok (i : Nat) : p.pageIndex (nodeOffset (p.page i)) = .ok i := by
  have hpages := hp.pages
  simp only [headerSize, descriptorSize] at hpages
  simp only [pageIndex, page, nodeOffset, freeHead, descriptorSize, hpages]
  rw [Checked.sub_eq_ok (by omega)]
  simp only [bind, Except.bind, pure, Except.pure, Except.ok.injEq]
  omega

theorem pageData_eq_ok {i : Nat} (h : i ≤ p.pageCount) : p.pageData i = .ok (p.dataOf i) := by
  have hlt := hp.dataOf_lt h
  have hshift : p.config.pageShift < 64 := p.config.page.shift_lt
  simp only [dataOf, p.config.pageSize_eq] at hlt ⊢
  have hmul : Checked.shiftLeft i p.config.pageShift = .ok (i * 2 ^ p.config.pageShift) :=
    Checked.shiftLeft_eq_ok hshift (by omega)
  simp only [pageData, hmul, bind, Except.bind]
  exact Checked.add_eq_ok hlt

theorem bitmapCell_eq_ok {i k : Nat} (h : i < p.pageCount) (fits : 8 * k ≤ p.config.pageSize) :
    p.bitmapCell (p.dataOf i) k = .ok (p.bitmapIndex i k) := by
  have hadd := hp.dataOf_add_le h
  have hlen := hp.finish_le
  have hlt := hp.len_lt
  have haligned := hp.eight_dvd_dataOf i
  simp only [bitmapCell, Checked.mul_eq_ok (a := k) (b := 8) (by omega), bind, Except.bind]
  rw [Checked.add_eq_ok (by omega)]
  simp only
  rw [if_neg (by omega)]
  simp only [pure, Except.pure]
  rw [if_pos (by omega)]
  simp only [bitmapIndex, Except.ok.injEq]
  omega

theorem div_eq_bitmapIndex_iff {x i k : Nat} : x / 8 = p.bitmapIndex i k ↔
    p.dataOf i + 8 * k ≤ x ∧ x < p.dataOf i + 8 * k + 8 := by
  have hdvd := Nat.div_mul_cancel (hp.eight_dvd_dataOf i)
  rw [bitmapIndex]
  omega

theorem table_le_div {x : Nat} (h : p.start ≤ x) : 10 + 3 * p.nodes ≤ x / 8 := by
  have htable := hp.table_le
  simp only [nodeOffset, freeHead, descriptorSize] at htable
  omega

theorem table_le_bitmapIndex (i k : Nat) : 10 + 3 * p.nodes ≤ p.bitmapIndex i k :=
  (hp.table_le_div (Nat.le_add_right _ _)).trans (Nat.le_add_right _ _)

theorem bitmapIndex_inj {i j k l : Nat} (hk : 8 * k < p.config.pageSize)
    (hl : 8 * l < p.config.pageSize) (h : p.bitmapIndex i k = p.bitmapIndex j l) :
    i = j ∧ k = l := by
  have hi := hp.eight_dvd_dataOf i
  have hj := hp.eight_dvd_dataOf j
  simp only [bitmapIndex] at h
  rcases Nat.lt_trichotomy i j with hlt | rfl | hgt
  · have hmono := dataOf_mono (p := p) (Nat.succ_le_of_lt hlt)
    rw [Nat.succ_eq_add_one, dataOf_succ] at hmono
    omega
  · exact ⟨rfl, by omega⟩
  · have hmono := dataOf_mono (p := p) (Nat.succ_le_of_lt hgt)
    rw [Nat.succ_eq_add_one, dataOf_succ] at hmono
    omega

end Placed

end Pool

end SharedSlab.Slab
