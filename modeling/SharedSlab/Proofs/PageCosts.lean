import SharedSlab.Proofs.Exhaustion
import SharedSlab.Proofs.FreeDecisions

set_option autoImplicit false

namespace SharedSlab.Slab

namespace Pool

def Open (p : Pool) (d : Table) (live : List Block) (shift : Nat) : Prop :=
  ∃ i < p.pageCount, p.classOf d i = some shift ∧ p.HasRoom live i shift

instance (p : Pool) (d : Table) (live : List Block) (shift : Nat) :
    Decidable (p.Open d live shift) :=
  inferInstanceAs (Decidable (∃ i < p.pageCount, _ ∧ _))

def pagesTaken (p : Pool) (d : Table) (live : List Block) (size : Nat) : Nat :=
  if p.config.maxSize < size then p.config.page.pagesFor size
  else if p.Open d live (p.config.shiftFor size) then 0 else 1

/-- Pages that come back with a live block. -/
def pagesGiven (p : Pool) (live : List Block) (b : Block) : Nat :=
  if p.config.maxSize < b.size then p.config.page.pagesFor b.size
  else if ∀ c ∈ live, p.pageOf c.off = p.pageOf b.off → c = b then 1 else 0

/-- The number of free pages after a call that was answered, by what it was before. -/
inductive Costs (p : Pool) (d : Table) (live : List Block) (before : Nat) :
    Call → Answer → Nat → Prop
  | granted {size off after : Nat} {pos : 0 < size}
      (taken : after + p.pagesTaken d live size = before) :
      Costs p d live before (.alloc size pos) (.offset (some off)) after
  | refused {size : Nat} {pos : 0 < size} :
      Costs p d live before (.alloc size pos) (.offset none) before
  | freed {b : Block} (mem : b ∈ live) :
      Costs p d live before (.free b.off) (.freed (.ok ())) (before + p.pagesGiven live b)
  | kept {off : Nat} {e : PoolError} :
      Costs p d live before (.free off) (.freed (.error e)) before

end Pool

variable {p : Pool} {a a' : Ledger} {live : List Block} {m : Memory} {s : Arena} {b : Block}
  {i k size shift : Nat} {taken : Finset Nat}

namespace Ledger

inductive AllocCase (p : Pool) (a : Ledger) (size : Nat) : Option Nat × Ledger → Prop
  | noRun (large : p.config.maxSize < size) : AllocCase p a size (none, a)
  | run {i : Nat} {a' : Ledger} (large : p.config.maxSize < size)
      (take : a.take (p.config.page.pagesFor size) = some (i, a')) :
      AllocCase p a size (some (p.dataOf i), a')
  | noPage (small : size ≤ p.config.maxSize) (closed : a.listed (p.config.shiftFor size) = []) :
      AllocCase p a size (none, a)
  | freshPage {i : Nat} {a' : Ledger} (small : size ≤ p.config.maxSize)
      (closed : a.listed (p.config.shiftFor size) = []) (take : a.take 1 = some (i, a')) :
      AllocCase p a size
        (some (p.chunkAt i (p.config.shiftFor size) (p.config.reserved (p.config.shiftFor size))),
          { a'.setTaken i (p.config.shiftFor size)
              (Finset.range (p.config.reserved (p.config.shiftFor size) + 1)) with
            listed := enlist (p.config.shiftFor size) i a'.listed })
  | openPage {i k : Nat} {taken : Finset Nat} {listed : Nat → List Nat}
      (small : size ≤ p.config.maxSize) (mem : i ∈ a.listed (p.config.shiftFor size))
      (use : a.use i = .chunks (p.config.shiftFor size) taken)
      (lt : k < p.config.chunkCount (p.config.shiftFor size)) (vacant : k ∉ taken) :
      AllocCase p a size (some (p.chunkAt i (p.config.shiftFor size) k),
        { a.setTaken i (p.config.shiftFor size) (insert k taken) with listed := listed })

theorem Steady.alloc_case (st : a.Steady p.config p.pageCount) (size : Nat) :
    AllocCase p a size (a.alloc p size) := by
  rw [Ledger.alloc]
  by_cases large : p.config.maxSize < size
  · rw [if_pos large]
    cases take : a.take (p.config.page.pagesFor size) with
    | none => exact .noRun large
    | some found => exact .run large take
  · rw [if_neg large]
    have small := not_lt.1 large
    dsimp only
    cases hlist : a.listed (p.config.shiftFor size) with
    | nil =>
      dsimp only
      rw [Ledger.startPage]
      cases take : a.take 1 with
      | none => exact .noPage small hlist
      | some found => exact .freshPage small hlist take
    | cons i rest =>
      have mem : i ∈ a.listed (p.config.shiftFor size) := hlist ▸ List.mem_cons_self
      obtain ⟨taken, k, use, ⟨lt, vacant, _⟩, heq⟩ := st.takeChunk_eq mem
      dsimp only
      rw [heq]
      exact .openPage small mem use lt vacant

/-- A page comes back just when none but the reserved chunks stay taken. -/
theorem Sound.freePages_clearChunk (so : a.Sound p.config p.pageCount) (hi : i < p.pageCount)
    (use : a.use i = .chunks shift taken) (hk : k ∈ taken) (hres : p.config.reserved shift ≤ k) :
    (a.clearChunk p i shift k).freePages = a.freePages +
      if taken.erase k = Finset.range (p.config.reserved shift) then 1 else 0 := by
  rw [clearChunk_eq a use]
  by_cases hidle : taken.erase k = Finset.range (p.config.reserved shift)
  · rw [if_pos hidle, if_pos hidle]
    exact freePages_give (so.clear hi use hk hres) hi (clear_givenOut ..)
  · rw [if_neg hidle, if_neg hidle]
    rfl

end Ledger

namespace Follows

variable (f : Follows p a live m) (hp : p.Placed)
include f hp

theorem listed_eq_nil_iff_not_open :
    a.listed shift = [] ↔ ¬p.Open (table m) live shift := f.listed_eq_nil_iff hp

theorem chunk_of_pageOf (hb : b ∈ live) (use : a.use (p.pageOf b.off) = .chunks shift taken) :
    b.size ≤ p.config.maxSize ∧ p.config.shiftFor b.size = shift ∧
      ∃ k ∈ taken, p.config.reserved shift ≤ k ∧ b.off = p.chunkAt (p.pageOf b.off) shift k := by
  have small : b.size ≤ p.config.maxSize := by
    by_contra large
    cases use.symm.trans (f.use_of_large hp hb (not_le.1 large)).1
  obtain ⟨_, k, use', hk, hres, hoff⟩ := f.use_of_small hp hb small
  cases use.symm.trans use'
  exact ⟨small, rfl, k, hk, hres, hoff⟩

/-- The last live chunk of a page is the last of its taken chunks that is not reserved. -/
theorem erase_eq_reserved_iff (hb : b ∈ live) (hi : i < p.pageCount)
    (use : a.use i = .chunks shift taken) (hres : p.config.reserved shift ≤ k)
    (hoff : b.off = p.chunkAt i shift k) :
    taken.erase k = Finset.range (p.config.reserved shift) ↔
      ∀ c ∈ live, p.pageOf c.off = i → c = b := by
  have hclass := f.steady.chunks_class i hi shift taken use
  have hle := f.steady.chunks_le i hi shift taken use
  constructor
  · intro hidle c hc hpage
    subst hpage
    obtain ⟨_, _, j, hj, hlow, hoff'⟩ := f.chunk_of_pageOf hp hc use
    have hjk : j = k := by
      by_contra hne
      have hreserved : j ∈ taken.erase k := Finset.mem_erase.2 ⟨hne, hj⟩
      rw [hidle, Finset.mem_range] at hreserved
      omega
    apply List.inj_on_of_nodup_map f.nodup hc hb
    rw [hoff', hoff, hjk]
  · intro hlast
    ext j
    rw [Finset.mem_erase, Finset.mem_range]
    constructor
    · rintro ⟨hne, hj⟩
      have hlt := Finset.mem_range.1 (hle hj)
      rcases (f.mem_taken_iff hi use hlt).1 hj with hreserved | ⟨c, hc, hoff'⟩
      · exact hreserved
      · have hpage : p.pageOf c.off = i := hoff' ▸ (Pool.pageOf_chunkAt hclass hlt).1
        have hcb := hlast c hc hpage
        subst hcb
        exact absurd (Pool.chunkAt_inj.1 (hoff'.symm.trans hoff)) hne
    · intro hj
      exact ⟨by omega, f.steady.chunks_ge i hi shift taken use (Finset.mem_range.2 hj)⟩

theorem freePages_free (hb : b ∈ live) :
    (a.free p b.off).2.freePages = a.freePages + p.pagesGiven live b := by
  have hdone : (a.free p b.off).1 = .ok () := (f.free_done_iff hp b.off).2 ⟨b, hb, rfl⟩
  have hi := f.pageOf_lt hp hb
  have hcase := Ledger.free_case p a b.off
  generalize a.free p b.off = answer at hcase hdone
  cases hcase with
  | @run n _ use off_eq =>
    obtain ⟨c, hc, large, hoff, hn⟩ := f.block_of_runStart hp hi use
    have hcb : c = b := List.inj_on_of_nodup_map f.nodup hc hb (hoff.trans off_eq.symm)
    subst hcb
    rw [Pool.pagesGiven, if_pos large, hn]
    exact Ledger.freePages_give f.steady.toSound hi (.inl use)
  | @chunk shift k taken _ use reserved_le off_eq mem =>
    have small := (f.chunk_of_pageOf hp hb use).1
    have hlast := f.erase_eq_reserved_iff hp hb hi use reserved_le off_eq
    rw [Pool.pagesGiven, if_neg (not_lt.2 small),
      f.steady.toSound.freePages_clearChunk hi use mem reserved_le]
    simp only [hlast]
  | _ => cases hdone

theorem freePages_alloc {off : Nat} (pos : 0 < size) (h : a.alloc p size = (some off, a')) :
    a'.freePages + p.pagesTaken (table m) live size = a.freePages := by
  have hcase := f.steady.alloc_case size
  rw [h] at hcase
  rw [Pool.pagesTaken]
  cases hcase with
  | run large take =>
    rw [if_pos large]
    exact Ledger.freePages_take f.steady.toSound (p.config.page.pagesFor_pos pos) take
  | @freshPage i a₁ small closed take =>
    rw [if_neg (not_lt.2 small), if_neg ((f.listed_eq_nil_iff_not_open hp).1 closed)]
    have hcount : a₁.freePages + 1 = a.freePages :=
      Ledger.freePages_take f.steady.toSound Nat.one_pos take
    exact hcount
  | openPage small mem =>
    have hopen : p.Open (table m) live (p.config.shiftFor size) := by
      by_contra hclosed
      rw [← f.listed_eq_nil_iff_not_open hp] at hclosed
      rw [hclosed] at mem
      cases mem
    rw [if_neg (not_lt.2 small), if_pos hopen]
    rfl

theorem costs (c : Call) :
    p.Costs (table m) live a.freePages c (a.call p c).1 (a.call p c).2.freePages := by
  cases c with
  | alloc size pos =>
    rw [Ledger.call]
    generalize halloc : a.alloc p size = answer
    obtain ⟨found, a'⟩ := answer
    cases found with
    | none =>
      have hcase := f.steady.alloc_case size
      rw [halloc] at hcase
      cases hcase with
      | noRun | noPage => exact .refused
    | some off => exact .granted (f.freePages_alloc hp pos halloc)
  | free off =>
    rw [Ledger.call]
    by_cases hdone : (a.free p off).1 = .ok ()
    · obtain ⟨b, hb, rfl⟩ := (f.free_done_iff hp off).1 hdone
      dsimp only
      rw [hdone, f.freePages_free hp hb]
      exact .freed hb
    · have hcase := Ledger.free_case p a off
      generalize a.free p off = answer at hcase hdone
      cases hcase with
      | run | chunk => exact absurd rfl hdone
      | _ => exact .kept

end Follows

end SharedSlab.Slab
