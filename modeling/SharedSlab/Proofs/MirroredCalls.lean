import SharedSlab.Proofs.History
import SharedSlab.Proofs.Mirroring
import SharedSlab.Slab.Snapshot

set_option autoImplicit false

namespace SharedSlab.Slab

open PoolM (Mirrors)

namespace Pool.Wider

variable {p : Pool} {r : Region} {k : Nat} (v : p.Wider r k)
include v

theorem takeSmallFrom (page : Nat) {data : Nat} (hdata : 8 ≤ data) (shift i count : Nat) :
    Mirrors k (p.takeSmallFrom page data shift i count)
      ((p.inRegion r).takeSmallFrom page data shift i count) := by
  induction count generalizing i with
  | zero => exact .pure none
  | succ count ih =>
    unfold Pool.takeSmallFrom
    refine (v.bitmapWord hdata i).bind fun w => ?_
    cases Bits.lowestSet? (~~~w) with
    | none => exact ih (i + 1)
    | some bit =>
      refine (v.setBitmapWord data i _).bind fun _ =>
        (Mirrors.allUp (fun j => ?_) i (count + 1)).bind fun _ =>
          .when (v.retire page .small) fun _ => ?_
      · exact (v.bitmapWord hdata j).bind fun _ => .pure _
      · exact .bind_lift fun _ _ => .bind_lift fun off _ => .pure (some off)

theorem takeSmall (page idx shift : Nat) :
    Mirrors k (p.takeSmall page idx shift) ((p.inRegion r).takeSmall page idx shift) := by
  unfold Pool.takeSmall
  exact .bind_lift fun data hdata => .bind_lift fun words _ =>
    v.takeSmallFrom page (v.le_of_pageData hdata) shift 0 words

theorem takeExact {page : Nat} (hpage : page ≠ 0) (idx shift : Nat) :
    Mirrors k (p.takeExact page idx shift) ((p.inRegion r).takeExact page idx shift) := by
  unfold Pool.takeExact
  refine (v.slab hpage).bind fun w => ?_
  cases Bits.lowestSet? (~~~w) with
  | none => exact .pure none
  | some bit =>
    exact (v.setSlab page _).bind fun _ => .when (v.retire page .exact) fun _ =>
      .bind_lift fun _ _ => .bind_lift fun _ _ => .bind_lift fun off _ => .pure (some off)

theorem takeBig {page : Nat} (hpage : page ≠ 0) (idx shift : Nat) :
    Mirrors k (p.takeBig page idx shift) ((p.inRegion r).takeBig page idx shift) := by
  unfold Pool.takeBig
  refine (v.slab hpage).bind fun w => ?_
  rw [inRegion_config]
  cases Bits.lowestSet? (~~~w &&& bigMask p.config shift) with
  | none => exact .pure none
  | some bit =>
    exact (v.setSlab page _).bind fun _ => .when (v.retire page .big) fun _ =>
      .bind_lift fun _ _ => .bind_lift fun _ _ => .bind_lift fun off _ => .pure (some off)

theorem takeChunk (page shift : Nat) :
    Mirrors k (p.takeChunk page shift) ((p.inRegion r).takeChunk page shift) := by
  unfold Pool.takeChunk
  refine .bind_lift fun idx hidx => ?_
  have hpage := v.ne_zero_of_pageIndex hidx
  rw [inRegion_config]
  generalize p.config.kindFor shift = kind
  have told : ∀ chunk : Option Nat, Mirrors k
      (do
        if chunk.isNone then
          PoolM.note (.pageFull kind idx (1 <<< shift))
          p.retire page kind
        return chunk)
      (do
        if chunk.isNone then
          PoolM.note (.pageFull kind idx (1 <<< shift))
          (p.inRegion r).retire page kind
        return chunk) := fun chunk =>
    .ite (fun _ => (Mirrors.note _ _).bind fun _ => (v.retire page kind).bind fun _ => .pure chunk)
      fun _ => .pure chunk
  cases kind with
  | small => exact (v.takeSmall page idx shift).bind told
  | exact => exact (v.takeExact hpage idx shift).bind told
  | page | big => exact (v.takeBig hpage idx shift).bind told

theorem startPage (slot shift : Nat) :
    Mirrors k (p.startPage slot shift) ((p.inRegion r).startPage slot shift) := by
  unfold Pool.startPage
  refine (v.takePages 1).bind fun taken => ?_
  cases taken with
  | none => exact .pure none
  | some idx =>
    refine .bind_lift fun page _ => .bind_lift fun data _ => ?_
    rw [inRegion_config]
    cases p.config.kindFor shift with
    | small =>
      refine .bind_lift fun reserved _ => .bind_lift fun words _ => ?_
      refine (Mirrors.forUp (fun i => ?_) 0 words).bind fun _ => ?_
      · exact .bind_lift fun w _ => v.setBitmapWord data i w
      · exact (v.setSlab page _).bind fun _ => (v.pushFront slot page .small).bind fun _ =>
          .bind_lift fun _ _ => .bind_lift fun off _ => .pure (some off)
    | exact =>
      exact (v.setSlab page 1).bind fun _ => (v.pushFront slot page .exact).bind fun _ =>
        .pure (some data)
    | page | big =>
      exact (v.setSlab page _).bind fun _ => (v.pushFront slot page .big).bind fun _ =>
        .pure (some data)

theorem alloc (size : Nat) : Mirrors k (p.alloc size) ((p.inRegion r).alloc size) := by
  unfold Pool.alloc
  refine .ite (fun _ => .throw_bind _ _ _) fun _ => .ite (fun _ => ?_) fun _ => ?_
  · refine (v.takePages _).bind fun taken => ?_
    cases taken with
    | none => exact .pure none
    | some idx => exact .bind_lift fun data _ => .pure (some data)
  · refine .bind_lift fun slot _ => (v.ringIsEmpty slot).bind fun empty => ?_
    refine .ite (fun _ => v.startPage slot _) fun _ => (v.next slot).bind fun page => ?_
    refine (v.takeChunk page _).bind fun taken => ?_
    cases taken with
    | none => exact v.startPage slot _
    | some off => exact .pure (some off)

theorem relist (page shift : Nat) (kind : PageKind) :
    Mirrors k (p.relist page shift kind) ((p.inRegion r).relist page shift kind) := by
  unfold Pool.relist
  exact (v.next page).bind fun _ => .ite
    (fun _ => .bind_lift fun slot _ => v.pushFront slot page kind) fun _ => .pure ()

theorem freeSmall {page : Nat} (hpage : page ≠ 0) (idx within : Nat) :
    Mirrors k (p.freeSmall page idx within) ((p.inRegion r).freeSmall page idx within) := by
  unfold Pool.freeSmall
  refine (v.slab hpage).bind fun w => .ite (fun _ => .pure _) fun _ => ?_
  refine .bind_lift fun reserved _ => .ite (fun _ => .pure _) fun _ => ?_
  refine .bind_lift fun data hdata => ?_
  have hdata := v.le_of_pageData hdata
  refine (v.bitmapWord hdata _).bind fun bits => .ite (fun _ => .pure _) fun _ => ?_
  refine (v.setBitmapWord data _ _).bind fun _ => (v.relist page _ .small).bind fun _ => ?_
  refine .bind_lift fun words _ => (Mirrors.allUp (fun i => ?_) 0 words).bind fun _ => ?_
  · exact (v.bitmapWord hdata i).bind fun _ => .bind_lift fun _ _ => .pure _
  · exact .when (v.givePages idx 1) fun _ => .pure _

theorem freeExact {page : Nat} (hpage : page ≠ 0) (idx within : Nat) :
    Mirrors k (p.freeExact page idx within) ((p.inRegion r).freeExact page idx within) := by
  unfold Pool.freeExact
  refine .ite (fun _ => .pure _) fun _ => (v.slab hpage).bind fun w =>
    .ite (fun _ => .pure _) fun _ => (v.setSlab page _).bind fun _ =>
      (v.relist page _ .exact).bind fun _ => ?_
  exact .when (v.givePages idx 1) fun _ => .pure _

theorem freeBig {page : Nat} (hpage : page ≠ 0) (idx within : Nat) :
    Mirrors k (p.freeBig page idx within) ((p.inRegion r).freeBig page idx within) := by
  unfold Pool.freeBig
  refine (v.slab hpage).bind fun w => .ite (fun _ => .pure _) fun _ =>
    .ite (fun _ => .throw_bind _ _ _) fun _ => .ite (fun _ => .pure _) fun _ =>
      (v.setSlab page _).bind fun _ => (v.relist page _ .big).bind fun _ => ?_
  exact .when (v.givePages idx 1) fun _ => .pure _

theorem freeRun {page : Nat} (hpage : page ≠ 0) (idx within : Nat) :
    Mirrors k (p.freeRun page idx within) ((p.inRegion r).freeRun page idx within) := by
  unfold Pool.freeRun
  exact (v.slab hpage).bind fun w => .ite (fun _ => .pure _) fun _ =>
    .ite (fun _ => .pure _) fun _ => .ite (fun _ => .pure _) fun _ =>
      (v.givePages idx _).bind fun _ => .pure _

omit v in
theorem report (off : Nat) (kind : PageKind) (idx : Nat) {x y : PoolM (Except PoolError Unit)}
    (h : Mirrors k x y) :
    Mirrors k
      (do
        let answer ← x
        if let .error cause := answer then PoolM.note (.freeRejected off kind idx cause)
        return answer)
      (do
        let answer ← y
        if let .error cause := answer then PoolM.note (.freeRejected off kind idx cause)
        return answer) := by
  refine h.bind fun answer => ?_
  cases answer with
  | ok _ => exact .pure _
  | error cause => exact (Mirrors.note _ _).bind fun _ => .pure _

theorem free (off : Nat) : Mirrors k (p.free off) ((p.inRegion r).free off) := by
  unfold Pool.free
  refine .ite (fun _ => (Mirrors.note _ _).bind fun _ => .pure _) fun _ => ?_
  refine .bind_lift fun page hpage => (v.kind page).bind fun kind => ?_
  have hpage := v.ne_zero_of_pageNode hpage
  cases kind with
  | small => exact report _ _ _ (v.freeSmall hpage _ _)
  | exact => exact report _ _ _ (v.freeExact hpage _ _)
  | big => exact report _ _ _ (v.freeBig hpage _ _)
  | page => exact report _ _ _ (v.freeRun hpage _ _)

theorem call (c : Call) : Mirrors k (p.call c) ((p.inRegion r).call c) := by
  cases c with
  | alloc size pos => exact (v.alloc size).bind fun _ => .pure _
  | free off => exact (v.free off).bind fun _ => .pure _

omit v in
theorem free_of_outside {off : Nat} (h : off < p.start ∨ p.finish ≤ off) :
    p.free off = do
      PoolM.note (.offsetOutside off p.start p.finish)
      return .error .invalidAddress :=
  if_pos h

theorem allocAddress (base : r.base = p.region.base) (size : Nat) :
    Mirrors k (p.allocAddress size) ((p.inRegion r).allocAddress size) := by
  have hlen := v.len_le
  unfold Pool.allocAddress
  refine (v.alloc size).bind fun taken => ?_
  cases taken with
  | none => exact .pure none
  | some off =>
    refine (Mirrors.lift fun address h => ?_).bind fun address => .pure (some address)
    unfold Region.addressOf at h ⊢
    split at h
    · rw [if_pos (by simp only [inRegion]; omega)]
      simpa only [inRegion, base] using h
    · cases h

theorem freeAddress (base : r.base = p.region.base) (address : Nat) :
    Mirrors k (p.freeAddress address) ((p.inRegion r).freeAddress address) := by
  have hlen := v.len_le
  unfold Pool.freeAddress
  cases h : p.region.offsetOf? address with
  | some off =>
    obtain ⟨rfl, hoff⟩ := Region.offsetOf?_eq_some_iff.1 h
    have seen : (p.inRegion r).region.offsetOf? (p.region.base + off) = some off :=
      Region.offsetOf?_eq_some_iff.2 ⟨by rw [inRegion, base], hoff.trans_le hlen⟩
    rw [seen]
    exact v.free off
  | none =>
    cases h' : (p.inRegion r).region.offsetOf? address with
    | none => exact (Mirrors.note _ _).bind fun _ => .pure _
    | some off =>
      obtain ⟨rfl, _⟩ := Region.offsetOf?_eq_some_iff.1 h'
      have past : ¬off < p.region.len := fun hoff => by
        rw [inRegion, base, Region.offsetOf?_base_add hoff] at h
        cases h
      have hfinish := v.placed.finish_le
      have refused : off < (p.inRegion r).start ∨ (p.inRegion r).finish ≤ off := .inr (by
        simp only [inRegion]
        omega)
      change Mirrors k _ ((p.inRegion r).free off)
      rw [free_of_outside refused]
      exact (Mirrors.note _ _).bind fun _ => .pure _

theorem freeRuns : Mirrors k p.freeRuns (p.inRegion r).freeRuns := by
  unfold Pool.freeRuns
  refine (v.foldRing (fun runs node hnode => ?_) freeHead []).bind fun runs => .pure _
  exact .bind_lift fun idx _ => (v.slab hnode).bind fun w => .pure _

theorem slotPages (slot : Nat) : Mirrors k (p.slotPages slot) ((p.inRegion r).slotPages slot) := by
  unfold Pool.slotPages
  exact .bind_lift fun head _ => v.foldRing (fun n _ _ => .pure (n + 1)) head 0

theorem snapshot : Mirrors k p.snapshot (p.inRegion r).snapshot := by
  unfold Pool.snapshot
  exact v.freeRuns.bind fun runs => (Mirrors.mapM v.slotPages _).bind fun slots =>
    v.freePages.bind fun free => .pure _

end Pool.Wider

end SharedSlab.Slab
