import SharedSlab.Proofs.Creation

set_option autoImplicit false

/-!
# Programs that mirror each other

Two views of one pool lay their parts out alike; they may differ in where their region is and in how
far it reaches. Where an operation through the one view returns, the same operation through a view
that reaches as far returns the same, on any memory that agrees with the first but, perhaps, for the
word of the lock: no operation reads that word, and none asks how long the region is but to stay
inside it.
-/

namespace SharedSlab

def Memory.AgreeFrom (k : Nat) (m n : Memory) : Prop := ∀ x, k ≤ x → m.word x = n.word x

theorem Memory.AgreeFrom.mono {k l : Nat} {m n : Memory} (h : m.AgreeFrom k n) (hkl : k ≤ l) :
    m.AgreeFrom l n := fun x hx => h x (hkl.trans hx)

theorem Memory.AgreeFrom.trans {k : Nat} {m n o : Memory} (h : m.AgreeFrom k n)
    (h' : n.AgreeFrom k o) : m.AgreeFrom k o := fun x hx => (h x hx).trans (h' x hx)

theorem Memory.AgreeFrom.setWord {k : Nat} {m n : Memory} (h : m.AgreeFrom k n) (i : Nat)
    (w : UInt64) : (m.setWord i w).AgreeFrom k (n.setWord i w) := by
  intro x hx
  rw [word_setWord, word_setWord, h x hx]

namespace PoolM

variable {α β : Type} {k : Nat} {x y : PoolM α} {f g : α → PoolM β}

theorem of_bind {s t : Arena} {b : β} (h : (x >>= f) s = .ok b t) :
    ∃ a s₁, x s = .ok a s₁ ∧ f a s₁ = .ok b t := by
  simp only [bind, EStateM.bind] at h
  split at h
  · next a s₁ hx => exact ⟨a, s₁, hx, h⟩
  · cases h

theorem of_liftM {e : Except Fault α} {s t : Arena} {a : α}
    (h : (liftM e : PoolM α) s = .ok a t) : e = .ok a ∧ s = t := by
  cases e with
  | error e => cases h
  | ok b =>
    cases h
    exact ⟨rfl, rfl⟩

/-- Where `x` returns, `y` returns the same on all memory that agrees from word `k` on, and what
they leave agrees as well. -/
def Mirrors (k : Nat) (x y : PoolM α) : Prop :=
  ∀ s t a s', s.memory.AgreeFrom k t.memory → x s = .ok a s' →
    ∃ t', y t = .ok a t' ∧ s'.memory.AgreeFrom k t'.memory

def Returns (Q : α → Prop) (x : PoolM α) : Prop := ∀ s a t, x s = .ok a t → Q a

namespace Mirrors

theorem pure (a : α) : Mirrors k (pure a) (pure a) := by
  rintro s t _ _ agree ⟨⟩
  exact ⟨t, rfl, agree⟩

theorem throw_bind (e : Fault) (f : α → PoolM β) (y : PoolM β) :
    Mirrors k ((throw e : PoolM α) >>= f) y := nofun

/-- What the first step is known to return may be used in the rest. -/
theorem bind_of {Q : α → Prop} (h : Mirrors k x y) (returns : Returns Q x)
    (hf : ∀ a, Q a → Mirrors k (f a) (g a)) : Mirrors k (x >>= f) (y >>= g) := by
  intro s t b s' agree run
  obtain ⟨a, s₁, run₁, run₂⟩ := of_bind run
  obtain ⟨t₁, mirrored₁, agree₁⟩ := h s t a s₁ agree run₁
  obtain ⟨t₂, mirrored₂, agree₂⟩ := hf a (returns s a s₁ run₁) s₁ t₁ b s' agree₁ run₂
  exact ⟨t₂, (bind_run mirrored₁).trans mirrored₂, agree₂⟩

theorem bind (h : Mirrors k x y) (hf : ∀ a, Mirrors k (f a) (g a)) :
    Mirrors k (x >>= f) (y >>= g) :=
  h.bind_of (Q := fun _ => True) (fun _ _ _ _ => trivial) fun a _ => hf a

theorem lift {e e' : Except Fault α} (h : ∀ a, e = .ok a → e' = .ok a) :
    Mirrors k (liftM e) (liftM e') := by
  intro s t a s' agree run
  obtain ⟨he, rfl⟩ := of_liftM run
  exact ⟨t, liftM_run (h a he) t, agree⟩

theorem bind_lift {e : Except Fault α} (hf : ∀ a, e = .ok a → Mirrors k (f a) (g a)) :
    Mirrors k (liftM e >>= f) (liftM e >>= g) :=
  (lift fun _ => id).bind_of (fun _ _ _ run => (of_liftM run).1) hf

theorem ite {c : Prop} [Decidable c] {x' y' : PoolM α} (h : c → Mirrors k x y)
    (h' : ¬c → Mirrors k x' y') : Mirrors k (if c then x else x') (if c then y else y') := by
  by_cases hc : c
  · rw [if_pos hc, if_pos hc]
    exact h hc
  · rw [if_neg hc, if_neg hc]
    exact h' hc

theorem when {c : Prop} [Decidable c] {x y : PoolM Unit} {f g : Unit → PoolM β}
    (h : Mirrors k x y) (hf : ∀ u, Mirrors k (f u) (g u)) :
    Mirrors k (if c then x >>= f else f ()) (if c then y >>= g else g ()) :=
  .ite (fun _ => h.bind hf) fun _ => hf ()

theorem word {i : Nat} (h : k ≤ i) : Mirrors k (word i) (word i) := by
  rintro s t _ _ agree ⟨⟩
  exact ⟨t, by rw [word_run, agree i h], agree⟩

theorem setWord (i : Nat) (w : UInt64) : Mirrors k (setWord i w) (setWord i w) := by
  rintro s t _ _ agree ⟨⟩
  exact ⟨_, rfl, agree.setWord i w⟩

theorem note (e e' : Event) : Mirrors k (note e) (note e') := by
  rintro s t _ _ agree ⟨⟩
  exact ⟨_, rfl, agree⟩

theorem forUp {f g : Nat → PoolM Unit} (h : ∀ i, Mirrors k (f i) (g i)) (first count : Nat) :
    Mirrors k (forUp first f count) (forUp first g count) := by
  induction count generalizing first with
  | zero => exact .pure ()
  | succ count ih => exact (h first).bind fun _ => ih (first + 1)

theorem allUp {f g : Nat → PoolM Bool} (h : ∀ i, Mirrors k (f i) (g i)) (first count : Nat) :
    Mirrors k (allUp first f count) (allUp first g count) := by
  induction count generalizing first with
  | zero => exact .pure true
  | succ count ih =>
    refine (h first).bind fun holds => ?_
    cases holds with
    | false => exact .pure false
    | true => exact ih (first + 1)

theorem mapM {f g : α → PoolM β} (h : ∀ a, Mirrors k (f a) (g a)) (l : List α) :
    Mirrors k (l.mapM f) (l.mapM g) := by
  induction l with
  | nil => exact .pure []
  | cons a l ih =>
    rw [List.mapM_cons, List.mapM_cons]
    exact (h a).bind fun b => ih.bind fun bs => .pure (b :: bs)

end Mirrors

namespace Returns

variable {Q : β → Prop}

theorem bind (h : ∀ a, Returns Q (f a)) : Returns Q (x >>= f) := by
  intro s b t run
  obtain ⟨a, s₁, _, run₂⟩ := of_bind run
  exact h a s₁ b t run₂

theorem pure {b : β} (h : Q b) : Returns Q (pure b) := by
  rintro s _ _ ⟨⟩
  exact h

theorem ite {c : Prop} [Decidable c] {x y : PoolM β} (h : c → Returns Q x)
    (h' : ¬c → Returns Q y) : Returns Q (if c then x else y) := by
  by_cases hc : c
  · rw [if_pos hc]
    exact h hc
  · rw [if_neg hc]
    exact h' hc

end Returns

end PoolM

namespace Slab

def Pool.inRegion (p : Pool) (r : Region) : Pool := { p with region := r }

theorem Pool.inRegion_config (p : Pool) (r : Region) : (p.inRegion r).config = p.config := rfl

/-- The pool lies inside its region, and `r` reaches as far; the words from `k` on are all but that
of the lock, or all. -/
structure Pool.Wider (p : Pool) (r : Region) (k : Nat) : Prop where
  placed : p.Placed
  len_le : p.region.len ≤ r.len
  low : k ≤ 1

open PoolM (Mirrors Returns)

namespace Pool.Wider

variable {p : Pool} {r : Region} {k : Nat} (v : p.Wider r k)
include v

theorem ne_zero_of_pageNode {idx node : Nat} (h : p.pageNode idx = .ok node) : node ≠ 0 := by
  obtain ⟨_, _, hadd⟩ := Checked.of_bind h
  have hpages := v.placed.pages
  simp only [headerSize] at hpages
  rw [Checked.eq_of_add hadd]
  omega

theorem ne_zero_of_pageIndex {idx node : Nat} (h : p.pageIndex node = .ok idx) : node ≠ 0 := by
  rintro rfl
  have hpages := v.placed.pages
  simp only [headerSize] at hpages
  rw [pageIndex, Checked.sub, if_neg (by omega)] at h
  cases h

theorem le_of_pageData {idx data : Nat} (h : p.pageData idx = .ok data) : 8 ≤ data := by
  obtain ⟨_, _, hadd⟩ := Checked.of_bind h
  have htable := v.placed.table_le
  simp only [nodeOffset, freeHead, start] at htable
  rw [Checked.eq_of_add hadd]
  omega

theorem cell (node : Nat) (f : Field) :
    Mirrors k (liftM (p.cell node f)) (liftM ((p.inRegion r).cell node f)) := by
  have hlen := v.len_le
  refine .lift fun i h => ?_
  unfold Pool.cell at h ⊢
  split at h
  · cases h
  · rw [if_neg (by simp only [inRegion]; omega)]
    exact h

theorem le_of_cell {node i : Nat} {f : Field} (h : p.cell node f = .ok i)
    (slab : f = .slab → node ≠ 0) : k ≤ i := by
  have hlow := v.low
  unfold Pool.cell at h
  split at h
  · cases h
  split at h
  · cases h
    cases f with
    | slab =>
      have hnode := slab rfl
      omega
    | prev | next =>
      simp only [Field.index]
      omega
  · cases h

theorem field (node : Nat) {f : Field} (slab : f = .slab → node ≠ 0) :
    Mirrors k (p.field node f) ((p.inRegion r).field node f) :=
  (v.cell node f).bind_of (fun _ _ _ run => (PoolM.of_liftM run).1) fun _ h =>
    .word (v.le_of_cell h slab)

theorem setField (node : Nat) (f : Field) (w : UInt64) :
    Mirrors k (p.setField node f w) ((p.inRegion r).setField node f w) :=
  (v.cell node f).bind fun i => .setWord i w

theorem slab {node : Nat} (h : node ≠ 0) : Mirrors k (p.slab node) ((p.inRegion r).slab node) :=
  v.field node fun _ => h

theorem setSlab (node : Nat) (w : UInt64) :
    Mirrors k (p.setSlab node w) ((p.inRegion r).setSlab node w) := v.setField node .slab w

theorem prevNode (node : Nat) : Mirrors k (p.prevNode node) ((p.inRegion r).prevNode node) :=
  (v.field (f := .prev) node nofun).bind fun w => .pure (prevLink w)

theorem kind (node : Nat) : Mirrors k (p.kind node) ((p.inRegion r).kind node) :=
  (v.field (f := .prev) node nofun).bind fun w => .pure (PageKind.ofTag w)

theorem setPrev (node link : Nat) (kind : PageKind) :
    Mirrors k (p.setPrev node link kind) ((p.inRegion r).setPrev node link kind) :=
  .bind_lift fun w _ => v.setField node .prev w

theorem next (node : Nat) : Mirrors k (p.next node) ((p.inRegion r).next node) :=
  (v.field (f := .next) node nofun).bind fun w => .pure w.toNat

theorem setNext (node link : Nat) :
    Mirrors k (p.setNext node link) ((p.inRegion r).setNext node link) :=
  v.setField node .next (UInt64.ofNat link)

theorem clear (node : Nat) : Mirrors k (p.clear node) ((p.inRegion r).clear node) :=
  (v.setField node .slab 0).bind fun _ =>
    (v.setField node .prev 0).bind fun _ => v.setField node .next 0

theorem freePages : Mirrors k freePages freePages :=
  (Mirrors.word (v.low.trans (by decide))).bind fun w => .pure w.toNat

omit v in
theorem setFreePages (n : Nat) : Mirrors k (setFreePages n) (setFreePages n) :=
  .setWord _ _

theorem bitmapCell (data i : Nat) :
    Mirrors k (liftM (p.bitmapCell data i)) (liftM ((p.inRegion r).bitmapCell data i)) := by
  have hlen := v.len_le
  refine .lift fun x h => ?_
  obtain ⟨step, hmul, h⟩ := Checked.of_bind h
  obtain ⟨off, hadd, h⟩ := Checked.of_bind h
  simp only [Pool.bitmapCell, hmul, hadd, bind, Except.bind]
  by_cases hout : p.region.len < off
  · rw [if_pos hout] at h
    cases h
  · rw [if_neg hout] at h
    rw [if_neg (by simp only [inRegion]; omega)]
    exact h

theorem le_of_bitmapCell {data i x : Nat} (h : p.bitmapCell data i = .ok x) (hdata : 8 ≤ data) :
    k ≤ x := by
  have hlow := v.low
  obtain ⟨step, _, h⟩ := Checked.of_bind h
  obtain ⟨off, hadd, h⟩ := Checked.of_bind h
  have hoff := Checked.eq_of_add hadd
  by_cases hout : p.region.len < off
  · rw [if_pos hout] at h
    cases h
  rw [if_neg hout] at h
  dsimp only at h
  split at h
  · cases h
    omega
  · cases h

theorem bitmapWord {data : Nat} (hdata : 8 ≤ data) (i : Nat) :
    Mirrors k (p.bitmapWord data i) ((p.inRegion r).bitmapWord data i) :=
  (v.bitmapCell data i).bind_of (fun _ _ _ run => (PoolM.of_liftM run).1) fun _ h =>
    .word (v.le_of_bitmapCell h hdata)

theorem setBitmapWord (data i : Nat) (w : UInt64) :
    Mirrors k (p.setBitmapWord data i w) ((p.inRegion r).setBitmapWord data i w) :=
  (v.bitmapCell data i).bind fun x => .setWord x w

theorem ringIsEmpty (head : Nat) :
    Mirrors k (p.ringIsEmpty head) ((p.inRegion r).ringIsEmpty head) :=
  (v.next head).bind fun node => .pure (node == head)

theorem relink (node link : Nat) :
    Mirrors k (p.relink node link) ((p.inRegion r).relink node link) :=
  (v.kind node).bind fun kind => v.setPrev node link kind

theorem pushFront (head node : Nat) (kind : PageKind) :
    Mirrors k (p.pushFront head node kind) ((p.inRegion r).pushFront head node kind) :=
  (v.next head).bind fun first => (v.setNext node first).bind fun _ =>
    (v.setPrev node head kind).bind fun _ => (v.relink first node).bind fun _ =>
      v.setNext head node

theorem unlink (node : Nat) : Mirrors k (p.unlink node) ((p.inRegion r).unlink node) :=
  (v.prevNode node).bind fun before => (v.next node).bind fun after =>
    (v.setNext before after).bind fun _ => v.relink after before

theorem replace (old new : Nat) (kind : PageKind) :
    Mirrors k (p.replace old new kind) ((p.inRegion r).replace old new kind) :=
  (v.prevNode old).bind fun before => (v.next old).bind fun after =>
    (v.setNext new after).bind fun _ => (v.setPrev new before kind).bind fun _ =>
      (v.setNext before new).bind fun _ => v.relink after new

theorem retire (node : Nat) (kind : PageKind) :
    Mirrors k (p.retire node kind) ((p.inRegion r).retire node kind) :=
  (v.unlink node).bind fun _ => (v.setNext node 0).bind fun _ => v.setPrev node 0 kind

theorem foldFrom {β : Type} {head : Nat} {f g : β → Nat → PoolM β}
    (visit : ∀ acc node, node ≠ 0 → Mirrors k (f acc node) (g acc node)) (budget node : Nat)
    (acc : β) :
    Mirrors k (p.foldFrom head f budget node acc)
      ((p.inRegion r).foldFrom head g budget node acc) := by
  induction budget generalizing node acc with
  | zero =>
    unfold Pool.foldFrom
    exact .ite (fun _ => .pure acc) fun _ => (Mirrors.note _ _).bind fun _ => .pure acc
  | succ budget ih =>
    unfold Pool.foldFrom
    exact .ite (fun _ => .pure acc) fun hnode => (v.next node).bind fun after =>
      (visit acc node fun hzero => hnode (.inr hzero)).bind fun acc => ih after acc

theorem foldRing {β : Type} {f g : β → Nat → PoolM β}
    (visit : ∀ acc node, node ≠ 0 → Mirrors k (f acc node) (g acc node)) (head : Nat) (acc : β) :
    Mirrors k (p.foldRing head f acc) ((p.inRegion r).foldRing head g acc) :=
  (v.next head).bind fun node => v.foldFrom visit p.pageCount node acc

theorem findFrom {head : Nat} {f g : Nat → PoolM Bool}
    (test : ∀ node, node ≠ 0 → Mirrors k (f node) (g node)) (budget node : Nat) :
    Mirrors k (p.findFrom head f budget node) ((p.inRegion r).findFrom head g budget node) := by
  induction budget generalizing node with
  | zero =>
    unfold Pool.findFrom
    exact .ite (fun _ => .pure none) fun _ => (Mirrors.note _ _).bind fun _ => .pure none
  | succ budget ih =>
    unfold Pool.findFrom
    refine .ite (fun _ => .pure none) fun hnode => (v.next node).bind fun after =>
      (test node fun hzero => hnode (.inr hzero)).bind fun found => ?_
    cases found with
    | false => exact ih after
    | true => exact .pure (some node)

theorem findRing {f g : Nat → PoolM Bool} (test : ∀ node, node ≠ 0 → Mirrors k (f node) (g node))
    (head : Nat) : Mirrors k (p.findRing head f) ((p.inRegion r).findRing head g) :=
  (v.next head).bind fun node => v.findFrom test p.pageCount node

theorem findRun (n : Nat) : Mirrors k (p.findRun n) ((p.inRegion r).findRun n) :=
  v.findRing (fun _ hnode => (v.slab hnode).bind fun _ => .pure _) freeHead

theorem cutRun (run idx len n : Nat) :
    Mirrors k (p.cutRun run idx len n) ((p.inRegion r).cutRun run idx len n) := by
  unfold Pool.cutRun
  refine .ite (fun _ => ?_) fun _ => v.unlink run
  refine .bind_lift fun after _ => .bind_lift fun rest _ => (v.setSlab rest _).bind fun _ =>
    (v.replace run rest .page).bind fun _ => .ite (fun _ => ?_) fun _ => .pure ()
  exact .bind_lift fun finish _ => .bind_lift fun idx _ => .bind_lift fun last _ =>
    v.setPrev last rest .page

theorem occupy (node : Nat) (slab : UInt64) :
    Mirrors k (p.occupy node slab) ((p.inRegion r).occupy node slab) :=
  (v.setSlab node slab).bind fun _ => (v.setNext node 0).bind fun _ => v.setPrev node 0 .page

theorem takePages (n : Nat) : Mirrors k (p.takePages n) ((p.inRegion r).takePages n) := by
  unfold Pool.takePages
  refine .ite (fun _ => .throw_bind _ _ _) fun _ => ?_
  refine (v.findRun n).bind fun found => ?_
  cases found with
  | none => exact v.freePages.bind fun free => (Mirrors.note _ _).bind fun _ => .pure none
  | some run =>
    refine .bind_lift fun idx hidx => (v.slab (v.ne_zero_of_pageIndex hidx)).bind fun len =>
      (v.cutRun run idx len.toNat n).bind fun _ => (v.occupy run _).bind fun _ => ?_
    refine (Mirrors.forUp (fun i => ?_) 1 (n - 1)).bind fun _ => ?_
    · exact .bind_lift fun _ _ => .bind_lift fun node _ => v.occupy node runInterior
    · exact v.freePages.bind fun free => .bind_lift fun left _ => (setFreePages left).bind fun _ =>
        .pure (some idx)

theorem isFreeRun (node : Nat) : Mirrors k (p.isFreeRun node) ((p.inRegion r).isFreeRun node) :=
  (v.kind node).bind fun _ => .ite (fun _ => (v.next node).bind fun _ => .pure _)
    fun _ => .pure false

theorem insertRun (first len : Nat) :
    Mirrors k (p.insertRun first len) ((p.inRegion r).insertRun first len) := by
  unfold Pool.insertRun
  refine .bind_lift fun head _ => (v.setSlab head _).bind fun _ =>
    (v.pushFront freeHead head .page).bind fun _ => .ite (fun _ => ?_) fun _ => .pure ()
  exact .bind_lift fun finish _ => .bind_lift fun idx _ => .bind_lift fun last _ =>
    (v.setSlab last 0).bind fun _ => (v.setNext last 0).bind fun _ => v.setPrev last head .page

theorem joinRight (right len : Nat) :
    Mirrors k (p.joinRight right len) ((p.inRegion r).joinRight right len) := by
  unfold Pool.joinRight
  refine .ite (fun _ => .pure len) fun _ => .bind_lift fun node hnode =>
    (v.isFreeRun node).bind fun joins => ?_
  cases joins with
  | false => exact .pure len
  | true =>
    exact (v.slab (v.ne_zero_of_pageNode hnode)).bind fun more => .bind_lift fun total _ =>
      (v.unlink node).bind fun _ => (v.clear node).bind fun _ => .pure total

theorem runEndingAt (idx : Nat) :
    Mirrors k (p.runEndingAt idx) ((p.inRegion r).runEndingAt idx) := by
  unfold Pool.runEndingAt
  refine .bind_lift fun last hlast => (v.kind last).bind fun _ => .ite (fun _ => ?_) fun _ =>
    .pure none
  have join : ∀ node, Mirrors k
      (if node = 0 then pure none else do
        if ← p.isFreeRun node then pure (some node) else pure none)
      (if node = 0 then pure none else do
        if ← (p.inRegion r).isFreeRun node then pure (some node) else pure none) := fun node =>
    .ite (fun _ => .pure none) fun _ => (v.isFreeRun node).bind fun _ =>
      .ite (fun _ => .pure (some node)) fun _ => .pure none
  exact (v.slab (v.ne_zero_of_pageNode hlast)).bind fun _ =>
    .ite (fun _ => (v.prevNode last).bind join) fun _ => (Mirrors.pure last).bind join

omit v in
theorem runEndingAt_ne_zero (idx : Nat) :
    Returns (fun found => ∀ node, found = some node → node ≠ 0) (p.runEndingAt idx) := by
  unfold Pool.runEndingAt
  have join : ∀ node, Returns (fun found => ∀ node, found = some node → node ≠ 0)
      (if node = 0 then pure none else do
        if ← p.isFreeRun node then pure (some node) else pure none) := fun node =>
    .ite (fun _ => .pure nofun) fun hnode => .bind fun _ => .ite
      (fun _ => .pure fun _ heq => Option.some.inj heq ▸ hnode) fun _ => .pure nofun
  exact .bind fun last => .bind fun _ => .ite (fun _ => .bind fun _ => .ite
    (fun _ => .bind join) fun _ => .bind join) fun _ => .pure nofun

theorem givePages (idx n : Nat) :
    Mirrors k (p.givePages idx n) ((p.inRegion r).givePages idx n) := by
  unfold Pool.givePages
  have count : ∀ _ : Unit, Mirrors k
      (do Pool.setFreePages (← Checked.add (← Pool.freePages) n))
      (do Pool.setFreePages (← Checked.add (← Pool.freePages) n)) := fun _ =>
    v.freePages.bind fun _ => .bind_lift fun free _ => setFreePages free
  refine .bind_lift fun page _ => (v.next page).bind fun _ => .when (v.unlink page) fun _ =>
    (v.clear page).bind fun _ => (Mirrors.forUp (fun i => ?_) 1 (n - 1)).bind fun _ => ?_
  · exact .bind_lift fun _ _ => .bind_lift fun node _ => v.clear node
  refine .bind_lift fun right _ => (v.joinRight right n).bind fun len => ?_
  have before : Mirrors k (if 0 < idx then p.runEndingAt (idx - 1) else pure none)
      (if 0 < idx then (p.inRegion r).runEndingAt (idx - 1) else pure none) :=
    .ite (fun _ => v.runEndingAt (idx - 1)) fun _ => .pure none
  refine before.bind_of (.ite (fun _ => runEndingAt_ne_zero (idx - 1)) fun _ => .pure nofun)
    fun found hfound => ?_
  cases found with
  | none => exact (v.insertRun idx len).bind count
  | some node =>
    exact (v.slab (hfound node rfl)).bind fun _ => .bind_lift fun total _ =>
      (v.unlink node).bind fun _ => .bind_lift fun first _ =>
        (v.insertRun first total).bind count

end Pool.Wider

end Slab

end SharedSlab
