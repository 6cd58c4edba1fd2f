import SharedSlab.Proofs.PageCosts
import SharedSlab.Proofs.UserWrites

set_option autoImplicit false

namespace SharedSlab.Slab

def Config.InClass (c : Config) (shift size : Nat) : Prop :=
  size ≤ c.maxSize ∧ c.shiftFor size = shift

instance (c : Config) (shift size : Nat) : Decidable (c.InClass shift size) :=
  inferInstanceAs (Decidable (_ ∧ _))

/-- The chunks that a page of a class can give out. -/
def Config.servable (c : Config) (shift : Nat) : Nat := (c.pageSize >>> shift) - c.reserved shift

/-- The first `n` of a list have one image, the next `n` have another one, and so on. -/
def Grouped (page : Nat → Nat) (n : Nat) (l : List Nat) : Prop :=
  ∀ j k x y, l[j]? = some x → l[k]? = some y → (page x = page y ↔ j / n = k / n)

namespace Pool

def granted (p : Pool) (shift : Nat) : Move → List Reply → List Nat
  | .call (.alloc size _), [.answer (.offset (some off))] =>
    if p.config.InClass shift size then [off] else []
  | _, _ => []

def Frees (p : Pool) (shift : Nat) (live : List Block) : Move → Prop
  | .call (.free off) => ∃ b ∈ live, b.off = off ∧ p.config.InClass shift b.size
  | _ => False

/-- Moves that free no chunk of a class, and the chunks of the class that they were given, in
order. -/
inductive Filling (p : Pool) (shift : Nat) (live : List Block) (s : Arena) :
    List Nat → List Block → Arena → Prop
  | start : Filling p shift live s [] live s
  | move {chunks : List Nat} {live' live'' : List Block} {t u : Arena} {reply : List Reply}
      (before : Filling p shift live s chunks live' t) (v : Move)
      (spared : ¬p.Frees shift live' v) (run : p.move live' v t = .ok (reply, live'') u) :
      Filling p shift live s (chunks ++ p.granted shift v reply) live'' u

/-- The chunks that a class was given are all live, and go page by page. The next one costs a page
if the last page is full, and otherwise there is a next one, for nothing. -/
structure Filled (p : Pool) (shift : Nat) (chunks : List Nat) (live : List Block) (s : Arena) :
    Prop where
  live : ∀ off ∈ chunks, ∃ b ∈ live, b.off = off ∧ p.config.InClass shift b.size
  pages : Grouped p.pageOf (p.config.servable shift) chunks
  next : ∀ size pos, p.config.InClass shift size → ∃ found t before after,
    p.call (.alloc size pos) s = .ok (.offset found) t ∧
    freePages s = .ok before s ∧ freePages t = .ok after t ∧
    if p.config.servable shift ∣ chunks.length then found ≠ none → after + 1 = before
    else found ≠ none ∧ after = before

end Pool

variable {p : Pool} {a a' : Ledger} {live live' : List Block} {m : Memory} {s s' : Arena}
  {i k n off size shift : Nat} {chunks : List Nat} {taken : Finset Nat} {c : Config}

theorem Grouped.concat {page : Nat → Nat} {l : List Nat} {y : Nat} (h : Grouped page n l)
    (new : ∀ j x, l[j]? = some x → (page x = page y ↔ j / n = l.length / n)) :
    Grouped page n (l ++ [y]) := by
  have hcases : ∀ j x, (l ++ [y])[j]? = some x → l[j]? = some x ∨ (j = l.length ∧ x = y) := by
    intro j x hj
    rw [List.getElem?_append] at hj
    split at hj
    · exact .inl hj
    · next hge =>
      obtain ⟨hlt, heq⟩ := List.getElem?_eq_some_iff.1 hj
      rw [List.length_singleton] at hlt
      rw [List.getElem_singleton] at heq
      exact .inr ⟨by omega, heq.symm⟩
  intro j k x z hj hk
  rcases hcases j x hj with old | ⟨rfl, rfl⟩
  · rcases hcases k z hk with old' | ⟨rfl, rfl⟩
    · exact h j k x z old old'
    · exact new j x old
  · rcases hcases k z hk with old' | ⟨rfl, rfl⟩
    · exact eq_comm.trans ((new k z old').trans eq_comm)
    · exact iff_of_true rfl rfl

theorem mod_succ_of_dvd (hn : 2 ≤ n) (h : n ∣ k) : (k + 1) % n = 1 := by
  obtain ⟨q, rfl⟩ := h
  rw [Nat.mul_add_mod, Nat.mod_eq_of_lt hn]

theorem mod_succ_of_not_dvd (h : ¬n ∣ k + 1) : (k + 1) % n = k % n + 1 := by
  have hquot := Nat.succ_div_of_not_dvd h
  have hsplit := Nat.div_add_mod k n
  have hsplit' := Nat.div_add_mod (k + 1) n
  rw [hquot] at hsplit'
  omega

theorem mod_succ_of_dvd_succ (h : n ∣ k + 1) : k % n + 1 = n := by
  have hquot := Nat.succ_div_of_dvd h
  have hsplit := Nat.div_add_mod k n
  have hsplit' := Nat.div_mul_cancel h
  rw [hquot, Nat.succ_mul, Nat.mul_comm] at hsplit'
  omega

theorem Config.reserved_add_servable (h : c.IsClass shift) :
    c.reserved shift + c.servable shift = c.chunkCount shift := by
  have hroom := reserved_add_two_le h
  rw [servable, chunkCount_eq_shiftRight h]
  omega

theorem Config.two_le_servable (h : c.IsClass shift) : 2 ≤ c.servable shift := by
  have hroom := reserved_add_two_le h
  have hsum := reserved_add_servable h
  omega

namespace Ledger

def KeepsClass (shift : Nat) (a a' : Ledger) : Prop :=
  ∀ j taken, a'.use j = .chunks shift taken ↔ a.use j = .chunks shift taken

namespace KeepsClass

theorem refl (shift : Nat) (a : Ledger) : KeepsClass shift a a := fun _ _ => Iff.rfl

theorem of_page (others : ∀ j, j ≠ i → a'.use j = a.use j)
    (before : ∀ taken, a.use i ≠ .chunks shift taken)
    (after : ∀ taken, a'.use i ≠ .chunks shift taken) : KeepsClass shift a a' := by
  intro j taken
  by_cases hji : j = i
  · subst hji
    exact iff_of_false (after taken) (before taken)
  · rw [others j hji]

theorem setTaken {t : Nat} {listed : Nat → List Nat} (hne : t ≠ shift)
    (before : ∀ taken, a.use i ≠ .chunks shift taken) :
    KeepsClass shift a { a.setTaken i t taken with listed := listed } := by
  refine of_page (fun j hj => setTaken_of_ne hj) before fun taken' heq => ?_
  cases (setTaken_self a i t taken).symm.trans heq
  exact hne rfl

theorem trans {a₁ a₂ : Ledger} (h : KeepsClass shift a a₁) (h' : KeepsClass shift a₁ a₂) :
    KeepsClass shift a a₂ := fun j taken => (h' j taken).trans (h j taken)

theorem take {pageCount : Nat} (co : a.Coherent c pageCount) (hn : 0 < n)
    (h : a.take n = some (i, a')) : KeepsClass shift a a' := by
  intro j taken
  rw [take_use h]
  by_cases hin : i ≤ j ∧ j < i + n
  · rw [co.take_free h hin.1 hin.2]
    refine iff_of_false (fun heq => ?_) (by rintro ⟨⟩)
    exact (holdRun_eq_other hn heq (by simp) (by simp)).2 hin
  · rw [holdRun_outside hn hin]

theorem give (h : ∀ j, i ≤ j → j < i + n → ∀ taken, a.use j ≠ .chunks shift taken) :
    KeepsClass shift a (a.give i n) := by
  intro j taken
  by_cases hin : i ≤ j ∧ j < i + n
  · rw [Ledger.give, release_inside hin.1 hin.2]
    exact iff_of_false (by rintro ⟨⟩) (h j hin.1 hin.2 taken)
  · rw [Ledger.give, release_outside hin]

theorem alloc (st : a.Steady p.config p.pageCount) (pos : 0 < size)
    (other : ¬p.config.InClass shift size) : KeepsClass shift a (a.alloc p size).2 := by
  have hcase := st.alloc_case size
  generalize a.alloc p size = answer at hcase
  have hne : size ≤ p.config.maxSize → p.config.shiftFor size ≠ shift :=
    fun small heq => other ⟨small, heq⟩
  cases hcase with
  | noRun | noPage => exact refl shift a
  | run large take => exact .take st.toCoherent (p.config.page.pagesFor_pos pos) take
  | freshPage small closed take =>
    refine (KeepsClass.take st.toCoherent Nat.one_pos take).trans (.setTaken (hne small) ?_)
    rw [take_use take, holdRun_start]
    rintro _ ⟨⟩
  | openPage small mem use =>
    refine .setTaken (hne small) fun taken' heq => ?_
    cases use.symm.trans heq
    exact hne small rfl

theorem clearChunk {t : Nat} (hne : t ≠ shift) (use : a.use i = .chunks t taken) :
    KeepsClass shift a (a.clearChunk p i t k) := by
  have hother : ∀ taken', a.use i ≠ .chunks shift taken' := by
    intro taken' heq
    cases use.symm.trans heq
    exact hne rfl
  rw [clearChunk_eq a use]
  split
  · refine (KeepsClass.setTaken hne hother).trans (.give fun j low high taken' heq => ?_)
    obtain rfl : j = i := by omega
    cases (setTaken_self a j t _).symm.trans heq
    exact hne rfl
  · exact .setTaken hne hother

end KeepsClass

def Full (p : Pool) (a : Ledger) (shift i : Nat) : Prop :=
  ∀ taken, a.use i = .chunks shift taken → taken = Finset.range (p.config.chunkCount shift)

/-- All pages of a class are full but the one that the last chunk is in, which has as many chunks
taken as were given out of it. -/
structure Fills (p : Pool) (shift : Nat) (chunks : List Nat) (a : Ledger) : Prop where
  pages : Grouped p.pageOf (p.config.servable shift) chunks
  closed : p.config.servable shift ∣ chunks.length → ∀ i < p.pageCount, a.Full p shift i
  opened : ¬p.config.servable shift ∣ chunks.length → ∃ off taken,
    chunks.getLast? = some off ∧ p.pageOf off < p.pageCount ∧
    a.use (p.pageOf off) = .chunks shift taken ∧
    taken.card = p.config.reserved shift + chunks.length % p.config.servable shift ∧
    ∀ i < p.pageCount, i ≠ p.pageOf off → a.Full p shift i

namespace Fills

variable (fills : a.Fills p shift chunks)
include fills

theorem congr (keeps : KeepsClass shift a a') : a'.Fills p shift chunks where
  pages := fills.pages
  closed hdvd i hi taken use := fills.closed hdvd i hi taken ((keeps i taken).1 use)
  opened hdvd := by
    obtain ⟨off, taken, hlast, hoff, use, hcard, others⟩ := fills.opened hdvd
    exact ⟨off, taken, hlast, hoff, (keeps _ _).2 use, hcard,
      fun i hi hne taken use => others i hi hne taken ((keeps i taken).1 use)⟩

variable (st : a.Steady p.config p.pageCount) (hclass : p.config.IsClass shift)
include st hclass

theorem mem_listed_iff : i ∈ a.listed shift ↔
    ¬p.config.servable shift ∣ chunks.length ∧ ∃ off ∈ chunks.getLast?, p.pageOf off = i := by
  constructor
  · intro mem
    have hi := st.listed_lt shift i mem
    obtain ⟨taken, use⟩ := st.listed_use shift i mem
    have room := (st.listed_iff i hi shift taken use).1 mem
    have hdvd : ¬p.config.servable shift ∣ chunks.length :=
      fun hdvd => room (fills.closed hdvd i hi taken use)
    obtain ⟨off, _, hlast, _, _, _, others⟩ := fills.opened hdvd
    refine ⟨hdvd, off, hlast, ?_⟩
    by_contra hne
    exact room (others i hi (Ne.symm hne) taken use)
  · rintro ⟨hdvd, off, hlast, rfl⟩
    obtain ⟨off', taken, hlast', hoff, use, hcard, _⟩ := fills.opened hdvd
    cases hlast.symm.trans hlast'
    refine (st.listed_iff _ hoff shift taken use).2 fun heq => ?_
    have hpos := Nat.zero_lt_two.trans_le (Config.two_le_servable hclass)
    have hmod := Nat.mod_lt chunks.length hpos
    have hsum := Config.reserved_add_servable hclass
    rw [heq, Finset.card_range] at hcard
    omega

theorem listed_eq_nil_iff :
    a.listed shift = [] ↔ p.config.servable shift ∣ chunks.length := by
  rw [List.eq_nil_iff_forall_not_mem]
  constructor
  · intro hnone
    by_contra hdvd
    obtain ⟨off, _, hlast, _⟩ := fills.opened hdvd
    exact hnone _ ((fills.mem_listed_iff st hclass).2 ⟨hdvd, off, hlast, rfl⟩)
  · exact fun hdvd i mem => ((fills.mem_listed_iff st hclass).1 mem).1 hdvd

theorem freshPage {listed : Nat → List Nat} (closed : a.listed shift = [])
    (used : ∀ x ∈ chunks, a.use (p.pageOf x) ≠ .free) (take : a.take 1 = some (i, a')) :
    Fills p shift (chunks ++ [p.chunkAt i shift (p.config.reserved shift)])
      { a'.setTaken i shift (Finset.range (p.config.reserved shift + 1)) with
        listed := listed } := by
  have hdvd := (fills.listed_eq_nil_iff st hclass).1 closed
  have htwo := Config.two_le_servable hclass
  have hsum := Config.reserved_add_servable hclass
  have hi : i < p.pageCount := st.toCoherent.take_le take
  have hfree := st.toCoherent.take_free take (le_refl i) (Nat.lt_succ_self i)
  have keeps : KeepsClass shift a a' := .take st.toCoherent Nat.one_pos take
  have hpage : p.pageOf (p.chunkAt i shift (p.config.reserved shift)) = i :=
    (Pool.pageOf_chunkAt hclass (by omega)).1
  have hmod := mod_succ_of_dvd htwo hdvd
  have hlength : (chunks ++ [p.chunkAt i shift (p.config.reserved shift)]).length =
    chunks.length + 1 := List.length_append
  have others : ∀ j < p.pageCount, j ≠ i → Full p { a'.setTaken i shift
      (Finset.range (p.config.reserved shift + 1)) with listed := listed } shift j := by
    intro j hj hne taken use
    have use' := (setTaken_of_ne hne).symm.trans use
    exact fills.closed hdvd j hj taken ((keeps j taken).1 use')
  refine ⟨fills.pages.concat fun j x hx => ?_, fun hdvd' => ?_, fun _ => ?_⟩
  · have hmem := List.mem_of_getElem? hx
    obtain ⟨hj, _⟩ := List.getElem?_eq_some_iff.1 hx
    refine iff_of_false (fun heq => used x hmem ?_) (Nat.div_lt_div_of_lt_of_dvd hdvd hj).ne
    rw [heq, hpage, hfree]
  · rw [hlength] at hdvd'
    have hzero := Nat.mod_eq_zero_of_dvd hdvd'
    omega
  · refine ⟨_, Finset.range (p.config.reserved shift + 1), List.getLast?_concat, ?_, ?_, ?_, ?_⟩
    · rwa [hpage]
    · rw [hpage]
      exact setTaken_self a' i shift _
    · rw [hlength, hmod, Finset.card_range]
    · rwa [hpage]

theorem openPage {listed : Nat → List Nat} (mem : i ∈ a.listed shift)
    (use : a.use i = .chunks shift taken) (lt : k < p.config.chunkCount shift)
    (vacant : k ∉ taken) : Fills p shift (chunks ++ [p.chunkAt i shift k])
      { a.setTaken i shift (insert k taken) with listed := listed } := by
  obtain ⟨hdvd, off, hlast, rfl⟩ := (fills.mem_listed_iff st hclass).1 mem
  obtain ⟨off', _, hlast', hi, use', hcard, hothers⟩ := fills.opened hdvd
  cases hlast.symm.trans hlast'
  cases use.symm.trans use'
  have hsum := Config.reserved_add_servable hclass
  have hpage : p.pageOf (p.chunkAt (p.pageOf off) shift k) = p.pageOf off :=
    (Pool.pageOf_chunkAt hclass lt).1
  have hlength : (chunks ++ [p.chunkAt (p.pageOf off) shift k]).length = chunks.length + 1 :=
    List.length_append
  have hinsert : (insert k taken).card =
      p.config.reserved shift + chunks.length % p.config.servable shift + 1 := by
    rw [Finset.card_insert_of_notMem vacant, hcard]
  have others : ∀ j < p.pageCount, j ≠ p.pageOf off → Full p { a.setTaken (p.pageOf off) shift
      (insert k taken) with listed := listed } shift j :=
    fun j hj hne t use => hothers j hj hne t ((setTaken_of_ne hne).symm.trans use)
  refine ⟨fills.pages.concat fun j x hx => ?_, fun hdvd' => ?_, fun hdvd' => ?_⟩
  · -- the last chunk so far is in the same page, and no multiple lies between it and the new one
    rw [List.getLast?_eq_getElem?] at hlast
    have hpos : chunks.length = chunks.length - 1 + 1 := by
      obtain ⟨hlt, _⟩ := List.getElem?_eq_some_iff.1 hlast
      omega
    have hquot : chunks.length / p.config.servable shift =
        (chunks.length - 1) / p.config.servable shift := by
      rw [hpos] at hdvd
      conv_lhs => rw [hpos]
      exact Nat.succ_div_of_not_dvd hdvd
    rw [hpage, hquot]
    exact fills.pages j _ x off hx hlast
  · rw [hlength] at hdvd'
    intro j hj t use
    by_cases hji : j = p.pageOf off
    · subst hji
      cases (setTaken_self a (p.pageOf off) shift (insert k taken)).symm.trans use
      have hfull := mod_succ_of_dvd_succ hdvd'
      apply Finset.eq_of_subset_of_card_le
      · refine Finset.insert_subset (Finset.mem_range.2 lt) ?_
        exact st.chunks_le _ hi shift taken use'
      · rw [Finset.card_range, hinsert]
        omega
    · exact others j hj hji t use
  · rw [hlength] at hdvd'
    refine ⟨_, insert k taken, List.getLast?_concat, ?_, ?_, ?_, ?_⟩
    · rwa [hpage]
    · rw [hpage]
      exact setTaken_self a (p.pageOf off) shift _
    · rw [hlength, mod_succ_of_not_dvd hdvd', hinsert, Nat.add_assoc]
    · rwa [hpage]

end Fills

end Ledger

def Owns (p : Pool) (shift : Nat) (live : List Block) (chunks : List Nat) : Prop :=
  ∀ x ∈ chunks, ∃ b ∈ live, b.off = x ∧ p.config.InClass shift b.size

namespace Follows

section Calls

variable (f : Follows p a live m) (hp : p.Placed)
include f hp

theorem keepsClass_free (spared : ¬p.Frees shift live (.call (.free off))) :
    Ledger.KeepsClass shift a (a.free p off).2 := by
  have hcase := Ledger.free_case p a off
  have hdone := f.free_done_iff hp off
  generalize a.free p off = answer at hcase hdone
  cases hcase with
  | run inside use off_eq =>
    have hi : p.pageOf off < p.pageCount := hp.div_lt inside.1 inside.2
    refine .give fun j low high taken use' => ?_
    rcases Nat.eq_or_lt_of_le low with rfl | hafter
    · cases use.symm.trans use'
    · cases (f.steady.start_rest _ hi _ use j hafter high).symm.trans use'
  | chunk inside use reserved_le off_eq mem =>
    obtain ⟨b, hb, hoff⟩ := hdone.1 rfl
    subst hoff
    obtain ⟨small, hshift, _⟩ := f.chunk_of_pageOf hp hb use
    exact .clearChunk (fun heq => spared ⟨b, hb, rfl, small, hshift.trans heq⟩) use
  | _ => exact .refl shift a

theorem fills_nil (closed : ¬p.Open (table m) live shift) : a.Fills p shift [] where
  pages j k x y hx := by simp at hx
  closed _ i hi taken use := by
    rw [← f.listed_eq_nil_iff_not_open hp] at closed
    by_contra room
    have mem := (f.steady.listed_iff i hi shift taken use).2 room
    rw [closed] at mem
    cases mem
  opened h := absurd (Nat.dvd_zero _) h

variable (fills : a.Fills p shift chunks) (owns : Owns p shift live chunks)
include fills owns

theorem fills_granted (inClass : p.config.InClass shift size)
    (h : a.alloc p size = (some off, a')) : a'.Fills p shift (chunks ++ [off]) := by
  obtain ⟨small, rfl⟩ := inClass
  have hclass := Config.isClass_shiftFor small
  have hcase := f.steady.alloc_case size
  rw [h] at hcase
  cases hcase with
  | run large => exact absurd large (not_lt.2 small)
  | freshPage _ closed take =>
    refine fills.freshPage f.steady hclass closed (fun x hx hfree => ?_) take
    obtain ⟨b, hb, rfl, small', _⟩ := owns x hx
    obtain ⟨_, _, use, _⟩ := f.use_of_small hp hb small'
    cases use.symm.trans hfree
  | openPage _ mem use lt vacant => exact fills.openPage f.steady hclass mem use lt vacant

theorem fills_alloc (pos : 0 < size) {found : Option Nat} (h : a.alloc p size = (found, a')) :
    a'.Fills p shift (chunks ++ p.granted shift (.call (.alloc size pos))
        [.answer (.offset found)]) ∧
      Owns p shift (track (.alloc size pos) (.offset found) live)
        (chunks ++ p.granted shift (.call (.alloc size pos)) [.answer (.offset found)]) := by
  cases found with
  | none =>
    have hcase := f.steady.alloc_case size
    rw [h] at hcase
    rw [Pool.granted, List.append_nil]
    · cases hcase with
      | noRun | noPage => exact ⟨fills, owns⟩
    · rintro _ _ _ _ ⟨⟩
  | some off =>
    have later : Owns p shift (⟨off, size⟩ :: live) chunks := by
      intro x hx
      obtain ⟨b, hb, hblock⟩ := owns x hx
      exact ⟨b, List.mem_cons_of_mem _ hb, hblock⟩
    rw [Pool.granted]
    by_cases inClass : p.config.InClass shift size
    · rw [if_pos inClass]
      refine ⟨f.fills_granted hp fills owns inClass h, fun x hx => ?_⟩
      rcases List.mem_append.1 hx with hx | hx
      · exact later x hx
      · cases List.mem_singleton.1 hx
        exact ⟨_, List.mem_cons_self, rfl, inClass⟩
    · have keeps := Ledger.KeepsClass.alloc f.steady pos inClass
      rw [h] at keeps
      rw [if_neg inClass, List.append_nil]
      exact ⟨fills.congr keeps, later⟩

omit f hp fills in
theorem owns_free (spared : ¬p.Frees shift live (.call (.free off)))
    (outcome : Except PoolError Unit) :
    Owns p shift (track (.free off) (.freed outcome) live) chunks := by
  intro x hx
  obtain ⟨b, hb, rfl, inClass⟩ := owns x hx
  have hne : b.off ≠ off := fun heq => spared ⟨b, hb, heq, inClass⟩
  cases outcome with
  | ok _ => exact ⟨b, List.mem_filter.2 ⟨hb, decide_eq_true hne⟩, rfl, inClass⟩
  | error _ => exact ⟨b, hb, rfl, inClass⟩

end Calls

/-- A move that spares a class keeps its pages filled in order. -/
theorem fills_move (f : Follows p a live s.memory) (hp : p.Placed)
    (fills : a.Fills p shift chunks) (owns : Owns p shift live chunks) (v : Move)
    (spared : ¬p.Frees shift live v) {reply : List Reply}
    (run : p.move live v s = .ok (reply, live') s') :
    ∃ a', Follows p a' live' s'.memory ∧ a'.Fills p shift (chunks ++ p.granted shift v reply) ∧
      Owns p shift live' (chunks ++ p.granted shift v reply) := by
  obtain ⟨_, run', f', _⟩ := f.move hp v
  generalize hmove : a.move p live v = outcome at run' f'
  obtain ⟨⟨_, _⟩, a'⟩ := outcome
  cases run'.symm.trans run
  refine ⟨a', f', ?_⟩
  cases v with
  | freePages | snapshot | write x b =>
    cases hmove
    rw [Pool.granted, List.append_nil]
    · exact ⟨fills, owns⟩
    · rintro _ _ _ ⟨⟩
  | call c =>
    cases c with
    | alloc size pos =>
      cases hmove
      exact f.fills_alloc hp fills owns pos rfl
    | free off =>
      cases hmove
      rw [Pool.granted, List.append_nil]
      · exact ⟨fills.congr (f.keepsClass_free hp spared), owns_free owns spared _⟩
      · rintro _ _ _ ⟨⟩

theorem fills_filling (f : Follows p a live s.memory) (hp : p.Placed)
    (closed : ¬p.Open (table s.memory) live shift)
    (filling : p.Filling shift live s chunks live' s') :
    ∃ a', Follows p a' live' s'.memory ∧ a'.Fills p shift chunks ∧ Owns p shift live' chunks := by
  induction filling with
  | start => exact ⟨a, f, f.fills_nil hp closed, List.forall_mem_nil _⟩
  | move _ v spared run ih =>
    obtain ⟨a', f', fills, owns⟩ := ih
    exact f'.fills_move hp fills owns v spared run

theorem costs_run (f : Follows p a live s.memory) (hp : p.Placed) (c : Call) :
    ∃ t, p.call c s = .ok (a.call p c).1 t ∧ Pool.freePages s = .ok a.freePages s ∧
      Pool.freePages t = .ok (a.call p c).2.freePages t := by
  obtain ⟨t, run, f', _⟩ := f.call hp c
  exact ⟨t, run, Pool.freePages_run f.steady.toSound hp f.stores.count,
    Pool.freePages_run f'.steady.toSound hp f'.stores.count⟩

theorem filled (f : Follows p a live s.memory) (hp : p.Placed) (fills : a.Fills p shift chunks)
    (owns : Owns p shift live chunks) : p.Filled shift chunks live s where
  live := owns
  pages := fills.pages
  next size pos inClass := by
    obtain ⟨small, rfl⟩ := inClass
    obtain ⟨t, run, before, after⟩ := f.costs_run hp (.alloc size pos)
    refine ⟨_, t, _, _, run, before, after, ?_⟩
    have hlisted := fills.listed_eq_nil_iff f.steady (Config.isClass_shiftFor small)
    have hopen : a.listed (p.config.shiftFor size) = [] ↔ _ := f.listed_eq_nil_iff_not_open hp
    have hrefused : (a.alloc p size).1 = none ↔ _ := f.steady.alloc_eq_none_iff
    have hcost : ∀ off, (a.alloc p size).1 = some off →
        (a.alloc p size).2.freePages + p.pagesTaken (table s.memory) live size = a.freePages :=
      fun off h => f.freePages_alloc hp pos (Prod.ext h rfl)
    rw [if_neg (not_lt.2 small)] at hrefused
    rw [Pool.pagesTaken, if_neg (not_lt.2 small)] at hcost
    by_cases hdvd : p.config.servable (p.config.shiftFor size) ∣ chunks.length
    · rw [if_pos hdvd]
      intro hne
      obtain ⟨off, hoff⟩ := Option.ne_none_iff_exists'.1 hne
      have h := hcost off hoff
      rwa [if_neg (hopen.1 (hlisted.2 hdvd))] at h
    · rw [if_neg hdvd]
      have hne : (a.alloc p size).1 ≠ none := fun h => hdvd (hlisted.1 (hrefused.1 h).1)
      obtain ⟨off, hoff⟩ := Option.ne_none_iff_exists'.1 hne
      have h := hcost off hoff
      rw [if_pos (by_contra fun hclosed => hdvd (hlisted.1 (hopen.2 hclosed)))] at h
      exact ⟨hne, h⟩

end Follows

/-- What each call costs in pages in any state that is reached, and how long a page of a class
lasts from there on. -/
theorem call_costs {region : Region} {config : Config} (hlen : region.len < wordLimit)
    (h : Pool.init region config s = .ok (.ok p) s') (moves : List Move) :
    ∃ replies live t, p.play moves [] s' = .ok (replies, live) t ∧
      (∀ call, ∃ answer u before after, p.call call t = .ok answer u ∧
        Pool.freePages t = .ok before t ∧ Pool.freePages u = .ok after u ∧
        p.Costs (table t.memory) live before call answer after) ∧
      ∀ shift, ¬p.Open (table t.memory) live shift → ∀ chunks live' u,
        p.Filling shift live t chunks live' u → p.Filled shift chunks live' u := by
  obtain ⟨hp, f₀⟩ := follows_init hlen h
  obtain ⟨t, run, f, _⟩ := f₀.play hp moves
  refine ⟨_, _, t, run, fun call => ?_, fun shift closed chunks live' u filling => ?_⟩
  · obtain ⟨u, run, before, after⟩ := f.costs_run hp call
    exact ⟨_, u, _, _, run, before, after, f.costs hp call⟩
  · obtain ⟨a', f', fills, owns⟩ := f.fills_filling hp closed filling
    exact f'.filled hp fills owns

/-- Two chunks of half a page fill a page, so the third is in the next one. -/
theorem call_costs_host : ∃ s',
    Pool.init ⟨0, 65536⟩ Config.host ⟨Memory.zeroed, #[]⟩ = .ok (.ok Pool.onHost) s' ∧
    (∃ answer u before after, Pool.onHost.call (.alloc 5000 (by decide)) s' = .ok answer u ∧
      Pool.freePages s' = .ok before s' ∧ Pool.freePages u = .ok after u ∧
      Pool.onHost.Costs (table s'.memory) [] before (.alloc 5000 (by decide)) answer after) ∧
    ∃ live u, Pool.onHost.Filling 11 [] s' [4096, 6144, 8192] live u ∧
      Pool.onHost.Filled 11 [4096, 6144, 8192] live u := by
  obtain ⟨s', h⟩ := Pool.init_onHost
  obtain ⟨hp, f⟩ := follows_init (by decide) h
  obtain ⟨s₁, run₁, f₁, _⟩ := f.move hp (.call (.alloc 2048 (by decide)))
  obtain ⟨s₂, run₂, f₂, _⟩ := f₁.move hp (.call (.alloc 2000 (by decide)))
  obtain ⟨s₃, run₃, f₃, _⟩ := f₂.move hp (.call (.alloc 2048 (by decide)))
  have filling : Pool.onHost.Filling 11 [] s' _ _ _ :=
    .move (.move (.move .start _ id run₁) _ id run₂) _ id run₃
  obtain ⟨_, _, _, run, costs, lasts⟩ := call_costs (by decide) h []
  cases run
  exact ⟨s', h, costs _, _, _, filling,
    lasts 11 ((f.listed_eq_nil_iff_not_open hp).1 rfl) _ _ _ filling⟩

end SharedSlab.Slab
