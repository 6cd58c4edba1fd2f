import SharedSlab.Proofs.FreeDecisions
import SharedSlab.Proofs.LedgerShape

set_option autoImplicit false

namespace SharedSlab.Slab

variable {p : Pool} {a a' : Ledger} {live live' : List Block} {m m' : Memory} {s : Arena}
  {i k n off shift : Nat} {taken : Finset Nat}

theorem PageUse.holds_chunkAt (hres : p.config.reserved shift ≤ k) :
    (PageUse.chunks shift taken).Holds p i (p.chunkAt i shift k) (2 ^ shift) ↔ k ∈ taken := by
  constructor
  · rintro ⟨x, hx, _, hoff, _⟩
    exact Pool.chunkAt_inj.1 hoff ▸ hx
  · exact fun hk => ⟨k, hk, hres, rfl, rfl⟩

namespace Ledger.Steady

theorem holds_iff (st : a.Steady p.config p.pageCount) (hi : i < p.pageCount) (o l : Nat) :
    (a.use i).Holds p i o l ↔ a.Held p o l ∧ p.pageOf o = i := by
  constructor
  · exact fun h => ⟨⟨i, hi, h⟩, st.pageOf_of_holds hi h⟩
  · rintro ⟨⟨j, hj, h⟩, hpage⟩
    have hji := (st.pageOf_of_holds hj h).symm.trans hpage
    rwa [hji] at h

section Same

variable (st : a.Steady p.config p.pageCount) (st' : a'.Steady p.config p.pageCount)
  (same : ∀ o l, a.Held p o l ↔ a'.Held p o l)
include st st' same

theorem holds_congr (hi : i < p.pageCount) (o l : Nat) :
    (a.use i).Holds p i o l ↔ (a'.use i).Holds p i o l := by
  rw [st.holds_iff hi, st'.holds_iff hi, same]

theorem use_eq_runStart (hi : i < p.pageCount) (huse : a.use i = .runStart n) :
    a'.use i = .runStart n := by
  have h : (a'.use i).Holds p i (p.dataOf i) (n * p.config.pageSize) := by
    rw [← st.holds_congr st' same hi, huse]
    exact ⟨rfl, rfl⟩
  cases huse' : a'.use i with
  | free | runRest =>
    rw [huse'] at h
    exact h.elim
  | runStart n' =>
    rw [huse'] at h
    rw [Nat.eq_of_mul_eq_mul_right p.config.pageSize_pos h.2]
  | chunks shift taken =>
    rw [huse'] at h
    obtain ⟨k, _, _, _, hlen⟩ := h
    exact absurd hlen.symm (Config.two_pow_lt_mul (st'.chunks_class i hi shift taken huse')
      (st.start_pos i hi n huse)).ne

theorem use_eq_chunks (hi : i < p.pageCount) (huse : a.use i = .chunks shift taken) :
    a'.use i = .chunks shift taken := by
  have hholds := st.holds_congr st' same hi
  -- no page is kept for its reserved chunks alone, so one block shows the class
  obtain ⟨k, hk, hres⟩ := st.exists_chunk hi huse
  have h := (hholds (p.chunkAt i shift k) (2 ^ shift)).1 (by
    rw [huse]
    exact ⟨k, hk, hres, rfl, rfl⟩)
  cases huse' : a'.use i with
  | free | runRest =>
    rw [huse'] at h
    exact h.elim
  | runStart n =>
    cases huse.symm.trans (st'.use_eq_runStart st (fun o l => (same o l).symm) hi huse')
  | chunks shift' taken' =>
    rw [huse'] at h
    obtain ⟨_, _, _, _, hlen⟩ := h
    cases Nat.pow_right_injective (le_refl 2) hlen
    congr 1
    ext x
    by_cases hx : x < p.config.reserved shift
    · exact iff_of_true (st'.chunks_ge i hi shift taken' huse' (Finset.mem_range.2 hx))
        (st.chunks_ge i hi shift taken huse (Finset.mem_range.2 hx))
    · rw [← PageUse.holds_chunkAt (not_lt.1 hx), ← huse', ← hholds, huse,
        PageUse.holds_chunkAt (not_lt.1 hx)]

theorem use_eq_of_ne_free (hi : i < p.pageCount) (hne : a.use i ≠ .free) :
    a'.use i = a.use i := by
  cases huse : a.use i with
  | free => exact absurd huse hne
  | runStart n => exact st.use_eq_runStart st' same hi huse
  | chunks shift taken => exact st.use_eq_chunks st' same hi huse
  | runRest =>
    -- no block starts here: the page that starts the run has it
    obtain ⟨j, n, hstart, low, high⟩ := st.rest_start i hi huse
    have hj := low.trans hi
    exact st'.start_rest j hj n (st.use_eq_runStart st' same hj hstart) i low high

theorem use_congr (hi : i < p.pageCount) : a.use i = a'.use i := by
  by_cases hfree : a.use i = .free
  · -- nothing is held in a free page nor inside a run, so ask the other ledger
    by_contra hne
    have hfree' : a'.use i ≠ .free := fun h => hne (hfree.trans h.symm)
    exact hne (st'.use_eq_of_ne_free st (fun o l => (same o l).symm) hi hfree')
  · exact (st.use_eq_of_ne_free st' same hi hfree).symm

theorem snapshot_eq : a.snapshot p = a'.snapshot p :=
  st.toSound.snapshot_congr st'.toSound fun _ hi => st.use_congr st' same hi

end Same

end Ledger.Steady

/-- The live allocations as they are told by offset and length, in no order. -/
def Pool.extents (p : Pool) (live : List Block) : Finset (Nat × Nat) :=
  (live.map fun b => (b.off, p.chunkSize b.size)).toFinset

theorem Follows.held_iff_mem_extents (f : Follows p a live m) (o l : Nat) :
    a.Held p o l ↔ (o, l) ∈ p.extents live := by
  rw [f.held, Pool.extents, List.mem_toFinset, List.mem_map]
  simp only [Prod.mk.injEq]

theorem Follows.snapshot_eq (f : Follows p a live m) (f' : Follows p a' live' m')
    (same : p.extents live = p.extents live') : a.snapshot p = a'.snapshot p := by
  refine f.steady.snapshot_eq f'.steady fun o l => ?_
  rw [f.held_iff_mem_extents, f'.held_iff_mem_extents, same]

def Snapshot.fresh (c : Config) (pageCount : Nat) : Snapshot where
  pageSize := c.pageSize
  minShift := c.minShift
  pageCount := pageCount
  freePages := pageCount
  freeRuns := [⟨0, pageCount⟩]
  slotPages := List.replicate c.slotCount 0

theorem Ledger.snapshot_fresh (p : Pool) :
    (Ledger.fresh p.pageCount).snapshot p = Snapshot.fresh p.config p.pageCount := by
  have hslots : (List.range p.config.slotCount).map (fun _ => 0) =
      List.replicate p.config.slotCount 0 := by
    rw [List.map_const', List.length_range]
  rw [Ledger.snapshot, Snapshot.fresh, ← hslots]
  simp [Ledger.fresh, Ledger.freePages]

theorem Pool.Placed.eq_of_layout_eq {q : Pool} (hp : p.Placed) (hq : q.Placed)
    (hconfig : q.config = p.config) (hlayout : q.layout = p.layout) :
    q = { p with region := q.region } := by
  have hfinish : q.finish = p.finish := by
    rw [hq.finish, hp.finish]
    simp only [Pool.dataOf, Pool.pageCount, Pool.start, hlayout, hconfig]
  cases q
  cases hlayout
  cases hconfig
  cases hfinish
  rfl

theorem Pool.Laid.eq_of_len_eq {region region' : Region} {config : Config} {p' : Pool}
    (laid : Pool.Laid region config p m) (laid' : Pool.Laid region' config p' m')
    (hlen : region'.len = region.len) : p' = { p with region := region' } := by
  have hlayout : p'.layout = p.layout := by
    have h := laid'.layout
    rw [hlen, laid.layout] at h
    exact (Option.some.inj (Except.ok.inj h)).symm
  have hconfig : p'.config = p.config := laid'.config_eq.trans laid.config_eq.symm
  rw [← laid'.region_eq]
  exact laid.placed.eq_of_layout_eq laid'.placed hconfig hlayout

theorem Follows.filter_cons_self {b : Block} (f : Follows p a (b :: live) m) :
    (b :: live).filter (·.off ≠ b.off) = live := by
  have hnot := (List.nodup_cons.1 f.nodup).1
  rw [List.filter_cons_of_neg (by simp), List.filter_eq_self]
  intro c hc
  have hmem : c.off ∈ live.map Block.off := List.mem_map_of_mem hc
  have hne : c.off ≠ b.off := fun heq => hnot (heq ▸ hmem)
  exact decide_eq_true hne

namespace Follows

variable (hp : p.Placed)
include hp

theorem free_live (f : Follows p a live s.memory) (hoff : ∃ b ∈ live, b.off = off) :
    ∃ a' s', p.free off s = .ok (.ok ()) s' ∧
      Follows p a' (live.filter (·.off ≠ off)) s'.memory := by
  have hdone := (f.free_done_iff hp off).2 hoff
  have freed := Pool.free_run hp f.steady f.stores off
  generalize hrun : p.free off s = result at freed
  generalize hledger : a.free p off = answer at freed hdone
  cases freed with
  | refused => cases hdone
  | done stores _ => exact ⟨_, _, rfl, f.free hp hledger stores⟩

/-- Live allocations are freed in any order, and what stays live is the same in each. -/
theorem freeAll (offs : List Nat) (nodup : offs.Nodup) {a : Ledger} {live : List Block} {s : Arena}
    (f : Follows p a live s.memory) (hlive : ∀ off ∈ offs, ∃ b ∈ live, b.off = off) :
    ∃ a' s', p.replay (offs.map .free) live s =
        .ok (List.replicate offs.length (.freed (.ok ())), live.filter (·.off ∉ offs)) s' ∧
      Follows p a' (live.filter (·.off ∉ offs)) s'.memory := by
  induction offs generalizing a live s with
  | nil => exact ⟨a, s, by simp [Pool.replay], by simpa using f⟩
  | cons off offs ih =>
    obtain ⟨hnot, nodup⟩ := List.nodup_cons.1 nodup
    obtain ⟨a₁, s₁, run₁, f₁⟩ := f.free_live hp (hlive off List.mem_cons_self)
    obtain ⟨a₂, s₂, run₂, f₂⟩ := ih nodup f₁ fun o ho => by
      obtain ⟨b, hb, rfl⟩ := hlive o (List.mem_cons_of_mem off ho)
      have hne : b.off ≠ off := fun heq => hnot (heq ▸ ho)
      exact ⟨b, List.mem_filter.2 ⟨hb, decide_eq_true hne⟩, rfl⟩
    have hrest : (live.filter (·.off ≠ off)).filter (·.off ∉ offs) =
        live.filter (·.off ∉ off :: offs) := by
      rw [List.filter_filter]
      exact List.filter_congr fun b _ => by simp [Bool.and_comm]
    have hcall : p.call (.free off) s = .ok (.freed (.ok ())) s₁ := PoolM.bind_run run₁
    rw [hrest] at run₂ f₂
    refine ⟨a₂, s₂, ?_, f₂⟩
    rw [List.map_cons, Pool.replay, PoolM.bind_run hcall]
    exact PoolM.bind_run run₂

end Follows

/-- What can be seen of frees, in a state with these live allocations. -/
structure Pool.Forgets (p : Pool) (live : List Block) (t : Arena) : Prop where
  any_order : ∀ offs offs' : List Nat, offs.Nodup → (∀ off ∈ offs, ∃ b ∈ live, b.off = off) →
    offs'.Perm offs → ∃ left left' u u' snap,
      p.replay (offs.map .free) live t =
        .ok (List.replicate offs.length (.freed (.ok ())), left) u ∧
      p.replay (offs'.map .free) live t =
        .ok (List.replicate offs'.length (.freed (.ok ())), left') u' ∧
      p.snapshot u = .ok snap u ∧ p.snapshot u' = .ok snap u'
  to_fresh : ∀ offs : List Nat, offs.Perm (live.map Block.off) → ∃ u,
    p.replay (offs.map .free) live t = .ok (List.replicate offs.length (.freed (.ok ())), []) u ∧
    p.snapshot u = .ok (.fresh p.config p.pageCount) u
  undo : ∀ size off u, p.alloc size t = .ok (some off) u → ∃ u' snap,
    p.free off u = .ok (.ok ()) u' ∧ p.snapshot t = .ok snap t ∧ p.snapshot u' = .ok snap u'

namespace Follows

variable (f : Follows p a live s.memory) (hp : p.Placed)
include f

theorem snapshot_run (hp : p.Placed) : p.snapshot s = .ok (a.snapshot p) s :=
  Pool.snapshot_run hp f.steady.toSound f.stores

theorem snapshot_of_none (hp : p.Placed) (hnone : live = []) :
    a.snapshot p = .fresh p.config p.pageCount := by
  have fresh := Ledger.fresh_steady p.config hp.pageCount_pos
  have hheld : ∀ o l, a.Held p o l ↔ (Ledger.fresh p.pageCount).Held p o l := by
    intro o l
    rw [f.held, hnone]
    refine iff_of_false (fun ⟨b, hb, _⟩ => List.not_mem_nil hb) ?_
    rintro ⟨i, _, h⟩
    exact h.elim
  rw [← Ledger.snapshot_fresh]
  exact f.steady.snapshot_eq fresh hheld

theorem snapshot_any_order (hp : p.Placed) {offs offs' : List Nat} (nodup : offs.Nodup)
    (hlive : ∀ off ∈ offs, ∃ b ∈ live, b.off = off) (perm : offs'.Perm offs) :
    ∃ left left' u u' snap,
      p.replay (offs.map .free) live s =
        .ok (List.replicate offs.length (.freed (.ok ())), left) u ∧
      p.replay (offs'.map .free) live s =
        .ok (List.replicate offs'.length (.freed (.ok ())), left') u' ∧
      p.snapshot u = .ok snap u ∧ p.snapshot u' = .ok snap u' := by
  have hlive' : ∀ off ∈ offs', ∃ b ∈ live, b.off = off := fun off hoff =>
    hlive off (perm.mem_iff.1 hoff)
  obtain ⟨a₁, u, run, f₁⟩ := f.freeAll hp offs nodup hlive
  obtain ⟨a₂, u', run', f₂⟩ := f.freeAll hp offs' (perm.nodup_iff.2 nodup) hlive'
  have hsame : p.extents (live.filter (·.off ∉ offs)) =
      p.extents (live.filter (·.off ∉ offs')) := by
    simp only [perm.mem_iff]
  exact ⟨_, _, u, u', _, run, run', f₁.snapshot_run hp,
    f₁.snapshot_eq f₂ hsame ▸ f₂.snapshot_run hp⟩

theorem snapshot_to_fresh (hp : p.Placed) {offs : List Nat}
    (perm : offs.Perm (live.map Block.off)) :
    ∃ u, p.replay (offs.map .free) live s =
        .ok (List.replicate offs.length (.freed (.ok ())), []) u ∧
      p.snapshot u = .ok (.fresh p.config p.pageCount) u := by
  obtain ⟨a₁, u, run, f₁⟩ := f.freeAll hp offs (perm.nodup_iff.2 f.nodup) fun off hoff =>
    List.mem_map.1 (perm.mem_iff.1 hoff)
  have hnone : live.filter (·.off ∉ offs) = [] := by
    refine List.filter_eq_nil_iff.2 fun b hb => ?_
    simpa using perm.mem_iff.2 (List.mem_map_of_mem hb)
  refine ⟨u, hnone ▸ run, ?_⟩
  rw [← f₁.snapshot_of_none hp hnone]
  exact f₁.snapshot_run hp

theorem snapshot_undo (hp : p.Placed) {size : Nat} {u : Arena}
    (run : p.alloc size s = .ok (some off) u) :
    ∃ u' snap, p.free off u = .ok (.ok ()) u' ∧ p.snapshot s = .ok snap s ∧
      p.snapshot u' = .ok snap u' := by
  rcases Nat.eq_zero_or_pos size with rfl | pos
  · rw [Pool.alloc, if_pos rfl] at run
    cases run
  have served := Pool.alloc_run hp f.steady f.stores pos
  rw [run] at served
  generalize hledger : a.alloc p size = answer at served
  cases served with
  | @given off a₁ m₁ stores _ =>
    have f₁ : Follows p a₁ (⟨off, size⟩ :: live) (s.withMemory m₁).memory :=
      f.alloc hp pos hledger stores
    obtain ⟨a₂, u', run', f₂⟩ := f₁.free_live hp ⟨_, List.mem_cons_self, rfl⟩
    rw [f₁.filter_cons_self] at f₂
    exact ⟨u', _, run', f.snapshot_run hp, f.snapshot_eq f₂ rfl ▸ f₂.snapshot_run hp⟩

theorem forgets (hp : p.Placed) : p.Forgets live s where
  any_order _ _ nodup hlive perm := f.snapshot_any_order hp nodup hlive perm
  to_fresh _ perm := f.snapshot_to_fresh hp perm
  undo _ _ _ run := f.snapshot_undo hp run

end Follows

section Histories

variable {region region' : Region} {config : Config} {p' : Pool} {s s₀ s' s₀' : Arena}

/-- Two pools of one configuration, over regions of one length and whatever these held, have the
same snapshot once the same is live, whatever their histories; so frees leave no trace. -/
theorem snapshot_of_live (hlen : region.len < wordLimit) (hsame : region'.len = region.len)
    (h : Pool.init region config s = .ok (.ok p) s₀)
    (h' : Pool.init region' config s' = .ok (.ok p') s₀') (calls calls' : List Call) :
    ∃ answers live t snap answers' live' t' snap',
      p.replay calls [] s₀ = .ok (answers, live) t ∧ p.snapshot t = .ok snap t ∧
      p'.replay calls' [] s₀' = .ok (answers', live') t' ∧ p'.snapshot t' = .ok snap' t' ∧
      (p.extents live = p'.extents live' → snap = snap') ∧
      p.snapshot s₀ = .ok (.fresh p.config p.pageCount) s₀ ∧ p.Forgets live t := by
  have laid := Pool.init_spec hlen h
  have laid' := Pool.init_spec (hsame ▸ hlen) h'
  obtain ⟨hp, f₀⟩ := follows_init hlen h
  obtain ⟨live, t, run, f⟩ := f₀.replay hp calls
  obtain ⟨hp', live', t', run', f'⟩ := follows_replay (hsame ▸ hlen) h' calls'
  refine ⟨_, live, t, _, _, live', t', _, run, f.snapshot_run hp, run', f'.snapshot_run hp',
    fun hextents => ?_, ?_, f.forgets hp⟩
  · obtain rfl := laid.eq_of_len_eq laid' hsame
    refine f.steady.snapshot_eq f'.steady fun o l => ?_
    rw [f.held_iff_mem_extents, hextents]
    exact (f'.held_iff_mem_extents o l).symm
  · rw [← f₀.snapshot_of_none hp rfl]
    exact f₀.snapshot_run hp

/-- A chunk and a run of two pages: asked for in order, or after a run in the place of the chunk was
given back, and the run by another size. -/
theorem snapshot_of_live_host : ∃ p s₀,
    Pool.init ⟨0, 65536⟩ Config.host ⟨Memory.zeroed, #[]⟩ = .ok (.ok p) s₀ ∧
    ∃ answers live t snap answers' live' t' snap',
      p.replay [.alloc 8 (by decide), .alloc 5000 (by decide)] [] s₀ = .ok (answers, live) t ∧
      p.snapshot t = .ok snap t ∧
      p.replay [.alloc 4096 (by decide), .alloc 8192 (by decide), .free 4096,
        .alloc 8 (by decide)] [] s₀ = .ok (answers', live') t' ∧
      p.snapshot t' = .ok snap' t' ∧
      (p.extents live = p.extents live' → snap = snap') ∧
      p.snapshot s₀ = .ok (.fresh p.config p.pageCount) s₀ ∧ p.Forgets live t := by
  obtain ⟨p, s₀, h⟩ := Pool.init_host
  exact ⟨p, s₀, h, snapshot_of_live (by decide) rfl h h _ _⟩

end Histories

end SharedSlab.Slab
