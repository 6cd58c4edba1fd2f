import SharedSlab.Proofs.History

set_option autoImplicit false

namespace SharedSlab.Slab

/-- The class that the descriptor of a page records, if the page is one of a class. -/
def Pool.classOf (p : Pool) (d : Table) (i : Nat) : Option Nat :=
  match (d (p.page i)).kind with
  | .page => none
  | .exact => some p.config.exactShift
  | _ => some (Pool.recordedShift (d (p.page i)).slab)

def Pool.Apart (p : Pool) (b c : Block) : Prop :=
  b.off + p.chunkSize b.size ≤ c.off ∨ c.off + p.chunkSize c.size ≤ b.off

variable {p : Pool} {a : Ledger} {live : List Block} {m : Memory} {b c : Block} {d : Table}
  {w : Nat → UInt64} {i k n shift size : Nat} {taken : Finset Nat}

theorem Encodes.classOf_eq_some_iff (h : Encodes p a d w)
    (steady : a.Steady p.config p.pageCount) (hi : i < p.pageCount) :
    p.classOf d i = some shift ↔ ∃ taken, a.use i = .chunks shift taken := by
  have hpage := h.pages i hi
  have hkind := hpage.kind
  rw [Pool.classOf]
  cases huse : a.use i with
  | chunks shift' taken =>
    have hclass := steady.chunks_class i hi shift' taken huse
    have hlt := Config.shift_lt_of_isClass hclass
    have hmarks := hpage.marks
    rw [huse] at hkind hmarks
    have hrecorded : p.classOf d i = some shift' := by
      rw [Pool.classOf, hkind]
      rcases Nat.lt_trichotomy shift' p.config.exactShift with small | rfl | big
      · rw [show (PageUse.chunks shift' taken).kind p.config = .small from
          Config.kindFor_small small, ((occupied_small small).1 hmarks).1]
        exact congrArg some (recordedShift_ofNat (by omega))
      · rw [show (PageUse.chunks p.config.exactShift taken).kind p.config = .exact from
          Config.kindFor_exact p.config]
      · rw [show (PageUse.chunks shift' taken).kind p.config = .big from
          Config.kindFor_big big]
        exact congrArg some ((occupied_big big).1 hmarks).1
    rw [← Pool.classOf, hrecorded]
    constructor
    · rintro ⟨⟩
      exact ⟨taken, rfl⟩
    · rintro ⟨taken', heq⟩
      cases heq
      rfl
  | _ =>
    rw [huse] at hkind
    rw [hkind]
    simp [PageUse.kind]

namespace Follows

variable (f : Follows p a live m) (hp : p.Placed)
include f

theorem held_block (hb : b ∈ live) : a.Held p b.off (p.chunkSize b.size) :=
  (f.held _ _).2 ⟨b, hb, rfl, rfl⟩

theorem off_lt (hp : p.Placed) (hb : b ∈ live) : b.off < p.region.len := by
  have hinside := f.steady.held_inside hp (f.held_block hb)
  have hchunk := Pool.le_chunkSize hp (f.fits b hb)
  have hpos := f.pos b hb
  have hfinish := hp.finish_le
  omega

theorem addressOf_eq_ok (hp : p.Placed) (hb : b ∈ live) :
    p.region.addressOf b.off = .ok (p.region.base + b.off) :=
  if_pos (f.off_lt hp hb).le

theorem apart_of_ne (hb : b ∈ live) (hc : c ∈ live) (hne : b ≠ c) : p.Apart b c := by
  have hinj := List.inj_on_of_nodup_map f.nodup
  rcases f.steady.held_apart (f.held_block hb) (f.held_block hc) with ⟨heq, _⟩ | happart
  · exact absurd (hinj hb hc heq) hne
  · exact happart

theorem apart : live.Pairwise p.Apart :=
  (f.nodup.of_map _).pairwise_of_forall_ne fun _ hb _ hc hne => f.apart_of_ne hb hc hne

include hp

theorem chunkSize_large (hb : b ∈ live) (large : p.config.maxSize < b.size) :
    p.chunkSize b.size = p.config.page.pagesFor b.size * p.config.pageSize :=
  Pool.chunkSize_of_large hp large (f.fits b hb large)

theorem pageOf_lt (hb : b ∈ live) : p.pageOf b.off < p.pageCount := by
  obtain ⟨⟨low, high⟩, _⟩ := (f.steady.held_iff hp).1 (f.held_block hb)
  exact hp.div_lt low high

/-- A request above half a page has a run of its own. -/
theorem use_of_large (hb : b ∈ live) (large : p.config.maxSize < b.size) :
    a.use (p.pageOf b.off) = .runStart (p.config.page.pagesFor b.size) ∧
      b.off = p.dataOf (p.pageOf b.off) := by
  have hsize := f.chunkSize_large hp hb large
  have hpages := p.config.page.pagesFor_pos (f.pos b hb)
  have hholds := ((f.steady.held_iff hp).1 (f.held_block hb)).2
  have hi := f.pageOf_lt hp hb
  rw [hsize] at hholds
  cases huse : a.use (p.pageOf b.off) with
  | free =>
    rw [huse] at hholds
    exact hholds.elim
  | runRest =>
    rw [huse] at hholds
    exact hholds.elim
  | runStart n =>
    rw [huse] at hholds
    obtain ⟨hoff, hlen⟩ := hholds
    exact ⟨by rw [Nat.eq_of_mul_eq_mul_right p.config.pageSize_pos hlen], hoff⟩
  | chunks shift taken =>
    rw [huse] at hholds
    obtain ⟨k, _, _, _, hlen⟩ := hholds
    exact absurd hlen.symm
      (Config.two_pow_lt_mul (f.steady.chunks_class _ hi shift taken huse) hpages).ne

/-- A request up to half a page has a chunk of a page of its class. -/
theorem use_of_small (hb : b ∈ live) (small : b.size ≤ p.config.maxSize) :
    ∃ taken k, a.use (p.pageOf b.off) = .chunks (p.config.shiftFor b.size) taken ∧ k ∈ taken ∧
      p.config.reserved (p.config.shiftFor b.size) ≤ k ∧
      b.off = p.chunkAt (p.pageOf b.off) (p.config.shiftFor b.size) k := by
  have hsize := Pool.chunkSize_of_small (p := p) small
  have hholds := ((f.steady.held_iff hp).1 (f.held_block hb)).2
  have hi := f.pageOf_lt hp hb
  cases huse : a.use (p.pageOf b.off) with
  | free =>
    rw [huse] at hholds
    exact hholds.elim
  | runRest =>
    rw [huse] at hholds
    exact hholds.elim
  | runStart n =>
    rw [huse] at hholds
    have hlt := Pool.chunkSize_lt_of_small (p := p) small
    have hle := Nat.le_mul_of_pos_left p.config.pageSize (f.steady.start_pos _ hi n huse)
    rw [hholds.2] at hlt
    omega
  | chunks shift taken =>
    rw [huse] at hholds
    obtain ⟨k, hk, hres, hoff, hlen⟩ := hholds
    have hshift : p.config.shiftFor b.size = shift :=
      Nat.pow_right_injective (le_refl 2) (hsize.symm.trans hlen)
    rw [hshift]
    exact ⟨taken, k, rfl, hk, hres, hoff⟩

theorem block_of_runStart (hi : i < p.pageCount) (huse : a.use i = .runStart n) :
    ∃ b ∈ live, p.config.maxSize < b.size ∧ b.off = p.dataOf i ∧
      p.config.page.pagesFor b.size = n := by
  obtain ⟨b, hb, hoff, hlen⟩ := (f.held _ _).1
    ⟨i, hi, by rw [huse]; exact ⟨rfl, rfl⟩⟩
  have large : p.config.maxSize < b.size := by
    by_contra small
    have hlt := Pool.chunkSize_lt_of_small (p := p) (not_lt.1 small)
    have hle := Nat.le_mul_of_pos_left p.config.pageSize (f.steady.start_pos i hi n huse)
    omega
  rw [f.chunkSize_large hp hb large] at hlen
  exact ⟨b, hb, large, hoff, Nat.eq_of_mul_eq_mul_right p.config.pageSize_pos hlen⟩

theorem page_of_within {off : Nat} (hb : b ∈ live) (large : p.config.maxSize < b.size)
    (low : b.off ≤ off) (high : off < b.off + p.chunkSize b.size) :
    p.pageOf b.off ≤ p.pageOf off ∧
      p.pageOf off < p.pageOf b.off + p.config.page.pagesFor b.size := by
  obtain ⟨_, hoff⟩ := f.use_of_large hp hb large
  have hstart := p.start_le_dataOf (p.pageOf b.off)
  have hsplit := Pool.dataOf_pageOf_add (show p.start ≤ off by omega)
  have hwithin := Nat.mod_lt (off - p.start) p.config.pageSize_pos
  rw [f.chunkSize_large hp hb large, hoff, ← Pool.dataOf_add_eq] at high
  constructor
  · by_contra hnot
    have hmono := p.dataOf_mono (Nat.succ_le_of_lt (not_le.1 hnot))
    rw [Nat.succ_eq_add_one, Pool.dataOf_succ] at hmono
    omega
  · by_contra hnot
    have hmono := p.dataOf_mono (not_lt.1 hnot)
    omega

theorem block_of_runRest (hi : i < p.pageCount) (huse : a.use i = .runRest) :
    ∃ b ∈ live, p.config.maxSize < b.size ∧ b.off + p.config.pageSize ≤ p.dataOf i ∧
      p.dataOf (i + 1) ≤ b.off + p.chunkSize b.size := by
  obtain ⟨j, n, hstart, hlow, hhigh⟩ := f.steady.rest_start i hi huse
  obtain ⟨b, hb, large, hoff, hn⟩ := f.block_of_runStart hp (hlow.trans hi) hstart
  have hmono := p.dataOf_mono (Nat.succ_le_of_lt hlow)
  have hmono' := p.dataOf_mono (Nat.succ_le_of_lt hhigh)
  rw [Nat.succ_eq_add_one, Pool.dataOf_succ] at hmono
  refine ⟨b, hb, large, by omega, ?_⟩
  rwa [f.chunkSize_large hp hb large, hoff, hn, ← Pool.dataOf_add_eq]

omit hp in
theorem mem_taken_iff (hi : i < p.pageCount) (huse : a.use i = .chunks shift taken)
    (hk : k < p.config.chunkCount shift) :
    k ∈ taken ↔ k < p.config.reserved shift ∨ ∃ b ∈ live, b.off = p.chunkAt i shift k := by
  have hclass := f.steady.chunks_class i hi shift taken huse
  constructor
  · intro hmem
    by_cases hres : k < p.config.reserved shift
    · exact .inl hres
    · obtain ⟨b, hb, hoff, _⟩ := (f.held _ _).1
        ⟨i, hi, by rw [huse]; exact ⟨k, hmem, not_lt.1 hres, rfl, rfl⟩⟩
      exact .inr ⟨b, hb, hoff⟩
  · rintro (hres | ⟨b, hb, hoff⟩)
    · exact f.steady.chunks_ge i hi shift taken huse (Finset.mem_range.2 hres)
    · obtain ⟨j, hj, hholds⟩ := f.held_block hb
      have hpage := f.steady.pageOf_of_holds hj hholds
      rw [hoff, (Pool.pageOf_chunkAt hclass hk).1] at hpage
      subst hpage
      rw [huse] at hholds
      obtain ⟨k', hmem, _, hoff', _⟩ := hholds
      exact Pool.chunkAt_inj.1 (hoff'.symm.trans hoff) ▸ hmem

omit hp in
theorem use_of_kind_small (hi : i < p.pageCount) (hkind : (table m (p.page i)).kind = .small) :
    ∃ shift taken, a.use i = .chunks shift taken ∧ shift < p.config.exactShift ∧
      Pool.recordedShift (table m (p.page i)).slab = shift := by
  have hpage := f.stores.encodes.pages i hi
  have hmarks := hpage.marks
  rw [hpage.kind] at hkind
  cases huse : a.use i with
  | chunks shift taken =>
    rw [huse] at hkind hmarks
    have hclass := f.steady.chunks_class i hi shift taken huse
    have hlt := Config.shift_lt_of_isClass hclass
    have small : shift < p.config.exactShift := by
      by_contra hnot
      rcases Nat.eq_or_lt_of_le (not_lt.1 hnot) with rfl | big
      · cases (Config.kindFor_exact p.config).symm.trans hkind
      · cases (Config.kindFor_big big).symm.trans hkind
    refine ⟨shift, taken, rfl, small, ?_⟩
    rw [((occupied_small small).1 hmarks).1, recordedShift_ofNat (by omega)]
  | _ =>
    rw [huse] at hkind
    cases hkind

end Follows

/-- The live allocations of a pool lie apart. -/
structure Pool.Separated (p : Pool) (live : List Block) (m : Memory) : Prop where
  apart : live.Pairwise p.Apart
  inside : ∀ b ∈ live, p.start ≤ b.off ∧ b.off + p.chunkSize b.size ≤ p.finish
  bitmaps : ∀ b ∈ live, ∀ i < p.pageCount, (table m (p.page i)).kind = .small →
    b.off + p.chunkSize b.size ≤ p.dataOf i ∨
      p.dataOf i + 8 * p.config.words (Pool.recordedShift (table m (p.page i)).slab) ≤ b.off
  chunk_aligned : ∀ b ∈ live, b.size ≤ p.config.maxSize → p.chunkSize b.size ∣ b.off
  run_aligned : ∀ b ∈ live, p.config.maxSize < b.size → p.config.pageSize ∣ b.off

theorem Follows.separated (f : Follows p a live m) (hp : p.Placed) : p.Separated live m where
  apart := f.apart
  inside b hb := f.steady.held_inside hp (f.held_block hb)
  bitmaps b hb i hi hkind := by
    obtain ⟨shift, taken, huse, small, hshift⟩ := f.use_of_kind_small hi hkind
    rw [hshift]
    exact f.steady.held_apart_bitmap hi huse small (f.held_block hb)
  chunk_aligned b hb small := by
    have hlt := Pool.chunkSize_lt_of_small (p := p) small
    rcases f.steady.held_aligned hp (f.held_block hb) with ⟨hdvd, _⟩ | ⟨_, n, hn, hlen⟩
    · exact hdvd
    · have hle := Nat.le_mul_of_pos_left p.config.pageSize hn
      omega
  run_aligned b hb large := by
    rw [(f.use_of_large hp hb large).2]
    exact hp.pageSize_dvd_dataOf _

/-- Whatever is asked for and freed after `init`, in every state reached no two live allocations
overlap. -/
theorem live_allocations_separated {region : Region} {config : Config} {s s' : Arena}
    (hlen : region.len < wordLimit) (h : Pool.init region config s = .ok (.ok p) s')
    (calls : List Call) :
    ∃ answers live t, p.replay calls [] s' = .ok (answers, live) t ∧
      p.Separated live t.memory := by
  obtain ⟨hp, live, t, run, f⟩ := follows_replay hlen h calls
  exact ⟨_, live, t, run, f.separated hp⟩

/-- Sixteen host pages, used by requests of each kind and by frees that are done or refused. -/
theorem live_allocations_separated_host : ∃ p s',
    Pool.init ⟨0, 65536⟩ Config.host ⟨Memory.zeroed, #[]⟩ = .ok (.ok p) s' ∧
    ∃ answers live t, p.replay [.alloc 8 (by decide), .alloc 64 (by decide),
        .alloc 2048 (by decide), .alloc 5000 (by decide), .free 4096, .free 17] [] s' =
        .ok (answers, live) t ∧ p.Separated live t.memory := by
  obtain ⟨p, s', h⟩ := Pool.init_host
  exact ⟨p, s', h, live_allocations_separated (by decide) h _⟩

end SharedSlab.Slab
