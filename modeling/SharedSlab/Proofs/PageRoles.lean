import SharedSlab.Proofs.LiveBlocks

set_option autoImplicit false

/-!
# The order of a pool

`InOrder` says of the words of a pool what a reader of its descriptors may rely on: the lists close,
every page is part of one thing, and its descriptor says which. The free runs and the lists of pages
are named; the live allocations say what was given out. Stale links are nowhere promised to be gone:
a page that is on no list has a null `next`, and only that is ever asked.
-/

namespace SharedSlab.Slab

inductive PageRole where
  | free (run : PageRun)
  | given (block : Block)
  | chunks (shift : Nat)

namespace Pool

def Plays (p : Pool) (d : Table) (runs : List PageRun) (live : List Block) (i : Nat) :
    PageRole → Prop
  | .free r => r ∈ runs ∧ r.first ≤ i ∧ i < r.finish
  | .given b => b ∈ live ∧ p.config.maxSize < b.size ∧ b.off ≤ p.dataOf i ∧
      p.dataOf i < b.off + p.chunkSize b.size
  | .chunks shift => p.classOf d i = some shift

/-- A page is part of a run, and on no list. -/
structure InRunWith (p : Pool) (d : Table) (slab : UInt64) (i : Nat) : Prop where
  slab : (d (p.page i)).slab = slab
  next : (d (p.page i)).next = 0
  kind : (d (p.page i)).kind = .page

structure FreeRun (p : Pool) (d : Table) (r : PageRun) : Prop where
  pos : 0 < r.len
  inside : r.finish ≤ p.pageCount
  linked : (d (p.page r.first)).next ≠ 0
  kind : (d (p.page r.first)).kind = .page
  length : (d (p.page r.first)).slab = UInt64.ofNat r.len
  rest : ∀ j, r.first < j → j < r.finish → p.InRunWith d 0 j
  back : 1 < r.len → (d (p.page (r.finish - 1))).link = nodeOffset (p.page r.first)

structure GivenRun (p : Pool) (d : Table) (b : Block) : Prop where
  aligned : b.off = p.dataOf (p.pageOf b.off)
  inside : p.pageOf b.off + p.config.page.pagesFor b.size ≤ p.pageCount
  first : p.InRunWith d (UInt64.ofNat (p.config.page.pagesFor b.size) ||| runStart) (p.pageOf b.off)
  rest : ∀ j, p.pageOf b.off < j → j < p.pageOf b.off + p.config.page.pagesFor b.size →
    p.InRunWith d runInterior j

def HasRoom (p : Pool) (live : List Block) (i shift : Nat) : Prop :=
  ∃ k, p.config.reserved shift ≤ k ∧ k < p.config.chunkCount shift ∧
    ∀ b ∈ live, b.off ≠ p.chunkAt i shift k

/-- A page of a class is kept for a live chunk, and is on the list of its class while it has room.
Its occupancy is that of the reserved and the live chunks. -/
structure ClassPage (p : Pool) (m : Memory) (live : List Block) (list : List Nat) (i shift : Nat) :
    Prop where
  isClass : p.config.IsClass shift
  kind : (table m (p.page i)).kind = p.config.kindFor shift
  busy : ∃ b ∈ live, p.pageOf b.off = i ∧ b.size ≤ p.config.maxSize ∧
    p.config.shiftFor b.size = shift
  linked : (table m (p.page i)).next ≠ 0 ↔ p.HasRoom live i shift
  listed : i ∈ list ↔ p.HasRoom live i shift
  occupied : ∃ taken, Occupied p i shift taken (table m (p.page i)).slab m.word ∧
    ∀ k < p.config.chunkCount shift,
      k ∈ taken ↔ k < p.config.reserved shift ∨ ∃ b ∈ live, b.off = p.chunkAt i shift k

/-- The words of a pool are in order: `runs` are its free runs and `lists` the pages on the list of
each class. -/
structure InOrder (p : Pool) (m : Memory) (live : List Block) (runs : List PageRun)
    (lists : Nat → List Nat) : Prop where
  free_ring : Ring (table m) 0 (runs.map fun r => p.page r.first)
  class_ring : ∀ shift, p.config.IsClass shift →
    Ring (table m) (p.slot shift) ((lists shift).map p.page)
  free_apart : ∀ r ∈ runs, ∀ shift, r.first ∉ lists shift
  class_apart : ∀ i shift shift', i ∈ lists shift → i ∈ lists shift' → shift = shift'
  class_listed : ∀ shift, ∀ i ∈ lists shift,
    i < p.pageCount ∧ p.classOf (table m) i = some shift
  run_apart : runs.Pairwise PageRun.Apart
  role : ∀ i < p.pageCount, ∃! role, p.Plays (table m) runs live i role
  free_run : ∀ r ∈ runs, p.FreeRun (table m) r
  given_run : ∀ b ∈ live, p.config.maxSize < b.size → p.GivenRun (table m) b
  class_page : ∀ i < p.pageCount, ∀ shift, p.classOf (table m) i = some shift →
    p.ClassPage m live (lists shift) i shift
  count : m.word 9 = UInt64.ofNat (runs.map PageRun.len).sum

end Pool

variable {p : Pool} {a : Ledger} {live : List Block} {m : Memory} {i j shift : Nat} {r : PageRun}
  {b : Block} {role role' : PageRole} {taken : Finset Nat}

namespace Follows

variable (f : Follows p a live m) (hp : p.Placed)
include f

section Roles

include hp

theorem use_of_plays (hi : i < p.pageCount) (h : p.Plays (table m) a.runs live i role) :
    match role with
    | .free _ => a.use i = .free
    | .given _ => a.use i = .runRest ∨ ∃ n, a.use i = .runStart n
    | .chunks shift => ∃ taken, a.use i = .chunks shift taken := by
  cases role with
  | free r =>
    obtain ⟨hr, low, high⟩ := h
    exact f.steady.run_free r hr i low high
  | given b =>
    obtain ⟨hb, large, low, high⟩ := h
    have huse := (f.use_of_large hp hb large).1
    obtain ⟨hle, hlt⟩ := f.page_of_within hp hb large low high
    have hpage : p.pageOf (p.dataOf i) = i := (p.pageOf_add i p.config.pageSize_pos).1
    rw [hpage] at hle hlt
    rcases Nat.eq_or_lt_of_le hle with heq | hafter
    · exact .inr ⟨_, heq ▸ huse⟩
    · exact .inl (f.steady.start_rest _ (f.pageOf_lt hp hb) _ huse i hafter hlt)
  | chunks shift => exact (f.stores.encodes.classOf_eq_some_iff f.steady hi).1 h

theorem exists_plays (hi : i < p.pageCount) : ∃ role, p.Plays (table m) a.runs live i role := by
  have hpage := p.config.pageSize_pos
  cases huse : a.use i with
  | free =>
    obtain ⟨r, hr, low, high⟩ := f.steady.covered i hi huse
    exact ⟨.free r, hr, low, high⟩
  | runStart n =>
    obtain ⟨b, hb, large, hoff, hn⟩ := f.block_of_runStart hp hi huse
    have hle := Nat.le_mul_of_pos_left p.config.pageSize (f.steady.start_pos i hi n huse)
    refine ⟨.given b, hb, large, hoff.le, ?_⟩
    rw [f.chunkSize_large hp hb large, hoff, hn]
    omega
  | runRest =>
    obtain ⟨b, hb, large, hlow, hhigh⟩ := f.block_of_runRest hp hi huse
    rw [Pool.dataOf_succ] at hhigh
    exact ⟨.given b, hb, large, by omega, by omega⟩
  | chunks shift taken =>
    exact ⟨.chunks shift, (f.stores.encodes.classOf_eq_some_iff f.steady hi).2 ⟨taken, huse⟩⟩

theorem plays_unique (hi : i < p.pageCount) (h : p.Plays (table m) a.runs live i role)
    (h' : p.Plays (table m) a.runs live i role') : role = role' := by
  have huse := f.use_of_plays hp hi h
  have huse' := f.use_of_plays hp hi h'
  cases role with
  | free r =>
    cases role' with
    | free r' => rw [f.steady.run_unique h.1 h'.1 h.2 h'.2]
    | given b => simp [huse] at huse'
    | chunks shift => simp [huse] at huse'
  | given b =>
    cases role' with
    | free r => simp [huse'] at huse
    | given c =>
      obtain ⟨hb, _, low, high⟩ := h
      obtain ⟨hc, _, low', high'⟩ := h'
      by_contra hne
      have hbc : b ≠ c := fun heq => hne (heq ▸ rfl)
      have hapart := f.apart_of_ne hb hc hbc
      rw [Pool.Apart] at hapart
      omega
    | chunks shift =>
      obtain ⟨taken, huse'⟩ := huse'
      simp [huse'] at huse
  | chunks shift =>
    cases role' with
    | free r => simp [huse'] at huse
    | given b =>
      obtain ⟨taken, huse⟩ := huse
      simp [huse] at huse'
    | chunks shift' => rw [Option.some.inj (h.symm.trans h')]

end Roles

theorem freeRun (hr : r ∈ a.runs) : p.FreeRun (table m) r := by
  have co := f.steady.toCoherent
  have written := f.stores.encodes.runs r hr
  have hpage : ∀ j, r.first ≤ j → j < r.finish →
      a.use j = .free ∧ Written p a (table m) m.word j := fun j low high =>
    ⟨co.run_free r hr j low high, f.stores.encodes.pages j (high.trans_le (co.run_le r hr))⟩
  have hlinked : a.Linked r.first := .inl ⟨r, hr, rfl⟩
  obtain ⟨hfirst, first⟩ := hpage r.first (le_refl _) (co.first_lt_finish hr)
  refine ⟨co.run_pos r hr, co.run_le r hr, fun hzero => ?_, ?_, written.length,
    fun j low high => ?_, written.back⟩
  · exact (f.stores.encodes.next_eq_zero_iff co (co.first_lt hr)).1 hzero hlinked
  · rw [first.kind, hfirst]
    rfl
  · obtain ⟨hfree, inner⟩ := hpage j low.le high
    refine ⟨inner.blank hfree fun q hq heq => ?_,
      inner.idle (co.not_linked_of_inner hr low high), ?_⟩
    · have hqr : q = r := co.run_unique (j := j) hq hr ⟨heq.le, heq ▸ co.first_lt_finish hq⟩
        ⟨low.le, high⟩
      rw [hqr] at heq
      omega
    · rw [inner.kind, hfree]
      rfl

theorem givenRun (hp : p.Placed) (hb : b ∈ live) (large : p.config.maxSize < b.size) :
    p.GivenRun (table m) b := by
  have co := f.steady.toCoherent
  obtain ⟨huse, hoff⟩ := f.use_of_large hp hb large
  have hi := f.pageOf_lt hp hb
  have hle := f.steady.start_le _ hi _ huse
  have first := f.stores.encodes.pages _ hi
  have hmarks := first.marks
  have hkind := first.kind
  rw [huse] at hmarks hkind
  refine ⟨hoff, hle, ⟨hmarks, first.idle (co.not_linked_of_held (.inr ⟨_, huse⟩)), hkind⟩,
    fun j low high => ?_⟩
  have hrest := f.steady.start_rest _ hi _ huse j low high
  have inner := f.stores.encodes.pages j (high.trans_le hle)
  have hmarks := inner.marks
  have hkind := inner.kind
  rw [hrest] at hmarks hkind
  exact ⟨hmarks, inner.idle (co.not_linked_of_held (.inl hrest)), hkind⟩

section Class

variable (hi : i < p.pageCount) (huse : a.use i = .chunks shift taken)
include hi huse

theorem hasRoom_iff :
    p.HasRoom live i shift ↔ taken ≠ Finset.range (p.config.chunkCount shift) := by
  rw [Ne, eq_range_iff (f.steady.chunks_le i hi shift taken huse)]
  constructor
  · rintro ⟨k, hres, hk, hnone⟩ hall
    rcases (f.mem_taken_iff hi huse hk).1 (hall k hk) with hlt | ⟨b, hb, hoff⟩
    · omega
    · exact hnone b hb hoff
  · intro hnot
    push Not at hnot
    obtain ⟨k, hk, hfree⟩ := hnot
    rw [f.mem_taken_iff hi huse hk] at hfree
    push Not at hfree
    exact ⟨k, hfree.1, hk, hfree.2⟩

theorem classPage (hp : p.Placed) : p.ClassPage m live (a.listed shift) i shift := by
  have hclass := f.steady.chunks_class i hi shift taken huse
  have written := f.stores.encodes.pages i hi
  have hmarks := written.marks
  have hkind := written.kind
  rw [huse] at hmarks hkind
  have hlisted : i ∈ a.listed shift ↔ p.HasRoom live i shift :=
    (f.steady.listed_iff i hi shift taken huse).trans (f.hasRoom_iff hi huse).symm
  refine ⟨hclass, hkind, ?_, ?_, hlisted, taken, hmarks, fun k hk => f.mem_taken_iff hi huse hk⟩
  · obtain ⟨k, hk, hres⟩ := f.steady.exists_chunk hi huse
    have hlt := Finset.mem_range.1 (f.steady.chunks_le i hi shift taken huse hk)
    obtain ⟨b, hb, hoff, hlen⟩ := (f.held _ _).1
      ⟨i, hi, by rw [huse]; exact ⟨k, hk, hres, rfl, rfl⟩⟩
    have hpage : p.pageOf b.off = i := hoff ▸ (Pool.pageOf_chunkAt hclass hlt).1
    have small : b.size ≤ p.config.maxSize := by
      by_contra large
      have hstart := (f.use_of_large hp hb (not_le.1 large)).1
      rw [hpage, huse] at hstart
      cases hstart
    obtain ⟨taken', _, hchunks, _⟩ := f.use_of_small hp hb small
    rw [hpage, huse] at hchunks
    cases hchunks
    exact ⟨b, hb, hpage, small, rfl⟩
  · rw [Ne, f.stores.encodes.next_eq_zero_iff f.steady.toCoherent hi, not_not,
      f.steady.linked_iff_of_chunks huse, hlisted]

end Class

theorem inOrder (hp : p.Placed) : p.InOrder m live a.runs a.listed where
  free_ring := f.stores.encodes.rings.ring 0 (zero_mem_heads p)
  class_ring shift hclass := by
    rw [← ringOf_slot hclass]
    exact f.stores.encodes.rings.ring _ (slot_mem_heads hclass)
  free_apart r hr shift := by
    have hfirst := f.steady.first_lt_finish hr
    exact f.steady.not_listed_of_free (f.steady.run_free r hr r.first (le_refl _) hfirst)
  class_apart i shift shift' hmem hmem' := by
    obtain ⟨taken, huse⟩ := f.steady.listed_use shift' i hmem'
    exact f.steady.shift_eq_of_listed huse hmem
  class_listed shift i hmem := by
    have hi := f.steady.listed_lt shift i hmem
    have huse := f.steady.listed_use shift i hmem
    exact ⟨hi, (f.stores.encodes.classOf_eq_some_iff f.steady hi).2 huse⟩
  run_apart := f.steady.apart
  role i hi := by
    obtain ⟨role, h⟩ := f.exists_plays hp hi
    exact ⟨role, h, fun _ h' => f.plays_unique hp hi h' h⟩
  free_run r hr := f.freeRun hr
  given_run b hb large := f.givenRun hp hb large
  class_page i hi shift hclass := by
    obtain ⟨taken, huse⟩ := (f.stores.encodes.classOf_eq_some_iff f.steady hi).1 hclass
    exact f.classPage hi huse hp
  count := f.stores.count

end Follows

/-- After any history the words of the pool are in order. -/
theorem pool_in_order {region : Region} {config : Config} {s s' : Arena}
    (hlen : region.len < wordLimit) (h : Pool.init region config s = .ok (.ok p) s')
    (calls : List Call) :
    ∃ answers live t runs lists, p.replay calls [] s' = .ok (answers, live) t ∧
      p.InOrder t.memory live runs lists := by
  obtain ⟨hp, live, t, run, f⟩ := follows_replay hlen h calls
  exact ⟨_, live, t, _, _, run, f.inOrder hp⟩

/-- A run before one that stays is given back, and a page of a class comes and goes. -/
theorem pool_in_order_host : ∃ p s',
    Pool.init ⟨0, 65536⟩ Config.host ⟨Memory.zeroed, #[]⟩ = .ok (.ok p) s' ∧
    ∃ answers live t runs lists, p.replay [.alloc 5000 (by decide), .alloc 8192 (by decide),
        .alloc 64 (by decide), .free 4096, .free 20480, .alloc 2048 (by decide)] [] s' =
        .ok (answers, live) t ∧ p.InOrder t.memory live runs lists := by
  obtain ⟨p, s', h⟩ := Pool.init_host
  exact ⟨p, s', h, pool_in_order (by decide) h _⟩

end SharedSlab.Slab
