import SharedSlab.Proofs.Conservation
import SharedSlab.Proofs.Opening
import SharedSlab.Proofs.SharedUse

set_option autoImplicit false

/-!
# Statistics

Processes use one region, each through handles of its own, in any order. What a handle reports of
pages is what the live allocations of all of them take. What it reports of calls is its own: a chunk
may be freed through another handle than it was requested through, so only the sums over all handles
differ by the number of live allocations.
-/

namespace SharedSlab

open Slab

namespace SharedM

theorem bind_liftM {α β : Type} {x : Except Fault α} {a : α} (h : x = .ok a) (f : α → SharedM β)
    (s : Session) : ((liftM x : SharedM α) >>= f) s = f a s := by
  rw [h]
  rfl

end SharedM

namespace SharedPool

variable {h : SharedPool} {live : List Block} {m : Memory} {s : Session}

structure Reports (h : SharedPool) (live : List Block) (m : Memory) (c : Counters)
    (r : HeapStats) : Prop where
  total : r.total = h.pool.pageCount * h.config.pageSize
  split : r.total = r.used + r.free
  used : r.used =
    h.config.pageSize * (h.pool.runTotal live + (h.pool.busyPages (table m) live).card)
  unused_iff : r.used = 0 ↔ live = []
  allocations : r.allocations = c.allocations
  deallocations : r.deallocations = c.deallocations
  percent : h.size < 2 ^ 52 → ∃ k, r.usagePercent = .ok k ∧ k ≤ 100

theorem pages_eq_zero_iff {p : Pool} {a : Ledger} (f : Follows p a live m) (hp : p.Placed) :
    p.runTotal live + (p.busyPages (table m) live).card = 0 ↔ live = [] := by
  constructor
  · intro none
    obtain ⟨runs, busy⟩ := Nat.add_eq_zero_iff.1 none
    rw [Finset.card_eq_zero] at busy
    rw [List.eq_nil_iff_forall_not_mem]
    intro b hb
    by_cases large : p.config.maxSize < b.size
    · have pos := p.config.page.pagesFor_pos (f.pos b hb)
      have zero := List.sum_eq_zero_iff_forall_eq_nat.1 runs (p.config.page.pagesFor b.size)
        (List.mem_map_of_mem (List.mem_filter.2 ⟨hb, decide_eq_true large⟩))
      omega
    · obtain ⟨taken, _, use, _⟩ := f.use_of_small hp hb (not_lt.1 large)
      have mem := (f.mem_busyPages hp).2 ⟨f.pageOf_lt hp hb, _, taken, use⟩
      rw [busy] at mem
      cases mem
  · rintro rfl
    have busy : p.busyPages (table m) [] = ∅ := by
      rw [Pool.busyPages, Finset.filter_eq_empty_iff]
      rintro i _ ⟨_, b, hb, _⟩
      cases hb
    rw [busy]
    rfl

theorem total_le (hp : h.pool.Placed) : h.pool.pageCount * h.config.pageSize ≤ h.size := by
  have finish := hp.finish
  have finish_le := hp.finish_le
  rw [Pool.dataOf] at finish
  exact (Nat.le_add_left _ _).trans (finish.symm.le.trans finish_le)

theorem snapshot_run {a : Ledger} (hp : h.pool.Placed) (f : Follows h.pool a live s.arena.memory)
    (self : Caller) (free : s.arena.memory.word 0 = 0) :
    h.snapshot self s = .ok (a.snapshot h.pool) ((s.withLock self.word).withLock 0) := by
  have taken : Follows h.pool a live (s.withLock self.word).arena.memory :=
    f.setHeader hp (by decide) self.word
  exact guarded_run self free (SharedM.onPool_run (taken.snapshot_run hp))
    (Memory.word_setWord_self ..)

theorem usagePercent_le {r : HeapStats} (pos : 0 < r.total) (used_le : r.used ≤ r.total)
    (short : r.total < 2 ^ 52) : ∃ k, r.usagePercent = .ok k ∧ k ≤ 100 := by
  have fits : r.used * 100 < wordLimit := by
    rw [wordLimit_eq]
    omega
  refine ⟨r.used * 100 / r.total, ?_, Nat.div_le_of_le_mul (Nat.mul_le_mul_right 100 used_le)⟩
  rw [HeapStats.usagePercent, if_neg pos.ne', Checked.mul_eq_ok fits]
  rfl

theorem total_eq {p : Pool} {a : Ledger} (f : Follows p a live m) (hp : p.Placed) :
    p.pageCount * p.config.pageSize = a.freePages * p.config.pageSize +
      p.config.pageSize * (p.runTotal live + (p.busyPages (table m) live).card) := by
  rw [f.pageCount_eq hp, Nat.add_assoc, Nat.add_mul, Nat.mul_comm p.config.pageSize]

theorem reports_of_follows {a : Ledger} (f : Follows h.pool a live m) (hp : h.pool.Placed)
    (c : Counters) : h.Reports live m c
      ⟨h.pool.pageCount * h.config.pageSize,
        h.pool.pageCount * h.config.pageSize - a.freePages * h.config.pageSize,
        a.freePages * h.config.pageSize, c.allocations, c.deallocations⟩ := by
  have total := total_eq f hp
  have used : h.pool.pageCount * h.config.pageSize - a.freePages * h.config.pageSize =
      h.config.pageSize * (h.pool.runTotal live + (h.pool.busyPages (table m) live).card) :=
    Nat.sub_eq_of_eq_add' total
  have free_le : a.freePages * h.config.pageSize ≤ h.pool.pageCount * h.config.pageSize :=
    (Nat.le_add_right _ _).trans total.ge
  refine ⟨rfl, (Nat.sub_add_cancel free_le).symm, used, ?_, rfl, rfl, fun short => ?_⟩
  · dsimp only
    rw [used, Nat.mul_eq_zero, or_iff_right h.config.pageSize_pos.ne', pages_eq_zero_iff f hp]
  · exact usagePercent_le (Nat.mul_pos hp.pageCount_pos h.config.pageSize_pos)
      (Nat.sub_le _ _) ((h.total_le hp).trans_lt short)

theorem stats_run (i : h.Working 0 live s.arena.memory) (self : Caller) :
    ∃ r t, h.stats self s = .ok r t ∧ h.Reports live s.arena.memory s.counters r ∧
      t.counters = s.counters ∧ ∀ x, t.arena.memory.word x = s.arena.memory.word x := by
  obtain ⟨a, f⟩ := i.follows
  have total_lt := (h.total_le i.placed).trans_lt i.placed.len_lt
  have free_le : a.freePages * h.config.pageSize ≤ h.pool.pageCount * h.config.pageSize :=
    (Nat.le_add_right _ _).trans (total_eq f i.placed).ge
  have total : Checked.mul (a.snapshot h.pool).pageCount (a.snapshot h.pool).pageSize =
      .ok (h.pool.pageCount * h.config.pageSize) := Checked.mul_eq_ok total_lt
  have free : Checked.mul (a.snapshot h.pool).freePages (a.snapshot h.pool).pageSize =
      .ok (a.freePages * h.config.pageSize) := Checked.mul_eq_ok (free_le.trans_lt total_lt)
  refine ⟨_, (s.withLock self.word).withLock 0, ?_, reports_of_follows f i.placed s.counters, rfl,
    fun x => ?_⟩
  · rw [stats, SharedM.bind_run (h.snapshot_run i.placed f self i.word),
      SharedM.bind_liftM total, SharedM.bind_liftM free,
      SharedM.bind_liftM (Checked.sub_eq_ok free_le)]
    rfl
  · by_cases zero : 0 = x
    · rw [← zero, i.word]
      exact Memory.word_setWord_self ..
    · exact (Memory.word_setWord_of_ne _ _ zero).trans (Memory.word_setWord_of_ne _ _ zero)

end SharedPool

namespace SharedPool

variable {h g : SharedPool} {w : UInt64} {live live' : List Block} {m : Memory} {s t : Session}
  {r : Region}

theorem Working.view (i : h.Working w live m) (len : r.len = h.size)
    (view : g.pool = h.pool.inRegion r) : g.Working w live m := by
  obtain ⟨a, f⟩ := i.follows
  refine ⟨?_, i.word, a, ?_⟩
  · rw [view]
    exact i.placed.inRegion len.ge (len.trans_lt i.placed.len_lt)
  · rw [view]
    exact f.inRegion r

theorem Reckoned.of_view (r : g.Reckoned w live live' s t) {base : Nat}
    (view : g.pool = h.pool.inRegion ⟨base, h.size⟩) : h.Reckoned w live live' s t := by
  have len : h.pool.region.len = g.size := by
    change h.pool.region.len = g.pool.region.len
    rw [view]
    rfl
  have back : h.pool = g.pool.inRegion h.pool.region := by
    rw [view]
    rfl
  exact ⟨r.working.view len back, r.tally, r.header⟩

theorem Reckoned.inUse (r : h.Reckoned 0 live live' s t) (u : h.pool.InUse s.arena.memory) :
    h.pool.InUse t.arena.memory := by
  obtain ⟨a, f⟩ := r.working.follows
  refine ⟨u.placed, u.layout, fun x lock count => ?_, r.working.word, a, live', f⟩
  rw [r.header _ (HeaderWord.index_lt count)]
  exact u.header x lock count

end SharedPool

theorem SharedPool.Idle.alloc_page {h : SharedPool} {s : Session} (self : Caller)
    (i : h.Idle (Ledger.fresh h.pool.pageCount) [] s.arena.memory) :
    ∃ a u, h.alloc self h.config.pageSize s = .ok (some (h.pool.region.base + h.pool.dataOf 0))
        ⟨u, s.counters.count (.offset (some (h.pool.dataOf 0)))⟩ ∧
      h.Idle a [⟨h.pool.dataOf 0, h.config.pageSize⟩] u.memory := by
  have page := h.config.pageSize_pos
  have large : h.config.maxSize < h.config.pageSize := Nat.div_lt_self page (by decide)
  have one : h.config.page.pagesFor h.config.page.size = 1 := by
    rw [Geometry.pagesFor_eq, Nat.div_self h.config.page.size_pos, Nat.mod_self]
    rfl
  obtain ⟨a, taken⟩ := Ledger.fresh_alloc_of_large large (one.le.trans i.placed.pageCount_pos)
  obtain ⟨found, u, run, allotted⟩ := i.alloc_run self page
  rw [taken] at allotted
  cases allotted with
  | given idle => exact ⟨a, _, run, idle⟩

/-- A handle, and what it has counted. -/
structure Client where
  handle : SharedPool
  counters : Counters

/-- The handles on a region, and what was given through any of them and is not yet freed. -/
structure Users where
  arena : Arena
  clients : List Client
  live : List Block

inductive Turn
  /-- A process has mapped the object of the region at `base` and looks for the pool there, which is
  how `SharedPool.attach` ends. -/
  | join (base : Nat) (object : SharedObject) (o : PoolOptions)
  | ask (self : Caller) (i : Nat) (d : Demand)
  /-- Somebody writes a byte. Users write to no byte that they do not own. -/
  | write (x : Nat) (b : UInt8)

namespace Users

def start (creator : SharedPool) (s : Arena) : Users := ⟨s, [⟨creator, ⟨0, 0⟩⟩], []⟩

def turn (creator : SharedPool) (x : Users) : Turn → Except Fault Users
  | .join base object o =>
    match Slab.Pool.attach ⟨base, creator.size⟩ o.slab x.arena with
    | .ok (.ok pool) t =>
      .ok ⟨t, x.clients ++ [⟨.foundAt pool object o.spin, ⟨0, 0⟩⟩], x.live⟩
    | .ok (.error _) t => .ok ⟨t, x.clients, x.live⟩
    | .error e _ => .error e
  | .ask self i d =>
    match x.clients[i]? with
    | none => .ok x
    | some c =>
      match d.ask self c.handle x.live ⟨x.arena, c.counters⟩ with
      | .ok live t => .ok ⟨t.arena, x.clients.set i ⟨c.handle, t.counters⟩, live⟩
      | .error e _ => .error e
  | .write y b =>
    if creator.pool.Owned x.live y then
      .ok ⟨x.arena.withMemory (x.arena.memory.setByte y b), x.clients, x.live⟩
    else .ok x

def play (creator : SharedPool) (turns : List Turn) (x : Users) : Except Fault Users :=
  turns.foldlM (turn creator) x

def total (count : Counters → Nat) (x : Users) : Nat :=
  (x.clients.map fun c => count c.counters).sum

variable {creator : SharedPool} {x : Users}

/-- What holds of the users at any time. -/
structure Sound (creator : SharedPool) (x : Users) : Prop where
  use : creator.pool.InUse x.arena.memory
  working : creator.Working 0 x.live x.arena.memory
  views : ∀ c ∈ x.clients, ∃ base,
    c.handle.pool = creator.pool.inRegion ⟨base, creator.size⟩
  balanced : x.total Counters.allocations = x.total Counters.deallocations + x.live.length

theorem ask_run {self : Caller} {i : Nat} {d : Demand} {c : Client} {live : List Block}
    {t : Session} (there : x.clients[i]? = some c)
    (run : d.ask self c.handle x.live ⟨x.arena, c.counters⟩ = .ok live t) :
    x.turn creator (.ask self i d) =
      .ok ⟨t.arena, x.clients.set i ⟨c.handle, t.counters⟩, live⟩ := by
  simp only [turn, there, run]

theorem join_run {s : Arena} {base : Nat} {o : PoolOptions} {pool : Pool}
    (run : Slab.Pool.attach ⟨base, creator.size⟩ o.slab x.arena = .ok (.ok pool) s)
    (object : SharedObject) : x.turn creator (.join base object o) =
      .ok ⟨s, x.clients ++ [⟨.foundAt pool object o.spin, ⟨0, 0⟩⟩], x.live⟩ := by
  simp only [turn, run]

theorem play_cons {x' : Users} {v : Turn} (done : x.turn creator v = .ok x') (turns : List Turn) :
    x.play creator (v :: turns) = x'.play creator turns := by
  rw [play, List.foldlM_cons, Checked.bind_run done, play]

theorem sum_set {clients : List Client} {i : Nat} {c : Client} (count : Counters → Nat)
    (there : clients[i]? = some c) (d : Client) :
    ((clients.set i d).map fun c => count c.counters).sum + count c.counters =
      (clients.map fun c => count c.counters).sum + count d.counters := by
  induction clients generalizing i with
  | nil => cases there
  | cons e rest ih =>
    cases i with
    | zero =>
      cases there
      simp only [List.set_cons_zero, List.map_cons, List.sum_cons]
      omega
    | succ i =>
      have step := ih (i := i) there
      simp only [List.set_cons_succ, List.map_cons, List.sum_cons]
      omega

namespace Sound

theorem start {region : Region} {config : Config} {init s : Arena} (hlen : region.len < wordLimit)
    (h : Pool.init region config init = .ok (.ok creator.pool) s) :
    (Users.start creator s).Sound creator := by
  have use := Pool.InUse.of_init hlen h
  have fresh := (follows_init hlen h).2
  refine ⟨use, ⟨use.placed, use.unlocked, _, fresh⟩, fun c hc => ?_, rfl⟩
  cases List.mem_singleton.1 hc
  exact ⟨creator.pool.region.base, rfl⟩

theorem join (so : x.Sound creator) (base : Nat) (object : SharedObject) (o : PoolOptions) :
    ∃ x', x.turn creator (.join base object o) = .ok x' ∧ x'.Sound creator := by
  obtain ⟨t, attached, same⟩ := so.use.attach (r := ⟨base, creator.size⟩) rfl o.slab
  have use : creator.pool.InUse t.memory := same ▸ so.use
  have working : creator.Working 0 x.live t.memory := same ▸ so.working
  by_cases config : o.slab = creator.pool.config
  · rw [if_pos config] at attached
    refine ⟨_, join_run attached object, use, working, fun c hc => ?_, ?_⟩
    · rcases List.mem_append.1 hc with hc | hc
      · exact so.views c hc
      · cases List.mem_singleton.1 hc
        exact ⟨base, rfl⟩
    · have balanced := so.balanced
      simpa [total] using balanced
  · rw [if_neg config] at attached
    refine ⟨⟨t, x.clients, x.live⟩, ?_, use, working, so.views, so.balanced⟩
    simp only [Users.turn, attached]

theorem ask (so : x.Sound creator) (self : Caller) (i : Nat) (d : Demand) :
    ∃ x', x.turn creator (.ask self i d) = .ok x' ∧ x'.Sound creator := by
  cases there : x.clients[i]? with
  | none => exact ⟨x, by simp only [Users.turn, there], so⟩
  | some c =>
    obtain ⟨base, view⟩ := so.views c (List.mem_of_getElem? there)
    obtain ⟨live, t, run, done⟩ := SharedPool.reckons_demand self d
      ⟨x.arena, c.counters⟩ (so.working.view (r := ⟨base, creator.size⟩) rfl view)
    have seen := done.of_view view
    refine ⟨_, ask_run there run, seen.inUse so.use, seen.working, fun e he => ?_, ?_⟩
    · rcases List.mem_or_eq_of_mem_set he with he | rfl
      · exact so.views e he
      · exact ⟨base, view⟩
    · have balanced := so.balanced
      have tally := done.tally
      have allocations := sum_set Counters.allocations there ⟨c.handle, t.counters⟩
      have deallocations := sum_set Counters.deallocations there ⟨c.handle, t.counters⟩
      rw [total, total] at balanced ⊢
      dsimp only at balanced tally allocations deallocations ⊢
      omega

theorem write (so : x.Sound creator) (y : Nat) (b : UInt8) :
    ∃ x', x.turn creator (.write y b) = .ok x' ∧ x'.Sound creator := by
  rw [Users.turn]
  by_cases owned : creator.pool.Owned x.live y
  · rw [if_pos owned]
    have written := (SharedPool.Reckoned.refl (s := ⟨x.arena, ⟨0, 0⟩⟩) so.working).overwrite
        (n := x.arena.memory.setByte y b) fun z free => by
      rw [Memory.byte_setByte, if_neg]
      rintro rfl
      exact free owned
    exact ⟨_, rfl, written.inUse so.use, written.working, so.views, so.balanced⟩
  · rw [if_neg owned]
    exact ⟨x, rfl, so⟩

theorem turn (so : x.Sound creator) (v : Turn) :
    ∃ x', x.turn creator v = .ok x' ∧ x'.Sound creator := by
  cases v with
  | join base object o => exact so.join base object o
  | ask self i d => exact so.ask self i d
  | write y b => exact so.write y b

theorem play (turns : List Turn) (so : x.Sound creator) :
    ∃ x', x.play creator turns = .ok x' ∧ x'.Sound creator := by
  induction turns generalizing x with
  | nil => exact ⟨x, rfl, so⟩
  | cons v turns ih =>
    obtain ⟨x₁, done, so₁⟩ := so.turn v
    obtain ⟨x₂, rest, so₂⟩ := ih so₁
    exact ⟨x₂, (play_cons done turns).trans rest, so₂⟩

end Sound

section Borrowing

variable {region : Region} {config : Config} {init s : Arena} (hlen : region.len < wordLimit)
  (h : Pool.init region config init = .ok (.ok creator.pool) s) (self : Caller)

include hlen h in
theorem start_alloc : ∃ a u live, (start creator s).turn creator
      (.ask self 0 (.single (.alloc creator.config.pageSize))) =
        .ok ⟨u, [⟨creator, ⟨1, 0⟩⟩], live⟩ ∧
    creator.Idle a [⟨creator.pool.dataOf 0, creator.config.pageSize⟩] u.memory := by
  have use := Pool.InUse.of_init hlen h
  obtain ⟨a, u, run, idle⟩ := SharedPool.Idle.alloc_page (h := creator) (s := ⟨s, ⟨0, 0⟩⟩) self
    ⟨use.placed, (follows_init hlen h).2, use.unlocked⟩
  exact ⟨a, u, _, ask_run (c := ⟨creator, ⟨0, 0⟩⟩) (t := ⟨u, ⟨1, 0⟩⟩) rfl (SharedM.bind_run run),
    idle⟩

/-- Who has joined last frees what was live then. -/
theorem join_free {c : Client} {g : SharedPool} {a : Ledger} {live live' : List Block} {b : Block}
    {u : Arena} (i : g.Idle a live' u.memory) (hb : b ∈ live') : ∃ v live'',
      (⟨u, [c, ⟨g, ⟨0, 0⟩⟩], live⟩ : Users).turn creator
        (.ask self 1 (.single (.free (g.pool.region.base + b.off)))) =
          .ok ⟨v, [c, ⟨g, ⟨0, 1⟩⟩], live''⟩ := by
  obtain ⟨_, v, freed, _⟩ := i.free_live (s := ⟨u, ⟨0, 0⟩⟩) self hb
  exact ⟨v, _, ask_run (c := ⟨g, ⟨0, 0⟩⟩) (t := ⟨v, ⟨0, 1⟩⟩) rfl (SharedM.bind_run freed)⟩

include hlen h in
theorem borrows : ∃ turns x c, (start creator s).play creator turns = .ok x ∧ c ∈ x.clients ∧
    c.counters.allocations < c.counters.deallocations := by
  have self : Caller := ⟨7, by decide, by decide, fun _ => false⟩
  obtain ⟨a, u, live, first, idle⟩ := start_alloc hlen h self
  have so := (Sound.start hlen h).turn (.ask self 0 (.single (.alloc creator.config.pageSize)))
  rw [first] at so
  obtain ⟨_, ⟨⟩, so⟩ := so
  obtain ⟨t, attached, same⟩ := so.use.attach
    (r := ⟨creator.pool.region.base, creator.size⟩) rfl creator.pool.config
  rw [if_pos rfl] at attached
  have second := join_run (o := ⟨creator.pool.config, 0, 0⟩) attached ⟨"", 0⟩
  have other : (SharedPool.foundAt creator.pool ⟨"", 0⟩ 0).Idle a
      [⟨creator.pool.dataOf 0, creator.config.pageSize⟩] t.memory := by
    rw [same]
    exact ⟨idle.placed, idle.follows, idle.unlocked⟩
  obtain ⟨v, live', third⟩ := join_free self other List.mem_cons_self
  refine ⟨_, _, _, (play_cons first _).trans ((play_cons second _).trans (play_cons third [])),
    List.mem_cons_of_mem _ List.mem_cons_self, Nat.zero_lt_one⟩

end Borrowing

end Users

/-- Whatever is asked of the handles on a region, and by whom, each of them reports the pages that
are taken by what is live; and over all of them, what was counted as given and not as freed is live.
One of them alone may have freed more than it was given. -/
theorem statistics_account {region : Region} {config : Config} {init s : Arena}
    {creator : SharedPool} (hlen : region.len < wordLimit)
    (h : Pool.init region config init = .ok (.ok creator.pool) s) :
    (∀ turns : List Turn, ∃ x, (Users.start creator s).play creator turns = .ok x ∧
      (x.total Counters.allocations : ℤ) - x.total Counters.deallocations = x.live.length ∧
      ∀ c ∈ x.clients, c.handle.Holds x.live ⟨x.arena, c.counters⟩ ∧
        ∀ self : Caller, ∃ r t, c.handle.stats self ⟨x.arena, c.counters⟩ = .ok r t ∧
          c.handle.Reports x.live x.arena.memory c.counters r) ∧
    ∃ turns x c, (Users.start creator s).play creator turns = .ok x ∧ c ∈ x.clients ∧
      c.counters.allocations < c.counters.deallocations := by
  refine ⟨fun turns => ?_, Users.borrows hlen h⟩
  obtain ⟨x, done, so⟩ := (Users.Sound.start hlen h).play turns
  have balanced := so.balanced
  refine ⟨x, done, by omega, fun c hc => ?_⟩
  obtain ⟨base, view⟩ := so.views c hc
  have working := so.working.view (r := ⟨base, creator.size⟩) rfl view
  obtain ⟨a, f⟩ := working.follows
  refine ⟨SharedPool.Idle.holds ⟨working.placed, f, working.word⟩, fun me => ?_⟩
  obtain ⟨r, t, run, reports, _⟩ :=
    SharedPool.stats_run (s := ⟨x.arena, c.counters⟩) working me
  exact ⟨r, t, run, reports⟩

/-- A block of the creator is moved by another process, which frees what is not there as well. -/
theorem statistics_account_host : ∃ (creator : SharedPool) (s : Arena),
    Pool.init ⟨69632, 65536⟩ Config.host ⟨Memory.zeroed, #[]⟩ = .ok (.ok creator.pool) s ∧
    ∃ self other : Caller, self.pid = 7 ∧ other.pid = 9 ∧
    ∃ x, (Users.start creator s).play creator
        [.ask self 0 (.single (.alloc 100)), .join 200704 ⟨"/pool", 0⟩ .standard, .write 4096 1,
          .ask other 1 (.reallocate (some 204800) ⟨100, 64⟩ 300),
          .ask other 1 (.deallocate 204800),
          .ask self 0 (.guarded [.calloc 5000, .freeOffset 4096, .free 1])] = .ok x ∧
      (x.total Counters.allocations : ℤ) - x.total Counters.deallocations = x.live.length ∧
      ∀ c ∈ x.clients, c.handle.Holds x.live ⟨x.arena, c.counters⟩ ∧
        ∀ self : Caller, ∃ r t, c.handle.stats self ⟨x.arena, c.counters⟩ = .ok r t ∧
          c.handle.Reports x.live x.arena.memory c.counters r := by
  have layout : Layout.compute Config.host (⟨69632, 65536⟩ : Region).len =
      .ok (some ⟨104, 320, 15, 4096⟩) := by decide
  obtain ⟨p, s, h, _⟩ := Pool.init_run layout (by decide) ⟨Memory.zeroed, #[]⟩
  exact ⟨⟨p, ⟨69632, Lock.defaultSpin⟩, ⟨0, 69632, 65536, Protection.data⟩, some ⟨"/pool", 0⟩, some 7⟩,
    s, h, ⟨7, by decide, by decide, fun _ => true⟩, ⟨9, by decide, by decide, fun _ => true⟩, rfl,
    rfl, (statistics_account (by decide) h).1 _⟩

end SharedSlab
