import SharedSlab.Proofs.ChunkGiving
import SharedSlab.Proofs.Creation

set_option autoImplicit false

/-!
# Histories of a pool

A history is a sequence of requests and frees after `init`, with any sizes and any offsets. Beside
the pool runs a list of the allocations that are live: one enters when a request is answered with
its offset, and leaves when a free of that offset is done. Each call keeps memory, ledger and live
allocations together, so every history does.
-/

namespace SharedSlab.Slab

/-- A live allocation: where it starts, and the size that was asked for. -/
structure Block where
  off : Nat
  size : Nat
deriving DecidableEq

inductive Call where
  | alloc (size : Nat) (pos : 0 < size)
  | free (off : Nat)

inductive Answer where
  | offset (found : Option Nat)
  | freed (outcome : Except PoolError Unit)

/-- The live allocations after a call that was answered. -/
def track (call : Call) (answer : Answer) (live : List Block) : List Block :=
  match call, answer with
  | .alloc size _, .offset (some off) => ⟨off, size⟩ :: live
  | .free off, .freed (.ok ()) => live.filter (·.off ≠ off)
  | _, _ => live

namespace Pool

def call (p : Pool) : Call → PoolM Answer
  | .alloc size _ => do return .offset (← p.alloc size)
  | .free off => do return .freed (← p.free off)

def replay (p : Pool) : List Call → List Block → PoolM (List Answer × List Block)
  | [], live => return ([], live)
  | call :: rest, live => do
    let answer ← p.call call
    let (answers, live) ← p.replay rest (track call answer live)
    return (answer :: answers, live)

end Pool

namespace Ledger

def call (p : Pool) (a : Ledger) : Call → Answer × Ledger
  | .alloc size _ => (.offset (a.alloc p size).1, (a.alloc p size).2)
  | .free off => (.freed (a.free p off).1, (a.free p off).2)

def replay (p : Pool) : List Call → Ledger → List Answer × Ledger
  | [], a => ([], a)
  | call :: rest, a =>
    let (answer, a) := a.call p call
    let (answers, a) := Ledger.replay p rest a
    (answer :: answers, a)

end Ledger

/-- Memory holds the ledger, and the blocks of the ledger are the live allocations. -/
structure Follows (p : Pool) (a : Ledger) (live : List Block) (m : Memory) : Prop where
  steady : a.Steady p.config p.pageCount
  stores : Stores p a m
  held : ∀ o l, a.Held p o l ↔ ∃ b ∈ live, b.off = o ∧ p.chunkSize b.size = l
  nodup : (live.map Block.off).Nodup
  pos : ∀ b ∈ live, 0 < b.size
  fits : ∀ b ∈ live, p.config.maxSize < b.size → p.config.page.pagesFor b.size ≤ p.pageCount

variable {p : Pool} {a a' : Ledger} {live : List Block} {m m' : Memory} {s : Arena} {off size : Nat}

namespace Follows

theorem alloc (f : Follows p a live m) (hp : p.Placed) (pos : 0 < size)
    (h : a.alloc p size = (some off, a')) (stores : Stores p a' m') :
    Follows p a' (⟨off, size⟩ :: live) m' := by
  obtain ⟨hheld, hnew, hfits⟩ := f.steady.held_alloc hp pos h
  have steady := f.steady.alloc pos
  rw [h] at steady
  refine ⟨steady, stores, fun o l => ?_, ?_, ?_, ?_⟩
  · rw [hheld, f.held]
    simp only [List.mem_cons, exists_eq_or_imp]
    rw [or_comm]
    exact or_congr_left ⟨fun h => ⟨h.1.symm, h.2.symm⟩, fun h => ⟨h.1.symm, h.2.symm⟩⟩
  · rw [List.map_cons, List.nodup_cons]
    refine ⟨fun hmem => ?_, f.nodup⟩
    obtain ⟨b, hb, hoff⟩ := List.mem_map.1 hmem
    exact hnew _ ((f.held _ _).2 ⟨b, hb, hoff, rfl⟩)
  · rintro b (_ | ⟨_, hb⟩)
    · exact pos
    · exact f.pos b hb
  · rintro b (_ | ⟨_, hb⟩)
    · exact hfits
    · exact f.fits b hb

theorem free (f : Follows p a live m) (hp : p.Placed) (h : a.free p off = (.ok (), a'))
    (stores : Stores p a' m') : Follows p a' (live.filter (·.off ≠ off)) m' := by
  obtain ⟨_, hheld⟩ := f.steady.held_free hp h
  have steady := f.steady.free hp off
  rw [h] at steady
  refine ⟨steady, stores, fun o l => ?_, ?_, fun b hb => ?_, fun b hb => ?_⟩
  · rw [hheld, f.held]
    simp only [List.mem_filter, decide_eq_true_eq]
    constructor
    · rintro ⟨⟨b, hb, rfl, hl⟩, hne⟩
      exact ⟨b, ⟨hb, hne⟩, rfl, hl⟩
    · rintro ⟨b, ⟨hb, hne⟩, rfl, hl⟩
      exact ⟨⟨b, hb, rfl, hl⟩, hne⟩
  · exact f.nodup.sublist (List.filter_sublist.map _)
  · exact f.pos b (List.mem_filter.1 hb).1
  · exact f.fits b (List.mem_filter.1 hb).1

theorem withStores (f : Follows p a live m) (stores : Stores p a m') : Follows p a live m' :=
  ⟨f.steady, stores, f.held, f.nodup, f.pos, f.fits⟩

theorem setHeader (f : Follows p a live m) (hp : p.Placed) {i : Nat} (hi : i < 9) (w : UInt64) :
    Follows p a live (m.setWord i w) := f.withStores (f.stores.setHeader hp hi)

/-- One call is answered as the ledger has it, and writes no more than it may. -/
theorem call (f : Follows p a live s.memory) (hp : p.Placed) (c : Call) :
    ∃ s', p.call c s = .ok (a.call p c).1 s' ∧
      Follows p (a.call p c).2 (track c (a.call p c).1 live) s'.memory ∧
      p.Framed a (a.call p c).2 s.memory s'.memory := by
  cases c with
  | alloc size pos =>
    have served := Pool.alloc_run hp f.steady f.stores pos
    rw [Pool.call, Ledger.call]
    generalize hrun : p.alloc size s = result at served
    generalize hledger : a.alloc p size = answer at served
    cases served with
    | refused => exact ⟨_, (PoolM.bind_run hrun).trans rfl, f, .refl p a _⟩
    | given stores framed =>
      exact ⟨_, (PoolM.bind_run hrun).trans rfl, f.alloc hp pos hledger stores, framed⟩
  | free off =>
    have freed := Pool.free_run hp f.steady f.stores off
    rw [Pool.call, Ledger.call]
    generalize hrun : p.free off s = result at freed
    generalize hledger : a.free p off = answer at freed
    cases freed with
    | refused => exact ⟨_, (PoolM.bind_run hrun).trans rfl, f, .refl p a _⟩
    | done stores framed =>
      exact ⟨_, (PoolM.bind_run hrun).trans rfl, f.free hp hledger stores, framed⟩

theorem replay (hp : p.Placed) (calls : List Call) {a : Ledger} {live : List Block} {s : Arena}
    (f : Follows p a live s.memory) :
    ∃ live' s', p.replay calls live s = .ok ((a.replay p calls).1, live') s' ∧
      Follows p (a.replay p calls).2 live' s'.memory := by
  induction calls generalizing a live s with
  | nil => exact ⟨live, s, rfl, f⟩
  | cons c rest ih =>
    obtain ⟨s₁, run₁, f₁, _⟩ := f.call hp c
    obtain ⟨live', s₂, run₂, f₂⟩ := ih f₁
    refine ⟨live', s₂, ?_, f₂⟩
    rw [Pool.replay, PoolM.bind_run run₁, PoolM.bind_run run₂]
    rfl

end Follows

section Init

variable {region : Region} {config : Config} {s' : Arena}

theorem follows_init (hlen : region.len < wordLimit)
    (h : Pool.init region config s = .ok (.ok p) s') :
    p.Placed ∧ Follows p (Ledger.fresh p.pageCount) [] s'.memory := by
  have laid := Pool.init_spec hlen h
  have hpos := laid.placed.pageCount_pos
  refine ⟨laid.placed, ⟨Ledger.fresh_steady p.config hpos, laid.stores, fun o l => ?_,
    List.nodup_nil, List.forall_mem_nil _, List.forall_mem_nil _⟩⟩
  constructor
  · rintro ⟨i, _, hnone⟩
    exact hnone.elim
  · rintro ⟨b, hb, _⟩
    cases hb

theorem follows_replay (hlen : region.len < wordLimit)
    (h : Pool.init region config s = .ok (.ok p) s') (calls : List Call) :
    p.Placed ∧ ∃ live t, p.replay calls [] s' =
        .ok (((Ledger.fresh p.pageCount).replay p calls).1, live) t ∧
      Follows p ((Ledger.fresh p.pageCount).replay p calls).2 live t.memory := by
  obtain ⟨hp, f⟩ := follows_init hlen h
  exact ⟨hp, f.replay hp calls⟩

/-- The pool gives the answers of the ledger, address for address, and memory holds the ledger in
the end. -/
theorem pool_refines_ledger (hlen : region.len < wordLimit)
    (h : Pool.init region config s = .ok (.ok p) s') (calls : List Call) :
    ∃ live t, p.replay calls [] s' =
        .ok (((Ledger.fresh p.pageCount).replay p calls).1, live) t ∧
      Stores p ((Ledger.fresh p.pageCount).replay p calls).2 t.memory := by
  obtain ⟨_, live, t, run, f⟩ := follows_replay hlen h calls
  exact ⟨live, t, run, f.stores⟩

/-- A run is split, joined on both sides and asked for again, with a refused free between. -/
theorem pool_refines_ledger_host : ∃ p s',
    Pool.init ⟨0, 65536⟩ Config.host ⟨Memory.zeroed, #[]⟩ = .ok (.ok p) s' ∧
    ∃ live t, p.replay [.alloc 5000 (by decide), .alloc 4096 (by decide), .free 4096,
        .free 8192, .free 12288, .alloc 5000 (by decide)] [] s' =
        .ok (((Ledger.fresh p.pageCount).replay p [.alloc 5000 (by decide),
          .alloc 4096 (by decide), .free 4096, .free 8192, .free 12288,
          .alloc 5000 (by decide)]).1, live) t ∧
      Stores p ((Ledger.fresh p.pageCount).replay p [.alloc 5000 (by decide),
        .alloc 4096 (by decide), .free 4096, .free 8192, .free 12288,
        .alloc 5000 (by decide)]).2 t.memory := by
  obtain ⟨p, s', h⟩ := Pool.init_host
  exact ⟨p, s', h, pool_refines_ledger (by decide) h _⟩

end Init

end SharedSlab.Slab
