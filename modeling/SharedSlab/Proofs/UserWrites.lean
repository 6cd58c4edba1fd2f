import SharedSlab.Proofs.LiveBlocks
import SharedSlab.Proofs.MemoryBytes
import SharedSlab.Proofs.SnapshotReading

set_option autoImplicit false

namespace SharedSlab.Slab

/-- What happens to a pool: a call, a look at its state, or the write of a byte by a user. -/
inductive Move where
  | call (c : Call)
  | freePages
  | snapshot
  | write (x : Nat) (b : UInt8)

def Move.isWrite : Move → Bool
  | write _ _ => true
  | _ => false

inductive Reply where
  | answer (a : Answer)
  | freePages (n : Nat)
  | snapshot (snap : Snapshot)

namespace Pool

/-- A live allocation has the byte, be it beyond the size that was asked for. -/
def Owned (p : Pool) (live : List Block) (x : Nat) : Prop :=
  ∃ b ∈ live, b.off ≤ x ∧ x < b.off + p.chunkSize b.size

instance (p : Pool) (live : List Block) (x : Nat) : Decidable (p.Owned live x) :=
  inferInstanceAs (Decidable (∃ b ∈ live, _ ∧ _))

def move (p : Pool) (live : List Block) : Move → PoolM (List Reply × List Block)
  | .call c => do
    let answer ← p.call c
    return ([.answer answer], track c answer live)
  | .freePages => do return ([.freePages (← freePages)], live)
  | .snapshot => do return ([.snapshot (← p.snapshot)], live)
  | .write x b => do
    if p.Owned live x then PoolM.onMemory fun m => m.setByte x b
    return ([], live)

def play (p : Pool) : List Move → List Block → PoolM (List Reply × List Block)
  | [], live => return ([], live)
  | v :: rest, live => do
    let (reply, live) ← p.move live v
    let (replies, live) ← p.play rest live
    return (reply ++ replies, live)

theorem move_write {p : Pool} {live : List Block} {x : Nat} (hx : p.Owned live x) (b : UInt8)
    (s : Arena) :
    p.move live (.write x b) s = .ok ([], live) (s.withMemory (s.memory.setByte x b)) := by
  rw [move, if_pos hx]
  rfl

end Pool

namespace Ledger

/-- A ledger does not see what users write. -/
def move (p : Pool) (a : Ledger) (live : List Block) :
    Move → (List Reply × List Block) × Ledger
  | .call c => (([.answer (a.call p c).1], track c (a.call p c).1 live), (a.call p c).2)
  | .freePages => (([.freePages a.freePages], live), a)
  | .snapshot => (([.snapshot (a.snapshot p)], live), a)
  | .write _ _ => (([], live), a)

def play (p : Pool) : List Move → List Block → Ledger → (List Reply × List Block) × Ledger
  | [], live, a => (([], live), a)
  | v :: rest, live, a =>
    let ((reply, live), a) := a.move p live v
    let ((replies, live), a) := Ledger.play p rest live a
    ((reply ++ replies, live), a)

theorem play_without_writes (p : Pool) (moves : List Move) (live : List Block) (a : Ledger) :
    Ledger.play p (moves.filter fun v => !v.isWrite) live a = Ledger.play p moves live a := by
  induction moves generalizing live a with
  | nil => rfl
  | cons v rest ih =>
    cases v with
    | write x b => exact ih live a
    | _ =>
      rw [List.filter_cons_of_pos rfl]
      simp only [Ledger.play, ih]

end Ledger

variable {p : Pool} {a : Ledger} {live : List Block} {m : Memory} {s : Arena} {x : Nat}

namespace Follows

variable (f : Follows p a live m) (hp : p.Placed)
include f hp

theorem start_le_of_owned (hx : p.Owned live x) : p.start ≤ x := by
  obtain ⟨b, hb, low, _⟩ := hx
  have hinside := f.steady.held_inside hp (f.held_block hb)
  omega

theorem word_of_owned (hx : p.Owned live x) :
    10 + 3 * p.nodes ≤ x / 8 ∧ ¬a.IsBitmap p (x / 8) := by
  refine ⟨hp.table_le_div (f.start_le_of_owned hp hx), ?_⟩
  rintro ⟨i, hi, shift, taken, huse, small, k, hk, hword⟩
  obtain ⟨b, hb, low, high⟩ := hx
  have happart := f.steady.held_apart_bitmap hi huse small (f.held_block hb)
  rw [hp.div_eq_bitmapIndex_iff] at hword
  omega

theorem overwrite {n : Memory} (same : ∀ x, ¬p.Owned live x → n.byte x = m.byte x) :
    Follows p a live n ∧ ∀ y < 9, n.word y = m.word y := by
  have kept : ∀ y, (∀ x, x / 8 = y → ¬p.Owned live x) → n.word y = m.word y := fun y none =>
    Memory.word_eq_of_bytes fun x hx => same x (none x hx)
  have low : ∀ y < 10 + 3 * p.nodes, n.word y = m.word y := by
    intro y hy
    refine kept y fun x hx owned => ?_
    have hlow := (f.word_of_owned hp owned).1
    omega
  refine ⟨f.withStores (f.stores.congr f.steady.toCoherent (fun y _ hy => low y (by omega))
    fun y hy => kept y fun x hx owned => ?_), fun y hy => low y (by omega)⟩
  exact (f.word_of_owned hp owned).2 (hx ▸ hy)

theorem setByte (hx : p.Owned live x) (b : UInt8) :
    Follows p a live (m.setByte x b) ∧ ∀ y < 9, (m.setByte x b).word y = m.word y := by
  refine f.overwrite hp fun y none => ?_
  rw [Memory.byte_setByte, if_neg]
  rintro rfl
  exact none hx

end Follows

namespace Follows

theorem move (f : Follows p a live s.memory) (hp : p.Placed) (v : Move) :
    ∃ s', p.move live v s = .ok (a.move p live v).1 s' ∧
      Follows p (a.move p live v).2 (a.move p live v).1.2 s'.memory ∧
      ∀ y < 9, s'.memory.word y = s.memory.word y := by
  cases v with
  | call c =>
    obtain ⟨s', run, f', framed⟩ := f.call hp c
    exact ⟨s', PoolM.bind_run run, f', fun y hy => framed.word_of_lt hp hy⟩
  | freePages =>
    have run := Pool.freePages_run f.steady.toSound hp f.stores.count
    exact ⟨s, PoolM.bind_run run, f, fun _ _ => rfl⟩
  | snapshot =>
    have run := Pool.snapshot_run hp f.steady.toSound f.stores
    exact ⟨s, PoolM.bind_run run, f, fun _ _ => rfl⟩
  | write x b =>
    by_cases hx : p.Owned live x
    · exact ⟨_, Pool.move_write hx b s, f.setByte hp hx b⟩
    · refine ⟨s, ?_, f, fun _ _ => rfl⟩
      rw [Pool.move, if_neg hx]
      rfl

theorem play (hp : p.Placed) (moves : List Move) {a : Ledger} {live : List Block} {s : Arena}
    (f : Follows p a live s.memory) :
    ∃ s', p.play moves live s = .ok (a.play p moves live).1 s' ∧
      Follows p (a.play p moves live).2 (a.play p moves live).1.2 s'.memory ∧
      ∀ y < 9, s'.memory.word y = s.memory.word y := by
  induction moves generalizing a live s with
  | nil => exact ⟨s, rfl, f, fun _ _ => rfl⟩
  | cons v rest ih =>
    obtain ⟨s₁, run₁, f₁, kept₁⟩ := f.move hp v
    obtain ⟨s₂, run₂, f₂, kept₂⟩ := ih f₁
    refine ⟨s₂, ?_, f₂, fun y hy => (kept₂ y hy).trans (kept₁ y hy)⟩
    rw [Pool.play, PoolM.bind_run run₁]
    exact PoolM.bind_run run₂

end Follows

/-- Whatever users write to live bytes between the calls, every reply is the one that is given
without the writes. -/
theorem writes_unseen {region : Region} {config : Config} {s s' : Arena}
    (hlen : region.len < wordLimit) (h : Pool.init region config s = .ok (.ok p) s')
    (moves : List Move) :
    ∃ replies live t u, p.play moves [] s' = .ok (replies, live) t ∧
      p.play (moves.filter fun v => !v.isWrite) [] s' = .ok (replies, live) u := by
  obtain ⟨hp, f⟩ := follows_init hlen h
  obtain ⟨t, run, _⟩ := f.play hp moves
  obtain ⟨u, run', _⟩ := f.play hp (moves.filter fun v => !v.isWrite)
  rw [Ledger.play_without_writes] at run'
  exact ⟨_, _, t, u, run, run'⟩

/-- A page is written to, given back, and taken again for small chunks: where its bitmap lies then,
the first writes are. The later ones go past the size that was asked for. -/
theorem writes_unseen_host : ∃ p s',
    Pool.init ⟨0, 65536⟩ Config.host ⟨Memory.zeroed, #[]⟩ = .ok (.ok p) s' ∧
    ∃ replies live t u, p.play [.call (.alloc 4096 (by decide)), .write 4096 255, .write 4103 255,
        .call (.free 4096), .call (.alloc 5 (by decide)), .write 4160 7, .write 4167 7, .snapshot,
        .call (.alloc 8 (by decide)), .freePages] [] s' = .ok (replies, live) t ∧
      p.play ([.call (.alloc 4096 (by decide)), .write 4096 255, .write 4103 255,
        .call (.free 4096), .call (.alloc 5 (by decide)), .write 4160 7, .write 4167 7, .snapshot,
        .call (.alloc 8 (by decide)), .freePages].filter fun v => !v.isWrite) [] s' =
        .ok (replies, live) u := by
  obtain ⟨p, s', h⟩ := Pool.init_host
  exact ⟨p, s', h, writes_unseen (by decide) h _⟩

end SharedSlab.Slab
