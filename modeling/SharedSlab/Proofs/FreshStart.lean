import SharedSlab.Proofs.LiveSnapshot
import SharedSlab.Proofs.Mirroring
import SharedSlab.Proofs.UserWrites

set_option autoImplicit false

namespace SharedSlab

theorem Checked.sum_replicate_zero (n : Nat) : Checked.sum (List.replicate n 0) = .ok 0 := by
  induction n with
  | zero => rfl
  | succ n ih => exact ih

namespace Slab

theorem Snapshot.linkedPages_fresh (c : Config) (pageCount : Nat) :
    (Snapshot.fresh c pageCount).linkedPages = .ok 0 :=
  Checked.sum_replicate_zero c.slotCount

/-- Nobody has the lock, and all pages are in one run. -/
structure Pool.IsFresh (p : Pool) (s : Arena) : Prop where
  unlocked : s.memory.word HeaderWord.lock.index = 0
  snapshot : ∃ snap, p.snapshot s = .ok snap s ∧ snap.pageCount = p.pageCount ∧
    snap.freeRuns = [⟨0, p.pageCount⟩] ∧ snap.freePages = p.pageCount ∧ snap.linkedPages = .ok 0

namespace Ledger

variable (p : Pool) (r : Region)

theorem move_inRegion (a : Ledger) (live : List Block) (v : Move) :
    a.move (p.inRegion r) live v = a.move p live v := by
  cases v <;> rfl

theorem play_inRegion (moves : List Move) (live : List Block) (a : Ledger) :
    a.play (p.inRegion r) moves live = a.play p moves live := by
  induction moves generalizing live a with
  | nil => rfl
  | cons v rest ih => simp only [play, move_inRegion, ih]

end Ledger

section Init

variable {region region' : Region} {config : Config} {p : Pool} {s s' : Arena}

theorem isFresh_of_init (hlen : region.len < wordLimit)
    (h : Pool.init region config s = .ok (.ok p) s') : p.IsFresh s' := by
  obtain ⟨hp, f⟩ := follows_init hlen h
  have run := f.snapshot_run hp
  rw [f.snapshot_of_none hp rfl] at run
  have linked := Snapshot.linkedPages_fresh p.config p.pageCount
  exact ⟨(Pool.init_spec hlen h).unlocked, _, run, rfl, rfl, rfl, linked⟩

/-- What a region held is not seen in any reply, nor in whether there is a pool. -/
theorem init_forgets (hlen : region.len < wordLimit) (hsame : region'.len = region.len)
    (h : Pool.init region config s = .ok (.ok p) s') (t : Arena) :
    ∃ p' t', Pool.init region' config t = .ok (.ok p') t' ∧ p.IsFresh s' ∧ p'.IsFresh t' ∧
      ∀ moves : List Move, ∃ replies live u u',
        p.play moves [] s' = .ok (replies, live) u ∧
        p'.play moves [] t' = .ok (replies, live) u' := by
  have laid := Pool.init_spec hlen h
  have hlen' : region'.len < wordLimit := hsame.trans_lt hlen
  have layout : Layout.compute config region'.len = .ok (some p.layout) := by
    rw [hsame]
    exact laid.layout
  obtain ⟨p', t', h', laid'⟩ := Pool.init_run layout hlen' t
  refine ⟨p', t', h', isFresh_of_init hlen h, isFresh_of_init hlen' h', fun moves => ?_⟩
  have hp' : p' = p.inRegion region' := laid.eq_of_len_eq laid' hsame
  obtain ⟨hp, f⟩ := follows_init hlen h
  obtain ⟨u, run, _⟩ := f.play hp moves
  obtain ⟨hq, f'⟩ := follows_init hlen' h'
  obtain ⟨u', run', _⟩ := f'.play hq moves
  rw [hp', Ledger.play_inRegion] at run'
  rw [hp']
  exact ⟨_, _, u, u', run, run'⟩

/-- Beside zeroed memory, a region elsewhere with every bit set. -/
theorem init_forgets_host : ∃ p s',
    Pool.init ⟨0, 65536⟩ Config.host ⟨Memory.zeroed, #[]⟩ = .ok (.ok p) s' ∧ ∃ p' t',
      Pool.init ⟨4096, 65536⟩ Config.host ⟨Memory.filled 255, #[]⟩ = .ok (.ok p') t' ∧
      p.IsFresh s' ∧ p'.IsFresh t' ∧ ∀ moves : List Move, ∃ replies live u u',
        p.play moves [] s' = .ok (replies, live) u ∧
        p'.play moves [] t' = .ok (replies, live) u' := by
  obtain ⟨p, s', h⟩ := Pool.init_host
  have hsame : (⟨4096, 65536⟩ : Region).len = (⟨0, 65536⟩ : Region).len := rfl
  exact ⟨p, s', h, init_forgets (by decide) hsame h _⟩

end Init

end Slab

end SharedSlab
