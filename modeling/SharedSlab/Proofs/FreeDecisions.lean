import SharedSlab.Proofs.LiveBlocks
import SharedSlab.Proofs.SnapshotReading

set_option autoImplicit false

namespace SharedSlab.Slab

def Pool.InFreeRun (p : Pool) (runs : List PageRun) (off : Nat) : Prop :=
  ∃ r ∈ runs, r.first ≤ p.pageOf off ∧ p.pageOf off < r.finish

/-- A chunk that could be given out starts at an offset, but none is live there. -/
def Pool.AtVacantChunk (p : Pool) (d : Table) (live : List Block) (off : Nat) : Prop :=
  ∃ shift k, p.classOf d (p.pageOf off) = some shift ∧ p.config.reserved shift ≤ k ∧
    off = p.chunkAt (p.pageOf off) shift k ∧ ∀ b ∈ live, b.off ≠ off

def Pool.OffChunk (p : Pool) (d : Table) (off : Nat) : Prop :=
  ∃ shift, p.classOf d (p.pageOf off) = some shift ∧
    ∀ k, p.config.reserved shift ≤ k → off ≠ p.chunkAt (p.pageOf off) shift k

def Pool.InsideRun (p : Pool) (live : List Block) (off : Nat) : Prop :=
  ∃ b ∈ live, p.config.maxSize < b.size ∧ b.off < off ∧ off < b.off + p.chunkSize b.size

/-- The answers that a free may give, and what each says of the offset. -/
structure Pool.Decides (p : Pool) (d : Table) (runs : List PageRun) (live : List Block) (off : Nat)
    (outcome : Except PoolError Unit) : Prop where
  done_iff : outcome = .ok () ↔ ∃ b ∈ live, b.off = off
  invalid_iff : outcome = .error .invalidAddress ↔ off < p.start ∨ p.finish ≤ off
  already_iff : outcome = .error .alreadyFree ↔ (p.start ≤ off ∧ off < p.finish) ∧
    (p.InFreeRun runs off ∨ p.AtVacantChunk d live off)
  wrong_iff : outcome = .error .wrongChunk ↔ (p.start ≤ off ∧ off < p.finish) ∧
    (p.OffChunk d off ∨ p.InsideRun live off)
  complete : outcome = .ok () ∨ outcome = .error .invalidAddress ∨
    outcome = .error .alreadyFree ∨ outcome = .error .wrongChunk

variable {p : Pool} {a : Ledger} {live : List Block} {m : Memory} {s : Arena} {off shift k : Nat}

theorem Pool.Decides.of_inside {d : Table} {runs : List PageRun} {outcome : Except PoolError Unit}
    (inside : p.start ≤ off ∧ off < p.finish)
    (done_iff : outcome = .ok () ↔ ∃ b ∈ live, b.off = off)
    (valid : outcome ≠ .error .invalidAddress)
    (already_iff : outcome = .error .alreadyFree ↔
      p.InFreeRun runs off ∨ p.AtVacantChunk d live off)
    (wrong_iff : outcome = .error .wrongChunk ↔ p.OffChunk d off ∨ p.InsideRun live off)
    (complete : outcome = .ok () ∨ outcome = .error .alreadyFree ∨ outcome = .error .wrongChunk) :
    p.Decides d runs live off outcome where
  done_iff := done_iff
  invalid_iff := iff_of_false valid (by omega)
  already_iff := already_iff.trans (and_iff_right inside).symm
  wrong_iff := wrong_iff.trans (and_iff_right inside).symm
  complete := complete.imp_right .inr

theorem Pool.chunk_lt (low : p.start ≤ off) (hclass : p.config.IsClass shift)
    (hoff : off = p.chunkAt (p.pageOf off) shift k) : k < p.config.chunkCount shift := by
  have hsplit := Pool.dataOf_pageOf_add low
  have hwithin := Nat.mod_lt (off - p.start) p.config.pageSize_pos
  have hlt : k * 2 ^ shift < p.config.chunkCount shift * 2 ^ shift := by
    rw [Config.chunkCount_mul hclass]
    rw [Pool.chunkAt] at hoff
    omega
  exact Nat.lt_of_mul_lt_mul_right hlt

namespace Follows

section Inside

variable (f : Follows p a live m) (hp : p.Placed) (inside : p.start ≤ off ∧ off < p.finish)
include f hp inside

theorem inFreeRun_iff : p.InFreeRun a.runs off ↔ a.use (p.pageOf off) = .free := by
  constructor
  · rintro ⟨r, hr, low, high⟩
    exact f.steady.run_free r hr _ low high
  · exact f.steady.covered _ (hp.div_lt inside.1 inside.2)

theorem atVacantChunk_iff : p.AtVacantChunk (table m) live off ↔
    ∃ shift taken, a.use (p.pageOf off) = .chunks shift taken ∧
      ∃ k, p.config.reserved shift ≤ k ∧ off = p.chunkAt (p.pageOf off) shift k ∧ k ∉ taken := by
  have hi : p.pageOf off < p.pageCount := hp.div_lt inside.1 inside.2
  have hvacant : ∀ shift taken k, a.use (p.pageOf off) = .chunks shift taken →
      p.config.reserved shift ≤ k → off = p.chunkAt (p.pageOf off) shift k →
      ((∀ b ∈ live, b.off ≠ off) ↔ k ∉ taken) := by
    intro shift taken k huse hres hoff
    have hk := Pool.chunk_lt inside.1 (f.steady.chunks_class _ hi shift taken huse) hoff
    rw [f.mem_taken_iff hi huse hk, ← hoff]
    simp [not_lt.2 hres]
  constructor
  · rintro ⟨shift, k, hclass, hres, hoff, hnone⟩
    obtain ⟨taken, huse⟩ := (f.stores.encodes.classOf_eq_some_iff f.steady hi).1 hclass
    exact ⟨shift, taken, huse, k, hres, hoff, (hvacant shift taken k huse hres hoff).1 hnone⟩
  · rintro ⟨shift, taken, huse, k, hres, hoff, hnot⟩
    exact ⟨shift, k, (f.stores.encodes.classOf_eq_some_iff f.steady hi).2 ⟨taken, huse⟩, hres, hoff,
      (hvacant shift taken k huse hres hoff).2 hnot⟩

theorem offChunk_iff : p.OffChunk (table m) off ↔
    ∃ shift taken, a.use (p.pageOf off) = .chunks shift taken ∧
      ∀ k, p.config.reserved shift ≤ k → off ≠ p.chunkAt (p.pageOf off) shift k := by
  have hi : p.pageOf off < p.pageCount := hp.div_lt inside.1 inside.2
  constructor
  · rintro ⟨shift, hclass, hno⟩
    obtain ⟨taken, huse⟩ := (f.stores.encodes.classOf_eq_some_iff f.steady hi).1 hclass
    exact ⟨shift, taken, huse, hno⟩
  · rintro ⟨shift, taken, huse, hno⟩
    exact ⟨shift, (f.stores.encodes.classOf_eq_some_iff f.steady hi).2 ⟨taken, huse⟩, hno⟩

theorem insideRun_iff : p.InsideRun live off ↔ a.use (p.pageOf off) = .runRest ∨
    ∃ n, a.use (p.pageOf off) = .runStart n ∧ off ≠ p.dataOf (p.pageOf off) := by
  have hi : p.pageOf off < p.pageCount := hp.div_lt inside.1 inside.2
  have hsplit := Pool.dataOf_pageOf_add inside.1
  have hwithin := Nat.mod_lt (off - p.start) p.config.pageSize_pos
  constructor
  · rintro ⟨b, hb, large, hlow, hhigh⟩
    obtain ⟨huse, hoff⟩ := f.use_of_large hp hb large
    obtain ⟨hle, hlt⟩ := f.page_of_within hp hb large hlow.le hhigh
    rcases Nat.eq_or_lt_of_le hle with heq | hafter
    · rw [← heq]
      exact .inr ⟨_, huse, by omega⟩
    · exact .inl (f.steady.start_rest _ (f.pageOf_lt hp hb) _ huse _ hafter hlt)
  · rintro (hrest | ⟨n, hstart, hne⟩)
    · obtain ⟨b, hb, large, hlow, hhigh⟩ := f.block_of_runRest hp hi hrest
      have hpage := p.config.pageSize_pos
      rw [Pool.dataOf_succ] at hhigh
      exact ⟨b, hb, large, by omega, by omega⟩
    · obtain ⟨b, hb, large, hoff, hn⟩ := f.block_of_runStart hp hi hstart
      have hpos := f.steady.start_pos _ hi n hstart
      have hle := Nat.le_mul_of_pos_left p.config.pageSize hpos
      refine ⟨b, hb, large, by omega, ?_⟩
      rw [f.chunkSize_large hp hb large, hoff, hn]
      omega

section Chunk

variable {taken : Finset Nat} (use : a.use (p.pageOf off) = .chunks shift taken)
  (reserved_le : p.config.reserved shift ≤ k) (off_eq : off = p.chunkAt (p.pageOf off) shift k)
include use reserved_le off_eq

theorem vacant_iff : p.AtVacantChunk (table m) live off ↔ k ∉ taken := by
  rw [f.atVacantChunk_iff hp inside]
  constructor
  · rintro ⟨_, _, use', k', _, hk', hnot⟩
    cases use.symm.trans use'
    exact Pool.chunkAt_inj.1 (hk'.symm.trans off_eq) ▸ hnot
  · exact fun hnot => ⟨shift, taken, use, k, reserved_le, off_eq, hnot⟩

theorem not_offChunk : ¬p.OffChunk (table m) off := by
  rw [f.offChunk_iff hp inside]
  rintro ⟨_, _, use', off_ne⟩
  cases use.symm.trans use'
  exact off_ne k reserved_le off_eq

end Chunk

end Inside

theorem free_done_iff (f : Follows p a live m) (hp : p.Placed) (off : Nat) :
    (a.free p off).1 = .ok () ↔ ∃ b ∈ live, b.off = off := by
  rw [f.steady.free_ok_iff hp]
  constructor
  · rintro ⟨l, hl⟩
    obtain ⟨b, hb, hoff, _⟩ := (f.held off l).1 hl
    exact ⟨b, hb, hoff⟩
  · rintro ⟨b, hb, rfl⟩
    exact ⟨_, f.held_block hb⟩

theorem decides (f : Follows p a live m) (hp : p.Placed) (off : Nat) :
    p.Decides (table m) a.runs live off (a.free p off).1 := by
  have hdone := f.free_done_iff hp off
  have hcase := a.free_case p off
  generalize (a.free p off) = answer at hdone hcase
  cases hcase with
  | outside out =>
    have hnot : ¬(p.start ≤ off ∧ off < p.finish) := by omega
    exact ⟨hdone, by simp [out], by simp [hnot], by simp [hnot], by simp⟩
  | freePage inside use =>
    have hrun := f.inFreeRun_iff hp inside
    have hoff := f.offChunk_iff hp inside
    have hinner := f.insideRun_iff hp inside
    rw [use] at hrun hoff hinner
    exact .of_inside inside hdone (by simp) (by simp [hrun]) (by simp [hoff, hinner]) (by simp)
  | runRest inside use =>
    have hrun := f.inFreeRun_iff hp inside
    have hvacant := f.atVacantChunk_iff hp inside
    have hinner := f.insideRun_iff hp inside
    rw [use] at hrun hvacant hinner
    exact .of_inside inside hdone (by simp) (by simp [hrun, hvacant]) (by simp [hinner]) (by simp)
  | runInner inside use off_ne =>
    have hrun := f.inFreeRun_iff hp inside
    have hvacant := f.atVacantChunk_iff hp inside
    have hinner := f.insideRun_iff hp inside
    rw [use] at hrun hvacant hinner
    exact .of_inside inside hdone (by simp)
      (by simp [hrun, hvacant]) (by simp [hinner, off_ne]) (by simp)
  | run inside use off_eq =>
    have hrun := f.inFreeRun_iff hp inside
    have hvacant := f.atVacantChunk_iff hp inside
    have hoff := f.offChunk_iff hp inside
    have hinner := f.insideRun_iff hp inside
    rw [use] at hrun hvacant hoff hinner
    exact .of_inside inside hdone (by simp)
      (by simp [hrun, hvacant]) (by simp [hoff, hinner, ← off_eq]) (by simp)
  | @offChunk shift taken inside use off_ne =>
    have hrun := f.inFreeRun_iff hp inside
    have hoff : p.OffChunk (table m) off := (f.offChunk_iff hp inside).2 ⟨shift, taken, use, off_ne⟩
    have hnone : ¬p.AtVacantChunk (table m) live off := by
      rw [f.atVacantChunk_iff hp inside]
      rintro ⟨_, _, use', k, hres, hk, _⟩
      cases use.symm.trans use'
      exact off_ne k hres hk
    rw [use] at hrun
    exact .of_inside inside hdone (by simp) (by simp [hrun, hnone]) (by simp [hoff]) (by simp)
  | vacant inside use reserved_le off_eq vacant =>
    have hvacant := (f.vacant_iff hp inside use reserved_le off_eq).2 vacant
    have hplaced := f.not_offChunk hp inside use reserved_le off_eq
    have hinner := f.insideRun_iff hp inside
    rw [use] at hinner
    exact .of_inside inside hdone (by simp)
      (by simp [hvacant]) (by simp [hplaced, hinner]) (by simp)
  | chunk inside use reserved_le off_eq hmem =>
    have hrun := f.inFreeRun_iff hp inside
    have hvacant := f.vacant_iff hp inside use reserved_le off_eq
    have hplaced := f.not_offChunk hp inside use reserved_le off_eq
    have hinner := f.insideRun_iff hp inside
    rw [use] at hrun hinner
    exact .of_inside inside hdone (by simp)
      (by simp [hrun, hvacant, hmem]) (by simp [hplaced, hinner]) (by simp)

end Follows

/-- After any history, a free is done just where a live allocation starts, and each refusal has its
own cause; a refused free leaves memory as it is. -/
theorem free_decides {region : Region} {config : Config} {s s' : Arena}
    (hlen : region.len < wordLimit) (h : Pool.init region config s = .ok (.ok p) s')
    (calls : List Call) (off : Nat) :
    ∃ answers live t runs outcome t', p.replay calls [] s' = .ok (answers, live) t ∧
      p.freeRuns t = .ok runs t ∧ p.free off t = .ok outcome t' ∧
      p.Decides (table t.memory) runs live off outcome ∧
      (outcome ≠ .ok () → t'.memory = t.memory) := by
  obtain ⟨hp, live, t, run, f⟩ := follows_replay hlen h calls
  have hruns := Pool.freeRuns_run hp f.steady.toCoherent f.stores.encodes
  have hdecides := f.decides hp off
  have freed := Pool.free_run hp f.steady f.stores off
  generalize hfree : p.free off t = result at freed
  generalize Ledger.free p off ((Ledger.fresh p.pageCount).replay p calls).2 = answer
    at freed hdecides
  cases freed with
  | refused => exact ⟨_, live, t, _, _, _, run, hruns, hfree, hdecides, fun _ => rfl⟩
  | done => exact ⟨_, live, t, _, _, _, run, hruns, hfree, hdecides, fun hne => absurd rfl hne⟩

theorem free_decides_host : ∃ p s',
    Pool.init ⟨0, 65536⟩ Config.host ⟨Memory.zeroed, #[]⟩ = .ok (.ok p) s' ∧
    ∃ answers live t runs outcome t', p.replay [.alloc 8 (by decide), .alloc 8 (by decide),
        .alloc 5000 (by decide), .free 4160] [] s' = .ok (answers, live) t ∧
      p.freeRuns t = .ok runs t ∧ p.free 4160 t = .ok outcome t' ∧
      p.Decides (table t.memory) runs live 4160 outcome ∧
      (outcome ≠ .ok () → t'.memory = t.memory) := by
  obtain ⟨p, s', h⟩ := Pool.init_host
  exact ⟨p, s', h, free_decides (by decide) h _ _⟩

end SharedSlab.Slab
