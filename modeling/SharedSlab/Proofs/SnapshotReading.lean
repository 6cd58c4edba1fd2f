import SharedSlab.Proofs.RunTaking
import SharedSlab.Slab.Snapshot

set_option autoImplicit false

namespace SharedSlab.Slab

variable {p : Pool} {a : Ledger} {s : Arena} {shift : Nat}

/-- The snapshot of a pool that holds a ledger. -/
def Ledger.snapshot (p : Pool) (a : Ledger) : Snapshot where
  pageSize := p.config.pageSize
  minShift := p.config.minShift
  pageCount := p.pageCount
  freePages := a.freePages
  freeRuns := a.runs.mergeSort PageRun.le
  slotPages := (List.range p.config.slotCount).map fun k =>
    (a.listed (p.config.minShift + k)).length

namespace Pool

theorem freeRuns_run (hp : p.Placed) (co : a.Coherent p.config p.pageCount)
    (h : Encodes p a (table s.memory) s.memory.word) : p.freeRuns s = .ok a.runs s := by
  have hrun := ((h.threaded co).visits hp (zero_mem_heads p)).fold
    (fun (runs : List PageRun) node => do
      return ⟨← p.pageIndex node, (← p.slab node).toNat⟩ :: runs)
    (fun runs x => ⟨x - p.page 0, (table s.memory x).slab.toNat⟩ :: runs) []
    fun x hx acc => by
      obtain ⟨hx, i, _, rfl, _⟩ := co.ringOf_lt hx
      have hindex : p.page i - p.page 0 = i := by
        simp only [page]
        omega
      rw [PoolM.bind_liftM (hp.pageIndex_eq_ok i), PoolM.bind_run (slab_run hp hx s), hindex]
      rfl
  have hruns : (p.ringOf a 0).map (fun x => (⟨x - p.page 0, (table s.memory x).slab.toNat⟩ :
      PageRun)) = a.runs := by
    rw [ringOf, List.map_map]
    refine (List.map_congr_left fun r hr => ?_).trans (List.map_id _)
    have hfirst : p.page r.first - p.page 0 = r.first := by
      simp only [page]
      omega
    rw [Function.comp_apply, hfirst, (h.runs r hr).length, toNat_len hp co hr]
    rfl
  rw [List.foldl_flip_cons_eq_append, hruns, List.append_nil] at hrun
  rw [freeRuns, show freeHead = nodeOffset 0 from rfl, PoolM.bind_run hrun, PoolM.pure_run,
    List.reverse_reverse]

theorem slotPages_run (hp : p.Placed) (co : a.Coherent p.config p.pageCount)
    (h : Encodes p a (table s.memory) s.memory.word) {k : Nat} (hk : k < p.config.slotCount) :
    p.slotPages k s = .ok (a.listed (p.config.minShift + k)).length s := by
  have hring : p.ringOf a (k + 1) = (a.listed (p.config.minShift + k)).map p.page := rfl
  have hslot : k + 1 ∈ p.heads := hk
  have hrun := ((h.threaded co).visits hp hslot).fold (fun n _ => return n + 1)
    (fun n _ => n + 1) 0 fun _ _ _ => rfl
  have hcount : ∀ (l : List Nat) (n : Nat), l.foldl (fun n _ => n + 1) n = n + l.length := by
    intro l
    induction l with
    | nil => exact fun n => rfl
    | cons x l ih =>
      intro n
      rw [List.foldl_cons, ih, List.length_cons]
      omega
  rw [slotPages, PoolM.bind_liftM (hp.slotNode_eq_ok hk), Nat.add_comm 1 k, hrun, hcount,
    Nat.zero_add, hring, List.length_map]

theorem snapshot_run (hp : p.Placed) (so : a.Sound p.config p.pageCount)
    (h : Stores p a s.memory) : p.snapshot s = .ok (a.snapshot p) s := by
  have hruns := freeRuns_run hp so.toCoherent h.encodes
  have hslots : (List.range p.config.slotCount).mapM p.slotPages s = .ok _ s :=
    PoolM.mapM_run fun k hk => slotPages_run hp so.toCoherent h.encodes (List.mem_range.1 hk)
  rw [snapshot, PoolM.bind_run hruns, PoolM.bind_run hslots,
    PoolM.bind_run (freePages_run so hp h.count)]
  rfl

end Pool

end SharedSlab.Slab
