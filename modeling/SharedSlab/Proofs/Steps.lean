import SharedSlab.Slab.Pool

set_option autoImplicit false

namespace SharedSlab

def Arena.withMemory (s : Arena) (m : Memory) : Arena := { s with memory := m }

@[simp] theorem Arena.memory_withMemory (s : Arena) (m : Memory) :
    (s.withMemory m).memory = m := rfl

@[simp] theorem Arena.withMemory_withMemory (s : Arena) (m n : Memory) :
    (s.withMemory m).withMemory n = s.withMemory n := rfl

def Arena.noting (s : Arena) (e : Event) : Arena := { s with journal := s.journal.push e }

namespace PoolM

variable {α β : Type}

theorem bind_run {x : PoolM α} {f : α → PoolM β} {s t : Arena} {a : α} (h : x s = .ok a t) :
    (x >>= f) s = f a t := by
  simp only [bind, EStateM.bind, h]

@[simp] theorem pure_run (a : α) (s : Arena) : (pure a : PoolM α) s = .ok a s := rfl

theorem liftM_run {x : Except Fault α} {a : α} (h : x = .ok a) (s : Arena) :
    (liftM x : PoolM α) s = .ok a s := by
  rw [h]
  rfl

theorem bind_liftM {x : Except Fault α} {a : α} (h : x = .ok a) (f : α → PoolM β) (s : Arena) :
    ((liftM x : PoolM α) >>= f) s = f a s := bind_run (liftM_run h s)

theorem when_run {c : Prop} [Decidable c] {x : PoolM Unit} {f : PoolM α} {s t : Arena}
    (h : (if c then x else pure ()) s = .ok () t) :
    (if c then x >>= fun _ => f else f) s = f t := by
  by_cases hc : c
  · rw [if_pos hc] at h ⊢
    exact bind_run h
  · rw [if_neg hc] at h ⊢
    cases h
    rfl

@[simp] theorem word_run (i : Nat) (s : Arena) : word i s = .ok (s.memory.word i) s := rfl

@[simp] theorem setWord_run (i : Nat) (w : UInt64) (s : Arena) :
    setWord i w s = .ok () (s.withMemory (s.memory.setWord i w)) := rfl

@[simp] theorem note_run (e : Event) (s : Arena) : note e s = .ok () (s.noting e) := rfl

/-- What each round keeps, a loop keeps. -/
theorem forUp_run (step : Nat → PoolM Unit) (first count : Nat) (I : Nat → Memory → Prop)
    (j : Array Event) {m : Memory} (start : I first m)
    (round : ∀ i m, first ≤ i → i < first + count → I i m →
      ∃ m', step i ⟨m, j⟩ = .ok () ⟨m', j⟩ ∧ I (i + 1) m') :
    ∃ m', forUp first step count ⟨m, j⟩ = .ok () ⟨m', j⟩ ∧ I (first + count) m' := by
  induction count generalizing first m with
  | zero => exact ⟨m, rfl, start⟩
  | succ count ih =>
    obtain ⟨m₁, run₁, kept₁⟩ := round first m (Nat.le_refl _) (by omega) start
    obtain ⟨m₂, run₂, kept₂⟩ := ih (first + 1) kept₁ fun i m low high =>
      round i m (by omega) (by omega)
    refine ⟨m₂, ?_, ?_⟩
    · rw [forUp, bind_run run₁, run₂]
    · rwa [show first + (count + 1) = first + 1 + count by omega]

theorem allUp_run (test : Nat → PoolM Bool) (first count : Nat) {t : Nat → Bool} {s : Arena}
    (reads : ∀ i, first ≤ i → i < first + count → test i s = .ok (t i) s) :
    allUp first test count s = .ok ((List.range' first count).all t) s := by
  induction count generalizing first with
  | zero => rfl
  | succ count ih =>
    rw [allUp, bind_run (reads first (Nat.le_refl _) (by omega)), List.range'_succ, List.all_cons]
    cases t first with
    | false => rfl
    | true => exact ih (first + 1) fun i low high => reads i (by omega) (by omega)

theorem mapM_run {l : List α} {f : α → PoolM β} {g : α → β} {s : Arena}
    (reads : ∀ x ∈ l, f x s = .ok (g x) s) : l.mapM f s = .ok (l.map g) s := by
  induction l with
  | nil => rfl
  | cons x l ih =>
    rw [List.mapM_cons, bind_run (reads x List.mem_cons_self),
      bind_run (ih fun y hy => reads y (List.mem_cons_of_mem x hy))]
    rfl

end PoolM

end SharedSlab
