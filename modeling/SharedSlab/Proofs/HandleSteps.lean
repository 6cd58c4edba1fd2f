import SharedSlab.Proofs.LockPrograms
import SharedSlab.Proofs.Steps
import SharedSlab.SharedPool

set_option autoImplicit false

namespace SharedSlab

def Session.withLock (s : Session) (w : UInt64) : Session :=
  ⟨s.arena.withMemory (s.arena.memory.setWord 0 w), s.counters⟩

namespace SharedM

variable {α β : Type}

theorem bind_run {x : SharedM α} {f : α → SharedM β} {s t : Session} {a : α} (h : x s = .ok a t) :
    (x >>= f) s = f a t := by
  simp only [bind, EStateM.bind, h]

theorem of_bind {x : SharedM α} {f : α → SharedM β} {s t : Session} {b : β}
    (h : (x >>= f) s = .ok b t) : ∃ a s₁, x s = .ok a s₁ ∧ f a s₁ = .ok b t := by
  simp only [bind, EStateM.bind] at h
  split at h
  · next a s₁ hx => exact ⟨a, s₁, hx, h⟩
  · cases h

theorem onPool_run {act : PoolM α} {s : Session} {a : α} {u : Arena} (h : act s.arena = .ok a u) :
    onPool act s = .ok a ⟨u, s.counters⟩ := by
  simp only [onPool, h]

end SharedM

theorem LockWord.isHeldBy_word (self : Caller) : isHeldBy self self.word = true :=
  beq_iff_eq.2 (Pid.owner?_word ⟨self.pid, self.pid_pos, self.pid_lt⟩)

theorem SharedLock.lock_run {s : Arena} (self : Caller) (h : s.memory.word 0 = 0) :
    SharedLock.lock self s = .ok () (s.withMemory (s.memory.setWord 0 self.word)) := by
  have hlock : LockWord.lock self (s.memory.word 0) = .ok self.word := by
    rw [h]
    rfl
  have hword : SharedLock.word s = .ok (s.memory.word 0) s := rfl
  rw [SharedLock.lock, PoolM.bind_run hword, PoolM.bind_liftM hlock]
  rfl

theorem SharedLock.unlock_run {s : Arena} (self : Caller) (h : s.memory.word 0 = self.word) :
    SharedLock.unlock self s = .ok true (s.withMemory (s.memory.setWord 0 0)) := by
  have hword : SharedLock.word s = .ok (s.memory.word 0) s := rfl
  have hunlock : LockWord.unlock self (s.memory.word 0) = (true, 0) := if_pos h
  rw [SharedLock.unlock, SharedLock.apply, PoolM.bind_run hword, hunlock]
  rfl

namespace SharedPool

variable {α : Type} {act : SharedM α} {s u : Session} {answer : α}

section Held

variable (self : Caller) (free : s.arena.memory.word 0 = 0)
  (run : act (s.withLock self.word) = .ok answer u) (held : u.arena.memory.word 0 = self.word)
include free run held

/-- What leaves the lock as it finds it runs between taking it and releasing it. -/
theorem locked_run : locked self act s = .ok answer (u.withLock 0) := by
  have hlock : SharedM.onPool (SharedLock.lock self) s = .ok () (s.withLock self.word) :=
    SharedM.onPool_run (SharedLock.lock_run self free)
  have hunlock : SharedM.onPool (SharedLock.unlock self) u = .ok true (u.withLock 0) :=
    SharedM.onPool_run (SharedLock.unlock_run self held)
  rw [locked, SharedM.bind_run hlock, SharedM.bind_run run, SharedM.bind_run hunlock]
  rfl

theorem guarded_run : guarded self act s = .ok answer (u.withLock 0) := by
  have hlock : SharedM.onPool (SharedLock.lock self) s = .ok () (s.withLock self.word) :=
    SharedM.onPool_run (SharedLock.lock_run self free)
  have hunlock : SharedM.onPool (SharedLock.unlock self) u = .ok true (u.withLock 0) :=
    SharedM.onPool_run (SharedLock.unlock_run self held)
  refine (SharedM.bind_run hlock).trans ?_
  rw [run]
  exact SharedM.bind_run hunlock

end Held

theorem requireLock_run (self : Caller)
    (h : s.arena.memory.word 0 = self.word) : requireLock self s = .ok () s := by
  have hword : SharedM.onPool SharedLock.word s = .ok (s.arena.memory.word 0) s := rfl
  rw [requireLock, SharedM.bind_run hword, h, LockWord.isHeldBy_word]
  rfl

end SharedPool

end SharedSlab
