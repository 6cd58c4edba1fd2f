import SharedSlab.Proofs.MutualExclusion

set_option autoImplicit false

namespace SharedSlab

def Caller.id (self : Caller) : Pid := ⟨self.pid, self.pid_pos, self.pid_lt⟩

namespace LockWord

variable {self : Caller} {w : UInt64}

/-- Above every process id. -/
def Foreign (w : UInt64) : Prop := 0x80000000 ≤ w.toNat

instance (w : UInt64) : Decidable (Foreign w) := inferInstanceAs (Decidable (_ ≤ _))

theorem word_cases (w : UInt64) : w = 0 ∨ (∃ p : Pid, w = p.word) ∨ Foreign w := by
  by_cases free : w = 0
  · exact .inl free
  by_cases foreign : Foreign w
  · exact .inr (.inr foreign)
  have hpos : 0 < w.toNat := Nat.pos_of_ne_zero fun h => free (UInt64.toNat_inj.1 h)
  have hlt : w.toNat < 0x80000000 := Nat.not_le.1 foreign
  exact .inr (.inl ⟨⟨w.toNat, hpos, hlt⟩, UInt64.ofNat_toNat.symm⟩)

theorem not_foreign_zero : ¬ Foreign 0 := by decide

theorem not_foreign_word (p : Pid) : ¬ Foreign p.word := by
  rw [Foreign, p.toNat_word]
  exact Nat.not_le.2 p.lt

theorem owner?_zero : owner? 0 = none := rfl

theorem owner?_foreign (foreign : Foreign w) : owner? w = none :=
  if_neg fun h => h.2.not_ge foreign

theorem owner?_eq_some_iff (p : Pid) : owner? w = some p.val ↔ w = p.word := by
  constructor
  · intro h
    obtain rfl | ⟨q, rfl⟩ | foreign := word_cases w
    · cases h
    · rw [q.owner?_word] at h
      rw [Pid.ext (Option.some.inj h)]
    · rw [owner?_foreign foreign] at h
      cases h
  · rintro rfl
    exact p.owner?_word

theorem owner?_eq_none_iff : owner? w = none ↔ w = 0 ∨ Foreign w := by
  constructor
  · intro h
    obtain free | ⟨p, rfl⟩ | foreign := word_cases w
    · exact .inl free
    · rw [p.owner?_word] at h
      cases h
    · exact .inr foreign
  · rintro (rfl | foreign)
    · exact owner?_zero
    · exact owner?_foreign foreign

theorem isLocked_eq_false_iff : isLocked w = false ↔ w = 0 ∨ Foreign w := by
  rw [isLocked, Option.isSome_eq_false_iff, Option.isNone_iff_eq_none, owner?_eq_none_iff]

theorem compareExchange_fst_iff {expected desired : UInt64} :
    (compareExchange expected desired w).1 = true ↔ w = expected := by
  rw [compareExchange]
  split
  · next same => exact iff_of_true rfl same
  · next differs => exact iff_of_false Bool.false_ne_true differs

theorem tryLock_fst_iff : (tryLock self w).1 = true ↔ w = 0 := compareExchange_fst_iff

theorem unlock_fst_iff : (unlock self w).1 = true ↔ w = self.word := compareExchange_fst_iff

theorem isHeldBy_iff : isHeldBy self w = true ↔ w = self.word := by
  rw [isHeldBy, beq_iff_eq]
  exact owner?_eq_some_iff self.id

theorem recover_dead {p : Pid} (dead : self.isAlive p.val = false) :
    recover self p.word = (some p.val, 0) := by
  have released : compareExchange (UInt64.ofNat p.val) 0 p.word = (true, 0) := if_pos rfl
  simp only [recover, p.owner?_word, dead, released]
  rfl

theorem foreign_stays (self : Caller) (foreign : Foreign w) :
    isLocked w = false ∧ tryLock self w = (false, w) ∧ recover self w = (none, w) := by
  have held : w ≠ 0 := by
    rintro rfl
    exact not_foreign_zero foreign
  refine ⟨isLocked_eq_false_iff.2 (.inr foreign), if_neg held, ?_⟩
  rw [recover, owner?_foreign foreign]

/-- The observers agree with the operations on every word; of a foreign word, only that it has no
holder and is not free. -/
theorem observers_agree (self : Caller) (w : UInt64) :
    ((tryLock self w).1 = true ↔ w = 0) ∧
    (isHeldBy self w = true ↔ (unlock self w).1 = true) ∧
    (owner? w = none ↔ w = 0 ∨ Foreign w) ∧
    (∀ p : Pid, owner? w = some p.val ↔ w = p.word) ∧
    (¬ Foreign w →
      (isLocked w = false ↔ (tryLock self w).1 = true) ∧
      ((tryLock self w).1 = false → (∀ p : Pid, w = p.word → self.isAlive p.val = false) →
        ∃ p : Pid, w = p.word ∧ recover self w = (some p.val, 0) ∧
          (tryLock self (recover self w).2).1 = true)) := by
  refine ⟨tryLock_fst_iff, isHeldBy_iff.trans unlock_fst_iff.symm, owner?_eq_none_iff,
    owner?_eq_some_iff, fun own => ⟨?_, fun refused dead => ?_⟩⟩
  · rw [isLocked_eq_false_iff, tryLock_fst_iff, or_iff_left own]
  · obtain rfl | ⟨p, rfl⟩ | foreign := word_cases w
    · cases refused
    · have evicted := recover_dead (dead p rfl)
      refine ⟨p, rfl, evicted, ?_⟩
      rw [evicted]
      exact tryLock_fst_iff.2 rfl
    · exact absurd foreign own

def lonelyCaller : Caller := ⟨7, by decide, by decide, fun _ => false⟩

theorem observers_agree_nine :
    isLocked 9 = true ∧ recover lonelyCaller 9 = (some 9, 0) ∧
      (tryLock lonelyCaller (recover lonelyCaller 9).2).1 = true := by
  obtain ⟨-, -, -, -, agree⟩ := observers_agree lonelyCaller 9
  obtain ⟨seen, recovered⟩ := agree (by decide)
  have refused : (tryLock lonelyCaller 9).1 = false := by decide
  obtain ⟨p, same, evicted, free⟩ := recovered refused (fun p same => by
    have hval : p.val = 9 := by rw [← p.toNat_word, ← same]; rfl
    rw [hval]
    decide)
  refine ⟨?_, by rw [evicted, ← p.toNat_word, ← same]; rfl, free⟩
  rw [← Bool.not_eq_false, seen, refused]
  exact Bool.false_ne_true

/-- The least foreign word: nobody holds the lock, nobody can take it, recovery leaves it. -/
theorem least_foreign_word_stays :
    ((0x80000000 : UInt64) ≠ 0) ∧ owner? 0x80000000 = none ∧ isLocked 0x80000000 = false ∧
      (tryLock lonelyCaller 0x80000000).1 = false ∧
      (∀ p : Pid, (0x80000000 : UInt64) ≠ p.word) ∧
      recover lonelyCaller 0x80000000 = (none, 0x80000000) := by
  have foreign : Foreign 0x80000000 := by decide
  obtain ⟨unlocked, refused, stays⟩ := foreign_stays lonelyCaller foreign
  refine ⟨by decide, owner?_foreign foreign, unlocked, by rw [refused], ?_, stays⟩
  intro p same
  rw [same] at foreign
  exact not_foreign_word p foreign

end LockWord

end SharedSlab
