import SharedSlab.Lock
import SharedSlab.Proofs.WordBits

set_option autoImplicit false

/-!
# Calls on the lock, step by step

Other processes may act between any two steps of a call: a load of the lock word, an exchange of it,
and a look at whether a process lives. A call is written as the program of its steps. Where nobody
comes between them it does at once what the operation of `LockWord` does.
-/

namespace SharedSlab

@[ext]
structure Pid where
  val : Nat
  pos : 0 < val
  lt : val < 0x80000000
deriving DecidableEq

def Pid.word (p : Pid) : UInt64 := UInt64.ofNat p.val

namespace Pid

theorem toNat_word (p : Pid) : p.word.toNat = p.val := toNat_ofNat (p.lt.trans (by decide))

theorem word_ne_zero (p : Pid) : p.word ≠ 0 := by
  intro h
  have hnat := p.toNat_word
  rw [h] at hnat
  exact p.pos.ne hnat

theorem word_inj {p q : Pid} (h : p.word = q.word) : p = q := by
  apply Pid.ext
  rw [← p.toNat_word, h, q.toNat_word]

theorem owner?_word (p : Pid) : LockWord.owner? p.word = some p.val := by
  have hlt : p.word.toNat < 0x80000000 := by
    rw [p.toNat_word]
    exact p.lt
  rw [LockWord.owner?, if_pos ⟨p.word_ne_zero, hlt⟩, p.toNat_word]

end Pid

inductive LockCall
  | lock
  | tryLock
  | unlock
  | forceUnlock (pid : Pid)
  | recover
deriving DecidableEq

inductive LockAnswer
  | flag (success : Bool)
  | evicted (pid : Option Nat)
deriving DecidableEq

/-- The steps that are left of a call, each by what it finds. -/
inductive LockProgram
  | done (answer : LockAnswer)
  | load (rest : UInt64 → LockProgram)
  | exchange (expected desired : UInt64) (rest : Bool → LockProgram)
  | probe (pid : Nat) (rest : Bool → LockProgram)

namespace LockProgram

def take (own : UInt64) : LockProgram := .exchange 0 own fun taken => .done (.flag taken)

def release (word : UInt64) : LockProgram := .exchange word 0 fun freed => .done (.flag freed)

def evict (pid : Nat) : LockProgram :=
  .exchange (UInt64.ofNat pid) 0 fun freed => .done (.evicted (if freed then some pid else none))

def inspect (pid : Nat) : LockProgram :=
  .probe pid fun lives => if lives then .done (.evicted none) else evict pid

def step (self : Caller) : LockProgram → UInt64 → LockProgram × UInt64
  | .done answer, w => (.done answer, w)
  | .load rest, w => (rest w, w)
  | .exchange expected desired rest, w =>
    let (exchanged, next) := LockWord.compareExchange expected desired w
    (rest exchanged, next)
  | .probe pid rest, w => (rest (self.isAlive pid), w)

def alone (self : Caller) : LockProgram → UInt64 → LockAnswer × UInt64
  | .done answer, w => (answer, w)
  | .load rest, w => (rest w).alone self w
  | .exchange expected desired rest, w =>
    let (exchanged, next) := LockWord.compareExchange expected desired w
    (rest exchanged).alone self next
  | .probe pid rest, w => (rest (self.isAlive pid)).alone self w

end LockProgram

namespace LockCall

/-- The steps of a call by a process whose word is `own`; of `lock` those of one attempt. -/
def program (own : UInt64) : LockCall → LockProgram
  | .lock | .tryLock => .load fun w =>
    if w = 0 then .take own else .done (.flag false)
  | .unlock => .release own
  | .forceUnlock pid => .release pid.word
  | .recover => .load fun w =>
    match LockWord.owner? w with
    | none => .done (.evicted none)
    | some pid => .inspect pid

def atOnce (self : Caller) (w : UInt64) : LockCall → Except Fault (LockAnswer × UInt64)
  | .lock | .tryLock => .ok ((LockWord.tryLock self w).map .flag id)
  | .unlock => .ok ((LockWord.unlock self w).map .flag id)
  | .forceUnlock pid => (LockWord.forceUnlock pid.val w).map (·.map .flag id)
  | .recover => .ok ((LockWord.recover self w).map .evicted id)

end LockCall

/-- The steps of a call are those of its operation. -/
theorem alone_program (self : Caller) (w : UInt64) (call : LockCall) :
    .ok ((call.program self.word).alone self w) = call.atOnce self w := by
  cases call with
  | lock | tryLock =>
    apply congrArg Except.ok
    by_cases h : w = 0
    · subst h
      rfl
    · have refused : LockWord.tryLock self w = (false, w) := if_neg h
      rw [refused]
      simp only [LockCall.program, LockProgram.alone, if_neg h]
      rfl
  | unlock => rfl
  | forceUnlock pid =>
    have hpos : 0 < (pid.val : Int) := Int.natCast_pos.2 pid.pos
    rw [LockCall.atOnce, LockWord.forceUnlock, if_pos hpos]
    rfl
  | recover =>
    apply congrArg Except.ok
    simp only [LockCall.program, LockProgram.alone, LockWord.recover]
    cases LockWord.owner? w with
    | none => rfl
    | some pid =>
      simp only [LockProgram.inspect, LockProgram.alone]
      by_cases lives : self.isAlive pid = true
      · rw [if_pos lives, if_pos lives]
        rfl
      · rw [if_neg lives, if_neg lives]
        rfl

end SharedSlab
