import SharedSlab.Fault

set_option autoImplicit false

/-!
# The shared lock

The whole lock is one 64-bit word: zero while it is free, else the process id of the holder. Every
operation is a function from the word to its answer and the next word. A word may hold anything
when the lock lies in memory that others write; a word above every process id counts as held by
nobody, and still cannot be taken.
-/

namespace SharedSlab

structure Caller where
  pid : Nat
  pid_pos : 0 < pid
  pid_lt : pid < 0x80000000
  lives : Nat → Bool

/-- Whether a process id belongs to a live process; only positive ones do. -/
def Caller.isAlive (self : Caller) (pid : Int) : Bool :=
  0 < pid && (pid.toNat == self.pid || self.lives pid.toNat)

def Caller.word (self : Caller) : UInt64 := UInt64.ofNat self.pid

namespace LockWord

def compareExchange (expected desired w : UInt64) : Bool × UInt64 :=
  if w = expected then (true, desired) else (false, w)

def tryLock (self : Caller) (w : UInt64) : Bool × UInt64 := compareExchange 0 self.word w

/-- Takes a free lock. A lock that is not free would be waited for, and there is nobody else to
free it. -/
def lock (self : Caller) (w : UInt64) : Except Fault UInt64 :=
  match tryLock self w with
  | (true, taken) => .ok taken
  | (false, _) => .error .deadlock

def unlock (self : Caller) (w : UInt64) : Bool × UInt64 := compareExchange self.word 0 w

def forceUnlock (pid : Int) (w : UInt64) : Except Fault (Bool × UInt64) :=
  if 0 < pid then .ok (compareExchange (UInt64.ofNat pid.toNat) 0 w) else .error .badProcess

/-- The holder; a word that is no process id has none. -/
def owner? (w : UInt64) : Option Nat :=
  if w ≠ 0 ∧ w.toNat < 0x80000000 then some w.toNat else none

def isLocked (w : UInt64) : Bool := (owner? w).isSome

def isHeldBy (self : Caller) (w : UInt64) : Bool := owner? w == some self.pid

/-- Releases a lock whose holder has died: the holder it was taken from. -/
def recover (self : Caller) (w : UInt64) : Option Nat × UInt64 :=
  match owner? w with
  | none => (none, w)
  | some pid =>
    if self.isAlive pid then (none, w)
    else
      let (released, next) := compareExchange (UInt64.ofNat pid) 0 w
      (if released then some pid else none, next)

end LockWord

structure Lock where
  address : Nat
  spin : Nat
deriving DecidableEq

namespace Lock

def defaultSpin : Nat := 2048

def bind (address spin : Nat) : Except Fault Lock :=
  if address = 0 then .error .nullLock else .ok ⟨address, spin⟩

def describe (l : Lock) (pidText : Nat → String) (w : UInt64) : String :=
  let owner := match LockWord.owner? w with
    | some pid => "Some(" ++ pidText pid ++ ")"
    | none => "None"
  s!"SharedMutex \x7b owner: {owner}, spin: {l.spin} \x7d"

def describeGuard : String := "SharedMutexGuard \x7b .. \x7d"

end Lock

end SharedSlab
