import SharedSlab.Lock
import SharedSlab.Slab.Pool

set_option autoImplicit false

namespace SharedSlab.SharedLock

def word : PoolM UInt64 := Slab.Pool.headerWord .lock

def setWord (w : UInt64) : PoolM Unit := Slab.Pool.setHeaderWord .lock w

def apply {α : Type} (step : UInt64 → α × UInt64) : PoolM α := do
  let (answer, next) := step (← word)
  setWord next
  return answer

def init : PoolM Unit := setWord 0

def lock (self : Caller) : PoolM Unit := do
  setWord (← LockWord.lock self (← word))

def tryLock (self : Caller) : PoolM Bool := apply (LockWord.tryLock self)

def unlock (self : Caller) : PoolM Bool := apply (LockWord.unlock self)

def forceUnlock (pid : Int) : PoolM Bool := do
  let (answer, next) ← LockWord.forceUnlock pid (← word)
  setWord next
  return answer

def recover (self : Caller) : PoolM (Option Nat) := do
  let pid ← apply (LockWord.recover self)
  if let some pid := pid then PoolM.note (.lockReclaimed pid)
  return pid

end SharedSlab.SharedLock
