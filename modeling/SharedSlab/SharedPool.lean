import SharedSlab.Host
import SharedSlab.SharedLock
import SharedSlab.Slab.Setup
import SharedSlab.Slab.Snapshot

set_option autoImplicit false

namespace SharedSlab

structure PoolOptions where
  slab : Slab.Config
  spin : Nat
  minPages : Nat
deriving DecidableEq

def PoolOptions.standard : PoolOptions := ⟨Slab.Config.host, Lock.defaultSpin, 8⟩

structure SharedPool where
  pool : Slab.Pool
  lock : Lock
  mapping : Mapping
  object : Option SharedObject
  /-- The process that created the region through this handle, if one did. -/
  creator : Option Nat

structure Counters where
  allocations : Nat
  deallocations : Nat
deriving DecidableEq

structure Session where
  arena : Arena
  counters : Counters

abbrev SharedM := EStateM Fault Session

namespace SharedM

def onPool {α : Type} (act : PoolM α) : SharedM α := fun s =>
  let counters := s.counters
  match act s.arena with
  | .ok r a => .ok r ⟨a, counters⟩
  | .error e a => .error e ⟨a, counters⟩

def countAllocation : SharedM Unit :=
  modify fun s =>
    { s with counters := { s.counters with allocations := s.counters.allocations + 1 } }

def countDeallocation : SharedM Unit :=
  modify fun s =>
    { s with counters := { s.counters with deallocations := s.counters.deallocations + 1 } }

end SharedM

namespace SharedPool

def name? (h : SharedPool) : Option String := h.object.map SharedObject.name

def size (h : SharedPool) : Nat := h.pool.region.len

def config (h : SharedPool) : Slab.Config := h.pool.config

def isCreator (h : SharedPool) (self : Caller) : Bool := h.creator == some self.pid

/-- The size of the region for a request: whole pages, and no fewer than the least number. -/
def regionSize? (size : Nat) (o : PoolOptions) : Option Nat :=
  let page := o.slab.page
  page.alignUp? (max size (min (o.minPages * page.size) (wordLimit - 1)))

def view (mapping : Mapping) (o : PoolOptions) (create : Bool) :
    HostM (Except PoolError (Slab.Pool × Lock)) := do
  let region ← Region.ofAddress mapping.base mapping.len
  let answer ← Host.onMemory mapping.id
    (if create then Slab.Pool.init region o.slab else Slab.Pool.attach region o.slab)
  match answer with
  | .error e => return .error e
  | .ok pool => return .ok (pool, ← Lock.bind region.base o.spin)

/-- Finishes a handle. If that fails, an object that was just created loses its name. -/
def ofMapping (self : Caller) (mapping : Mapping) (object : Option SharedObject)
    (o : PoolOptions) (create : Bool) : HostM (Except PoolError SharedPool) := do
  match ← view mapping o create with
  | .error e => do
    if create then
      if let some object := object then
        let _ ← Host.unlinkNormal object.name
    return .error e
  | .ok (pool, lock) => do
    Host.note (.poolReady create (object.map SharedObject.name) mapping.len pool.pageCount
      o.slab.pageSize)
    return .ok ⟨pool, lock, mapping, object, if create then some self.pid else none⟩

def newRegion (name : Option String) (size : Nat) :
    HostM (Except HostError (Mapping × Option SharedObject)) := do
  match name with
  | none => do
    match ← Host.mapAnonymous size Protection.data with
    | .error e => return .error e
    | .ok mapping => return .ok (mapping, none)
  | some name => do
    match ← Host.create name size with
    | .error e => return .error e
    | .ok object => do
      match ← Host.map object size with
      | .ok mapping => return .ok (mapping, some object)
      | .error e => do
        let _ ← Host.unlinkNormal object.name
        return .error e

/-- Creates a pool of at least `size` bytes. A failure leaves no name behind that was created on
the way. -/
def create (self : Caller) (name : Option String) (size : Nat) (o : PoolOptions) :
    HostM (Except PoolError SharedPool) := do
  if size = 0 then return .error .invalidSize
  match regionSize? size o with
  | none => return .error .invalidSize
  | some size => do
    match ← newRegion name size with
    | .error e => return .error (.ofHost e)
    | .ok (mapping, object) => ofMapping self mapping object o true

def attach (self : Caller) (name : String) (o : PoolOptions) :
    HostM (Except PoolError SharedPool) := do
  match ← Host.openNamed name with
  | .error e => return .error (.ofHost e)
  | .ok object => do
    let size ← Host.sizeOf object.id
    if size = 0 then
      Host.note (.objectEmpty object.name)
      return .error .invalidRegion
    match ← Host.map object size with
    | .error e => return .error (.ofHost e)
    | .ok mapping => ofMapping self mapping (some object) o false

/-- Gives up the mapping, and removes the name if this process created it: the answer, and the
handle that is left. That handle has no object, so releasing it again changes nothing. -/
def release (self : Caller) (h : SharedPool) : HostM (Except PoolError Unit × SharedPool) := do
  let rest := { h with object := none }
  match h.object with
  | none => return (.ok (), rest)
  | some object => do
    if h.isCreator self then
      match ← Host.unlinkNormal object.name with
      | .error e => return (.error (.ofHost e), rest)
      | .ok () => return (.ok (), rest)
    else return (.ok (), rest)

def drop (self : Caller) (h : SharedPool) : HostM Unit := do
  let _ ← h.release self

/-- Releases the handles that a scope leaves, the one opened last first: of two creators of one
name the later removes the name, and the earlier finds it gone. -/
def dropAll (self : Caller) (handles : List SharedPool) : HostM Unit :=
  handles.reverse.forM fun h => h.drop self

def destroy (self : Caller) (h : SharedPool) : HostM (Except PoolError Unit) := do
  let (answer, rest) ← h.release self
  rest.drop self
  return answer

def run {α : Type} (h : SharedPool) (counters : Counters) (act : SharedM α) :
    HostM (α × Counters) :=
  Host.onMemory h.mapping.id fun arena =>
    match act ⟨arena, counters⟩ with
    | .ok r s => .ok (r, s.counters) s.arena
    | .error e s => .error e s.arena

def requireLock (self : Caller) : SharedM Unit := do
  if !LockWord.isHeldBy self (← SharedM.onPool SharedLock.word) then throw .lockNotHeld

/-- Runs an operation under the lock. If it faults the lock stays taken. -/
def locked {α : Type} (self : Caller) (act : SharedM α) : SharedM α := do
  SharedM.onPool (SharedLock.lock self)
  let answer ← act
  let _ ← SharedM.onPool (SharedLock.unlock self)
  return answer

def allocLocked (self : Caller) (h : SharedPool) (size : Nat) : SharedM (Option Nat) := do
  if size = 0 then return none
  requireLock self
  let chunk ← SharedM.onPool (h.pool.allocAddress size)
  if chunk.isSome then SharedM.countAllocation
  return chunk

def alloc (self : Caller) (h : SharedPool) (size : Nat) : SharedM (Option Nat) := do
  if size = 0 then return none
  locked self (h.allocLocked self size)

def zeroChunk (h : SharedPool) (size : Nat) (chunk : Option Nat) : SharedM (Option Nat) := do
  if let some address := chunk then
    SharedM.onPool <| PoolM.onMemory fun m => m.blanket (address - h.pool.region.base) 0 size
  return chunk

def chunkOffset (h : SharedPool) (chunk : Option Nat) : Option Nat :=
  chunk.bind h.pool.region.offsetOf?

def calloc (self : Caller) (h : SharedPool) (size : Nat) : SharedM (Option Nat) := do
  h.zeroChunk size (← h.alloc self size)

def allocOffset (self : Caller) (h : SharedPool) (size : Nat) : SharedM (Option Nat) := do
  return h.chunkOffset (← h.alloc self size)

def freeLocked (self : Caller) (h : SharedPool) (address : Nat) :
    SharedM (Except PoolError Unit) := do
  requireLock self
  let answer ← SharedM.onPool (h.pool.freeAddress address)
  if answer matches .ok () then SharedM.countDeallocation
  return answer

def free (self : Caller) (h : SharedPool) (address : Nat) : SharedM (Except PoolError Unit) :=
  locked self (h.freeLocked self address)

/-- The address of an offset inside the region; the null offset has none. -/
def resolve (h : SharedPool) (off : Nat) : Option Nat :=
  if off = 0 ∨ h.pool.region.len ≤ off then none else some (h.pool.region.base + off)

def offsetOf? (h : SharedPool) (address : Nat) : Option Nat := h.pool.region.offsetOf? address

def freeOffset (self : Caller) (h : SharedPool) (off : Nat) :
    SharedM (Except PoolError Unit) := do
  match h.resolve off with
  | none => return .error .invalidAddress
  | some address => h.free self address

/-- Runs an operation under a guard on the lock. A guard releases the lock at the end of its scope,
whether the operation faults or not. -/
def guarded {α : Type} (self : Caller) (act : SharedM α) : SharedM α := do
  SharedM.onPool (SharedLock.lock self)
  fun s =>
    match act s with
    | .ok r s => (do let _ ← SharedM.onPool (SharedLock.unlock self); return r : SharedM α) s
    | .error e s => (do let _ ← SharedM.onPool (SharedLock.unlock self); throw e : SharedM α) s

def guardCalloc (self : Caller) (h : SharedPool) (size : Nat) : SharedM (Option Nat) := do
  h.zeroChunk size (← h.allocLocked self size)

def guardAllocOffset (self : Caller) (h : SharedPool) (size : Nat) : SharedM (Option Nat) := do
  return h.chunkOffset (← h.allocLocked self size)

def guardFreeOffset (self : Caller) (h : SharedPool) (off : Nat) :
    SharedM (Except PoolError Unit) := do
  match h.resolve off with
  | none => return .error .invalidAddress
  | some address => h.freeLocked self address

def snapshot (self : Caller) (h : SharedPool) : SharedM Slab.Snapshot :=
  guarded self (SharedM.onPool h.pool.snapshot)

def dump (self : Caller) (h : SharedPool) : SharedM String :=
  guarded self (SharedM.onPool h.pool.dump)

end SharedPool

end SharedSlab
