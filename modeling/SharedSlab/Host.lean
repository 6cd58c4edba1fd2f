import SharedSlab.Journal
import SharedSlab.Memory
import SharedSlab.Protection
import SharedSlab.Region
import SharedSlab.Slab.Pool

set_option autoImplicit false

/-!
# Shared-memory objects and mappings

The host keeps memory objects. A registry names some of them; a name can be removed while the
object lives on in its handles and mappings. A mapping shows the first bytes of an object, and
every mapping of an object shows the same bytes. Anonymous memory is an object without a name.
-/

namespace SharedSlab

/-- What the host refuses, beyond names that do not exist. -/
structure Limits where
  openFailure : String → Option Int
  resizeFailure : Nat → Option Int
  mapFailure : (anonymous : Bool) → Nat → Option Int

/-- The widest free range of addresses: the host loads a program at two thirds of its `2 ^ 47`
bytes of addresses, and below it nothing is mapped. -/
def addressLimit : Nat := 0x555555554000

/-- A name has at most 255 bytes behind its slash. Sizes of `2 ^ 63` bytes and more cannot be set.
Memory without a name has to be there in full. A named object takes memory only where it is
written, so its mappings need no more than a free range of addresses. -/
def Limits.standard : Limits where
  openFailure name := if 256 < name.utf8ByteSize then HostError.invalidArgument.code? else none
  resizeFailure size := if 0x8000000000000000 ≤ size then HostError.invalidArgument.code? else none
  mapFailure anonymous len :=
    let limit := if anonymous then memoryLimit else addressLimit
    if limit ≤ len then HostError.noMemory.code? else none

structure MemoryObject where
  size : Nat
  memory : Memory

structure Host where
  limits : Limits
  names : List (String × Nat)
  objects : Array MemoryObject
  /-- Below this address mappings have been placed. -/
  top : Nat
  journal : Array Event

abbrev HostM := EStateM Fault Host

structure SharedObject where
  name : String
  id : Nat
deriving DecidableEq

/-- The first `len` bytes of an object, at an address of this process. -/
structure Mapping where
  id : Nat
  base : Nat
  len : Nat
  protection : Protection
deriving DecidableEq

namespace Host

def pageSize : Nat := 4096

def empty (limits : Limits) : Host := ⟨limits, [], #[], 0x10000, #[]⟩

/-- A name is one path component: leading slashes are taken off, and then exactly one is written
before it. A component is not empty, and has no slash and no zero byte. -/
def normalizeName (name : String) : Except HostError String :=
  let component := name.toList.dropWhile (· == '/')
  if component.isEmpty || component.any (fun c => c == '/' || c.toNat == 0) then
    .error .invalidParameter
  else .ok (String.ofList ('/' :: component))

def note (e : Event) : HostM Unit := modify fun h => { h with journal := h.journal.push e }

def lookup? (name : String) : HostM (Option Nat) := do return (← get).names.lookup name

def register (name : String) (id : Nat) : HostM Unit :=
  modify fun h => { h with names := (name, id) :: h.names.filter (·.1 != name) }

def unregister (name : String) : HostM Unit :=
  modify fun h => { h with names := h.names.filter (·.1 != name) }

def allocate (size : Nat) : HostM Nat := do
  let h ← get
  set { h with objects := h.objects.push ⟨size, Memory.zeroed⟩ }
  return h.objects.size

def sizeOf (id : Nat) : HostM Nat := do
  return match (← get).objects[id]? with
    | some o => o.size
    | none => 0

def reset (id size : Nat) : HostM Unit :=
  modify fun h => { h with objects := h.objects.modify id fun _ => ⟨size, Memory.zeroed⟩ }

def unlinkNormal (name : String) : HostM (Except HostError Unit) := do
  match ← lookup? name with
  | some _ => do
    unregister name
    return .ok ()
  | none => do
    note (.unlinkFailed name .noEntry)
    return .error .noEntry

def unlinkName (name : String) : HostM (Except HostError Unit) := do
  match normalizeName name with
  | .error e => return .error e
  | .ok name => unlinkNormal name

def checkName (name : String) : HostM (Except HostError Unit) := do
  return match (← get).limits.openFailure name with
    | some code => .error (.os code)
    | none => .ok ()

/-- Empties the object of a normalized name, which is registered if it was not. -/
def truncate (name : String) : HostM (Except HostError SharedObject) := do
  match ← checkName name with
  | .error e => return .error e
  | .ok () => do
    match ← lookup? name with
    | some id => do
      reset id 0
      return .ok ⟨name, id⟩
    | none => do
      let id ← allocate 0
      register name id
      return .ok ⟨name, id⟩

def resize (object : SharedObject) (size : Nat) : HostM (Except HostError Unit) := do
  match (← get).limits.resizeFailure size with
  | some code => return .error (.os code)
  | none => do
    reset object.id size
    return .ok ()

/-- Creates an object, or takes over the one of that name, and gives it `size` zero bytes. If its
size cannot be set the name is removed again. -/
def create (name : String) (size : Nat) : HostM (Except HostError SharedObject) := do
  if size = 0 then return .error .invalidParameter
  match normalizeName name with
  | .error e => return .error e
  | .ok name => do
    match ← truncate name with
    | .error e => do
      note (.createFailed name e)
      return .error e
    | .ok object => do
      match ← resize object size with
      | .ok () => return .ok object
      | .error e => do
        note (.resizeFailed name size e)
        let _ ← unlinkNormal name
        return .error e

def find (name : String) : HostM (Except HostError SharedObject) := do
  match ← checkName name with
  | .error e => return .error e
  | .ok () =>
    return match ← lookup? name with
      | some id => .ok ⟨name, id⟩
      | none => .error .noEntry

def openNamed (name : String) : HostM (Except HostError SharedObject) := do
  match normalizeName name with
  | .error e => return .error e
  | .ok name => do
    match ← find name with
    | .ok object => return .ok object
    | .error e => do
      note (.openFailed name e)
      return .error e

/-- Places a mapping above all others, and leaves a page between. -/
def place (id len : Nat) (protection : Protection) : HostM Mapping := do
  let h ← get
  let pages := (len + pageSize - 1) / pageSize
  set { h with top := h.top + (pages + 1) * pageSize }
  return ⟨id, h.top, len, protection⟩

def permit (anonymous : Bool) (len : Nat) : HostM (Except HostError Unit) := do
  if len = 0 then return .error .invalidParameter
  match (← get).limits.mapFailure anonymous len with
  | some code => do
    note (.mapFailed anonymous len (.os code))
    return .error (.os code)
  | none => return .ok ()

def mapAnonymous (len : Nat) (protection : Protection) : HostM (Except HostError Mapping) := do
  match ← permit true len with
  | .error e => return .error e
  | .ok () => return .ok (← place (← allocate len) len protection)

def map (object : SharedObject) (len : Nat) : HostM (Except HostError Mapping) := do
  match ← permit false len with
  | .error e => return .error e
  | .ok () => return .ok (← place object.id len Protection.data)

def mapDescriptor (fd : Int) (len : Nat) : HostM (Except HostError Mapping) := do
  if fd < 0 ∨ len = 0 then return .error .invalidParameter
  note (.mapFailed false len .badDescriptor)
  return .error .badDescriptor

/-- Runs pool operations on the memory of an object. What they wrote stays, also if they fault. The
host lets go of the memory and the journal meanwhile, so that they are changed in place. -/
def onMemory {α : Type} (id : Nat) (act : PoolM α) : HostM α := fun h =>
  let memory := match h.objects[id]? with
    | some o => o.memory
    | none => Memory.zeroed
  let journal := h.journal
  let h := { h with
    objects := h.objects.modify id fun o => { o with memory := Memory.zeroed }
    journal := #[] }
  let store (a : Arena) : Host :=
    { h with
      objects := h.objects.modify id fun o => { o with memory := a.memory }
      journal := a.journal }
  match act ⟨memory, journal⟩ with
  | .ok r a => .ok r (store a)
  | .error e a => .error e (store a)

end Host

end SharedSlab
