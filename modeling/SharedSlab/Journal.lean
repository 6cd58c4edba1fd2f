import SharedSlab.Error
import SharedSlab.Slab.Descriptor
import SharedSlab.Text.Quoted

set_option autoImplicit false

namespace SharedSlab

inductive Level where
  | error
  | warn
  | info
  | debug
deriving DecidableEq

def Level.name : Level → String
  | error => "ERROR"
  | warn => "WARN"
  | info => "INFO"
  | debug => "DEBUG"

inductive Event where
  | poolInitialized (len pageCount pageSize : Nat) (start : Nat) (minSize maxSize : Nat)
  | poolAttached (size freePages pageCount : Nat)
  | headerMissing (magic : Nat)
  | geometryMismatch (pageSize chunkSize ownPageSize ownChunkSize : Nat)
  | layoutMismatch (recorded expected : List Nat)
  | noRun (pages freePages : Nat)
  | listOpen (head : Nat)
  | pageFull (kind : Slab.PageKind) (page chunkSize : Nat)
  | pointerOutside
  | offsetOutside (off start finish : Nat)
  | freeRejected (off : Nat) (kind : Slab.PageKind) (page : Nat) (cause : PoolError)
  | report (text : String)
  | lockReclaimed (pid : Nat)
  | createFailed (name : String) (cause : HostError)
  | openFailed (name : String) (cause : HostError)
  | resizeFailed (name : String) (size : Nat) (cause : HostError)
  | unlinkFailed (name : String) (cause : HostError)
  | mapFailed (anonymous : Bool) (len : Nat) (cause : HostError)
  | poolReady (created : Bool) (name : Option String) (len pageCount pageSize : Nat)
  | objectEmpty (name : String)
deriving DecidableEq

/-- The journal marks an apostrophe in the name of an object, and writes ASCII that does not print by
two hexadecimal digits. -/
def objectName : Text.Quoting where
  marksApostrophe := true
  ascii c := "\\x" ++ Hex.byteText (UInt8.ofNat c.toNat)

def listText (numbers : List Nat) : String :=
  "[" ++ ", ".intercalate (numbers.map toString) ++ "]"

namespace Event

def level : Event → Level
  | poolInitialized .. | poolAttached .. | poolReady .. => .info
  | headerMissing .. | geometryMismatch .. | layoutMismatch .. | listOpen .. | pageFull ..
  | createFailed .. | openFailed .. | resizeFailed .. | unlinkFailed .. | mapFailed ..
  | objectEmpty .. => .error
  | pointerOutside | offsetOutside .. | freeRejected .. | lockReclaimed .. => .warn
  | noRun .. | report .. => .debug

/-- The wording. A process address is not part of an event; it is written `PTR`. -/
def message : Event → String
  | poolInitialized len pageCount pageSize start minSize maxSize =>
    s!"slab pool: initialized {len} bytes, {pageCount} pages of {pageSize} bytes at " ++
      s!"{Offset.text start}, chunks {minSize}..={maxSize} bytes"
  | poolAttached size freePages pageCount =>
    s!"slab pool: attached {size} bytes, {freePages} of {pageCount} pages free"
  | headerMissing magic => s!"slab pool: no pool header in region ({Hex.text magic})"
  | geometryMismatch pageSize chunkSize ownPageSize ownChunkSize =>
    s!"slab pool: region built for {pageSize} byte pages / {chunkSize} byte chunks, " ++
      s!"this process uses {ownPageSize} / {ownChunkSize}"
  | layoutMismatch recorded expected =>
    s!"slab pool: header layout {listText recorded} does not match {listText expected}"
  | noRun pages freePages => s!"slab pool: no run of {pages} pages ({freePages} pages free)"
  | listOpen head => s!"slab pool: list at {Offset.text head} does not close"
  | pageFull kind page chunkSize =>
    s!"slab pool: {kind.name} page {page} is linked for {chunkSize} byte chunks but full"
  | pointerOutside => "slab pool: free(PTR) outside the region"
  | offsetOutside off start finish =>
    s!"slab pool: free({Offset.text off}) outside the pages " ++
      s!"[{Offset.text start}, {Offset.text finish})"
  | freeRejected off kind page cause =>
    s!"slab pool: free({Offset.text off}) rejected, {kind.name} page {page}: {cause.message}"
  | report text => text
  | lockReclaimed pid => s!"shared mutex: released lock held by dead process {pid}"
  | createFailed name cause =>
    s!"shm_open({objectName.text name}, O_RDWR|O_CREAT|O_TRUNC) failed: {cause.message}"
  | openFailed name cause => s!"shm_open({objectName.text name}, O_RDWR) failed: {cause.message}"
  | resizeFailed name size cause =>
    s!"ftruncate({objectName.text name}, {size}) failed: {cause.message}"
  | unlinkFailed name cause => s!"shm_unlink({objectName.text name}) failed: {cause.message}"
  | mapFailed anonymous len cause =>
    let flags := if anonymous then "MAP_SHARED|MAP_ANON" else "MAP_SHARED"
    s!"mmap({flags}, {len}) failed: {cause.message}"
  | poolReady created name len pageCount pageSize =>
    let verb := if created then "created" else "attached"
    let subject := name.getD "<anonymous>"
    s!"shared pool: {verb} {subject} " ++
      s!"({len} bytes, {pageCount} pages of {pageSize} bytes)"
  | objectEmpty name => s!"shared pool: {name} is empty"

end Event

end SharedSlab
