set_option autoImplicit false

namespace SharedSlab

inductive HostError where
  | notSupported
  | invalidParameter
  | outOfMemory
  | os (code : Int)
deriving DecidableEq

namespace HostError

def message : HostError → String
  | notSupported => "operation not supported on this platform"
  | invalidParameter => "invalid parameter"
  | outOfMemory => "out of memory"
  | os code => s!"os error {code}"

def code? : HostError → Option Int
  | os code => some code
  | _ => none

def noEntry : HostError := .os 2
def badDescriptor : HostError := .os 9
def noMemory : HostError := .os 12
def invalidArgument : HostError := .os 22

end HostError

inductive PoolError where
  | outOfMemory
  | invalidAddress
  | invalidSize
  | notAligned
  | wrongChunk
  | alreadyFree
  | invalidRegion
  | notInitialized
  | host (cause : HostError)
  | internal
deriving DecidableEq

namespace PoolError

/-- A host that is out of memory is a pool out of memory; all else keeps its cause. -/
def ofHost : HostError → PoolError
  | .outOfMemory => .outOfMemory
  | cause => .host cause

def message : PoolError → String
  | outOfMemory => "out of memory"
  | invalidAddress => "address outside the pool"
  | invalidSize => "invalid size"
  | notAligned => "address not aligned"
  | wrongChunk => "pointer is not a chunk start"
  | alreadyFree => "chunk already free"
  | invalidRegion => "invalid shared region"
  | notInitialized => "pool not initialized"
  | host cause => s!"host error: {cause.message}"
  | internal => "internal error"

end PoolError

end SharedSlab
