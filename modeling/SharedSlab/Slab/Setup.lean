import SharedSlab.Slab.Chunk

set_option autoImplicit false

namespace SharedSlab.Slab.Pool

def writeHeader (p : Pool) : PoolM Unit := do
  setHeaderWord .lock 0
  setHeaderWord .magic 0
  setHeaderWord .pageSize (UInt64.ofNat p.config.pageSize)
  setHeaderWord .minShift (UInt64.ofNat p.config.minShift)
  setHeaderWord .size (UInt64.ofNat p.region.len)
  setHeaderWord .slots (UInt64.ofNat p.layout.slots)
  setHeaderWord .pages (UInt64.ofNat p.layout.pages)
  setHeaderWord .pageCount (UInt64.ofNat p.layout.pageCount)
  setHeaderWord .start (UInt64.ofNat p.layout.start)
  setHeaderWord .freePages 0

/-- Lays a fresh pool over a region: every page in one free run, every class list empty. -/
def init (region : Region) (config : Config) : PoolM (Except PoolError Pool) := do
  match ← Layout.compute config region.len with
  | none => return .error .invalidSize
  | some layout => do
    let p ← ofLayout region config layout
    p.writeHeader
    PoolM.forUp 0 (fun slot => do p.initRing (← p.slotNode slot)) config.slotCount
    PoolM.forUp 0 (fun idx => do p.clear (← p.pageNode idx)) layout.pageCount
    p.initRing freeHead
    p.insertRun 0 layout.pageCount
    setFreePages layout.pageCount
    setHeaderWord .magic Slab.magic
    PoolM.note (.poolInitialized region.len layout.pageCount config.pageSize layout.start
      config.minSize config.maxSize)
    return .ok p

def recordedLayout : PoolM Layout := do
  return {
    slots := (← headerWord .slots).toNat
    pages := (← headerWord .pages).toNat
    pageCount := (← headerWord .pageCount).toNat
    start := (← headerWord .start).toNat }

/-- Views the pool that a region holds. The region may be longer than it was when the pool was laid
over it. -/
def attach (region : Region) (config : Config) : PoolM (Except PoolError Pool) := do
  if region.len < headerSize then return .error .invalidRegion
  let found ← headerWord .magic
  if found ≠ Slab.magic then
    PoolM.note (.headerMissing found.toNat)
    return .error .invalidRegion
  let pageSize := (← headerWord .pageSize).toNat
  let minShift := (← headerWord .minShift).toNat
  if pageSize ≠ config.pageSize ∨ minShift ≠ config.minShift then
    PoolM.note (.geometryMismatch pageSize (1 <<< min minShift 63) config.pageSize config.minSize)
    return .error .invalidRegion
  let size := (← headerWord .size).toNat
  if region.len < size then return .error .invalidRegion
  match ← Layout.compute config size with
  | none => return .error .invalidRegion
  | some layout => do
    let recorded ← recordedLayout
    if recorded ≠ layout then
      PoolM.note (.layoutMismatch recorded.toList layout.toList)
      return .error .invalidRegion
    let p ← ofLayout region config layout
    PoolM.note (.poolAttached size (← freePages) layout.pageCount)
    return .ok p

end SharedSlab.Slab.Pool
