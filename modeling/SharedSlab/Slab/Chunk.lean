import SharedSlab.Slab.Run

set_option autoImplicit false

namespace SharedSlab.Slab

def Config.kindFor (c : Config) (shift : Nat) : PageKind :=
  if shift < c.exactShift then .small else if shift = c.exactShift then .exact else .big

namespace Pool

def chunkSize (p : Pool) (size : Nat) : Nat :=
  if p.config.maxSize < size then
    (p.config.page.pagesFor size <<< p.config.pageShift) % wordLimit
  else 1 <<< p.config.shiftFor size

def takeSmallFrom (p : Pool) (page data shift i : Nat) : Nat → PoolM (Option Nat)
  | 0 => return none
  | count + 1 => do
    let w ← p.bitmapWord data i
    match Bits.lowestSet? (~~~w) with
    | none => p.takeSmallFrom page data shift (i + 1) count
    | some k => do
      p.setBitmapWord data i (w ||| Bits.bit k)
      if ← PoolM.allUp i (fun j => do return (← p.bitmapWord data j) = Bits.full) (count + 1) then
        p.retire page .small
      return some (← Checked.add data (← Checked.shiftLeft (i * 64 + k) shift))

def takeSmall (p : Pool) (page idx shift : Nat) : PoolM (Option Nat) := do
  let data ← p.pageData idx
  p.takeSmallFrom page data shift 0 (← p.config.bitmapWords shift)

def takeExact (p : Pool) (page idx shift : Nat) : PoolM (Option Nat) := do
  let w ← p.slab page
  match Bits.lowestSet? (~~~w) with
  | none => return none
  | some k => do
    let w := w ||| Bits.bit k
    p.setSlab page w
    if w = Bits.full then p.retire page .exact
    return some (← Checked.add (← p.pageData idx) (← Checked.shiftLeft k shift))

def bigMask (c : Config) (shift : Nat) : UInt64 :=
  Bits.low (c.pageSize >>> shift) <<< UInt64.ofNat mapShift

def takeBig (p : Pool) (page idx shift : Nat) : PoolM (Option Nat) := do
  let mask := bigMask p.config shift
  let w ← p.slab page
  match Bits.lowestSet? (~~~w &&& mask) with
  | none => return none
  | some k => do
    let w := w ||| Bits.bit k
    p.setSlab page w
    if w &&& mapMask = mask then p.retire page .big
    return some (← Checked.add (← p.pageData idx) (← Checked.shiftLeft (k - mapShift) shift))

/-- Takes a chunk of a page on the list of class `shift`. A page found full does not belong there;
it is reported and taken off the list. -/
def takeChunk (p : Pool) (page shift : Nat) : PoolM (Option Nat) := do
  let idx ← p.pageIndex page
  let kind := p.config.kindFor shift
  let chunk ← match kind with
    | .small => p.takeSmall page idx shift
    | .exact => p.takeExact page idx shift
    | _ => p.takeBig page idx shift
  if chunk.isNone then
    PoolM.note (.pageFull kind idx (1 <<< shift))
    p.retire page kind
  return chunk

/-- Starts a page of class `shift` on the list of `slot`, and takes its first chunk. The bitmap of a
small page takes the chunks that it lies in. -/
def startPage (p : Pool) (slot shift : Nat) : PoolM (Option Nat) := do
  match ← p.takePages 1 with
  | none => return none
  | some idx => do
    let page ← p.pageNode idx
    let data ← p.pageData idx
    match p.config.kindFor shift with
    | .small => do
      let reserved ← p.config.reservedChunks shift
      PoolM.forUp 0 (fun i => do p.setBitmapWord data i (← prefixWord i (reserved + 1)))
        (← p.config.bitmapWords shift)
      p.setSlab page (UInt64.ofNat shift)
      p.pushFront slot page .small
      return some (← Checked.add data (← Checked.shiftLeft reserved shift))
    | .exact => do
      p.setSlab page 1
      p.pushFront slot page .exact
      return some data
    | _ => do
      p.setSlab page (Bits.bit mapShift ||| UInt64.ofNat shift)
      p.pushFront slot page .big
      return some data

/-- Takes at least `size` bytes: the offset of the first, or nothing when the pool is exhausted. -/
def alloc (p : Pool) (size : Nat) : PoolM (Option Nat) := do
  if size = 0 then throw .emptyRequest
  if p.config.maxSize < size then
    match ← p.takePages (p.config.page.pagesFor size) with
    | none => return none
    | some idx => return some (← p.pageData idx)
  else
    let shift := p.config.shiftFor size
    let slot ← p.slotFor shift
    if ← p.ringIsEmpty slot then p.startPage slot shift
    else match ← p.takeChunk (← p.next slot) shift with
      | some off => return some off
      | none => p.startPage slot shift

/-- A page that was full has a free chunk again: back to the front of its list. -/
def relist (p : Pool) (page shift : Nat) (kind : PageKind) : PoolM Unit := do
  if (← p.next page) = 0 then p.pushFront (← p.slotFor shift) page kind

def recordedShift (w : UInt64) : Nat := (w &&& shiftMask).toNat

def freeSmall (p : Pool) (page idx within : Nat) : PoolM (Except PoolError Unit) := do
  let shift := recordedShift (← p.slab page)
  if within % (1 <<< shift) ≠ 0 then return .error .wrongChunk
  let chunk := within >>> shift
  let reserved ← p.config.reservedChunks shift
  if chunk < reserved then return .error .wrongChunk
  let data ← p.pageData idx
  let w ← p.bitmapWord data (chunk / 64)
  if !Bits.test w (chunk % 64) then return .error .alreadyFree
  p.setBitmapWord data (chunk / 64) (w &&& ~~~Bits.bit (chunk % 64))
  p.relist page shift .small
  let test (i : Nat) : PoolM Bool := do return (← p.bitmapWord data i) = (← prefixWord i reserved)
  if ← PoolM.allUp 0 test (← p.config.bitmapWords shift) then p.givePages idx 1
  return .ok ()

def freeExact (p : Pool) (page idx within : Nat) : PoolM (Except PoolError Unit) := do
  let shift := p.config.exactShift
  if within % (1 <<< shift) ≠ 0 then return .error .wrongChunk
  let k := within >>> shift
  let w ← p.slab page
  if !Bits.test w k then return .error .alreadyFree
  let w := w &&& ~~~Bits.bit k
  p.setSlab page w
  p.relist page shift .exact
  if w = 0 then p.givePages idx 1
  return .ok ()

def freeBig (p : Pool) (page idx within : Nat) : PoolM (Except PoolError Unit) := do
  let w ← p.slab page
  let shift := recordedShift w
  if within % (1 <<< shift) ≠ 0 then return .error .wrongChunk
  let k := (within >>> shift) + mapShift
  if 64 ≤ k then throw .shiftTooWide
  if !Bits.test w k then return .error .alreadyFree
  let w := w &&& ~~~Bits.bit k
  p.setSlab page w
  p.relist page shift .big
  if w &&& mapMask = 0 then p.givePages idx 1
  return .ok ()

def freeRun (p : Pool) (page idx within : Nat) : PoolM (Except PoolError Unit) := do
  let w ← p.slab page
  if w = runInterior then return .error .wrongChunk
  if w &&& runStart = 0 then return .error .alreadyFree
  if within ≠ 0 then return .error .wrongChunk
  p.givePages idx (w &&& ~~~runStart).toNat
  return .ok ()

/-- Frees the chunk that starts at `off`. Any other offset is refused, and the pool is left as it
is. -/
def free (p : Pool) (off : Nat) : PoolM (Except PoolError Unit) := do
  if off < p.start ∨ p.finish ≤ off then
    PoolM.note (.offsetOutside off p.start p.finish)
    return .error .invalidAddress
  let rel := off - p.start
  let idx := rel >>> p.config.pageShift
  let within := rel % p.config.pageSize
  let page ← p.pageNode idx
  let kind ← p.kind page
  let answer ← match kind with
    | .small => p.freeSmall page idx within
    | .exact => p.freeExact page idx within
    | .big => p.freeBig page idx within
    | .page => p.freeRun page idx within
  if let .error cause := answer then
    PoolM.note (.freeRejected off kind idx cause)
  return answer

def allocAddress (p : Pool) (size : Nat) : PoolM (Option Nat) := do
  match ← p.alloc size with
  | none => return none
  | some off => return some (← p.region.addressOf off)

def freeAddress (p : Pool) (address : Nat) : PoolM (Except PoolError Unit) := do
  match p.region.offsetOf? address with
  | some off => p.free off
  | none => do
    PoolM.note .pointerOutside
    return .error .invalidAddress

end Pool

end SharedSlab.Slab
