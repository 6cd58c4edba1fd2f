import Mathlib.Data.Finset.Erase
import Mathlib.Data.Finset.Range
import SharedSlab.Proofs.Placement
import SharedSlab.Slab.Snapshot

set_option autoImplicit false

/-!
# The allocator without its memory

A `Ledger` knows the free runs in list order, for each class the pages of its list in order, and
what each page is used for; for a page cut into chunks, the set of its chunks that are taken. It
decides every request as the pool does, without links, packed words or bitmaps.
-/

namespace SharedSlab.Slab

inductive PageUse where
  | free
  | runStart (len : Nat)
  | runRest
  /-- A page of a class: the chunks taken, the reserved ones included. -/
  | chunks (shift : Nat) (taken : Finset Nat)
deriving DecidableEq

namespace PageUse

def taken : PageUse → Finset Nat
  | chunks _ taken => taken
  | _ => ∅

def kind (c : Config) : PageUse → PageKind
  | chunks shift _ => c.kindFor shift
  | _ => .page

end PageUse

def PageRun.finish (r : PageRun) : Nat := r.first + r.len

def PageRun.cut (r : PageRun) (n : Nat) : List PageRun :=
  if n < r.len then [⟨r.first + n, r.len - n⟩] else []

def Pool.chunkAt (p : Pool) (i shift k : Nat) : Nat := p.dataOf i + k * 2 ^ shift

structure Ledger where
  runs : List PageRun
  /-- By class, the pages with a free chunk. -/
  listed : Nat → List Nat
  use : Nat → PageUse

namespace Ledger

def fresh (pageCount : Nat) : Ledger := ⟨[⟨0, pageCount⟩], fun _ => [], fun _ => .free⟩

def freePages (a : Ledger) : Nat := (a.runs.map PageRun.len).sum

/-- Takes `n` pages off the front of the first run that has them. What is left of the run keeps its
place. -/
def firstFit (n : Nat) : List PageRun → Option (Nat × List PageRun)
  | [] => none
  | r :: rest =>
    if n ≤ r.len then some (r.first, r.cut n ++ rest)
    else (firstFit n rest).map fun found => (found.1, r :: found.2)

def holdRun (i n : Nat) (use : Nat → PageUse) : Nat → PageUse :=
  fun j => if j = i then .runStart n else if i < j ∧ j < i + n then .runRest else use j

def take (a : Ledger) (n : Nat) : Option (Nat × Ledger) :=
  (firstFit n a.runs).map fun found =>
    (found.1, { a with runs := found.2, use := holdRun found.1 n a.use })

def joined (i n : Nat) (runs : List PageRun) : PageRun :=
  let before := runs.find? fun r => r.finish = i
  let after := runs.find? fun r => r.first = i + n
  ⟨(before.map PageRun.first).getD i,
    n + (after.map PageRun.len).getD 0 + (before.map PageRun.len).getD 0⟩

/-- A run that was joined comes first, and the runs it was joined from are gone. -/
def joinRuns (i n : Nat) (runs : List PageRun) : List PageRun :=
  joined i n runs :: runs.filter fun r => r.first ≠ i + n ∧ r.finish ≠ i

def unlist (i : Nat) (listed : Nat → List Nat) : Nat → List Nat :=
  fun shift => (listed shift).filter (· ≠ i)

def release (a : Ledger) (i n : Nat) : Ledger :=
  { a with
    listed := unlist i a.listed
    use := fun j => if i ≤ j ∧ j < i + n then .free else a.use j }

def give (a : Ledger) (i n : Nat) : Ledger :=
  { a.release i n with runs := joinRuns i n a.runs }

def enlist (shift i : Nat) (listed : Nat → List Nat) : Nat → List Nat :=
  Function.update listed shift (i :: listed shift)

def setTaken (a : Ledger) (i shift : Nat) (taken : Finset Nat) : Ledger :=
  { a with use := Function.update a.use i (.chunks shift taken) }

def takeChunk (p : Pool) (i shift : Nat) (a : Ledger) : Option Nat × Ledger :=
  let all := p.config.chunkCount shift
  match (List.range all).find? (· ∉ (a.use i).taken) with
  | none => (none, a)
  | some k =>
    let taken := insert k (a.use i).taken
    (some (p.chunkAt i shift k),
      { a.setTaken i shift taken with
        listed := if taken = Finset.range all then unlist i a.listed else a.listed })

def startPage (p : Pool) (shift : Nat) (a : Ledger) : Option Nat × Ledger :=
  match a.take 1 with
  | none => (none, a)
  | some (i, a) =>
    let reserved := p.config.reserved shift
    (some (p.chunkAt i shift reserved),
      { a.setTaken i shift (Finset.range (reserved + 1)) with listed := enlist shift i a.listed })

def alloc (p : Pool) (size : Nat) (a : Ledger) : Option Nat × Ledger :=
  if p.config.maxSize < size then
    match a.take (p.config.page.pagesFor size) with
    | none => (none, a)
    | some (i, a) => (some (p.dataOf i), a)
  else
    let shift := p.config.shiftFor size
    match a.listed shift with
    | [] => a.startPage p shift
    | i :: _ => a.takeChunk p i shift

/-- Frees a taken chunk. A page that was full comes back to the front of its list, and a page with
no chunk left but the reserved ones is given back. -/
def clearChunk (p : Pool) (i shift k : Nat) (a : Ledger) : Ledger :=
  let taken := (a.use i).taken
  let rest := taken.erase k
  let full := taken = Finset.range (p.config.chunkCount shift)
  let cleared := { a.setTaken i shift rest with
    listed := if full then enlist shift i a.listed else a.listed }
  if rest = Finset.range (p.config.reserved shift) then cleared.give i 1 else cleared

def free (p : Pool) (off : Nat) (a : Ledger) : Except PoolError Unit × Ledger :=
  if off < p.start ∨ p.finish ≤ off then (.error .invalidAddress, a)
  else
    let i := (off - p.start) / p.config.pageSize
    let within := (off - p.start) % p.config.pageSize
    match a.use i with
    | .free => (.error .alreadyFree, a)
    | .runRest => (.error .wrongChunk, a)
    | .runStart n => if within = 0 then (.ok (), a.give i n) else (.error .wrongChunk, a)
    | .chunks shift taken =>
      let k := within / 2 ^ shift
      if within % 2 ^ shift ≠ 0 ∨ k < p.config.reserved shift then (.error .wrongChunk, a)
      else if k ∉ taken then (.error .alreadyFree, a)
      else (.ok (), a.clearChunk p i shift k)

end Ledger

end SharedSlab.Slab
