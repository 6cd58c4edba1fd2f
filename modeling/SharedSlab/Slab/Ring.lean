import SharedSlab.Slab.Pool

set_option autoImplicit false

namespace SharedSlab.Slab.Pool

def initRing (p : Pool) (head : Nat) : PoolM Unit := do
  p.setSlab head 0
  p.setPrev head head .page
  p.setNext head head

def ringIsEmpty (p : Pool) (head : Nat) : PoolM Bool := do
  return (← p.next head) == head

def relink (p : Pool) (node link : Nat) : PoolM Unit := do
  p.setPrev node link (← p.kind node)

def pushFront (p : Pool) (head node : Nat) (kind : PageKind) : PoolM Unit := do
  let first ← p.next head
  p.setNext node first
  p.setPrev node head kind
  p.relink first node
  p.setNext head node

/-- Takes `node` out of its list. Its own links stay as they are. -/
def unlink (p : Pool) (node : Nat) : PoolM Unit := do
  let before ← p.prevNode node
  let after ← p.next node
  p.setNext before after
  p.relink after before

def replace (p : Pool) (old new : Nat) (kind : PageKind) : PoolM Unit := do
  let before ← p.prevNode old
  let after ← p.next old
  p.setNext new after
  p.setPrev new before kind
  p.setNext before new
  p.relink after new

def retire (p : Pool) (node : Nat) (kind : PageKind) : PoolM Unit := do
  p.unlink node
  p.setNext node 0
  p.setPrev node 0 kind

/-- Folds over the nodes from `node` on. The walk ends at the sentinel, at a null link, or after
`budget` nodes; the last is reported, for only a list that does not close gets there. -/
def foldFrom {β : Type} (p : Pool) (head : Nat) (visit : β → Nat → PoolM β) :
    Nat → Nat → β → PoolM β
  | budget, node, acc => do
    if node = head ∨ node = 0 then return acc
    match budget with
    | 0 => do
      PoolM.note (.listOpen head)
      return acc
    | budget + 1 => do
      let after ← p.next node
      p.foldFrom head visit budget after (← visit acc node)

def foldRing {β : Type} (p : Pool) (head : Nat) (visit : β → Nat → PoolM β) (acc : β) :
    PoolM β := do
  p.foldFrom head visit p.pageCount (← p.next head) acc

def findFrom (p : Pool) (head : Nat) (test : Nat → PoolM Bool) : Nat → Nat → PoolM (Option Nat)
  | budget, node => do
    if node = head ∨ node = 0 then return none
    match budget with
    | 0 => do
      PoolM.note (.listOpen head)
      return none
    | budget + 1 => do
      let after ← p.next node
      if ← test node then return some node
      p.findFrom head test budget after

def findRing (p : Pool) (head : Nat) (test : Nat → PoolM Bool) : PoolM (Option Nat) := do
  p.findFrom head test p.pageCount (← p.next head)

end SharedSlab.Slab.Pool
