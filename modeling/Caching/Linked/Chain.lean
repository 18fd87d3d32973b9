import Caching.Linked.Pool
import Caching.Text.Description

/-!
# Chains

A chain is the header of a doubly linked sequence whose nodes lie in a pool: its two ends and its length. The
links lie in the nodes, so the operations take the pool and return it, and a node passes from one chain to
another by two changes of links.

The callers keep a discipline: only an unlinked node is attached, and only a node of this chain is detached,
moved or used as an anchor. A handle without a node is allowed everywhere: nothing changes then.
-/

namespace Caching.Linked

structure Chain where
  first? : Option Handle := none
  last? : Option Handle := none
  length : Nat := 0
  deriving DecidableEq

namespace Chain

variable {α : Type}

def empty : Chain := {}

instance : Inhabited Chain := ⟨empty⟩

def isEmpty (c : Chain) : Bool := c.length == 0

/-- The node beside an end, if the handle kept for it still has one. -/
def neighbour? (p : Pool α) (h? : Option Handle) : Option Handle := h?.filter p.contains

/-- Links an unlinked node in before all others. -/
def attachFirst (c : Chain) (p : Pool α) (h : Handle) : Chain × Pool α :=
  if p.contains h then
    let p := p.modify h fun n => { n with prev? := none, next? := c.first? }
    match neighbour? p c.first? with
    | some first =>
      ({ c with first? := some h, length := c.length + 1 },
        p.modify first fun n => { n with prev? := some h })
    | none => ({ first? := some h, last? := some h, length := c.length + 1 }, p)
  else (c, p)

/-- Links an unlinked node in after all others. -/
def attachLast (c : Chain) (p : Pool α) (h : Handle) : Chain × Pool α :=
  if p.contains h then
    let p := p.modify h fun n => { n with prev? := c.last?, next? := none }
    match neighbour? p c.last? with
    | some last =>
      ({ c with last? := some h, length := c.length + 1 },
        p.modify last fun n => { n with next? := some h })
    | none => ({ first? := some h, last? := some h, length := c.length + 1 }, p)
  else (c, p)

/-- Links an unlinked node in directly after `anchor`, a node of this chain. -/
def attachAfter (c : Chain) (p : Pool α) (anchor h : Handle) : Chain × Pool α :=
  match p.node? anchor with
  | none => (c, p)
  | some { next?, .. } =>
    if p.contains h then
      let p := p.modify h fun n => { n with prev? := some anchor, next? }
      let p := p.modify anchor fun n => { n with next? := some h }
      match neighbour? p next? with
      | some next => ({ c with length := c.length + 1 }, p.modify next fun n => { n with prev? := some h })
      | none => ({ c with last? := some h, length := c.length + 1 }, p)
    else (c, p)

/-- Unlinks a node of this chain and says whether there was one. The node stays in the pool. -/
def detach (c : Chain) (p : Pool α) (h : Handle) : Bool × Chain × Pool α :=
  match p.node? h with
  | none => (false, c, p)
  | some { prev?, next?, .. } =>
    let (c, p) := match neighbour? p prev? with
      | some prev => (c, p.modify prev fun n => { n with next? })
      | none => ({ c with first? := next? }, p)
    let (c, p) := match neighbour? p next? with
      | some next => (c, p.modify next fun n => { n with prev? })
      | none => ({ c with last? := prev? }, p)
    (true, { c with length := c.length - 1 }, p.modify h fun n => { n with prev? := none, next? := none })

/-- Unlinks the first node and returns its handle. -/
def detachFirst (c : Chain) (p : Pool α) : Option Handle × Chain × Pool α :=
  match c.first? with
  | none => (none, c, p)
  | some h => (some h, (c.detach p h).2)

/-- Unlinks the last node and returns its handle. -/
def detachLast (c : Chain) (p : Pool α) : Option Handle × Chain × Pool α :=
  match c.last? with
  | none => (none, c, p)
  | some h => (some h, (c.detach p h).2)

/-- Moves a node of this chain before all others. -/
def moveToFirst (c : Chain) (p : Pool α) (h : Handle) : Chain × Pool α :=
  if c.first? = some h then (c, p)
  else
    match c.detach p h with
    | (true, c, p) => c.attachFirst p h
    | (false, c, p) => (c, p)

/-- The handles from first to last. A chain of live nodes that ends has no more nodes than the pool has
slots, and a stale handle can only be the last one met, so the bound cuts nothing off. -/
def handles (c : Chain) (p : Pool α) : List Handle := p.follow (p.slots.size + 1) c.first?

open Text (Description) in
def describe (c : Chain) : Description :=
  let link (h? : Option Handle) : Description := .ofOption (h?.map fun h => .wrapped "NodeId" (.number h))
  .record "LinkedList" [("first", link c.first?), ("last", link c.last?), ("len", .number c.length)]

end Chain

end Caching.Linked
