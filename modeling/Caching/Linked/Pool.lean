/-!
# Pools of linkable nodes

A pool keeps nodes in numbered slots. A freed slot is used again, the one freed last first; with none free the
pool grows by one slot. A node carries two links, which name other slots of the pool and mean nothing to the
pool itself: a chain gives them their meaning, and several chains may share one pool.

A handle is a slot number and may be stale. Every operation is defined on a stale handle: it finds nothing and
changes nothing.
-/

namespace Caching.Linked

/-- The number of a slot. -/
abbrev Handle := Nat

structure Node (α : Type) where
  value : α
  prev? : Option Handle := none
  next? : Option Handle := none

structure Pool (α : Type) where
  slots : Array (Option (Node α)) := #[]
  /-- The empty slots, last freed first. -/
  free : List Handle := []
  /-- The number of nodes held. -/
  size : Nat := 0

namespace Pool

variable {α : Type}

def empty : Pool α := {}

instance : Inhabited (Pool α) := ⟨empty⟩

def node? (p : Pool α) (h : Handle) : Option (Node α) := p.slots[h]?.join

def contains (p : Pool α) (h : Handle) : Bool := (p.node? h).isSome

def get? (p : Pool α) (h : Handle) : Option α := (p.node? h).map (·.value)

/-- Stores a value in an unlinked node of its own. -/
def insert (p : Pool α) (v : α) : Handle × Pool α :=
  match p.free with
  | h :: free => (h, { slots := p.slots.setIfInBounds h (some { value := v }), free, size := p.size + 1 })
  | [] => (p.slots.size, { slots := p.slots.push (some { value := v }), free := [], size := p.size + 1 })

/-- Empties the slot of a node. Its neighbours are not told, so a linked node is to be detached first. -/
def erase (p : Pool α) (h : Handle) : Option α × Pool α :=
  match p.get? h with
  | none => (none, p)
  | some v => (some v, { slots := p.slots.setIfInBounds h none, free := h :: p.free, size := p.size - 1 })

def modify (p : Pool α) (h : Handle) (f : Node α → Node α) : Pool α :=
  { p with slots := p.slots.modify h (Option.map f) }

/-- Changes the value of a node and leaves its links. -/
def modifyValue (p : Pool α) (h : Handle) (f : α → α) : Pool α :=
  p.modify h fun n => { n with value := f n.value }

/-- Puts a new value into a node and returns the old one. This is how a caller that may change the value
overwrites it. -/
def replace (p : Pool α) (h : Handle) (v : α) : Option α × Pool α :=
  (p.get? h, p.modifyValue h fun _ => v)

/-- A pool without nodes, which numbers its slots from 0 again. -/
def clear (_ : Pool α) : Pool α := .empty

/-- The handles met by following `next?` links, at most `fuel` of them. A stale handle is met and ends the
walk. -/
def follow (p : Pool α) : (fuel : Nat) → Option Handle → List Handle
  | 0, _ => []
  | _, none => []
  | fuel + 1, some h => h :: p.follow fuel ((p.node? h).bind (·.next?))

/-! ### Look-up after a change -/

theorem node?_modify (p : Pool α) (h i : Handle) (f : Node α → Node α) :
    (p.modify h f).node? i = if h = i then (p.node? i).map f else p.node? i := by
  simp only [node?, modify, Array.getElem?_modify]
  split
  · cases p.slots[i]? <;> simp
  · rfl

theorem contains_modify (p : Pool α) (h i : Handle) (f : Node α → Node α) :
    (p.modify h f).contains i = p.contains i := by
  simp only [contains, node?_modify]
  split <;> simp

end Pool

end Caching.Linked
