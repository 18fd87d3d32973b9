import Std.Data.HashMap
import Caching.Bounded.Policy
import Caching.Counters
import Caching.Linked.Sequence

/-!
# Caches in order of arrival or of use

A bounded cache that keeps its entries in one order and gives up the entry at the end of it. In order of
arrival a look-up changes nothing and the oldest entry goes first; in order of use a look-up or an overwrite
brings the entry to the front and the entry unused for longest goes first. The index leads from a key to its
place.
-/

namespace Caching

open Linked Text

inductive Order where
  | arrival
  | use
  deriving DecidableEq

namespace Order

variable {α : Type}

def policy : Order → Policy
  | .arrival => .fifo
  | .use => .lru

/-- What a look-up does to the order. -/
def touch (s : Sequence α) (h : Handle) : Order → Sequence α
  | .arrival => s
  | .use => s.moveToFirst h

def push (s : Sequence α) (v : α) : Order → Handle × Sequence α
  | .arrival => s.pushLast v
  | .use => s.pushFirst v

/-- Gives up the entry whose turn it is. -/
def pop (s : Sequence α) : Order → Option α × Sequence α
  | .arrival => s.popFirst
  | .use => s.popLast

end Order

structure OrderedCache (o : Order) (κ υ : Type) [BEq κ] [Hashable κ] where
  capacity : Capacity
  entries : Sequence (κ × υ) := .empty
  index : Std.HashMap κ Handle := {}
  counters : Counters := {}

namespace OrderedCache

variable {o : Order} {κ υ : Type} [BEq κ] [Hashable κ]

def empty (capacity : Capacity) : OrderedCache o κ υ := { capacity }

def length (c : OrderedCache o κ υ) : Nat := c.index.size

def contains (c : OrderedCache o κ υ) (k : κ) : Bool := c.index.contains k

/-- The keys in order: oldest first in order of arrival, last used first in order of use. -/
def keys (c : OrderedCache o κ υ) : List κ := c.entries.toList.map (·.1)

def get (c : OrderedCache o κ υ) (k : κ) : Option υ × OrderedCache o κ υ :=
  match c.index[k]? with
  | none => (none, { c with counters := c.counters.miss })
  | some h =>
    let entries := o.touch c.entries h
    ((entries.get? h).map (·.2), { c with entries, counters := c.counters.hit })

/-- A look-up whose value passes through a function. -/
def getWith {β : Type} (c : OrderedCache o κ υ) (k : κ) (f : υ → β) : Option β × OrderedCache o κ υ :=
  let (v?, c) := c.get k
  (v?.map f, c)

/-- Gives up one entry. -/
def evict (c : OrderedCache o κ υ) : Option Eviction × OrderedCache o κ υ :=
  match o.pop c.entries with
  | (none, entries) => (none, { c with entries })
  | (some (k, _), entries) =>
    let index := c.index.erase k
    (some { policy := o.policy, remaining := index.size },
      { c with entries, index, counters := c.counters.eviction })

/-- Stores a value and returns the one it replaces. A new key that meets a full cache costs one other entry.
-/
def put (c : OrderedCache o κ υ) (k : κ) (v : υ) : Option υ × Option Eviction × OrderedCache o κ υ :=
  match c.index[k]? with
  | some h =>
    let entries := o.touch c.entries h
    ((entries.get? h).map (·.2), none,
      { c with entries := entries.modifyValue h fun e => (e.1, v), counters := c.counters.update })
  | none =>
    let (evicted?, c) := if c.capacity.size ≤ c.length then c.evict else (none, c)
    let (h, entries) := o.push c.entries (k, v)
    (none, evicted?, { c with entries, index := c.index.insert k h, counters := c.counters.insertion })

/-- Stores a value under a new key; a key that is there counts as looked up, and its value is returned. -/
def putIfAbsent (c : OrderedCache o κ υ) (k : κ) (v : υ) : Option υ × Option Eviction × OrderedCache o κ υ :=
  match c.get k with
  | (some current, c) => (some current, none, c)
  | (none, c) => c.put k v

def remove (c : OrderedCache o κ υ) (k : κ) : Option υ × OrderedCache o κ υ :=
  match c.index[k]? with
  | none => (none, c)
  | some h =>
    let index := c.index.erase k
    match c.entries.erase h with
    | (none, entries) => (none, { c with entries, index })
    | (some (_, v), entries) => (some v, { c with entries, index, counters := c.counters.removal })

/-- Removes every entry. The counters go on. -/
def clear (c : OrderedCache o κ υ) : OrderedCache o κ υ := { c with entries := c.entries.clear, index := {} }

def report (c : OrderedCache o κ υ) : Report := c.counters.report

def describe (c : OrderedCache o κ υ) : Description :=
  o.policy.describeCache c.capacity c.entries.length []

end OrderedCache

end Caching
