import Caching.Sizing
import Caching.Bounded.Policy

/-!
# Factories

A factory says how an instance of a cache is made. It is data: making an instance is a function of the caches
in existence (`Caches.make`), and what a factory can make is read off its structure.

So a factory makes the same kind of cache at every call. A procedure that makes now one kind and now another,
according to the calls it has had, is not a factory in this sense and cannot be expressed.
-/

namespace Caching

/-- The number of an instance. No number is given twice. -/
abbrev CacheId := Nat

/-- How a cache is made, which is the same at every call. -/
inductive Factory (κ : Type) where
  /-- A new bounded cache. -/
  | bounded (policy : Policy) (capacity : Capacity)
  /-- A new unbounded map with its hash function. -/
  | striped (striping : Striping) (hash : κ → UInt64)
  /-- A new cache that makes an instance for every thread. It has no capacity of its own; the one given here
  is shown to threads without an instance. -/
  | perThread (make : Factory κ) (capacity? : Option Nat)
  /-- A new cache that passes every request on to a new inner one. -/
  | forwarding (inner : Factory κ)
  /-- No new cache but one that exists. -/
  | existing (cache : CacheId)
  /-- As the inner factory, and counted under a name. -/
  | counted (counter : String) (make : Factory κ)

namespace Factory

variable {κ : Type}

/-- How many caches a request passes through, at most, before it reaches one that keeps entries: the `rank` of
an instance that this factory makes, given the ranks of those that exist. -/
def rank (rankOf : CacheId → Nat) : Factory κ → Nat
  | .bounded .. | .striped .. => 0
  | .perThread make _ => make.rank rankOf + 1
  | .forwarding inner => inner.rank rankOf + 1
  | .existing i => rankOf i
  | .counted _ make => make.rank rankOf

/-- The existing instances that the factory can hand out, or build on. -/
def references : Factory κ → List CacheId
  | .bounded .. | .striped .. => []
  | .perThread make _ => make.references
  | .forwarding inner => inner.references
  | .existing i => [i]
  | .counted _ make => make.references

def perThreadBounded (policy : Policy) (capacity : Capacity) : Factory κ :=
  .perThread (.bounded policy capacity) (some capacity.size)

def perThreadStriped (striping : Striping) (hash : κ → UInt64) : Factory κ :=
  .perThread (.striped striping hash) none

end Factory

end Caching
