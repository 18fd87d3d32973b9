import Caching.Bounded.Frequency
import Caching.Bounded.Ordered

/-!
# Requests to a bounded cache

The requests that a bounded cache takes, as data, and the answers that its caller sees.  A cache in order of
frequency also tells how often an entry was used.
-/

namespace Caching

namespace Bounded

inductive Request (κ υ : Type) : Type 1 where
  | get (k : κ)
  /-- A look-up that passes the value through a function. -/
  | getWith {β : Type} (k : κ) (f : υ → β)
  | put (k : κ) (v : υ)
  | putIfAbsent (k : κ) (v : υ)
  | contains (k : κ)
  | remove (k : κ)
  | length
  | keys
  | clear

/-- The requests to a cache in order of frequency. -/
inductive CountedRequest (κ υ : Type) : Type 1 where
  | plain (r : Request κ υ)
  | frequencyOf (k : κ)

inductive Answer (κ : Type) : Type 1 where
  | value? {β : Type} (v? : Option β)
  | frequency? (f? : Option Nat)
  | flag (b : Bool)
  | number (n : Nat)
  | keys (ks : List κ)
  | done

end Bounded

open Bounded (Request CountedRequest Answer)

variable {o : Order} {κ υ : Type} [BEq κ] [Hashable κ]

def OrderedCache.answer (c : OrderedCache o κ υ) : Request κ υ → Answer κ × OrderedCache o κ υ
  | .get k => let (v?, c) := c.get k; (.value? v?, c)
  | .getWith k f => let (v?, c) := c.getWith k f; (.value? v?, c)
  | .put k v => let (old?, _, c) := c.put k v; (.value? old?, c)
  | .putIfAbsent k v => let (v?, _, c) := c.putIfAbsent k v; (.value? v?, c)
  | .contains k => (.flag (c.contains k), c)
  | .remove k => let (v?, c) := c.remove k; (.value? v?, c)
  | .length => (.number c.length, c)
  | .keys => (.keys c.keys, c)
  | .clear => (.done, c.clear)

def FrequencyCache.answer (c : FrequencyCache κ υ) : CountedRequest κ υ → Answer κ × FrequencyCache κ υ
  | .plain (.get k) => let (v?, c) := c.get k; (.value? v?, c)
  | .plain (.getWith k f) => let (v?, c) := c.getWith k f; (.value? v?, c)
  | .plain (.put k v) => let (old?, _, c) := c.put k v; (.value? old?, c)
  | .plain (.putIfAbsent k v) => let (v?, _, c) := c.putIfAbsent k v; (.value? v?, c)
  | .plain (.contains k) => (.flag (c.contains k), c)
  | .plain (.remove k) => let (v?, c) := c.remove k; (.value? v?, c)
  | .plain .length => (.number c.length, c)
  | .plain .keys => (.keys c.keys, c)
  | .plain .clear => (.done, c.clear)
  | .frequencyOf k => (.frequency? ((c.frequencyOf? k).map (·.toNat)), c)

end Caching
