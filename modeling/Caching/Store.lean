import Caching.Bounded.Frequency
import Caching.Bounded.Ordered
import Caching.Striped

/-!
# Stores

A store keeps entries itself, in one of four ways. What all four have in common is here: looking up, storing,
removing, and the number of entries.
-/

namespace Caching

open Text (Description)

inductive Store (κ υ : Type) [BEq κ] [Hashable κ] where
  | fifo (cache : OrderedCache .arrival κ υ)
  | lru (cache : OrderedCache .use κ υ)
  | lfu (cache : FrequencyCache κ υ)
  | striped (map : StripedMap κ υ)

namespace Store

variable {κ υ : Type} [BEq κ] [Hashable κ]

def length : Store κ υ → Nat
  | .fifo c => c.length
  | .lru c => c.length
  | .lfu c => c.length
  | .striped m => m.length

def isEmpty : Store κ υ → Bool
  | .fifo c => c.length == 0
  | .lru c => c.length == 0
  | .lfu c => c.length == 0
  | .striped m => m.isEmpty

/-- The largest number of entries, if there is one. -/
def capacity? : Store κ υ → Option Nat
  | .fifo c => some c.capacity.size
  | .lru c => some c.capacity.size
  | .lfu c => some c.capacity.size
  | .striped _ => none

def contains (s : Store κ υ) (k : κ) : Bool :=
  match s with
  | .fifo c => c.contains k
  | .lru c => c.contains k
  | .lfu c => c.contains k
  | .striped m => m.contains k

def get (s : Store κ υ) (k : κ) : Option υ × Store κ υ :=
  match s with
  | .fifo c => let (v?, c) := c.get k; (v?, .fifo c)
  | .lru c => let (v?, c) := c.get k; (v?, .lru c)
  | .lfu c => let (v?, c) := c.get k; (v?, .lfu c)
  | .striped m => (m.get? k, .striped m)

/-- A look-up whose value passes through a function. -/
def getWith {β : Type} (s : Store κ υ) (k : κ) (f : υ → β) : Option β × Store κ υ :=
  match s with
  | .fifo c => let (v?, c) := c.getWith k f; (v?, .fifo c)
  | .lru c => let (v?, c) := c.getWith k f; (v?, .lru c)
  | .lfu c => let (v?, c) := c.getWith k f; (v?, .lfu c)
  | .striped m => (m.getWith k f, .striped m)

def put (s : Store κ υ) (k : κ) (v : υ) : Option υ × Option Eviction × Store κ υ :=
  match s with
  | .fifo c => let (old?, evicted?, c) := c.put k v; (old?, evicted?, .fifo c)
  | .lru c => let (old?, evicted?, c) := c.put k v; (old?, evicted?, .lru c)
  | .lfu c => let (old?, evicted?, c) := c.put k v; (old?, evicted?, .lfu c)
  | .striped m => let (old?, m) := m.put k v; (old?, none, .striped m)

/-- Stores a value under a new key, or returns the value that is there. -/
def putIfAbsent (s : Store κ υ) (k : κ) (v : υ) : Option υ × Option Eviction × Store κ υ :=
  match s with
  | .fifo c => let (v?, evicted?, c) := c.putIfAbsent k v; (v?, evicted?, .fifo c)
  | .lru c => let (v?, evicted?, c) := c.putIfAbsent k v; (v?, evicted?, .lru c)
  | .lfu c => let (v?, evicted?, c) := c.putIfAbsent k v; (v?, evicted?, .lfu c)
  | .striped m => let (v?, m) := m.putIfAbsent k v; (v?, none, .striped m)

def remove (s : Store κ υ) (k : κ) : Option υ × Store κ υ :=
  match s with
  | .fifo c => let (v?, c) := c.remove k; (v?, .fifo c)
  | .lru c => let (v?, c) := c.remove k; (v?, .lru c)
  | .lfu c => let (v?, c) := c.remove k; (v?, .lfu c)
  | .striped m => let (v?, m) := m.remove k; (v?, .striped m)

def clear : Store κ υ → Store κ υ
  | .fifo c => .fifo c.clear
  | .lru c => .lru c.clear
  | .lfu c => .lfu c.clear
  | .striped m => .striped m.clear

/-! ### What only some stores have -/

def policy? : Store κ υ → Option Policy
  | .fifo _ => some .fifo
  | .lru _ => some .lru
  | .lfu _ => some .lfu
  | .striped _ => none

def keys? : Store κ υ → Option (List κ)
  | .fifo c => some c.keys
  | .lru c => some c.keys
  | .lfu c => some c.keys
  | .striped _ => none

def report? : Store κ υ → Option Report
  | .fifo c => some c.report
  | .lru c => some c.report
  | .lfu c => some c.report
  | .striped _ => none

def describe : Store κ υ → Description
  | .fifo c => c.describe
  | .lru c => c.describe
  | .lfu c => c.describe
  | .striped m => m.describe

end Store

end Caching
