import Caching.Caches.Binding

/-!
# Work on an instance

What a thread asks of an instance is done by the store that the request ends up at. A read of a per-thread
cache by a thread without an instance ends nowhere and is answered as by an empty cache; a write has an
instance made.
-/

namespace Caching.Caches

variable {κ υ : Type} [BEq κ] [Hashable κ]

/-- Where a read ends. -/
inductive Target (κ υ : Type) [BEq κ] [Hashable κ] where
  | store (cache : CacheId) (contents : Store κ υ)
  /-- At a per-thread cache without an instance for the thread. -/
  | unbound (capacity? : Option Nat)

def targetWithin (w : Caches κ υ) (t : ThreadId) : (fuel : Nat) → CacheId → Target κ υ
  | 0, _ => .unbound none
  | fuel + 1, i =>
    match w.body? i with
    | none => .unbound none
    | some (.store s) => .store i s
    | some (.perThread _ capacity? bindings) =>
      match bindings[t]? with
      | none => .unbound capacity?
      | some inner => targetWithin w t fuel inner
    | some (.forwarding inner) => targetWithin w t fuel inner

/-- Where a read by a thread ends. The ranks fall along the way, so it takes no more steps than the rank. -/
def target (w : Caches κ υ) (t : ThreadId) (i : CacheId) : Target κ υ := w.targetWithin t (w.rank i + 1) i

def settleWithin (w : Caches κ υ) (t : ThreadId) : (fuel : Nat) → CacheId → CacheId × Caches κ υ
  | 0, i => (i, w)
  | fuel + 1, i =>
    match w.body? i with
    | some (.perThread make _ _) =>
      let (inner, w) := w.ownInstance t i make
      settleWithin w t fuel inner
    | some (.forwarding inner) => settleWithin w t fuel inner
    | _ => (i, w)

/-- Where a write by a thread ends, once every instance on the way is made. -/
def settle (w : Caches κ υ) (t : ThreadId) (i : CacheId) : CacheId × Caches κ υ :=
  w.settleWithin t (w.rank i + 1) i

/-! ### Reads -/

def length (w : Caches κ υ) (t : ThreadId) (i : CacheId) : Nat :=
  match w.target t i with
  | .store _ s => s.length
  | .unbound _ => 0

def isEmpty (w : Caches κ υ) (t : ThreadId) (i : CacheId) : Bool :=
  match w.target t i with
  | .store _ s => s.isEmpty
  | .unbound _ => true

def capacity? (w : Caches κ υ) (t : ThreadId) (i : CacheId) : Option Nat :=
  match w.target t i with
  | .store _ s => s.capacity?
  | .unbound capacity? => capacity?

def contains (w : Caches κ υ) (t : ThreadId) (i : CacheId) (k : κ) : Bool :=
  match w.target t i with
  | .store _ s => s.contains k
  | .unbound _ => false

def get (w : Caches κ υ) (t : ThreadId) (i : CacheId) (k : κ) : Option υ × Caches κ υ :=
  match w.target t i with
  | .store j _ => w.updateStore j fun s => let (v?, s) := s.get k; (v?, none, s)
  | .unbound _ => (none, w)

def remove (w : Caches κ υ) (t : ThreadId) (i : CacheId) (k : κ) : Option υ × Caches κ υ :=
  match w.target t i with
  | .store j _ => w.updateStore j fun s => let (v?, s) := s.remove k; (v?, none, s)
  | .unbound _ => (none, w)

/-! ### Writes -/

def put (w : Caches κ υ) (t : ThreadId) (i : CacheId) (k : κ) (v : υ) : Option υ × Caches κ υ :=
  let (j, w) := w.settle t i
  w.updateStore j (·.put k v)

/-- Stores a value unless a look-up finds one, in two requests. -/
def lookUpThenPut (w : Caches κ υ) (t : ThreadId) (i : CacheId) (k : κ) (v : υ) : Option υ × Caches κ υ :=
  match w.get t i k with
  | (some current, w) => (some current, w)
  | (none, w) => w.put t i k v

def putIfAbsentWithin (w : Caches κ υ) (t : ThreadId) (k : κ) (v : υ) :
    (fuel : Nat) → CacheId → Option υ × Caches κ υ
  | 0, _ => (none, w)
  | fuel + 1, i =>
    match w.body? i with
    | none => (none, w)
    | some (.store _) => w.updateStore i (·.putIfAbsent k v)
    | some (.perThread make _ _) =>
      let (inner, w) := w.ownInstance t i make
      putIfAbsentWithin w t k v fuel inner
    | some (.forwarding inner) => w.lookUpThenPut t inner k v

/-- Stores a value under a new key, or returns the value that is there. A store and a per-thread cache do it
in one request to what is inside; a forwarding cache looks up first and then stores. -/
def putIfAbsent (w : Caches κ υ) (t : ThreadId) (i : CacheId) (k : κ) (v : υ) : Option υ × Caches κ υ :=
  w.putIfAbsentWithin t k v (w.rank i + 1) i

def clearWithin (w : Caches κ υ) (t : ThreadId) : (fuel : Nat) → CacheId → Caches κ υ
  | 0, _ => w
  | fuel + 1, i =>
    match w.body? i with
    | none => w
    | some (.store s) => w.setBody i (.store s.clear)
    | some (.perThread ..) =>
      match w.detach t i with
      | (none, w) => w
      | (some inner, w) => clearWithin w t fuel inner
    | some (.forwarding inner) => clearWithin w t fuel inner

/-- Removes every entry. A per-thread cache gives the thread's own instance up as well. -/
def clear (w : Caches κ υ) (t : ThreadId) (i : CacheId) : Caches κ υ := w.clearWithin t (w.rank i + 1) i

end Caching.Caches
