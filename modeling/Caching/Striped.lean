import Std.Data.HashMap
import Caching.Sizing

/-!
# Striped maps

An unbounded map in several segments. A key belongs to one segment, chosen by a hash function that the map is
given, so that work on different segments does not meet. Which function it is and how many segments there are
shows in no answer about entries.
-/

namespace Caching

open Text (Description)

structure StripedMap (κ υ : Type) [BEq κ] [Hashable κ] where
  hash : κ → UInt64
  segments : Array (Std.HashMap κ υ)
  segments_pos : 0 < segments.size

namespace StripedMap

variable {κ υ : Type} [BEq κ] [Hashable κ]

/-- An empty map with the requested number of segments, and one segment if none is requested. -/
def empty (striping : Striping) (hash : κ → UInt64) : StripedMap κ υ where
  hash
  segments := Array.replicate (max striping.segments 1) {}
  segments_pos := by rw [Array.size_replicate]; omega

def segmentCount (m : StripedMap κ υ) : Nat := m.segments.size

/-- The number of the segment that a key belongs to. -/
def slot (m : StripedMap κ υ) (k : κ) : Fin m.segments.size :=
  ⟨(m.hash k).toNat % m.segments.size, Nat.mod_lt _ m.segments_pos⟩

def segment (m : StripedMap κ υ) (k : κ) : Std.HashMap κ υ := m.segments[m.slot k]

def modify (m : StripedMap κ υ) (k : κ) (f : Std.HashMap κ υ → Std.HashMap κ υ) : StripedMap κ υ where
  hash := m.hash
  segments := m.segments.modify (m.slot k) f
  segments_pos := by simpa using m.segments_pos

def get? (m : StripedMap κ υ) (k : κ) : Option υ := (m.segment k)[k]?

/-- A look-up whose value passes through a function. -/
def getWith {β : Type} (m : StripedMap κ υ) (k : κ) (f : υ → β) : Option β := (m.segment k)[k]?.map f

def contains (m : StripedMap κ υ) (k : κ) : Bool := (m.segment k).contains k

def length (m : StripedMap κ υ) : Nat := m.segments.foldl (fun n s => n + s.size) 0

def isEmpty (m : StripedMap κ υ) : Bool := m.segments.all (·.isEmpty)

def put (m : StripedMap κ υ) (k : κ) (v : υ) : Option υ × StripedMap κ υ :=
  (m.get? k, m.modify k (·.insert k v))

def putIfAbsent (m : StripedMap κ υ) (k : κ) (v : υ) : Option υ × StripedMap κ υ :=
  match m.get? k with
  | some current => (some current, m)
  | none => (none, m.modify k (·.insert k v))

def remove (m : StripedMap κ υ) (k : κ) : Option υ × StripedMap κ υ :=
  (m.get? k, m.modify k (·.erase k))

def clear (m : StripedMap κ υ) : StripedMap κ υ where
  hash := m.hash
  segments := m.segments.map fun _ => {}
  segments_pos := by simpa using m.segments_pos

def describe (m : StripedMap κ υ) : Description :=
  .record "ConcurrentMapCache" [("segment_count", .number m.segmentCount)]

end StripedMap

end Caching
