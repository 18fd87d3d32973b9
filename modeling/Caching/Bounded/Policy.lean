import Caching.Sizing

/-!
# Policies

The three rules by which a full cache makes room, their names in the various outputs, and the record of an
eviction.
-/

namespace Caching

open Text (Description)

inductive Policy where
  /-- First in, first out. -/
  | fifo
  /-- The least recently used entry goes first. -/
  | lru
  /-- The least frequently used entry goes first. -/
  | lfu
  deriving DecidableEq

namespace Policy

def name : Policy → String
  | .fifo => "fifo"
  | .lru => "lru"
  | .lfu => "lfu"

/-- The name by which a cache reports its algorithm. -/
def title : Policy → String
  | .fifo => "FIFO"
  | .lru => "LRU"
  | .lfu => "LFU"

/-- The first part of the kinds of the policy's values in descriptions. -/
def stem : Policy → String
  | .fifo => "Fifo"
  | .lru => "Lru"
  | .lfu => "Lfu"

/-- The description of a request for a cache of this policy. -/
def describeRequest (p : Policy) (capacity : Capacity) : Description :=
  .record (p.stem ++ "CacheConfig") [("capacity", .number capacity.size)]

/-- The description of a cache of this policy. -/
def describeCache (p : Policy) (capacity : Capacity) (length : Nat) (rest : List (String × Description)) :
    Description :=
  let segment := .record (p.stem ++ "Segment")
    (("capacity", .number capacity.size) :: ("len", .number length) :: rest)
  .record (p.stem ++ "Cache") [("segment", .record "Mutex" [("data", segment)])]

end Policy

/-- The loss of an entry to make room: by which policy, at what frequency if the policy counts, and how many
entries were left. -/
structure Eviction where
  policy : Policy
  frequency? : Option UInt64 := none
  remaining : Nat
  deriving DecidableEq

end Caching
