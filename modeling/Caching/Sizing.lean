import Caching.Fault

/-!
# Sizes

How large a cache is to be: the capacity of a bounded cache, the division of an unbounded one into segments,
and the sizes that a directory gives to the caches of its built-in factories.

Memory is taken to be there. A cache of any of these sizes can be made, and the allocation of what it asks for
does not fail.
-/

namespace Caching

open Text (Description)

/-- The largest number of entries of a bounded cache. The allocation of as many is taken to succeed. -/
structure Capacity where
  size : Nat
  size_pos : 0 < size := by decide
  deriving DecidableEq

def Capacity.ofNat (size : Nat) : Except Fault Capacity :=
  if h : 0 < size then .ok ⟨size, h⟩ else .error .zeroCapacity

/-- A request for an unbounded cache. The initial capacity is a hint, which no answer depends on: the allocation
of as many entries, and of the segments, is taken to succeed. -/
structure Striping where
  initialCapacity : Nat := 0
  segments : Nat := 16
  deriving DecidableEq

namespace Striping

def checked (s : Striping) : Except Fault Striping :=
  if s.segments = 0 then .error .zeroSegments else .ok s

def describe (s : Striping) : Description :=
  .record "ConcurrentMapCacheConfig"
    [("initial_capacity", .number s.initialCapacity), ("segments", .number s.segments)]

end Striping

/-- The sizes of the caches that the built-in factories make. -/
structure Sizing where
  capacity : Capacity := { size := 225 }
  segments : Nat := 16
  deriving DecidableEq

namespace Sizing

def striping (s : Sizing) : Striping := { initialCapacity := s.capacity.size, segments := s.segments }

def describe (s : Sizing) : Description :=
  .record "CacheManagerConfig"
    [("default_capacity", .number s.capacity.size), ("segments", .number s.segments)]

end Sizing

end Caching
