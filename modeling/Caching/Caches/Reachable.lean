import Std.Data.HashSet
import Caching.Caches.Basic

/-!
# Dropping instances

An instance is dropped when nothing refers to it any more: no owner outside, no per-thread or forwarding
instance that is itself in use, and no factory of one. What a thread is to release later does not count, so an
instance may go before its releases, which then do nothing.
-/

namespace Caching.Caches

variable {κ υ : Type} [BEq κ] [Hashable κ]

/-- Marks instances, and lists those that were not marked before, each once. -/
def mark (marked : Std.HashSet CacheId) (ids : List CacheId) : Std.HashSet CacheId × List CacheId :=
  ids.foldl (fun (marked, new) i => if i ∈ marked then (marked, new) else (marked.insert i, i :: new))
    (marked, [])

/-- Marks the instances that can be reached from `next` in fewer than `fuel` steps. -/
def reachableWithin (w : Caches κ υ) :
    (fuel : Nat) → (marked : Std.HashSet CacheId) → (next : List CacheId) → Std.HashSet CacheId
  | 0, marked, _ => marked
  | fuel + 1, marked, next =>
    match mark marked next with
    | (marked, []) => marked
    | (marked, new) =>
      reachableWithin w fuel marked (new.flatMap fun i => ((w.body? i).map Body.references).getD [])

/-- The instances in use, given those that are referred to from outside. A path without repetition is no
longer than there are instances. -/
def reachable (w : Caches κ υ) (roots : List CacheId) : Std.HashSet CacheId :=
  w.reachableWithin (w.instances.size + 1) {} roots

/-- Drops every instance that is not in use. -/
def dropUnreachable (w : Caches κ υ) (roots : List CacheId) : Caches κ υ :=
  let kept := w.reachable roots
  { w with instances := w.instances.mapIdx fun i x? => x?.filter fun _ => kept.contains i }

end Caching.Caches
