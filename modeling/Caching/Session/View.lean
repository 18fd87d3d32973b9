import Caching.Directory.Basic

/-!
# Views

What is shown of a cache or a directory after a call, as the calling thread sees it. Taking a view changes
nothing.
-/

namespace Caching

inductive View (κ : Type) where
  | ordered (length : Nat) (keys : List κ)
  | byFrequency (length : Nat) (entries : List (κ × UInt64))
  | sized (length : Nat)
  | perThread (bound : Bool) (threads length : Nat) (capacity? : Option Nat)
  | directory (factories : List String) (spaces : List (String × Nat))

variable {κ υ : Type} [BEq κ] [Hashable κ]

def Store.view : Store κ υ → View κ
  | .fifo c => .ordered c.length c.keys
  | .lru c => .ordered c.length c.keys
  | .lfu c => .byFrequency c.length (c.toList.map fun e => (e.key, e.frequency))
  | .striped m => .sized m.length

namespace Caches

/-- The view of an instance without regard to its kind. -/
def commonView (w : Caches κ υ) (t : ThreadId) (i : CacheId) : View κ := .sized (w.length t i)

def view (w : Caches κ υ) (t : ThreadId) (i : CacheId) : View κ :=
  match w.body? i with
  | some (.store s) => s.view
  | some (.perThread _ _ bindings) =>
    .perThread (bindings.contains t) bindings.size (w.length t i) (w.capacity? t i)
  | _ => w.commonView t i

end Caches

def Directory.view (d : Directory κ) (w : Caches κ υ) (t : ThreadId) : View κ :=
  .directory d.factoryNames
    (d.spaceNames.map fun space => (space, ((d.space? space).map (w.length t)).getD 0))

end Caching
