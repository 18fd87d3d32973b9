import Caching.Caches.Operations
import Caching.Reply

/-!
# Requests to an instance

The requests that every cache takes, whatever its kind, as data.
-/

namespace Caching

inductive Request (κ υ : Type) where
  | get (k : κ)
  | put (k : κ) (v : υ)
  | contains (k : κ)
  | remove (k : κ)
  | length
  | isEmpty
  | clear
  | capacity
  | putIfAbsent (k : κ) (v : υ)
  /-- Stores only if told so. -/
  | putIf (condition : Bool) (k : κ) (v : υ)
  /-- Removes only if told so. -/
  | removeIf (condition : Bool) (k : κ)

/-- Carries a request out for a thread. -/
def Caches.answer {κ υ : Type} [BEq κ] [Hashable κ] (w : Caches κ υ) (t : ThreadId) (i : CacheId) :
    Request κ υ → Reply κ υ × Caches κ υ
  | .get k => let (v?, w) := w.get t i k; (.value? v?, w)
  | .put k v => let (old?, w) := w.put t i k v; (.value? old?, w)
  | .contains k => (.flag (w.contains t i k), w)
  | .remove k => let (v?, w) := w.remove t i k; (.value? v?, w)
  | .length => (.number (w.length t i), w)
  | .isEmpty => (.flag (w.isEmpty t i), w)
  | .clear => (.done, w.clear t i)
  | .capacity => (.number? (w.capacity? t i), w)
  | .putIfAbsent k v => let (v?, w) := w.putIfAbsent t i k v; (.value? v?, w)
  | .putIf true k v => let (old?, w) := w.put t i k v; (.value? old?, w)
  | .removeIf true k => let (v?, w) := w.remove t i k; (.value? v?, w)
  | .putIf false _ _ | .removeIf false _ => (.value? none, w)

end Caching
