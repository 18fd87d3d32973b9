import Caching.Factory
import Caching.Reply

/-!
# Specifications

What a session asks to be made, before it is checked: sizes may be zero, and existing caches are named by the
slots they are in.
-/

namespace Caching

inductive Spec (κ : Type) where
  | bounded (policy : Policy) (capacity : Nat)
  | striped (striping : Striping) (hash : κ → UInt64)
  | perThreadBounded (policy : Policy) (capacity : Nat)
  | perThreadStriped (striping : Striping) (hash : κ → UInt64)
  | perThread (make : Spec κ)
  | forwarding (inner : Spec κ)
  | counted (counter : String) (make : Spec κ)
  /-- The cache in a slot, as of the time when the specification is read. -/
  | inSlot (slot : String)

inductive DirectorySpec (κ : Type) where
  | builtin (capacity segments : Nat)
  | create (name : String) (make : Spec κ)

/-- The factory that is specified, or why there is none. -/
def Spec.factory {κ υ : Type} (cacheIn? : String → Option CacheId) : Spec κ → Except (Reply κ υ) (Factory κ)
  | .bounded policy capacity => ((Capacity.ofNat capacity).map (.bounded policy)).mapError .fault
  | .striped striping hash => (striping.checked.map (.striped · hash)).mapError .fault
  | .perThreadBounded policy capacity =>
    ((Capacity.ofNat capacity).map (.perThreadBounded policy)).mapError .fault
  | .perThreadStriped striping hash => (striping.checked.map (.perThreadStriped · hash)).mapError .fault
  | .perThread make => (make.factory cacheIn?).map (.perThread · none)
  | .forwarding inner => (inner.factory cacheIn?).map .forwarding
  | .counted counter make => (make.factory cacheIn?).map (.counted counter)
  | .inSlot slot =>
    match cacheIn? slot with
    | some i => .ok (.existing i)
    | none => .error .misdirected

end Caching
