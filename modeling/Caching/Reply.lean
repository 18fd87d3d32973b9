import Caching.Counters
import Caching.Factory
import Caching.Fault

/-!
# Replies

What a request is answered with, and what it may hand over besides: an instance or a factory.
-/

namespace Caching

inductive Reply (κ υ : Type) where
  | done
  | flag (b : Bool)
  | number (n : Nat)
  | number? (n? : Option Nat)
  | value? (v? : Option υ)
  | values (vs : List (Option υ))
  | keys (ks : List κ)
  | text (s : String)
  | names (ss : List String)
  | report (r : Report)
  | fault (f : Fault)
  /-- The request makes no sense for what it was addressed to. -/
  | misdirected

/-- What a reply hands over. -/
inductive Product (κ : Type) where
  | cache (i : CacheId)
  | factory (f : Factory κ)

end Caching
