import Caching.Caches.Request
import Caching.Directory.Request
import Caching.Session.Spec

/-!
# Commands

What can be asked in a session. Caches, directories and factories are addressed by the slots they are in.
-/

namespace Caching

/-- The requests that only caches of some kinds take. -/
inductive Inspection (κ υ : Type) where
  /-- A look-up whose value passes through a function. -/
  | getWith (k : κ) (f : υ → υ)
  | capacity
  | keys
  | report
  | algorithm
  | frequencyOf (k : κ)
  | segmentCount
  | isBound
  | boundThreads
  | detach

inductive Command (κ υ : Type) where
  | request (slot : String) (r : Request κ υ)
  /-- Several requests, of which the values are wanted. -/
  | batch (slot : String) (rs : List (Request κ υ))
  | inspect (slot : String) (r : Inspection κ υ)
  | describe (slot : String) (spread : Bool)
  | directory (slot : String) (r : DirectoryRequest κ υ)
  | registerFactory (slot name : String) (make : Spec κ)
  | replaceFactory (slot name : String) (make : Spec κ)
  /-- Lets the factory in a slot make an instance. -/
  | make (slot : String)
  | newCache (slot : String) (spec : Spec κ)
  | newDirectory (slot : String) (spec : DirectorySpec κ)
  | drop (slot : String)
  /-- Whether two slots hold the same instance. -/
  | same (slot₁ slot₂ : String)
  | built (counter : String)

/-- A command, and the slot that is to keep what the reply hands over. -/
structure Call (κ υ : Type) where
  command : Command κ υ
  keep? : Option String := none

inductive Step (κ υ : Type) where
  /-- A call on the main thread. -/
  | main (call : Call κ υ)
  /-- A call on a named thread, which begins with its first call. -/
  | thread (name : String) (call : Call κ υ)
  /-- The end of a named thread, with calls that it makes in the course of it. -/
  | exit (name : String) (late? : Option (List (Call κ υ)))

end Caching
