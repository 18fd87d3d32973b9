import Caching.Text.Description

/-!
# Faults

Why a cache, a factory or a space was refused. Every fault is a mistake in the request, and a request that
fails changes nothing.
-/

namespace Caching

inductive Fault where
  /-- The name is taken by another factory. -/
  | duplicateFactory (name : String)
  /-- The default factory was to be removed. -/
  | protectedDefaultFactory (name : String)
  /-- A space was to be made by a factory that is not registered. -/
  | unknownFactory (name : String)
  | invalidArgument (reason : String)
  deriving DecidableEq

namespace Fault

def zeroCapacity : Fault := .invalidArgument "cache capacity must be greater than zero"

def zeroSegments : Fault := .invalidArgument "segment count must be greater than zero"

/-- What was named with the empty name: a factory or a space. -/
def emptyName (what : String) : Fault := .invalidArgument (what ++ " name must not be empty")

/-- The word for the kind of fault. -/
def kind : Fault → String
  | .duplicateFactory _ => "DuplicateFactory"
  | .protectedDefaultFactory _ => "ProtectedDefaultFactory"
  | .unknownFactory _ => "UnknownFactory"
  | .invalidArgument _ => "InvalidArgument"

def message : Fault → String
  | .duplicateFactory name =>
    "failed to register cache factory: a factory named '" ++ name ++ "' already exists"
  | .protectedDefaultFactory name => "the default cache factory '" ++ name ++ "' cannot be removed"
  | .unknownFactory name => "failed to create cache space: no cache factory named '" ++ name ++ "' exists"
  | .invalidArgument reason => "invalid argument: " ++ reason

def describe (f : Fault) : Text.Description :=
  match f with
  | .duplicateFactory name | .protectedDefaultFactory name | .unknownFactory name =>
    .record f.kind [("name", .string name)]
  | .invalidArgument reason => .wrapped f.kind (.string reason)

end Fault

end Caching
