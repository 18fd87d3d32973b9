import Caching.Bounded.Policy

/-!
# Events

What is worth a line in a log, with its level, its message and its fields.
-/

namespace Caching

inductive Level where
  | trace
  | debug
  | warn
  deriving DecidableEq

def Level.name : Level → String
  | .trace => "trace"
  | .debug => "debug"
  | .warn => "warn"

inductive FieldValue where
  | number (n : Nat)
  | text (s : String)
  deriving DecidableEq

inductive Event where
  | evicted (eviction : Eviction)
  /-- A thread got an instance of its own. -/
  | bound
  /-- A thread gave its own instance up. -/
  | detached
  | directoryCreated (factory space : String)
  | builtinDirectoryCreated (factories capacity : Nat)
  | factoryRegistered (factory : String)
  | factoryRemoved (factory : String)
  | factoryReplaced (factory : String)
  | spaceCreated (space factory : String)
  | spaceDropped (space : String)
  | duplicateFactoryRejected (factory : String)
  | defaultFactoryKept (factory : String)
  | unknownFactoryRequested (space factory : String)
  deriving DecidableEq

namespace Event

def level : Event → Level
  | .evicted _ => .trace
  | .duplicateFactoryRejected _ | .defaultFactoryKept _ | .unknownFactoryRequested .. => .warn
  | _ => .debug

def message : Event → String
  | .evicted { policy := .fifo, .. } => "evicted oldest entry"
  | .evicted { policy := .lru, .. } => "evicted least recently used entry"
  | .evicted { policy := .lfu, .. } => "evicted least frequently used entry"
  | .bound => "bound thread-local cache instance"
  | .detached => "detached thread-local cache instance"
  | .directoryCreated .. => "created cache manager"
  | .builtinDirectoryCreated .. => "created cache manager with built-in factories"
  | .factoryRegistered _ => "registered cache factory"
  | .factoryRemoved _ => "removed cache factory"
  | .factoryReplaced _ => "replaced cache factory"
  | .spaceCreated .. => "created cache space"
  | .spaceDropped _ => "dropped cache space"
  | .duplicateFactoryRejected _ => "rejected duplicate cache factory registration"
  | .defaultFactoryKept _ => "refused to remove the default cache factory"
  | .unknownFactoryRequested .. => "no cache factory registered under this name"

def fields : Event → List (String × FieldValue)
  | .evicted { policy, frequency?, remaining } =>
    [("policy", .text policy.name)] ++
      (frequency?.map fun f => ("frequency", FieldValue.number f.toNat)).toList ++
      [("len", .number remaining)]
  | .bound | .detached => []
  | .directoryCreated factory space => [("factory", .text factory), ("space", .text space)]
  | .builtinDirectoryCreated factories capacity =>
    [("factories", .number factories), ("capacity", .number capacity)]
  | .factoryRegistered factory | .factoryRemoved factory | .factoryReplaced factory
  | .duplicateFactoryRejected factory | .defaultFactoryKept factory => [("factory", .text factory)]
  | .spaceCreated space factory | .unknownFactoryRequested space factory =>
    [("space", .text space), ("factory", .text factory)]
  | .spaceDropped space => [("space", .text space)]

end Event

end Caching
