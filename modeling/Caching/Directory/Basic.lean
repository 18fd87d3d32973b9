import Caching.Caches.Operations
import Caching.Text.Uppercase

/-!
# Directories

A directory holds factories by name and spaces by name. A space is an instance that one of the factories made
when the space was first asked for; it stays the same instance until the space is dropped, whatever becomes of
the factory. One factory is the default: it is always there, and the default space is named after it.

Neither a factory nor a space has the empty name.
-/

namespace Caching

open Text (Description)

structure Directory (κ : Type) where
  defaultFactory : String
  defaultSpace : String
  factories : Std.HashMap String (Factory κ)
  spaces : Std.HashMap String CacheId := {}

/-- How the name of every default space begins. -/
def defaultSpaceLabel : String := "DEF-CACHE-SPACE:"

/-- The name of the default space of a directory with the given default factory. -/
def defaultSpaceOf (factory : String) : String := defaultSpaceLabel ++ Text.uppercase factory

/-- The names in a table, in increasing order. -/
def sortedNames {α : Type} (table : Std.HashMap String α) : List String :=
  table.keys.mergeSort fun a b => a ≤ b

/-- The factories that a directory can be set up with, the default one first. -/
def builtinFactories {κ : Type} [Hashable κ] (s : Sizing) : List (String × Factory κ) :=
  [("concurrent", .striped s.striping hash),
    ("lru", .bounded .lru s.capacity),
    ("lfu", .bounded .lfu s.capacity),
    ("fifo", .bounded .fifo s.capacity),
    ("thread-local-lru", .perThreadBounded .lru s.capacity),
    ("thread-local-lfu", .perThreadBounded .lfu s.capacity),
    ("thread-local-fifo", .perThreadBounded .fifo s.capacity),
    ("thread-local-concurrent", .perThreadStriped s.striping hash)]

namespace Directory

variable {κ υ : Type} [BEq κ] [Hashable κ]

/-! ### Setting up -/

/-- A directory with one factory, the default. -/
def create (w : Caches κ υ) (name : String) (make : Factory κ) : Except Fault (Directory κ) × Caches κ υ :=
  if name.isEmpty then (.error (.emptyName "factory"), w)
  else
    let space := defaultSpaceOf name
    (.ok { defaultFactory := name, defaultSpace := space, factories := .ofList [(name, make)] },
      w.emit (.directoryCreated name space))

/-- A directory with the built-in factories. -/
def builtin (w : Caches κ υ) (s : Sizing) : Directory κ × Caches κ υ :=
  let factories := Std.HashMap.ofList (builtinFactories s)
  ({ defaultFactory := "concurrent", defaultSpace := defaultSpaceOf "concurrent", factories },
    w.emit (.builtinDirectoryCreated factories.size s.capacity.size))

/-! ### Factories -/

def factory? (d : Directory κ) (name : String) : Option (Factory κ) := d.factories[name]?

def hasFactory (d : Directory κ) (name : String) : Bool := d.factories.contains name

def factoryNames (d : Directory κ) : List String := sortedNames d.factories

/-- Enters a factory under a new name. -/
def registerFactory (d : Directory κ) (w : Caches κ υ) (name : String) (make : Factory κ) :
    Except Fault Unit × Directory κ × Caches κ υ :=
  if name.isEmpty then (.error (.emptyName "factory"), d, w)
  else if d.hasFactory name then (.error (.duplicateFactory name), d, w.emit (.duplicateFactoryRejected name))
  else (.ok (), { d with factories := d.factories.insert name make }, w.emit (.factoryRegistered name))

/-- Takes a factory out, if it is there and not the default. -/
def removeFactory (d : Directory κ) (w : Caches κ υ) (name : String) :
    Except Fault (Option (Factory κ)) × Directory κ × Caches κ υ :=
  if name = d.defaultFactory then
    (.error (.protectedDefaultFactory name), d, w.emit (.defaultFactoryKept name))
  else
    match d.factory? name with
    | none => (.ok none, d, w)
    | some old =>
      (.ok (some old), { d with factories := d.factories.erase name }, w.emit (.factoryRemoved name))

/-- Puts another factory in the place of one that is there, and returns that one. -/
def replaceFactory (d : Directory κ) (w : Caches κ υ) (name : String) (make : Factory κ) :
    Option (Factory κ) × Directory κ × Caches κ υ :=
  match d.factory? name with
  | none => (none, d, w)
  | some old =>
    (some old, { d with factories := d.factories.insert name make }, w.emit (.factoryReplaced name))

/-! ### Spaces -/

def space? (d : Directory κ) (space : String) : Option CacheId := d.spaces[space]?

def hasSpace (d : Directory κ) (space : String) : Bool := d.spaces.contains space

def spaceNames (d : Directory κ) : List String := sortedNames d.spaces

/-- The instance of a space. Only if there is none is the name of the factory looked at, and one made. -/
def ensureSpace (d : Directory κ) (w : Caches κ υ) (space factory : String) :
    Except Fault CacheId × Directory κ × Caches κ υ :=
  match d.space? space with
  | some i => (.ok i, d, w)
  | none =>
    if space.isEmpty then (.error (.emptyName "space"), d, w)
    else
      match d.factory? factory with
      | none => (.error (.unknownFactory factory), d, w.emit (.unknownFactoryRequested space factory))
      | some make =>
        let (i, w) := w.make make
        (.ok i, { d with spaces := d.spaces.insert space i }, w.emit (.spaceCreated space factory))

def ensureDefault (d : Directory κ) (w : Caches κ υ) : Except Fault CacheId × Directory κ × Caches κ υ :=
  d.ensureSpace w d.defaultSpace d.defaultFactory

/-- Forgets a space and says whether there was one. -/
def dropSpace (d : Directory κ) (w : Caches κ υ) (space : String) : Bool × Directory κ × Caches κ υ :=
  if d.hasSpace space then
    (true, { d with spaces := d.spaces.erase space }, w.emit (.spaceDropped space))
  else (false, d, w)

def describe (d : Directory κ) : Description :=
  .record "CacheManager"
    [("default_factory", .string d.defaultFactory), ("default_space", .string d.defaultSpace),
      ("factories", .list (d.factoryNames.map .string)), ("spaces", .list (d.spaceNames.map .string))]

end Directory

end Caching
