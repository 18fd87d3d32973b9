import Caching.Directory.Entries
import Caching.Reply

/-!
# Requests to a directory

The requests that a directory takes, as data. The requests without the name of a space are about the default
one, and make it with the default factory.
-/

namespace Caching

open Text (Description)

inductive DirectoryRequest (κ υ : Type) where
  | defaultFactory
  | defaultSpace
  | registerFactory (name : String) (make : Factory κ)
  | hasFactory (name : String)
  | factoryNames
  | removeFactory (name : String)
  | factory (name : String)
  | replaceFactory (name : String) (make : Factory κ)
  | ensureSpace (space factory : String)
  | ensureDefault
  | cache (space : String)
  | hasSpace (space : String)
  | spaceNames
  | dropSpace (space : String)
  | clear (space : String)
  | clearDefault
  | get (space : String) (k : κ)
  | getDefault (k : κ)
  | put (space factory : String) (k : κ) (v : υ)
  | putDefault (k : κ) (v : υ)
  | putIfAbsent (space factory : String) (k : κ) (v : υ)
  | putDefaultIfAbsent (k : κ) (v : υ)
  | remove (space : String) (k : κ)
  | removeDefault (k : κ)

namespace Directory

variable {κ υ : Type} [BEq κ] [Hashable κ]

/-- A fault, or the reply made of the result. -/
def replyOf {α : Type} (f : α → Reply κ υ) : Except Fault α → Reply κ υ
  | .ok a => f a
  | .error e => .fault e

/-- Carries a request out for a thread: the reply, what it hands over, and the state after it. -/
def answer (d : Directory κ) (w : Caches κ υ) (t : ThreadId) :
    DirectoryRequest κ υ → Reply κ υ × Option (Product κ) × Directory κ × Caches κ υ
  | .defaultFactory => (.text d.defaultFactory, none, d, w)
  | .defaultSpace => (.text d.defaultSpace, none, d, w)
  | .registerFactory name make =>
    let (r, d, w) := d.registerFactory w name make
    (replyOf (fun _ => .done) r, none, d, w)
  | .hasFactory name => (.flag (d.hasFactory name), none, d, w)
  | .factoryNames => (.names d.factoryNames, none, d, w)
  | .removeFactory name =>
    let (r, d, w) := d.removeFactory w name
    (replyOf (fun f? => .flag f?.isSome) r, r.toOption.join.map .factory, d, w)
  | .factory name =>
    let f? := d.factory? name
    (.flag f?.isSome, f?.map .factory, d, w)
  | .replaceFactory name make =>
    let (old?, d, w) := d.replaceFactory w name make
    (.flag old?.isSome, old?.map .factory, d, w)
  | .ensureSpace space factory =>
    let (r, d, w) := d.ensureSpace w space factory
    (replyOf (fun _ => .flag true) r, r.toOption.map .cache, d, w)
  | .ensureDefault =>
    let (r, d, w) := d.ensureDefault w
    (replyOf (fun _ => .flag true) r, r.toOption.map .cache, d, w)
  | .cache space =>
    let i? := d.space? space
    (.flag i?.isSome, i?.map .cache, d, w)
  | .hasSpace space => (.flag (d.hasSpace space), none, d, w)
  | .spaceNames => (.names d.spaceNames, none, d, w)
  | .dropSpace space =>
    let (dropped, d, w) := d.dropSpace w space
    (.flag dropped, none, d, w)
  | .clear space => (.done, none, d, d.clear w t space)
  | .clearDefault => (.done, none, d, d.clear w t d.defaultSpace)
  | .get space k =>
    let (v?, w) := d.get w t space k
    (.value? v?, none, d, w)
  | .getDefault k =>
    let (v?, w) := d.get w t d.defaultSpace k
    (.value? v?, none, d, w)
  | .put space factory k v =>
    let (r, d, w) := d.put w t space factory k v
    (replyOf .value? r, none, d, w)
  | .putDefault k v =>
    let (r, d, w) := d.put w t d.defaultSpace d.defaultFactory k v
    (replyOf .value? r, none, d, w)
  | .putIfAbsent space factory k v =>
    let (r, d, w) := d.putIfAbsent w t space factory k v
    (replyOf .value? r, none, d, w)
  | .putDefaultIfAbsent k v =>
    let (r, d, w) := d.putIfAbsent w t d.defaultSpace d.defaultFactory k v
    (replyOf .value? r, none, d, w)
  | .remove space k =>
    let (v?, w) := d.remove w t space k
    (.value? v?, none, d, w)
  | .removeDefault k =>
    let (v?, w) := d.remove w t d.defaultSpace k
    (.value? v?, none, d, w)

end Directory

end Caching
