import Caching.Directory.Basic

/-!
# Entries of spaces

A read, a removal and a clearing pass over a space that does not exist; a write makes it.
-/

namespace Caching.Directory

variable {κ υ : Type} [BEq κ] [Hashable κ]

def get (d : Directory κ) (w : Caches κ υ) (t : ThreadId) (space : String) (k : κ) : Option υ × Caches κ υ :=
  match d.space? space with
  | none => (none, w)
  | some i => w.get t i k

def remove (d : Directory κ) (w : Caches κ υ) (t : ThreadId) (space : String) (k : κ) :
    Option υ × Caches κ υ :=
  match d.space? space with
  | none => (none, w)
  | some i => w.remove t i k

def clear (d : Directory κ) (w : Caches κ υ) (t : ThreadId) (space : String) : Caches κ υ :=
  match d.space? space with
  | none => w
  | some i => w.clear t i

def put (d : Directory κ) (w : Caches κ υ) (t : ThreadId) (space factory : String) (k : κ) (v : υ) :
    Except Fault (Option υ) × Directory κ × Caches κ υ :=
  match d.ensureSpace w space factory with
  | (.error e, d, w) => (.error e, d, w)
  | (.ok i, d, w) =>
    let (old?, w) := w.put t i k v
    (.ok old?, d, w)

def putIfAbsent (d : Directory κ) (w : Caches κ υ) (t : ThreadId) (space factory : String) (k : κ) (v : υ) :
    Except Fault (Option υ) × Directory κ × Caches κ υ :=
  match d.ensureSpace w space factory with
  | (.error e, d, w) => (.error e, d, w)
  | (.ok i, d, w) =>
    let (v?, w) := w.putIfAbsent t i k v
    (.ok v?, d, w)

end Caching.Directory
