import Caching.Caches.Basic

/-!
# Instances of a thread's own

A per-thread cache keeps one instance for each thread that has written to it. The instance is made at the
first write, and it is given up when the thread clears the cache, detaches the instance or exits. To be told
of the exit the cache enters itself among the thread's releases; an entry stays until the exit, however often
the thread gives its instance up before.

An exit has two parts, since code may still run for the thread in between. If there are releases, the first
part carries them out; what is made for the thread after that is used once and not kept. If there are none,
the thread can still get instances of its own, and the second part gives them back.
-/

namespace Caching.Caches

variable {κ υ : Type} [BEq κ] [Hashable κ]

def bindings (w : Caches κ υ) (i : CacheId) : Std.HashMap ThreadId CacheId :=
  match w.body? i with
  | some (.perThread _ _ bindings) => bindings
  | _ => {}

/-- The thread's own instance in a per-thread cache. -/
def bound? (w : Caches κ υ) (t : ThreadId) (i : CacheId) : Option CacheId := (w.bindings i)[t]?

def bind (w : Caches κ υ) (t : ThreadId) (i inner : CacheId) : Caches κ υ :=
  match w.body? i with
  | some (.perThread make capacity? bindings) =>
    w.setBody i (.perThread make capacity? (bindings.insert t inner))
  | _ => w

def unbind (w : Caches κ υ) (t : ThreadId) (i : CacheId) : Caches κ υ :=
  match w.body? i with
  | some (.perThread make capacity? bindings) => w.setBody i (.perThread make capacity? (bindings.erase t))
  | _ => w

/-- Enters a cache among the thread's releases, if the thread still takes any. -/
def registerRelease? (w : Caches κ υ) (t : ThreadId) (i : CacheId) : Option (Caches κ υ) :=
  match w.thread t with
  | .running releases => some (if i ∈ releases then w else w.setThread t (.running (i :: releases)))
  | .released | .finished => none

/-- The thread's own instance, which is made if there is none, and kept if the thread can release it. -/
def ownInstance (w : Caches κ υ) (t : ThreadId) (i : CacheId) (make : Factory κ) : CacheId × Caches κ υ :=
  match w.bound? t i with
  | some inner => (inner, w)
  | none =>
    let (inner, w) := w.make make
    match w.registerRelease? t i with
    | none => (inner, w)
    | some w => (inner, (w.bind t i inner).emit .bound)

/-- Gives the thread's own instance up, and returns it as it is. -/
def detach (w : Caches κ υ) (t : ThreadId) (i : CacheId) : Option CacheId × Caches κ υ :=
  match w.bound? t i with
  | none => (none, w)
  | some inner => (some inner, (w.unbind t i).emit .detached)

def release (w : Caches κ υ) (t : ThreadId) (releases : List CacheId) : Caches κ υ :=
  releases.foldl (fun w i => w.unbind t i) w

/-- The first part of an exit. -/
def beginExit (w : Caches κ υ) (t : ThreadId) : Caches κ υ :=
  match w.thread t with
  | .running (i :: releases) => (w.release t (i :: releases)).setThread t .released
  | _ => w

/-- The second part of an exit. -/
def finishExit (w : Caches κ υ) (t : ThreadId) : Caches κ υ :=
  match w.thread t with
  | .running releases => (w.release t releases).setThread t .finished
  | _ => w.setThread t .finished

end Caching.Caches
