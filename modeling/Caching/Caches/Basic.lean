import Caching.Event
import Caching.Factory
import Caching.Store

/-!
# The caches in existence

All instances with their contents, the threads that use them, and what was logged and counted on the way. An
instance keeps entries itself, or has an instance of its own for each thread, or passes requests on to
another.

Each instance has a rank, which is greater than the rank of every instance that it may pass a request to.
-/

namespace Caching

/-- The number of a thread. No number is given twice. -/
abbrev ThreadId := Nat

/-- Where a thread stands with its releases: the caches that it once got an instance of its own from, and that
give this instance back when it exits. -/
inductive Thread where
  | running (releases : List CacheId)
  /-- Exiting; the releases have been carried out and no more are taken. -/
  | released
  | finished
  deriving DecidableEq

inductive Body (κ υ : Type) [BEq κ] [Hashable κ] where
  | store (contents : Store κ υ)
  /-- Makes an instance for a thread when the thread first writes, and keeps it for that thread. -/
  | perThread (make : Factory κ) (capacity? : Option Nat) (bindings : Std.HashMap ThreadId CacheId)
  | forwarding (inner : CacheId)

/-- The instances that an instance can pass a request to, now or after making one. -/
def Body.references {κ υ : Type} [BEq κ] [Hashable κ] : Body κ υ → List CacheId
  | .store _ => []
  | .perThread make _ bindings => make.references ++ bindings.toList.map (·.2)
  | .forwarding inner => [inner]

structure Instance (κ υ : Type) [BEq κ] [Hashable κ] where
  rank : Nat
  body : Body κ υ

structure Caches (κ υ : Type) [BEq κ] [Hashable κ] where
  /-- The instances by number; `none` once an instance has been dropped. -/
  instances : Array (Option (Instance κ υ)) := #[]
  /-- The threads that have something to release, or have exited. -/
  threads : Std.HashMap ThreadId Thread := {}
  built : Std.HashMap String Nat := {}
  /-- The events, newest last. -/
  log : Array Event := #[]

namespace Caches

variable {κ υ : Type} [BEq κ] [Hashable κ]

def empty : Caches κ υ := {}

instance : Inhabited (Caches κ υ) := ⟨empty⟩

def instance? (w : Caches κ υ) (i : CacheId) : Option (Instance κ υ) := w.instances[i]?.join

def body? (w : Caches κ υ) (i : CacheId) : Option (Body κ υ) := (w.instance? i).map (·.body)

def rank (w : Caches κ υ) (i : CacheId) : Nat := ((w.instance? i).map (·.rank)).getD 0

def thread (w : Caches κ υ) (t : ThreadId) : Thread := w.threads.getD t (.running [])

/-- How often instances were made under the name of a counter. -/
def builtCount (w : Caches κ υ) (counter : String) : Nat := w.built.getD counter 0

def emit (w : Caches κ υ) (e : Event) : Caches κ υ := { w with log := w.log.push e }

def emitEviction (w : Caches κ υ) (e? : Option Eviction) : Caches κ υ :=
  match e? with
  | none => w
  | some e => w.emit (.evicted e)

/-- Takes the events out. -/
def drainLog (w : Caches κ υ) : List Event × Caches κ υ := (w.log.toList, { w with log := #[] })

def setBody (w : Caches κ υ) (i : CacheId) (b : Body κ υ) : Caches κ υ :=
  { w with instances := w.instances.modify i (Option.map fun x => { x with body := b }) }

/-- Applies an operation to the store in an instance, and logs the eviction that it reports. The instance is out
of the collection meanwhile, so that nothing else refers to the store and it is changed in place. -/
def updateStore (w : Caches κ υ) (i : CacheId) (f : Store κ υ → Option υ × Option Eviction × Store κ υ) :
    Option υ × Caches κ υ :=
  match w.instance? i with
  | some { rank, body := .store s } =>
    let w := { w with instances := w.instances.setIfInBounds i none }
    let (v?, evicted?, s) := f s
    let w := { w with instances := w.instances.setIfInBounds i (some { rank, body := .store s }) }
    (v?, w.emitEviction evicted?)
  | _ => (none, w)

def setThread (w : Caches κ υ) (t : ThreadId) (s : Thread) : Caches κ υ :=
  { w with threads := w.threads.insert t s }

/-- A new instance. -/
def add (w : Caches κ υ) (rank : Nat) (body : Body κ υ) : CacheId × Caches κ υ :=
  (w.instances.size, { w with instances := w.instances.push (some { rank, body }) })

/-- Lets a factory make an instance. -/
def make (w : Caches κ υ) : Factory κ → CacheId × Caches κ υ
  | .bounded .fifo capacity => w.add 0 (.store (.fifo (.empty capacity)))
  | .bounded .lru capacity => w.add 0 (.store (.lru (.empty capacity)))
  | .bounded .lfu capacity => w.add 0 (.store (.lfu (.empty capacity)))
  | .striped striping hash => w.add 0 (.store (.striped (.empty striping hash)))
  | .perThread make capacity? => w.add (make.rank w.rank + 1) (.perThread make capacity? {})
  | .forwarding inner =>
    let (i, w) := w.make inner
    w.add (w.rank i + 1) (.forwarding i)
  | .existing i => (i, w)
  | .counted counter make => { w with built := w.built.alter counter (some <| ·.getD 0 + 1) }.make make

theorem updateStore_eq_setBody {w : Caches κ υ} {i : CacheId} {s : Store κ υ}
    (h : w.body? i = some (.store s)) (f : Store κ υ → Option υ × Option Eviction × Store κ υ) :
    w.updateStore i f = ((f s).1, (w.setBody i (.store (f s).2.2)).emitEviction (f s).2.1) := by
  obtain ⟨⟨rank, body⟩, hx, rfl⟩ := Option.map_eq_some_iff.1 h
  have hi : w.instances[i]? = some (some ⟨rank, .store s⟩) := by
    rw [instance?] at hx
    cases hj : w.instances[i]? <;> simp_all
  have hset : w.instances.setIfInBounds i (some ⟨rank, .store (f s).2.2⟩) =
      w.instances.modify i (Option.map fun x => { x with body := .store (f s).2.2 }) := by
    apply Array.ext_getElem?
    intro j
    rw [Array.getElem?_setIfInBounds, Array.getElem?_modify]
    split
    · next hij =>
      subst hij
      simpa [hi] using (Array.getElem?_eq_some_iff.1 hi).1
    · rfl
  simp only [updateStore, hx, setBody, Array.setIfInBounds_setIfInBounds, hset]

end Caches

end Caching
