import Caching.Caches.Reachable
import Caching.Session.Command
import Caching.Session.View

/-!
# Sessions

A conversation with caches, directories and factories in named slots, held on a main thread and on named
threads, one call at a time. Each step is answered with a reply, with a view of what it was addressed to, and
with the events of the step.
-/

namespace Caching

inductive Slot (κ : Type) where
  /-- A cache that takes all requests of its kind. -/
  | typed (i : CacheId)
  /-- A cache that takes the common requests only. -/
  | untyped (i : CacheId)
  | directory (d : Directory κ)
  | factory (f : Factory κ)

namespace Slot

variable {κ : Type}

def cache? : Slot κ → Option CacheId
  | .typed i | .untyped i => some i
  | .directory _ | .factory _ => none

/-- The instances that a slot refers to. -/
def references : Slot κ → List CacheId
  | .typed i | .untyped i => [i]
  | .directory d => d.spaces.values ++ d.factories.values.flatMap (·.references)
  | .factory f => f.references

end Slot

structure Session (κ υ : Type) [BEq κ] [Hashable κ] where
  caches : Caches κ υ := .empty
  slots : Std.HashMap String (Slot κ) := {}
  /-- The named threads that have begun and not ended. -/
  threads : Std.HashMap String ThreadId := {}
  nextThread : ThreadId := 1
  /-- Whether a call is answered with a view as well. -/
  viewing : Bool := true

/-- What a call is answered with. The view is missing where none is wanted, or nothing is addressed that could
be viewed. -/
structure Outcome (κ υ : Type) where
  reply : Reply κ υ
  view? : Option (View κ) := none

inductive Answer (κ υ : Type) where
  | call (outcome : Outcome κ υ)
  /-- Whether there was a thread to end. -/
  | exit (existed : Bool)
  /-- The end of a thread that made calls in the course of it. -/
  | lateCalls (outcomes : List (Outcome κ υ))

variable {κ υ : Type} [BEq κ] [Hashable κ]

/-! ### Calls on slots -/

/-- Carries out a request that only some caches take. -/
def Caches.inspect (w : Caches κ υ) (t : ThreadId) (i : CacheId) (r : Inspection κ υ) :
    Reply κ υ × Option (Product κ) × Caches κ υ :=
  let refused := (.misdirected, none, w)
  match w.body? i with
  | some (.store s) =>
    let answered (r? : Option (Reply κ υ)) := (r?.getD .misdirected, none, w)
    match r with
    | .getWith k f =>
      let (v?, w) := w.updateStore i fun s => let (v?, s) := s.getWith k f; (v?, none, s)
      (.value? v?, none, w)
    | .capacity => answered (s.capacity?.map .number)
    | .keys => answered (s.keys?.map .keys)
    | .report => answered (s.report?.map .report)
    | .algorithm => answered (s.policy?.map fun p => .text p.title)
    | .frequencyOf k =>
      match s with
      | .lfu c => (.number? ((c.frequencyOf? k).map (·.toNat)), none, w)
      | _ => refused
    | .segmentCount =>
      match s with
      | .striped m => (.number m.segmentCount, none, w)
      | _ => refused
    | _ => refused
  | some (.perThread _ _ bindings) =>
    match r with
    | .isBound => (.flag (bindings.contains t), none, w)
    | .boundThreads => (.number bindings.size, none, w)
    | .detach =>
      let (inner?, w) := w.detach t i
      (.flag inner?.isSome, inner?.map .cache, w)
    | _ => refused
  | _ => refused

def Caches.describe? (w : Caches κ υ) (i : CacheId) : Option Text.Description :=
  match w.body? i with
  | some (.store s) => some s.describe
  | some (.perThread _ capacity? bindings) =>
    some <| .record "ThreadLocalCache"
      [("bound_threads", .number bindings.size), ("capacity", .ofOption (capacity?.map .number))]
  | _ => none

namespace Session

def cacheIn? (s : Session κ υ) (slot : String) : Option CacheId := s.slots[slot]?.bind Slot.cache?

def directoryIn? (s : Session κ υ) (slot : String) : Option (Directory κ) :=
  match s.slots[slot]? with
  | some (.directory d) => some d
  | _ => none

def setSlot (s : Session κ υ) (slot : String) (x : Slot κ) : Session κ υ :=
  { s with slots := s.slots.insert slot x }

def clearSlot (s : Session κ υ) (slot : String) : Session κ υ := { s with slots := s.slots.erase slot }

/-- Puts what a reply handed over into the slot that is to keep it. -/
def keep (s : Session κ υ) (keep? : Option String) (product? : Option (Product κ)) : Session κ υ :=
  match keep?, product? with
  | some slot, some (.cache i) => s.setSlot slot (.untyped i)
  | some slot, some (.factory f) => s.setSlot slot (.factory f)
  | _, _ => s

/-- The instances that some slot refers to. -/
def references (s : Session κ υ) : List CacheId := s.slots.values.flatMap (·.references)

/-- The view of what is in a slot. -/
def viewOf? (s : Session κ υ) (t : ThreadId) : Slot κ → Option (View κ)
  | .typed i => some (s.caches.view t i)
  | .untyped i => some (s.caches.commonView t i)
  | .directory d => some (d.view s.caches t)
  | .factory _ => none

/-- The reply to a command, the contents of the slot that it was addressed to, and the session after it. -/
abbrev Effect (κ υ : Type) [BEq κ] [Hashable κ] := Reply κ υ × Option (Slot κ) × Session κ υ

def refused (s : Session κ υ) : Effect κ υ := (.misdirected, none, s)

def onDirectory (s : Session κ υ) (t : ThreadId) (slot : String) (keep? : Option String)
    (r : DirectoryRequest κ υ) : Effect κ υ :=
  match s.directoryIn? slot with
  | none => s.refused
  | some d =>
    let (reply, product?, d, caches) := d.answer s.caches t r
    let s := { s with caches }.setSlot slot (.directory d)
    (reply, some (.directory d), s.keep keep? product?)

def describe (s : Session κ υ) (slot : String) (spread : Bool) : Effect κ υ :=
  let write (d : Text.Description) : Reply κ υ := .text (if spread then d.spread else d.line)
  match s.slots[slot]? with
  | some (.typed i) => (((s.caches.describe? i).map write).getD .misdirected, some (.typed i), s)
  | some (.directory d) => (write d.describe, some (.directory d), s)
  | _ => s.refused

/-- Answers several requests one after the other and collects the values. -/
def collect (w : Caches κ υ) (t : ThreadId) (i : CacheId) :
    List (Request κ υ) → List (Option υ) × Caches κ υ
  | [] => ([], w)
  | r :: rs =>
    let (reply, w) := w.answer t i r
    let v? := match reply with
      | .value? v? => v?
      | _ => none
    let (vs, w) := collect w t i rs
    (v? :: vs, w)

/-- Carries out a command for a thread. -/
def carryOut (s : Session κ υ) (t : ThreadId) (keep? : Option String) : Command κ υ → Effect κ υ
  | .request slot r =>
    match s.slots[slot]?, s.cacheIn? slot with
    | some x, some i =>
      let (reply, caches) := s.caches.answer t i r
      (reply, some x, { s with caches })
    | _, _ => s.refused
  | .batch slot rs =>
    match s.slots[slot]?, s.cacheIn? slot with
    | some x, some i =>
      let (vs, caches) := collect s.caches t i rs
      (.values vs, some x, { s with caches })
    | _, _ => s.refused
  | .inspect slot r =>
    match s.slots[slot]? with
    | some (.typed i) =>
      let (reply, product?, caches) := s.caches.inspect t i r
      (reply, some (.typed i), { s with caches }.keep keep? product?)
    | _ => s.refused
  | .describe slot spread => s.describe slot spread
  | .directory slot r => s.onDirectory t slot keep? r
  | .registerFactory slot name spec =>
    match spec.factory s.cacheIn? with
    | .error reply => (reply, none, s)
    | .ok make => s.onDirectory t slot keep? (.registerFactory name make)
  | .replaceFactory slot name spec =>
    match spec.factory s.cacheIn? with
    | .error reply => (reply, none, s)
    | .ok make => s.onDirectory t slot keep? (.replaceFactory name make)
  | .make slot =>
    match s.slots[slot]? with
    | some (.factory f) =>
      let (i, caches) := s.caches.make f
      (.flag true, none, { s with caches }.keep keep? (some (.cache i)))
    | _ => s.refused
  | .newCache slot spec =>
    match spec.factory s.cacheIn? with
    | .error reply => (reply, none, s.clearSlot slot)
    | .ok make =>
      let (i, caches) := s.caches.make make
      (.done, none, { s with caches }.setSlot slot (.typed i))
  | .newDirectory slot (.builtin capacity segments) =>
    match Capacity.ofNat capacity with
    | .error e => (.fault e, none, s.clearSlot slot)
    | .ok capacity =>
      let (d, caches) := Directory.builtin s.caches { capacity, segments }
      (.done, none, { s with caches }.setSlot slot (.directory d))
  | .newDirectory slot (.create name spec) =>
    match spec.factory s.cacheIn? with
    | .error reply => (reply, none, s.clearSlot slot)
    | .ok make =>
      match Directory.create s.caches name make with
      | (.error e, caches) => (.fault e, none, { s with caches }.clearSlot slot)
      | (.ok d, caches) => (.done, none, { s with caches }.setSlot slot (.directory d))
  | .drop slot => (.flag (s.slots.contains slot), none, s.clearSlot slot)
  | .same slot₁ slot₂ =>
    let same := match s.cacheIn? slot₁, s.cacheIn? slot₂ with
      | some i, some j => i == j
      | _, _ => false
    (.flag same, none, s)
  | .built counter => (.number (s.caches.builtCount counter), none, s)

/-- Carries out a call on a thread, and views what it was addressed to as it is after the call. -/
def call (s : Session κ υ) (t : ThreadId) (c : Call κ υ) : Outcome κ υ × Session κ υ :=
  let (reply, slot?, s) := s.carryOut t c.keep? c.command
  ({ reply, view? := if s.viewing then slot?.bind (s.viewOf? t) else none }, s)

/-! ### Steps -/

def mainThread : ThreadId := 0

/-- The running thread of a name, which is begun if there is none. -/
def threadNamed (s : Session κ υ) (name : String) : ThreadId × Session κ υ :=
  match s.threads[name]? with
  | some t => (t, s)
  | none =>
    let t := s.nextThread
    (t, { s with threads := s.threads.insert name t, nextThread := t + 1 })

/-- Carries out calls one after the other. -/
def calls (s : Session κ υ) (t : ThreadId) : List (Call κ υ) → List (Outcome κ υ) × Session κ υ
  | [] => ([], s)
  | c :: cs =>
    let (outcome, s) := s.call t c
    let (outcomes, s) := s.calls t cs
    (outcome :: outcomes, s)

/-- Ends a thread: its releases are carried out, it makes its last calls, and what these left is released. The
last calls are answered with views in any case. -/
def exit (s : Session κ υ) (name : String) (late? : Option (List (Call κ υ))) : Answer κ υ × Session κ υ :=
  match s.threads[name]? with
  | none => (.exit false, s)
  | some t =>
    let viewing := s.viewing
    let (outcomes, s) := { s with caches := s.caches.beginExit t, viewing := true }.calls t (late?.getD [])
    let s := { s with caches := s.caches.finishExit t, threads := s.threads.erase name, viewing }
    (if late?.isSome then .lateCalls outcomes else .exit true, s)

def answer (s : Session κ υ) : Step κ υ → Answer κ υ × Session κ υ
  | .main c =>
    let (outcome, s) := s.call mainThread c
    (.call outcome, s)
  | .thread name c =>
    let (t, s) := s.threadNamed name
    let (outcome, s) := s.call t c
    (.call outcome, s)
  | .exit name late? => s.exit name late?

/-- One step: the answer, the events in between, and the session after it, in which an instance that no slot
leads to any more has been dropped. -/
def step (s : Session κ υ) (x : Step κ υ) : Answer κ υ × List Event × Session κ υ :=
  let (answer, s) := s.answer x
  let (events, caches) := s.caches.drainLog
  (answer, events, { s with caches := caches.dropUnreachable s.references })

end Session

end Caching
