import Mathlib
import Caching.Proofs.Caches.Confined

/-!
# Threads do not notice each other

Whatever the threads do at per-thread caches, in whatever order they take turns: what a thread sees of one of the caches
is what it would see if the other threads did nothing, and what a private cache would answer that is absent until the
thread writes, and again when it clears the cache, detaches its instance or exits (`threads_are_isolated`).
-/

namespace Caching

variable {κ υ : Type} [BEq κ] [Hashable κ]

namespace Caches

/-- What a thread does with per-thread caches. -/
inductive Turn (κ υ : Type) where
  | request (i : CacheId) (r : Request κ υ)
  | isBound (i : CacheId)
  /-- Gives the thread's own instance up, and puts requests to it. -/
  | detach (i : CacheId) (rs : List (Request κ υ))
  | beginExit
  | finishExit

/-- The cache that a turn is addressed to. -/
def Turn.cache? : Turn κ υ → Option CacheId
  | .request i _ | .isBound i | .detach i _ => some i
  | .beginExit | .finishExit => none

/-- What the thread sees of its turn. -/
inductive Seen (κ υ : Type) where
  | done
  | reply (r : Reply κ υ)
  | flag (b : Bool)
  /-- The replies of the instance that was given up, if there was one. -/
  | detached (replies? : Option (List (Reply κ υ)))

def turn (w : Caches κ υ) : ThreadId × Turn κ υ → Seen κ υ × Caches κ υ
  | (t, .request i r) => let (reply, w) := w.answer t i r; (.reply reply, w)
  | (t, .isBound i) => (.flag (w.bound? t i).isSome, w)
  | (t, .detach i rs) =>
    match w.detach t i with
    | (none, w) => (.detached none, w)
    | (some inner, w) =>
      let (replies, w) := answers (fun w r => w.answer t inner r) w rs
      (.detached (some replies), w)
  | (t, .beginExit) => (.done, w.beginExit t)
  | (t, .finishExit) => (.done, w.finishExit t)

/-- What a thread sees of a cache in a run. -/
def seenAt (i : CacheId) (t : ThreadId) (steps : List (ThreadId × Turn κ υ)) (seen : List (Seen κ υ)) :
    List (Seen κ υ) :=
  (steps.zip seen).filterMap fun (step, result) =>
    if step.1 = t ∧ step.2.cache? = some i then some result else none

end Caches

open Caches (Turn Seen)

/-! ### A private cache -/

/-- Whether a thread keeps what is made for it: while it runs, with something to release or without, and not after
its releases. -/
inductive Standing where
  | running (releases : Bool)
  | ended
  deriving DecidableEq

namespace Standing

def of : Thread → Standing
  | .running releases => .running (!releases.isEmpty)
  | .released | .finished => .ended

private theorem of_running {releases : List CacheId} (h : releases ≠ []) : of (.running releases) = .running true := by
  rw [of, List.isEmpty_eq_false_iff.2 h]
  rfl

def keep {α : Type} (a : α) : Standing → Option α
  | .running _ => some a
  | .ended => none

/-- After something was made and kept. -/
def register : Standing → Standing
  | .running _ => .running true
  | .ended => .ended

end Standing

/-- A per-thread cache as one thread has it: perhaps a cache of its own, and how often one was made for it. -/
structure PrivateCache (κ υ : Type) [BEq κ] [Hashable κ] where
  own? : Option (Private κ υ) := none
  standing : Standing
  calls : Nat := 0

namespace PrivateCache

variable (fresh : Private κ υ) (capacity? : Option Nat)

/-- A request, given what the constructor makes and the capacity that is shown while there is nothing. -/
def request (c : PrivateCache κ υ) (r : Request κ υ) : Reply κ υ × PrivateCache κ υ :=
  match c.own? with
  | some p => ((p.answer r).1, { c with own? := if r.IsClear then none else some (p.answer r).2 })
  | none =>
    if r.IsWrite then
      ((fresh.answer r).1,
        { own? := c.standing.keep (fresh.answer r).2, standing := c.standing.register, calls := c.calls + 1 })
    else (r.answerOfEmpty capacity?, c)

/-- The turn of the thread. Of a turn at another cache there is nothing to see here, but the thread may have something
to release after it. -/
def turn (i : CacheId) (c : PrivateCache κ υ) : Turn κ υ → Option (Seen κ υ) × PrivateCache κ υ
  | .request j r =>
    if j = i then
      let (reply, c) := c.request fresh capacity? r
      (some (.reply reply), c)
    else (none, if r.IsWrite then { c with standing := c.standing.register } else c)
  | .isBound j => (if j = i then some (.flag c.own?.isSome) else none, c)
  | .detach j rs =>
    if j = i then
      (some (.detached (c.own?.map fun p => (answers (fun p r => p.answer r) p rs).1)), { c with own? := none })
    else (none, c)
  | .beginExit => (none, if c.standing = .running true then { c with own? := none, standing := .ended } else c)
  | .finishExit => (none, { c with own? := none, standing := .ended })

/-- The cache as a tree. -/
def shown (c : PrivateCache κ υ) : Private κ υ :=
  match c.own? with
  | none => .unbound fresh capacity?
  | some p => .bound fresh capacity? p

private theorem calls_request (c : PrivateCache κ υ) (r : Request κ υ) :
    (c.request fresh capacity? r).2.calls = c.calls + if c.own? = none ∧ r.IsWrite then 1 else 0 := by
  rw [request]
  cases c.own? with
  | some p => simp
  | none => by_cases hr : r.IsWrite <;> simp [hr]

/-- Only a request to the cache itself can have one made. -/
private theorem calls_turn (i : CacheId) (c : PrivateCache κ υ) {turn : Turn κ υ} (h : ∀ r, turn ≠ .request i r) :
    (c.turn fresh capacity? i turn).2.calls = c.calls := by
  cases turn with
  | request j r =>
    have hj : j ≠ i := fun hj => h r (hj ▸ rfl)
    simp only [PrivateCache.turn, if_neg hj]
    split <;> rfl
  | isBound j => rfl
  | detach j rs =>
    rw [PrivateCache.turn]
    split <;> rfl
  | beginExit =>
    rw [PrivateCache.turn]
    split <;> rfl
  | finishExit => rfl

end PrivateCache

namespace Caches

variable {w₀ w w' : Caches κ υ} {t u : ThreadId} {i root : CacheId} {make : Factory κ} {capacity? : Option Nat}
  {bindings : Std.HashMap ThreadId CacheId} {fresh p : Private κ υ} {zone zone' : CacheId → Zone}
  {c : ThreadId → PrivateCache κ υ} {c' : PrivateCache κ υ} {r : Request κ υ} {own? : Option CacheId}

/-! ### Standing -/

/-- A write at a per-thread cache leaves the thread with something to release, if it runs. -/
private theorem Sound.standing_answer (hw : w.Sound) (hs : w.sight? t i = some (.perThread make capacity? own?))
    (r : Request κ υ) : Standing.of ((w.answer t i r).2.thread t) =
      if r.IsWrite then (Standing.of (w.thread t)).register else Standing.of (w.thread t) := by
  have hworks := w.answer_works_true t i r
  by_cases hr : r.IsWrite
  · rw [if_pos hr]
    by_cases hrun : ∃ releases, w.thread t = .running releases
    · obtain ⟨releases, hrel⟩ := hrun
      obtain ⟨releases', hrel', -⟩ := hworks.running hrel
      -- the cache has an instance for the thread now, and so it is among the releases
      obtain ⟨x, hx⟩ := hw.exists_bound? hrel hs hr
      obtain ⟨releases'', hrel'', hi⟩ := (hworks.sound hw).bound t i x hx
      obtain rfl := Thread.running.inj (hrel''.symm.trans hrel')
      rw [hrel, hrel', Standing.of_running (List.ne_nil_of_mem hi)]
      rfl
    · rw [hworks.thread_eq (Or.inr fun releases h => hrun ⟨releases, h⟩)]
      cases hthread : w.thread t with
      | running releases => exact absurd ⟨releases, hthread⟩ hrun
      | released | finished => rfl
  · rw [if_neg hr, hworks.thread_eq (Or.inl hr)]

/-- To give an instance up and to go on with it concerns the instance that was given up, and the thread has something
to release before and after. -/
private theorem Confined.turn_detach {inner : CacheId} (hc : Confined w₀ root w zone)
    (hroot : w₀.body? root = some (.perThread make capacity? bindings)) (hi : zone i = .outside ∨ zone i = .root)
    (hbound : w.bound? t i = some inner) (rs : List (Request κ υ)) :
    ∃ w' zone', w.turn (t, .detach i rs) =
        (.detached (some (Caching.answers (fun w r => w.answer t inner r) (w.detach t i).2 rs).1), w') ∧
      Confined w₀ root w' zone' ∧
      (∀ u p, u ≠ t ∨ zone i = .outside → w.Shows u root p → w'.Shows u root p) ∧
      w'.sight? t root = (w.detach t i).2.sight? t root ∧ (∀ u, u ≠ t → w'.thread u = w.thread u) ∧
      Standing.of (w'.thread t) = .of (w.thread t) ∧
      ∀ counter, w.CountsAt counter root →
        w'.CountsAt counter root ∧ w'.builtCount counter = w.builtCount counter := by
  have hw := hc.sound
  obtain ⟨s, hs, hown⟩ := Option.bind_eq_some_iff.1 ((bound?_eq ..).symm.trans hbound)
  have hinner := Sight.mem_references_of_own? hown
  obtain ⟨releases, hrun, hmem⟩ := hw.bound t i inner hbound
  have hre := reshapes_detach hbound
  have hsh := shrinks_detach w t i
  have hzone : zone inner = .outside ∨ zone inner = .inside t := by
    rw [hc.zoned t i s hs inner hinner]
    exact hi.imp (fun h => by rw [h]; rfl) fun h => by rw [h]; rfl
  obtain ⟨w', zone', hw', hc', hshows', hsight', hthread', hrun', hcounts'⟩ :=
    (hc.shrinks hsh (hw.detach t i)).answers hroot t (hre.size_eq ▸ (hw.ranked.reference hs hinner).1.lt_size) hzone rs
  have hthreads : ∀ u, u ≠ t → w'.thread u = w.thread u := fun u hu => (hthread' u hu).trans (w.thread_detach t i u)
  refine ⟨w', zone', ?_, hc', fun u p hu hp => ?_, hsight', hthreads, ?_, fun counter hcounts => ?_⟩
  · rw [← hw', detach_of_bound hbound]
    simp only [Caches.turn, detach_of_bound hbound]
  · rcases hu with hu | hu
    · exact hshows' u p (Or.inl hu) (hsh.shows hu hp)
    · refine hshows' u p (Or.inr ?_) (hc.shows_reshapes hu hre hp)
      rw [hc.zoned t i s hs inner hinner, hu]
      rfl
  · obtain ⟨releases', hrel', hsub⟩ := hrun' releases ((w.thread_detach t i t).trans hrun)
    rw [hrun, hrel', Standing.of_running (List.ne_nil_of_mem hmem),
      Standing.of_running (List.ne_nil_of_mem (hsub hmem))]
  · obtain ⟨hcounts₁, hbuilt⟩ := hcounts' counter (hsh.countsAt hcounts)
    exact ⟨hcounts₁, hbuilt.trans (hsh.builtCount counter)⟩

/-! ### Each thread has its private cache -/

/-- Each thread is shown its private cache at the root. -/
structure Isolated (w₀ : Caches κ υ) (root : CacheId) (fresh : Private κ υ) (capacity? : Option Nat) (w : Caches κ υ)
    (zone : CacheId → Zone) (c : ThreadId → PrivateCache κ υ) : Prop where
  confined : Confined w₀ root w zone
  shows : ∀ t, w.Shows t root ((c t).shown fresh capacity?)
  standing : ∀ t, (c t).standing = .of (w.thread t)

/-- What a thread does concerns its own private cache. -/
private theorem Isolated.update (h : Isolated w₀ root fresh capacity? w zone c) (hc : Confined w₀ root w' zone')
    (hothers : ∀ u p, u ≠ t → w.Shows u root p → w'.Shows u root p)
    (hthreads : ∀ u, u ≠ t → w'.thread u = w.thread u)
    (hshows : w'.Shows t root (c'.shown fresh capacity?)) (hstanding : c'.standing = .of (w'.thread t)) :
    Isolated w₀ root fresh capacity? w' zone' (Function.update c t c') where
  confined := hc
  shows u := by
    by_cases hu : u = t
    · subst hu
      rwa [Function.update_self]
    · rw [Function.update_of_ne hu]
      exact hothers u _ hu (h.shows u)
  standing u := by
    by_cases hu : u = t
    · subst hu
      rwa [Function.update_self]
    · rw [Function.update_of_ne hu, hthreads u hu]
      exact h.standing u

/-- A private cache that exists is shown at the thread's own instance, and the thread has something to release. -/
private theorem Isolated.of_own (h : Isolated w₀ root fresh capacity? w zone c) (hp : (c t).own? = some p) :
    ∃ inner make, w.sight? t root = some (.perThread make capacity? (some inner)) ∧
      Private.made? make = some fresh ∧ w.Shows t inner p ∧
      ∃ releases, w.thread t = .running releases ∧ releases ≠ [] := by
  have hshows := h.shows t
  rw [PrivateCache.shown, hp] at hshows
  cases hshows with
  | @bound _ make _ _ _ inner hs hmake hinner =>
    obtain ⟨releases, hrun, hmem⟩ := h.confined.sound.bound t root inner (bound?_of_sight? hs)
    exact ⟨inner, make, hs, hmake, hinner, releases, hrun, List.ne_nil_of_mem hmem⟩

private theorem Isolated.of_no_own (h : Isolated w₀ root fresh capacity? w zone c) (hp : (c t).own? = none) :
    ∃ make, w.sight? t root = some (.perThread make capacity? none) ∧ Private.made? make = some fresh := by
  have hshows := h.shows t
  rw [PrivateCache.shown, hp] at hshows
  cases hshows with
  | @unbound _ make _ _ hs hmake => exact ⟨make, hs, hmake⟩

private theorem Isolated.isBound (h : Isolated w₀ root fresh capacity? w zone c) (t : ThreadId) :
    (w.bound? t root).isSome = (c t).own?.isSome := by
  cases hp : (c t).own? with
  | none =>
    obtain ⟨make, hs, -⟩ := h.of_no_own hp
    rw [bound?_of_sight? hs]
    rfl
  | some p =>
    obtain ⟨inner, make, hs, -⟩ := h.of_own hp
    rw [bound?_of_sight? hs]
    rfl

/-- What a thread that does not run any more writes leaves the root as it is. -/
private theorem Isolated.sight?_answer_of_ended (h : Isolated w₀ root fresh capacity? w zone c)
    (hs : w.sight? t root = some (.perThread make capacity? none)) (hmake : Private.made? make = some fresh)
    (hover : ∀ releases, w.thread t ≠ .running releases) (hr : r.IsWrite) :
    (w.answer t root r).2.sight? t root = w.sight? t root := by
  have hw := h.confined.sound.ranked
  have hext := (make_makes w make).extends_old
  have hroot := lt_size_of_sight? hs
  have hsight := sight?_congr (hext.instance? root hroot) t
  have hrank := hw.rank_eq hs
  rw [ownInstance_of_not_running (bound?_of_sight? hs) hover] at hrank
  rw [h.confined.sound.answer_of_not_running hover hs hr, ← hsight]
  refine (hw.make_fresh hmake).sight?_answer ?_ ((has_iff_sight? t).2 ⟨_, hsight.trans hs⟩) t t r
  rw [Caches.rank_congr (hext.instance? root hroot), hrank]
  exact Nat.lt_succ_self _

section

variable (h : Isolated w₀ root fresh capacity? w zone c)
  (hroot : w₀.body? root = some (.perThread make capacity? bindings)) (hmake : Private.made? make = some fresh)
include h hroot

/-- A request at another cache. -/
private theorem Isolated.request_elsewhere (hi : i ≠ root) {make' : Factory κ} {capacity?' : Option Nat}
    {bindings' : Std.HashMap ThreadId CacheId} (hb : w₀.body? i = some (.perThread make' capacity?' bindings'))
    (t : ThreadId) (r : Request κ υ) : ∃ zone', Isolated w₀ root fresh capacity? (w.answer t i r).2 zone'
      (Function.update c t (if r.IsWrite then { c t with standing := (c t).standing.register } else c t)) := by
  obtain ⟨s, hs, hkind⟩ := h.confined.kinds t i _ (sight?_of_body?_perThread hb t)
  have hout := h.confined.outside i (lt_size_of_sight? (sight?_of_body?_perThread hb t)) hi
  obtain ⟨zone', hc, -, hshows, -⟩ := h.confined.answer hroot t (lt_size_of_sight? hs) (Or.inl hout) r
  refine ⟨zone', h.update hc (fun u p hu => hshows u p (Or.inl hu))
    (fun u hu => (w.answer_works_true t i r).thread_of_ne hu) ?_ ?_⟩
  · have ht := hshows t _ (Or.inr hout) (h.shows t)
    split <;> exact ht
  · cases s with
    | perThread make'' capacity?'' own? =>
      rw [h.confined.sound.standing_answer hs r, ← h.standing t]
      split <;> rfl
    | store | forwarding => cases hkind

/-- A request at the root is answered by the private cache. -/
private theorem Isolated.request_root (t : ThreadId) (r : Request κ υ) :
    (w.answer t root r).1 = ((c t).request fresh capacity? r).1 ∧
      ∃ zone', Isolated w₀ root fresh capacity? (w.answer t root r).2 zone'
        (Function.update c t ((c t).request fresh capacity? r).2) := by
  have hs := h.confined.sight?_root hroot t
  obtain ⟨zone', hc, -, hshows, -⟩ := h.confined.answer hroot t (lt_size_of_sight? hs)
    (Or.inr (Or.inl ((h.confined.root_iff root).2 rfl))) r
  have hupdate {c' : PrivateCache κ υ} (hshows' : (w.answer t root r).2.Shows t root (c'.shown fresh capacity?))
      (hstanding : c'.standing = .of ((w.answer t root r).2.thread t)) :
      Isolated w₀ root fresh capacity? (w.answer t root r).2 zone' (Function.update c t c') :=
    h.update hc (fun u p hu => hshows u p (Or.inl hu)) (fun u hu => (w.answer_works_true t root r).thread_of_ne hu)
      hshows' hstanding
  have hstanding := h.confined.sound.standing_answer hs r
  rw [← h.standing t] at hstanding
  obtain ⟨hreply, hafter⟩ := (h.shows t).answer h.confined.sound.ranked r
  rw [PrivateCache.request]
  cases hp : (c t).own? with
  | some p =>
    obtain ⟨inner, make', hs', -, -, releases, hrun, hne⟩ := h.of_own hp
    rw [PrivateCache.shown, hp] at hreply hafter
    refine ⟨hreply, zone', hupdate ?_ ?_⟩
    · have ht := hafter fun _ => ⟨releases, hrun⟩
      rw [Private.answer] at ht
      rw [PrivateCache.shown]
      by_cases hclear : r.IsClear
      · simpa only [if_pos hclear] using ht
      · simpa only [if_neg hclear] using ht
    · rw [hstanding, h.standing, hrun, Standing.of_running hne]
      exact (ite_self _).symm
  | none =>
    obtain ⟨make', hs', hmake'⟩ := h.of_no_own hp
    rw [PrivateCache.shown, hp] at hreply hafter
    by_cases hr : r.IsWrite
    · rw [Private.answer, if_pos hr] at hreply hafter
      rw [if_pos hr] at hstanding
      simp only [if_pos hr]
      refine ⟨hreply, zone', hupdate ?_ hstanding.symm⟩
      cases hst : (c t).standing with
      | running registered =>
        refine hafter fun _ => ?_
        rw [h.standing] at hst
        cases hthread : w.thread t with
        | running releases => exact ⟨releases, rfl⟩
        | released | finished => rw [hthread] at hst; cases hst
      | ended =>
        have hover : ∀ releases, w.thread t ≠ .running releases := by
          intro releases hrun
          rw [h.standing, hrun] at hst
          cases hst
        exact .unbound ((h.sight?_answer_of_ended hs' hmake' hover hr).trans hs') hmake'
    · rw [answer_of_unbound hs' hr]
      simp only [if_neg hr]
      exact ⟨trivial, zone, by rwa [Function.update_eq_self]⟩

/-- To give an instance of another cache up, and to go on with it. -/
private theorem Isolated.detach_elsewhere (hi : i ≠ root) (hi₀ : i < w₀.instances.size) (t : ThreadId)
    (rs : List (Request κ υ)) : ∃ zone', Isolated w₀ root fresh capacity? (w.turn (t, .detach i rs)).2 zone' c := by
  have hout := h.confined.outside i hi₀ hi
  cases hbound : w.bound? t i with
  | none =>
    rw [Caches.turn, detach_of_unbound hbound]
    exact ⟨zone, h⟩
  | some inner =>
    obtain ⟨w', zone', hturn, hc, hshows, -, hthread, hstanding, -⟩ :=
      h.confined.turn_detach hroot (Or.inl hout) hbound rs
    rw [hturn]
    refine ⟨zone', hc, fun u => hshows u _ (Or.inr hout) (h.shows u), fun u => ?_⟩
    by_cases hu : u = t
    · rw [hu, hstanding, h.standing]
    · rw [hthread u hu, h.standing]

/-- To give the instance at the root up, and to go on with it. -/
private theorem Isolated.detach_root (t : ThreadId) (rs : List (Request κ υ)) :
    (w.turn (t, .detach root rs)).1 =
        .detached ((c t).own?.map fun p => (answers (fun p r => p.answer r) p rs).1) ∧
      ∃ zone', Isolated w₀ root fresh capacity? (w.turn (t, .detach root rs)).2 zone'
        (Function.update c t { c t with own? := none }) := by
  cases hp : (c t).own? with
  | none =>
    obtain ⟨make', hs, -⟩ := h.of_no_own hp
    rw [Caches.turn, detach_of_unbound (bound?_of_sight? hs)]
    refine ⟨rfl, zone, ?_⟩
    rwa [← hp, Function.update_eq_self]
  | some p =>
    obtain ⟨inner, make', hs, hmake, hinner, releases, hrun, -⟩ := h.of_own hp
    have hw := h.confined.sound
    have hre := reshapes_detach (bound?_of_sight? hs)
    obtain ⟨w', zone', hturn, hc, hshows, hsight, hthread, hstanding, -⟩ :=
      h.confined.turn_detach hroot (Or.inr ((h.confined.root_iff root).2 rfl)) (bound?_of_sight? hs) rs
    rw [hturn]
    refine ⟨?_, zone', h.update hc (fun u p hu => hshows u p (Or.inl hu)) hthread (.unbound ?_ hmake) ?_⟩
    · have hlt := (hw.ranked.reference hs (Sight.mem_references_of_own? rfl)).2
      rw [(hinner.of_reshapes hw.ranked hlt hre).answers (hw.detach t root).ranked
        ⟨releases, (w.thread_detach t root t).trans hrun⟩ rs]
      rfl
    · rw [hsight, hre.sight?, if_pos rfl, hs]
      exact congrArg some (Sight.rebound_self ..)
    · rw [hstanding, ← h.standing]

/-- After an exit, or its first part if there is something to release, the private cache is absent. -/
private theorem Isolated.exit (hmake : Private.made? make = some fresh) (hsh : Shrinks t w w') (hw' : w'.Sound)
    (hbound : w'.bound? t root = none) (hended : Standing.of (w'.thread t) = .ended) :
    Isolated w₀ root fresh capacity? w' zone (Function.update c t { c t with own? := none, standing := .ended }) := by
  have hc := h.confined.shrinks hsh hw'
  refine h.update hc (fun u p hu => hsh.shows hu) hsh.thread (.unbound ?_ hmake) hended.symm
  rw [hc.sight?_root hroot, hbound]

private theorem Isolated.beginExit (hmake : Private.made? make = some fresh) (t : ThreadId) :
    Isolated w₀ root fresh capacity? (w.beginExit t) zone (Function.update c t
      (if (c t).standing = .running true then { c t with own? := none, standing := .ended } else c t)) := by
  have hw := h.confined.sound
  rw [h.standing]
  by_cases hrel : ∃ i releases, w.thread t = .running (i :: releases)
  · obtain ⟨i, releases, hrun⟩ := hrel
    rw [hrun, if_pos (Standing.of_running (List.cons_ne_nil _ _))]
    refine h.exit hroot hmake (shrinks_beginExit w t) (hw.beginExit t)
      ((hw.bound?_beginExit t t root).trans (if_pos rfl)) ?_
    rw [thread_beginExit_of_releases hrun]
    rfl
  · rw [beginExit_of_no_releases fun i releases hrun => hrel ⟨i, releases, hrun⟩, if_neg]
    · rwa [Function.update_eq_self]
    · cases hthread : w.thread t with
      | running releases =>
        cases releases with
        | nil => simp [Standing.of]
        | cons i releases => exact absurd ⟨i, releases, hthread⟩ hrel
      | released | finished => simp [Standing.of]

private theorem Isolated.finishExit (hmake : Private.made? make = some fresh) (t : ThreadId) :
    Isolated w₀ root fresh capacity? (w.finishExit t) zone
      (Function.update c t { c t with own? := none, standing := .ended }) := by
  have hw := h.confined.sound
  refine h.exit hroot hmake (shrinks_finishExit w t) (hw.finishExit t)
    ((hw.bound?_finishExit t t root).trans (if_pos rfl)) ?_
  rw [thread_finishExit, if_pos rfl]
  rfl

/-- A turn of a thread is a turn of its private cache, which shows what the thread sees if the turn is addressed to the
root. -/
private theorem Isolated.turn (hmake : Private.made? make = some fresh) (t : ThreadId) (turn : Turn κ υ)
    (hturn : ∀ i, turn.cache? = some i → ∃ make capacity? bindings,
      w₀.body? i = some (.perThread make capacity? bindings)) :
    ((c t).turn fresh capacity? root turn).1 =
        (if turn.cache? = some root then some (w.turn (t, turn)).1 else none) ∧
      ∃ zone', Isolated w₀ root fresh capacity? (w.turn (t, turn)).2 zone'
        (Function.update c t ((c t).turn fresh capacity? root turn).2) := by
  cases turn with
  | request i r =>
    by_cases hi : i = root
    · subst hi
      obtain ⟨hreply, hafter⟩ := h.request_root hroot t r
      simp only [PrivateCache.turn, Caches.turn, Turn.cache?, if_true, hreply]
      exact ⟨trivial, hafter⟩
    · obtain ⟨make', capacity?', bindings', hb⟩ := hturn i rfl
      simp only [PrivateCache.turn, Caches.turn, Turn.cache?, Option.some.injEq, hi, if_false]
      exact ⟨trivial, h.request_elsewhere hroot hi hb t r⟩
  | isBound i =>
    by_cases hi : i = root
    · subst hi
      simp only [PrivateCache.turn, Caches.turn, Turn.cache?, if_true, h.isBound t, Function.update_eq_self]
      exact ⟨trivial, zone, h⟩
    · simp only [PrivateCache.turn, Caches.turn, Turn.cache?, Option.some.injEq, hi, if_false,
        Function.update_eq_self]
      exact ⟨trivial, zone, h⟩
  | detach i rs =>
    by_cases hi : i = root
    · subst hi
      obtain ⟨hreply, hafter⟩ := h.detach_root hroot t rs
      simp only [PrivateCache.turn, Turn.cache?, if_true, hreply]
      exact ⟨trivial, hafter⟩
    · obtain ⟨make', capacity?', bindings', hb⟩ := hturn i rfl
      simp only [PrivateCache.turn, Turn.cache?, Option.some.injEq, hi, if_false, Function.update_eq_self]
      exact ⟨trivial, h.detach_elsewhere hroot hi (lt_size_of_sight? (sight?_of_body?_perThread hb t)) t rs⟩
  | beginExit => exact ⟨rfl, zone, h.beginExit hroot hmake t⟩
  | finishExit => exact ⟨rfl, zone, h.finishExit hroot hmake t⟩

end

/-! ### Calls of the constructor -/

/-- The constructor is called as often as the private cache says. -/
private theorem Isolated.builtCount_turn {inner : Factory κ} {counter : String}
    (h : Isolated w₀ root fresh capacity? w zone c)
    (hroot : w₀.body? root = some (.perThread (.counted counter inner) capacity? bindings))
    (hinner : counter ∉ inner.counters) (hcounts : w.CountsAt counter root) (t : ThreadId) (turn : Turn κ υ)
    (hturn : ∀ i, turn.cache? = some i → ∃ make capacity? bindings,
      w₀.body? i = some (.perThread make capacity? bindings)) :
    (w.turn (t, turn)).2.CountsAt counter root ∧
      (w.turn (t, turn)).2.builtCount counter + (c t).calls =
        w.builtCount counter + ((c t).turn fresh capacity? root turn).2.calls := by
  have hzone : ∀ i, turn.cache? = some i → i ≠ root → zone i = .outside ∧ i < w.instances.size := by
    intro i hi hne
    obtain ⟨make', capacity?', bindings', hb⟩ := hturn i hi
    have hlt := lt_size_of_sight? (sight?_of_body?_perThread hb t)
    exact ⟨h.confined.outside i hlt hne, Nat.lt_of_lt_of_le hlt h.confined.size_le⟩
  cases turn with
  | request i r =>
    have hworks := w.answer_works_true t i r
    refine ⟨hworks.countsAt hcounts, ?_⟩
    by_cases hi : i = root
    · subst hi
      have hbuilt := builtCount_answer_root h.confined.sound.ranked hcounts (h.confined.sight?_root hroot t) hinner r
      have hown : w.bound? t i = none ↔ (c t).own? = none := by
        rw [← Option.not_isSome_iff_eq_none, ← Option.not_isSome_iff_eq_none, h.isBound]
      simp only [hown] at hbuilt
      simp only [Caches.turn, PrivateCache.turn, if_true, PrivateCache.calls_request, hbuilt]
      omega
    · obtain ⟨hout, hlt⟩ := hzone i rfl hi
      obtain ⟨-, -, -, -, S, hS, hworks⟩ := h.confined.answer hroot t hlt (Or.inl hout) r
      have hbuilt := hworks.builtCount (hS (by rw [hout]; simp)) hcounts
      rw [PrivateCache.calls_turn _ _ _ _ fun r' hr' => hi (by cases hr'; rfl)]
      simp only [Caches.turn, hbuilt]
  | isBound i => exact ⟨hcounts, rfl⟩
  | detach i rs =>
    rw [PrivateCache.calls_turn _ _ _ _ (by simp)]
    cases hbound : w.bound? t i with
    | none =>
      rw [Caches.turn, detach_of_unbound hbound]
      exact ⟨hcounts, rfl⟩
    | some inner =>
      have hi : zone i = .outside ∨ zone i = .root := by
        by_cases hi : i = root
        · exact Or.inr ((h.confined.root_iff i).2 hi)
        · exact Or.inl (hzone i rfl hi).1
      obtain ⟨w', zone', hturn, -, -, -, -, -, hcounts'⟩ := h.confined.turn_detach hroot hi hbound rs
      rw [hturn]
      exact (hcounts' counter hcounts).imp id fun hbuilt => by rw [hbuilt]
  | beginExit =>
    rw [PrivateCache.calls_turn _ _ _ _ (by simp)]
    have hsh := shrinks_beginExit w t
    exact ⟨hsh.countsAt hcounts, congrArg (· + _) (hsh.builtCount counter)⟩
  | finishExit =>
    have hsh := shrinks_finishExit w t
    exact ⟨hsh.countsAt hcounts, congrArg (· + _) (hsh.builtCount counter)⟩

/-! ### Runs -/

/-- What a thread does in a run. -/
def turnsOf (t : ThreadId) (steps : List (ThreadId × Turn κ υ)) : List (Turn κ υ) :=
  (steps.filter (·.1 = t)).map (·.2)

omit [BEq κ] [Hashable κ] in
private theorem turnsOf_cons_self (t : ThreadId) (turn : Turn κ υ) (steps : List (ThreadId × Turn κ υ)) :
    turnsOf t ((t, turn) :: steps) = turn :: turnsOf t steps := by
  simp [turnsOf]

omit [BEq κ] [Hashable κ] in
private theorem turnsOf_cons_of_ne (hu : u ≠ t) (turn : Turn κ υ) (steps : List (ThreadId × Turn κ υ)) :
    turnsOf u ((t, turn) :: steps) = turnsOf u steps := by
  simp [turnsOf, hu.symm]

omit [BEq κ] [Hashable κ] in
private theorem turnsOf_filter (t : ThreadId) (steps : List (ThreadId × Turn κ υ)) :
    turnsOf t (steps.filter (·.1 = t)) = turnsOf t steps := by
  simp [turnsOf]

omit [BEq κ] [Hashable κ] in
private theorem seenAt_cons (i : CacheId) (t : ThreadId) (step : ThreadId × Turn κ υ)
    (steps : List (ThreadId × Turn κ υ)) (result : Seen κ υ) (seen : List (Seen κ υ)) :
    seenAt i t (step :: steps) (result :: seen) =
      (if step.1 = t ∧ step.2.cache? = some i then [result] else []) ++ seenAt i t steps seen := by
  rw [seenAt, List.zip_cons_cons, List.filterMap_cons]
  split <;> split <;> simp_all [seenAt]

/-- In a run each thread sees what its private cache shows. -/
private theorem Isolated.seenAt_eq (h : Isolated w₀ root fresh capacity? w zone c)
    (hroot : w₀.body? root = some (.perThread make capacity? bindings)) (hmake : Private.made? make = some fresh)
    {steps : List (ThreadId × Turn κ υ)} (hsteps : ∀ step ∈ steps, ∀ i, step.2.cache? = some i →
      ∃ make capacity? bindings, w₀.body? i = some (.perThread make capacity? bindings)) (t : ThreadId) :
    seenAt root t steps (Caching.answers Caches.turn w steps).1 =
      (Caching.answers (PrivateCache.turn fresh capacity? root) (c t) (turnsOf t steps)).1.reduceOption := by
  induction steps generalizing w zone c with
  | nil => rfl
  | cons step steps ih =>
    obtain ⟨u, turn⟩ := step
    obtain ⟨hseen, zone', h'⟩ := h.turn hroot hmake u turn fun i hi => hsteps _ List.mem_cons_self i hi
    have hrest := ih h' fun step hstep => hsteps step (List.mem_cons_of_mem _ hstep)
    rw [answers_cons, seenAt_cons, hrest]
    by_cases ht : t = u
    · subst ht
      rw [turnsOf_cons_self, answers_cons, Function.update_self, hseen]
      by_cases hi : turn.cache? = some root
      · simp [hi, List.reduceOption]
      · simp [hi, List.reduceOption]
    · rw [turnsOf_cons_of_ne ht, Function.update_of_ne ht, if_neg fun h => ht h.1.symm, List.nil_append]

/-- The turn of a thread is the first one of its private cache, and of no other one. -/
private theorem answers_turnsOf_update (fresh : Private κ υ) (capacity? : Option Nat) (root : CacheId)
    (c : ThreadId → PrivateCache κ υ) (u : ThreadId) (turn : Turn κ υ) (steps : List (ThreadId × Turn κ υ))
    (t : ThreadId) :
    (Caching.answers (PrivateCache.turn fresh capacity? root)
        (Function.update c u ((c u).turn fresh capacity? root turn).2 t) (turnsOf t steps)).2 =
      (Caching.answers (PrivateCache.turn fresh capacity? root) (c t) (turnsOf t ((u, turn) :: steps))).2 := by
  by_cases ht : t = u
  · subst ht
    rw [Function.update_self, turnsOf_cons_self, answers_cons]
  · rw [Function.update_of_ne ht, turnsOf_cons_of_ne ht]

private theorem sum_calls_update {threads : Finset ThreadId} (hu : u ∈ threads) (c : ThreadId → PrivateCache κ υ)
    (c' : PrivateCache κ υ) :
    ∑ t ∈ threads, (Function.update c u c' t).calls + (c u).calls = ∑ t ∈ threads, (c t).calls + c'.calls := by
  have hrest : ∑ t ∈ threads.erase u, (Function.update c u c' t).calls = ∑ t ∈ threads.erase u, (c t).calls :=
    Finset.sum_congr rfl fun t ht => by rw [Function.update_of_ne (Finset.ne_of_mem_erase ht)]
  rw [← Finset.add_sum_erase _ _ hu, ← Finset.add_sum_erase _ (fun t => (c t).calls) hu, hrest, Function.update_self]
  omega

/-- In a run the constructor is called as often as the private caches of all threads say. -/
private theorem Isolated.builtCount_answers {inner : Factory κ} {counter : String}
    (h : Isolated w₀ root fresh capacity? w zone c)
    (hroot : w₀.body? root = some (.perThread (.counted counter inner) capacity? bindings))
    (hmake : Private.made? inner = some fresh) (hinner : counter ∉ inner.counters) (hcounts : w.CountsAt counter root)
    {steps : List (ThreadId × Turn κ υ)} (hsteps : ∀ step ∈ steps, ∀ i, step.2.cache? = some i →
      ∃ make capacity? bindings, w₀.body? i = some (.perThread make capacity? bindings))
    {threads : Finset ThreadId} (hthreads : ∀ step ∈ steps, step.1 ∈ threads) :
    (Caching.answers Caches.turn w steps).2.builtCount counter + ∑ t ∈ threads, (c t).calls =
      w.builtCount counter + ∑ t ∈ threads,
        (Caching.answers (PrivateCache.turn fresh capacity? root) (c t) (turnsOf t steps)).2.calls := by
  induction steps generalizing w zone c with
  | nil => rfl
  | cons step steps ih =>
    obtain ⟨u, turn⟩ := step
    have hturn := hsteps _ List.mem_cons_self
    obtain ⟨-, zone', h'⟩ := h.turn hroot hmake u turn hturn
    obtain ⟨hcounts', hbuilt⟩ := h.builtCount_turn hroot hinner hcounts u turn hturn
    have hrest := ih h' hcounts' (fun step hstep => hsteps step (List.mem_cons_of_mem _ hstep))
      fun step hstep => hthreads step (List.mem_cons_of_mem _ hstep)
    have hend := fun t => answers_turnsOf_update fresh capacity? root c u turn steps t
    have hu : u ∈ threads := hthreads _ List.mem_cons_self
    have hsum := sum_calls_update hu c ((c u).turn fresh capacity? root turn).2
    simp only [hend] at hrest
    change (Caching.answers Caches.turn (w.turn (u, turn)).2 steps).2.builtCount counter + _ = _
    omega

/-- Before anything was done with it, a cache that nothing else leads to is absent for every thread. -/
private theorem isolated_start (hw : w.Sound) (hroot : w.body? root = some (.perThread make capacity? bindings))
    (hmake : Private.made? make = some fresh) (habsent : ∀ t, w.bound? t root = none)
    (halone : ∀ i b, w.body? i = some b → root ∉ b.references) :
    Isolated w root fresh capacity? w (fun i => if i = root then .root else .outside)
      fun t => { standing := .of (w.thread t) } := by
  have hsight : ∀ t, w.sight? t root = some (.perThread make capacity? none) := fun t => by
    rw [sight?_of_body?_perThread hroot t, habsent]
  refine ⟨⟨hw, fun t i s hs x hx => ?_, fun i => ?_, Nat.le_refl _, fun i _ hi => if_neg hi,
    fun t i s hs => ⟨s, hs, .refl s⟩⟩, fun t => .unbound (hsight t) hmake, fun t => rfl⟩
  · by_cases hi : i = root
    · subst hi
      rw [hsight] at hs
      obtain rfl := Option.some.inj hs
      simp [Sight.references, Private.references_of_made? hmake] at hx
    · have hxr : x ≠ root := by
        rintro rfl
        obtain ⟨b, hb, -⟩ := Option.map_eq_some_iff.1 hs
        have hmem := mem_referencesOf hs hx
        rw [referencesOf, hb] at hmem
        exact halone i b hb hmem
      simp only [if_neg hi, if_neg hxr, Zone.next]
  · by_cases hi : i = root <;> simp [hi]

/-- After any run, let `root` be a per-thread cache that nothing else leads to and that no thread has an instance in,
whose constructor makes what it hands out anew, and, as every `Factory` does, the same kind of cache at every call. (A
constructor whose product depends on its earlier calls lets the threads notice each other; it cannot be expressed.)
Then for all turns of all threads at this and at other per-thread caches: -/
theorem threads_are_isolated (before : List (ThreadId × Action κ υ)) (root : CacheId) (make : Factory κ)
    (capacity? : Option Nat) (bindings : Std.HashMap ThreadId CacheId) (fresh : Private κ υ)
    (hroot : (empty.after before).body? root = some (.perThread make capacity? bindings))
    (hmake : Private.made? make = some fresh) (habsent : ∀ t, (empty.after before).bound? t root = none)
    (halone : ∀ i b, (empty.after before).body? i = some b → root ∉ b.references)
    (steps : List (ThreadId × Turn κ υ)) (hsteps : ∀ step ∈ steps, ∀ i, step.2.cache? = some i →
      ∃ make capacity? bindings, (empty.after before).body? i = some (.perThread make capacity? bindings)) :
    let w := (empty : Caches κ υ).after before
    let own t := Caching.answers (PrivateCache.turn fresh capacity? root) { standing := .of (w.thread t) }
      (turnsOf t steps)
    -- a thread sees what a private cache shows that no other thread uses
    (∀ t, seenAt root t steps (Caching.answers Caches.turn w steps).1 = (own t).1.reduceOption) ∧
    -- it would see the same if the other threads did nothing
    (∀ t, seenAt root t steps (Caching.answers Caches.turn w steps).1 =
      seenAt root t (steps.filter (·.1 = t)) (Caching.answers Caches.turn w (steps.filter (·.1 = t))).1) ∧
    -- and where the calls of the constructor are counted, and nothing else under this name, there are as many as the
    -- private caches say
    ∀ counter inner, make = .counted counter inner → counter ∉ inner.counters →
      (∀ i make' capacity?' bindings', i ≠ root → w.body? i = some (.perThread make' capacity?' bindings') →
        counter ∉ make'.counters) →
      (Caching.answers Caches.turn w steps).2.builtCount counter =
        w.builtCount counter + ∑ t ∈ (steps.map (·.1)).toFinset, (own t).2.calls := by
  intro w own
  have h := isolated_start (sound_empty.after before) hroot hmake habsent halone
  have hseen := fun t => h.seenAt_eq hroot hmake hsteps t
  refine ⟨hseen, fun t => ?_, ?_⟩
  · rw [hseen, h.seenAt_eq hroot hmake (fun step hstep => hsteps step (List.mem_of_mem_filter hstep)) t,
      turnsOf_filter]
  · rintro counter inner rfl hinner hothers
    have hcounts : w.CountsAt counter root := by
      intro t i make' capacity?' own? hs
      obtain ⟨bindings', hb, -⟩ := body?_of_sight?_perThread hs
      by_cases hi : i = root
      · subst hi
        obtain ⟨rfl, -, -⟩ : .counted counter inner = make' ∧ capacity? = capacity?' ∧ bindings = bindings' := by
          simpa using hroot.symm.trans hb
        have hparts : ∀ part ∈ inner.parts, counter ∉ part.counters := fun part hpart hmem =>
          hinner (Factory.counters_of_mem_parts hpart hmem)
        exact ⟨hparts, fun hne => absurd rfl hne⟩
      · have hnot := hothers i make' capacity?' bindings' hi hb
        exact ⟨fun part hpart hmem => hnot (Factory.counters_of_mem_parts hpart hmem), fun _ => hnot⟩
    have hthreads : ∀ step ∈ steps, step.1 ∈ (steps.map (·.1)).toFinset := fun step hstep =>
      List.mem_toFinset.2 (List.mem_map.2 ⟨step, hstep, rfl⟩)
    simpa using h.builtCount_answers hroot hmake hinner hcounts hsteps hthreads

/-- One thread writes, clears the cache, writes again, begins its exit and writes once more; another one finds nothing
all the while. -/
theorem two_threads_at_one_cache :
    let make : Factory Nat := .counted "caches" (.bounded .lru { size := 2 })
    let w := (empty : Caches Nat Nat).after [(0, .make (.perThread make (some 2)))]
    let steps : List (ThreadId × Turn Nat Nat) :=
      [(1, .request 0 (.put 5 7)), (2, .request 0 (.get 5)), (1, .request 0 .clear), (2, .isBound 0),
        (1, .request 0 .capacity), (1, .request 0 (.put 6 8)), (1, .beginExit), (1, .request 0 (.put 6 9)),
        (1, .isBound 0), (1, .finishExit)]
    seenAt 0 2 steps (Caching.answers Caches.turn w steps).1 = [.reply (.value? none), .flag false] ∧
      (Caching.answers Caches.turn w steps).2.builtCount "caches" = 3 := by
  intro make w steps
  have hone : w.body? 0 = some (.perThread make (some 2) {}) := rfl
  have hsize : ∀ i b, w.body? i = some b → i = 0 := by
    intro i b hb
    obtain ⟨x, hx, -⟩ := Option.map_eq_some_iff.1 hb
    exact Nat.lt_one_iff.1 (lt_size_of_instance? hx)
  obtain ⟨hseen, -, hcount⟩ := threads_are_isolated [(0, .make (.perThread make (some 2)))] 0 make (some 2) {}
    (.store (.lru (.empty { size := 2 }))) hone rfl (fun t => Std.HashMap.getElem?_empty)
    (fun i b hb => by
      obtain rfl := hsize i b hb
      obtain rfl := Option.some.inj (hone.symm.trans hb)
      simp [Body.references, make, Factory.references])
    steps (fun step hstep i hi => by
      have hall : ∀ step ∈ steps, ∀ i, step.2.cache? = some i → i = 0 := by simp [steps, Turn.cache?]
      rw [hall step hstep i hi]
      exact ⟨make, some 2, {}, hone⟩)
  have hthread : ∀ t, w.thread t = .running [] := fun t => Std.HashMap.getD_empty
  refine ⟨(hseen 2).trans ?_, (hcount "caches" _ rfl List.not_mem_nil ?_).trans ?_⟩
  · change (Caching.answers _ ({ standing := .of (w.thread 2) } : PrivateCache Nat Nat) _).1.reduceOption = _
    rw [hthread]
    rfl
  · intro i make' capacity?' bindings' hi hb
    exact absurd (hsize i _ hb) hi
  · change w.builtCount "caches" + ∑ t ∈ _,
      (Caching.answers _ ({ standing := .of (w.thread t) } : PrivateCache Nat Nat) _).2.calls = _
    have hbuilt : w.builtCount "caches" = 0 := Std.HashMap.getD_empty
    have hthreads : (steps.map (·.1)).toFinset = {1, 2} := by
      simp only [steps, List.map_cons, List.map_nil]
      decide
    rw [hbuilt, hthreads, Finset.sum_pair (by decide), hthread, hthread]
    rfl

end Caches

end Caching
