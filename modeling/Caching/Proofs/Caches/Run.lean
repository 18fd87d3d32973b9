import Mathlib
import Caching.Caches.Reachable
import Caching.Proofs.Caches.Shrinks
import Caching.Proofs.Run

/-!
# Threads taking turns

A run is a list of actions, each by some thread: caches are made and dropped, requests are put to them, threads give
their instances up and exit.  Between two actions a thread has an instance in a per-thread cache only while it runs,
and then the cache is among its releases, once (`Sound`).
-/

namespace Caching.Caches

variable {κ υ : Type} [BEq κ] [Hashable κ]

/-- What a thread can do at its turn. -/
inductive Action (κ υ : Type) where
  /-- Makes a cache, if those exist that the factory refers to. -/
  | make (f : Factory κ)
  | request (i : CacheId) (r : Request κ υ)
  | isBound (i : CacheId)
  /-- Gives the thread's own instance up. It can be used further under its number. -/
  | detach (i : CacheId)
  /-- Drops what is not in use, given what is referred to from outside. -/
  | drop (roots : List CacheId)
  | beginExit
  | finishExit

inductive Result (κ υ : Type) where
  | done
  | reply (r : Reply κ υ)
  | flag (b : Bool)
  | cache? (i? : Option CacheId)

/-- The turn of a thread. -/
def act (w : Caches κ υ) : ThreadId × Action κ υ → Result κ υ × Caches κ υ
  | (_, .make f) =>
    if ∀ x ∈ f.references, (w.instance? x).isSome then
      let (i, w) := w.make f
      (.cache? (some i), w)
    else (.cache? none, w)
  | (t, .request i r) => let (reply, w) := w.answer t i r; (.reply reply, w)
  | (t, .isBound i) => (.flag (w.bound? t i).isSome, w)
  | (t, .detach i) => let (i?, w) := w.detach t i; (.cache? i?, w)
  | (_, .drop roots) => (.done, w.dropUnreachable roots)
  | (t, .beginExit) => (.done, w.beginExit t)
  | (t, .finishExit) => (.done, w.finishExit t)

/-- The caches after a run. -/
def after (w : Caches κ υ) (steps : List (ThreadId × Action κ υ)) : Caches κ υ := (answers act w steps).2

variable {w w' : Caches κ υ} {t t' : ThreadId} {i j x : CacheId} {r : Request κ υ} {S : CacheId → Prop}
  {steps : List (ThreadId × Action κ υ)} {make : Factory κ} {capacity? : Option Nat}

theorem after_nil (w : Caches κ υ) : w.after [] = w := rfl

theorem after_request (w : Caches κ υ) (t : ThreadId) (i : CacheId) (r : Request κ υ)
    (steps : List (ThreadId × Action κ υ)) :
    w.after ((t, .request i r) :: steps) = (w.answer t i r).2.after steps := rfl

theorem after_append (w : Caches κ υ) (steps later : List (ThreadId × Action κ υ)) :
    w.after (steps ++ later) = (w.after steps).after later := by
  rw [after, answers_append]
  rfl

/-! ### Bindings after an action -/

private theorem bound?_of_reshapes {f : ThreadId → Sight κ υ → Sight κ υ} (h : w.Reshapes w' i f) (t : ThreadId)
    (hij : i ≠ j) : w'.bound? t j = w.bound? t j := by
  rw [bound?_eq, bound?_eq, h.sight?, if_neg hij]

theorem bound?_unbind (w : Caches κ υ) (t : ThreadId) (i : CacheId) (t' : ThreadId) (j : CacheId) :
    (w.unbind t i).bound? t' j = if t' = t ∧ j = i then none else w.bound? t' j := by
  have hre := reshapes_unbind w t i
  by_cases hij : i = j
  · subst hij
    rw [bound?_eq, bound?_eq, hre.sight?, if_pos rfl]
    by_cases ht : t' = t
    · subst ht
      rw [if_pos ⟨rfl, rfl⟩]
      cases w.sight? t' i with
      | none => rfl
      | some s => cases s <;> simp [Sight.rebound, Sight.setOwn, Sight.own?]
    · rw [if_neg fun h => ht h.1]
      cases w.sight? t' i with
      | none => rfl
      | some s => simp [Sight.rebound_of_ne ht]
  · rw [bound?_of_reshapes hre t' hij, if_neg fun h => hij h.2.symm]

theorem bound?_release (w : Caches κ υ) (t : ThreadId) (releases : List CacheId) (t' : ThreadId) (j : CacheId) :
    (w.release t releases).bound? t' j = if t' = t ∧ j ∈ releases then none else w.bound? t' j := by
  induction releases generalizing w with
  | nil => simp [release]
  | cons i releases ih =>
    have hrest : w.release t (i :: releases) = (w.unbind t i).release t releases := rfl
    rw [hrest, ih, bound?_unbind]
    by_cases ht : t' = t <;> by_cases hi : j = i <;> by_cases hj : j ∈ releases <;> simp [ht, hi, hj]

theorem bound?_make (w : Caches κ υ) (f : Factory κ) (t : ThreadId) (i : CacheId) :
    (w.make f).2.bound? t i = w.bound? t i := by
  have hm := make_makes w f
  rw [bound?_eq, bound?_eq]
  rcases Nat.lt_or_ge i w.instances.size with hi | hi
  · rw [sight?_congr (hm.extends_old.instance? i hi)]
  · rw [w.sight?_of_size_le t hi]
    cases hs : (w.make f).2.sight? t i with
    | none => rfl
    | some s => exact hm.own? t i s hi hs

theorem bound?_dropUnreachable (w : Caches κ υ) (roots : List CacheId) (t : ThreadId) (i : CacheId) :
    (w.dropUnreachable roots).bound? t i = if i ∈ w.reachable roots then w.bound? t i else none := by
  rw [bound?_eq, bound?_eq, sight?, sight?, body?, body?, instance?_dropUnreachable]
  split <;> rfl

/-! ### Between two actions -/

structure Sound (w : Caches κ υ) : Prop where
  ranked : w.Ranked
  /-- Who has an instance still runs and will release it. -/
  bound : ∀ t i x, w.bound? t i = some x → ∃ releases, w.thread t = .running releases ∧ i ∈ releases
  nodup : ∀ t releases, w.thread t = .running releases → releases.Nodup

theorem sound_empty : (empty : Caches κ υ).Sound where
  ranked := ranked_empty
  bound t i x hx := by
    rw [bound?_eq, (empty : Caches κ υ).sight?_of_size_le t (Nat.zero_le i)] at hx
    cases hx
  nodup t releases h := by
    have hthread : (empty : Caches κ υ).thread t = .running [] := Std.HashMap.getD_empty
    rw [hthread] at h
    cases h
    exact List.nodup_nil

/-- A thread without instances need not release anything. -/
private theorem Sound.of_bound? (hw : w.Sound) (hranked : w'.Ranked)
    (hbound : ∀ t i x, w'.bound? t i = some x → w.bound? t i = some x ∧ w'.thread t = w.thread t)
    (hthread : ∀ t releases, w'.thread t = .running releases → w.thread t = .running releases) : w'.Sound where
  ranked := hranked
  bound t i x hx := by
    obtain ⟨hold, ht⟩ := hbound t i x hx
    rw [ht]
    exact hw.bound t i x hold
  nodup t releases h := hw.nodup t releases (hthread t releases h)

private theorem Touch.sound (h : Touch r t i w w') (hw : w.Sound) : w'.Sound where
  ranked := h.ranked hw.ranked
  bound t' j x hx := by
    by_cases ht : t' = t
    · subst ht
      rcases h.bound? hx with hx | ⟨rfl, releases, -, hrun⟩
      · obtain ⟨releases, hrun, hj⟩ := hw.bound t' j x hx
        rcases h.thread t' with hsame | ⟨-, -, -, releases', hold, hnew⟩
        · exact ⟨releases, hsame.trans hrun, hj⟩
        · obtain rfl : releases = releases' := Thread.running.inj (hrun.symm.trans hold)
          refine ⟨_, hnew, ?_⟩
          split
          · exact hj
          · exact List.mem_cons_of_mem _ hj
      · refine ⟨_, hrun, ?_⟩
        split
        · assumption
        · exact List.mem_cons_self
    · rw [h.bound?_of_ne ht] at hx
      obtain ⟨releases, hrun, hj⟩ := hw.bound t' j x hx
      exact ⟨releases, ((h.thread t').resolve_right fun hself => ht hself.1).trans hrun, hj⟩
  nodup t' releases' hrun' := by
    rcases h.thread t' with hsame | ⟨rfl, -, -, releases, hold, hnew⟩
    · exact hw.nodup t' releases' (hsame.symm.trans hrun')
    · obtain rfl := Thread.running.inj (hnew.symm.trans hrun')
      have hnodup := hw.nodup t' releases hold
      split
      · exact hnodup
      · next hi => exact List.nodup_cons.2 ⟨hi, hnodup⟩

theorem Works.sound (h : Works r t S w w') (hw : w.Sound) : w'.Sound :=
  h.induct (fun _ _ _ _ htouch => htouch.sound) hw

/-! ### Writes at a per-thread cache -/

/-- What a thread writes when it does not run any more goes to an instance that is used once. -/
theorem Sound.answer_of_not_running (hw : w.Sound) (h : ∀ releases, w.thread t ≠ .running releases)
    (hs : w.sight? t i = some (.perThread make capacity? none)) (hr : r.IsWrite) :
    w.answer t i r = (w.make make).2.answer t (w.make make).1 r := by
  have hown := ownInstance_of_not_running (bound?_of_sight? hs) h make
  rw [answer_of_write hs (hw.ranked.rank_eq hs) hr, hown]

/-- What a thread that runs writes goes to the instance that is made for it, and the instance is kept. -/
theorem Sound.answer_of_running (hw : w.Sound) {releases : List CacheId} (hrun : w.thread t = .running releases)
    (hs : w.sight? t i = some (.perThread make capacity? none)) (hr : r.IsWrite) :
    (w.answer t i r).2.bound? t i = some (w.make make).1 := by
  obtain ⟨w', hown, hre, -⟩ := ownInstance_of_running (bound?_of_sight? hs) hrun make
  have hbound : w'.bound? t i = some (w.make make).1 := by
    rw [bound?_eq, hre.sight?, if_pos rfl,
      sight?_congr ((make_makes w make).extends_old.instance? i (lt_size_of_sight? hs)), hs]
    exact congrArg Sight.own? (Sight.rebound_self ..)
  rw [answer_of_write hs (hw.ranked.rank_eq hs) hr, hown]
  exact (w'.answer_works_true t (w.make make).1 r).bound?_of_isWrite hr hbound

/-- Whoever runs and writes at a per-thread cache has an instance there afterwards. -/
theorem Sound.exists_bound? (hw : w.Sound) {releases : List CacheId} (hrun : w.thread t = .running releases)
    {own? : Option CacheId} (hs : w.sight? t i = some (.perThread make capacity? own?)) (hr : r.IsWrite) :
    ∃ x, (w.answer t i r).2.bound? t i = some x := by
  cases own? with
  | none => exact ⟨_, hw.answer_of_running hrun hs hr⟩
  | some x => exact ⟨x, (w.answer_works_true t i r).bound?_of_isWrite hr (bound?_of_sight? hs)⟩

/-! ### Exits -/

/-- A thread without releases has no instances. -/
theorem Sound.bound?_eq_none (hw : w.Sound) (h : ∀ releases, w.thread t = .running releases → i ∉ releases) :
    w.bound? t i = none := by
  by_contra hne
  obtain ⟨x, hx⟩ := Option.ne_none_iff_exists'.1 hne
  obtain ⟨releases, hrun, hi⟩ := hw.bound t i x hx
  exact h releases hrun hi

/-- To release everything takes what the thread has, and leaves the others theirs. -/
private theorem Sound.bound?_release (hw : w.Sound) {releases : List CacheId} (h : w.thread t = .running releases)
    (t' : ThreadId) (i : CacheId) :
    (w.release t releases).bound? t' i = if t' = t then none else w.bound? t' i := by
  rw [Caches.bound?_release]
  by_cases ht : t' = t
  · subst ht
    by_cases hi : i ∈ releases
    · rw [if_pos ⟨rfl, hi⟩, if_pos rfl]
    · rw [if_neg fun h => hi h.2, if_pos rfl]
      exact hw.bound?_eq_none fun releases' h' => Thread.running.inj (h.symm.trans h') ▸ hi
  · rw [if_neg fun h => ht h.1, if_neg ht]

theorem Sound.bound?_beginExit (hw : w.Sound) (t t' : ThreadId) (i : CacheId) :
    (w.beginExit t).bound? t' i = if t' = t then none else w.bound? t' i := by
  rw [beginExit]
  split
  · next hrun => exact hw.bound?_release hrun t' i
  · next hrun =>
    split
    · next ht =>
      subst ht
      refine hw.bound?_eq_none fun releases h hi => ?_
      cases releases with
      | nil => cases hi
      | cons j releases => exact hrun j releases h
    · rfl

theorem Sound.bound?_finishExit (hw : w.Sound) (t t' : ThreadId) (i : CacheId) :
    (w.finishExit t).bound? t' i = if t' = t then none else w.bound? t' i := by
  rw [finishExit]
  split
  · next hrun => exact hw.bound?_release hrun t' i
  · next hrun =>
    split
    · next ht =>
      subst ht
      exact hw.bound?_eq_none fun releases h => absurd h (hrun releases)
    · rfl

/-- A thread that has nothing to release goes on as before. -/
theorem beginExit_of_no_releases (h : ∀ i releases, w.thread t ≠ .running (i :: releases)) : w.beginExit t = w := by
  rw [beginExit]
  split
  · next hrun => exact absurd hrun (h _ _)
  · rfl

theorem thread_beginExit_of_releases {releases : List CacheId} (h : w.thread t = .running (i :: releases)) :
    (w.beginExit t).thread t = .released := by
  rw [beginExit, h]
  exact (thread_setThread ..).trans (if_pos rfl)

theorem thread_finishExit (w : Caches κ υ) (t t' : ThreadId) :
    (w.finishExit t).thread t' = if t' = t then .finished else w.thread t' := by
  by_cases ht : t' = t
  · subst ht
    rw [if_pos rfl, finishExit]
    split <;> exact (thread_setThread ..).trans (if_pos rfl)
  · rw [if_neg ht, (shrinks_finishExit w t).thread t' ht]

/-- Who loses all instances need not run any more. -/
private theorem Sound.shrinks (hw : w.Sound) (h : Shrinks t w w') (ht : w'.thread t = w.thread t ∨
    (∀ i, w'.bound? t i = none) ∧ ∀ releases, w'.thread t ≠ .running releases) : w'.Sound := by
  refine hw.of_bound? (h.ranked hw.ranked) (fun u i x hx => ⟨h.bound? hx, ?_⟩) fun u releases hrun => ?_
  · by_cases hu : u = t
    · subst hu
      exact ht.resolve_right fun hnone => by cases (hnone.1 i).symm.trans hx
    · exact h.thread u hu
  · by_cases hu : u = t
    · subst hu
      rw [← ht.resolve_right fun hnone => hnone.2 releases hrun]
      exact hrun
    · exact (h.thread u hu).symm.trans hrun

theorem Sound.beginExit (hw : w.Sound) (t : ThreadId) : (w.beginExit t).Sound := by
  by_cases h : ∃ i releases, w.thread t = .running (i :: releases)
  · obtain ⟨i, releases, h⟩ := h
    refine hw.shrinks (shrinks_beginExit w t) (Or.inr ⟨fun i => ?_, fun releases hrun => ?_⟩)
    · exact (hw.bound?_beginExit t t i).trans (if_pos rfl)
    · cases (thread_beginExit_of_releases h).symm.trans hrun
  · rwa [beginExit_of_no_releases fun i releases h' => h ⟨i, releases, h'⟩]

theorem Sound.finishExit (hw : w.Sound) (t : ThreadId) : (w.finishExit t).Sound := by
  refine hw.shrinks (shrinks_finishExit w t) (Or.inr ⟨fun i => ?_, fun releases hrun => ?_⟩)
  · exact (hw.bound?_finishExit t t i).trans (if_pos rfl)
  · rw [thread_finishExit, if_pos rfl] at hrun
    cases hrun

theorem Sound.exit (hw : w.Sound) (t : ThreadId) : ((w.beginExit t).finishExit t).Sound := (hw.beginExit t).finishExit t

theorem Sound.sight?_exit (hw : w.Sound) (t u : ThreadId) (i : CacheId) :
    ((w.beginExit t).finishExit t).sight? u i = (w.sight? u i).map (Sight.rebound t none u) :=
  (shrinks_exit w t).sight?_eq (fun i => ((hw.beginExit t).bound?_finishExit t t i).trans (if_pos rfl)) u i

/-! ### Every action -/

theorem bound?_detach (w : Caches κ υ) (t : ThreadId) (i : CacheId) (t' : ThreadId) (j : CacheId) :
    (w.detach t i).2.bound? t' j = if t' = t ∧ j = i then none else w.bound? t' j := by
  cases h : w.bound? t i with
  | none =>
    rw [detach_of_unbound h]
    split
    · next heq => rw [heq.1, heq.2, h]
    · rfl
  | some x =>
    rw [detach_of_bound h]
    exact bound?_unbind w t i t' j

theorem thread_detach (w : Caches κ υ) (t : ThreadId) (i : CacheId) (t' : ThreadId) :
    (w.detach t i).2.thread t' = w.thread t' := by
  rw [detach]
  split
  · rfl
  · exact thread_congr (threads_unbind w t i) t'

theorem Sound.detach (hw : w.Sound) (t : ThreadId) (i : CacheId) : (w.detach t i).2.Sound :=
  hw.shrinks (shrinks_detach w t i) (Or.inl (thread_detach w t i t))

theorem Sound.act (hw : w.Sound) (step : ThreadId × Action κ υ) : (w.act step).2.Sound := by
  obtain ⟨t, action⟩ := step
  cases action with
  | make f =>
    rw [Caches.act]
    split
    · next hf =>
      have hthread := thread_congr (make_makes w f).extends_old.threads
      refine hw.of_bound? (hw.ranked.make hf).1 (fun t' i x hx => ?_) (fun t' releases hrun => ?_)
      · exact ⟨(bound?_make w f t' i).symm.trans hx, hthread t'⟩
      · exact (hthread t').symm.trans hrun
    · exact hw
  | request i r => exact (w.answer_works_true t i r).sound hw
  | isBound i => exact hw
  | detach i => exact hw.detach t i
  | drop roots =>
    refine hw.of_bound? (hw.ranked.dropUnreachable roots) (fun t' i x hx => ?_) (fun _ _ hrun => hrun)
    refine ⟨?_, rfl⟩
    have hx' := (bound?_dropUnreachable w roots t' i).symm.trans hx
    split at hx'
    · exact hx'
    · cases hx'
  | beginExit => exact hw.beginExit t
  | finishExit => exact hw.finishExit t

theorem Sound.after (hw : w.Sound) (steps : List (ThreadId × Action κ υ)) : (w.after steps).Sound := by
  induction steps generalizing w with
  | nil => exact hw
  | cons step steps ih => exact ih (hw.act step)

end Caching.Caches
