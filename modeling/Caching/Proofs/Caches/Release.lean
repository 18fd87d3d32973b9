import Mathlib
import Caching.Proofs.Caches.Run

/-!
# Bindings go when their thread exits

The two tables, who has an instance where and what a thread is to release, agree at all times, whatever order caches
are made, used and dropped in and threads give up their instances and exit (`bindings_released_at_exit`).  An exit
takes every instance of the thread and nothing of another thread, and what the thread writes afterwards is not kept.
A thread that has never had an instance has nothing to release and goes on as before, until its exit is finished.
-/

namespace Caching.Caches

variable {κ υ : Type} [BEq κ] [Hashable κ] {w w' : Caches κ υ} {t t' : ThreadId} {i j x : CacheId}
  {r : Request κ υ} {S : CacheId → Prop} {make : Factory κ} {capacity? : Option Nat}

/-! ### Threads that have exited -/

/-- Who runs after an action has run before. -/
private theorem running_of_act {step : ThreadId × Action κ υ} {releases : List CacheId}
    (h : (w.act step).2.thread t = .running releases) : ∃ releases, w.thread t = .running releases := by
  obtain ⟨t', action⟩ := step
  cases action with
  | make f =>
    rw [act] at h
    split at h
    · exact ⟨releases, (thread_congr (make_makes w f).extends_old.threads t).symm.trans h⟩
    · exact ⟨releases, h⟩
  | request i r =>
    refine (w.answer_works_true t' i r).induct
      (P := fun w' => ∀ releases, w'.thread t = .running releases → ∃ releases, w.thread t = .running releases)
      (fun w₁ w₂ i _ htouch hold releases hrun => ?_) (fun releases h => ⟨releases, h⟩) releases h
    rcases htouch.thread t with hsame | ⟨rfl, -, -, releases', hrun', -⟩
    · exact hold releases (hsame.symm.trans hrun)
    · exact hold releases' hrun'
  | isBound i => exact ⟨releases, h⟩
  | detach i => exact ⟨releases, (w.thread_detach t' i t).symm.trans h⟩
  | drop roots => exact ⟨releases, h⟩
  | beginExit =>
    change (w.beginExit t').thread t = _ at h
    by_cases ht : t = t'
    · subst ht
      by_cases hsome : ∃ i releases, w.thread t = .running (i :: releases)
      · obtain ⟨i, releases, hrun⟩ := hsome
        exact ⟨i :: releases, hrun⟩
      · rw [beginExit_of_no_releases fun i releases h' => hsome ⟨i, releases, h'⟩] at h
        exact ⟨releases, h⟩
    · exact ⟨releases, ((shrinks_beginExit w t').thread t ht).symm.trans h⟩
  | finishExit =>
    change (w.finishExit t').thread t = _ at h
    rw [thread_finishExit] at h
    split at h
    · cases h
    · exact ⟨releases, h⟩

private theorem not_running_after (h : ∀ releases, w.thread t ≠ .running releases)
    (steps : List (ThreadId × Action κ υ)) (releases : List CacheId) :
    (w.after steps).thread t ≠ .running releases := by
  induction steps generalizing w with
  | nil => exact h releases
  | cons step steps ih =>
    refine ih fun releases' hrun => ?_
    obtain ⟨releases'', hrun'⟩ := running_of_act hrun
    exact h releases'' hrun'

/-- A thread that does not run any more never has an instance again. -/
private theorem Sound.bound?_after (hw : w.Sound) (h : ∀ releases, w.thread t ≠ .running releases)
    (steps : List (ThreadId × Action κ υ)) (i : CacheId) : (w.after steps).bound? t i = none :=
  (hw.after steps).bound?_eq_none fun releases hrun => absurd hrun (not_running_after h steps releases)

/-- What a thread makes for itself is seen by nobody before, and leads to nothing else. -/
private theorem make_closed (w : Caches κ υ) (hmake : make.references = []) (t : ThreadId) :
    (w.make make).2.Closed t (w.instances.size ≤ ·) where
  new j hj := Nat.le_trans (make_makes w make).extends_old.size_le hj
  seen j s hj hs x hx := by
    rcases (make_makes w make).references t j s hj hs x hx with h | h
    · rw [hmake] at h
      cases h
    · exact h.1

/-- Work at an instance that is new and refers to no other leaves everything else as it was. -/
private theorem sight?_answer_make (w : Caches κ υ) (hmake : make.references = []) (t : ThreadId) (r : Request κ υ)
    (t' : ThreadId) (hj : j < w.instances.size) :
    ((w.make make).2.answer t (w.make make).1 r).2.sight? t' j = w.sight? t' j := by
  have hext := (make_makes w make).extends_old
  have hworks := answer_works (w.make_closed hmake t) ((make_makes w make).new hmake).1 r
  rw [hworks.sight?_of_not_mem (Nat.lt_of_lt_of_le hj hext.size_le) (Nat.not_le.2 hj)]
  exact sight?_congr (hext.instance? j hj) t'

/-! ### Bindings of other threads -/

/-- No action takes a number away, and an instance that is gone does not come back. -/
private theorem size_le_act_and_has (w : Caches κ υ) (step : ThreadId × Action κ υ) :
    w.instances.size ≤ (w.act step).2.instances.size ∧
      (i < w.instances.size → (w.act step).2.Has i → w.Has i) := by
  obtain ⟨t, action⟩ := step
  cases action with
  | make f =>
    rw [act]
    split
    · have hext := (make_makes w f).extends_old
      exact ⟨hext.size_le, fun hi h => (has_congr (hext.instance? i hi)).1 h⟩
    · exact ⟨Nat.le_refl _, fun _ h => h⟩
  | request j r =>
    refine (w.answer_works_true t j r).induct
      (P := fun w' => w.instances.size ≤ w'.instances.size ∧ (i < w.instances.size → w'.Has i → w.Has i))
      (fun w₁ w₂ k _ htouch hold => ⟨Nat.le_trans hold.1 htouch.size_le, fun hi h => hold.2 hi ?_⟩)
      ⟨Nat.le_refl _, fun _ h => h⟩
    obtain ⟨s', hs'⟩ := (has_iff_sight? t).1 h
    obtain ⟨s, hs, -⟩ := htouch.was (Nat.lt_of_lt_of_le hi hold.1) hs'
    exact (has_iff_sight? t).2 ⟨s, hs⟩
  | isBound j => exact ⟨Nat.le_refl _, fun _ h => h⟩
  | detach j =>
    have hsh := shrinks_detach w t j
    exact ⟨hsh.size_eq.ge, fun _ h => hsh.has_iff.1 h⟩
  | drop roots =>
    refine ⟨(size_dropUnreachable w roots).ge, fun _ h => ?_⟩
    change ((w.dropUnreachable roots).instance? i).isSome at h
    rw [instance?_dropUnreachable] at h
    split at h
    · exact h
    · cases h
  | beginExit =>
    have hsh := shrinks_beginExit w t
    exact ⟨hsh.size_eq.ge, fun _ h => hsh.has_iff.1 h⟩
  | finishExit =>
    have hsh := shrinks_finishExit w t
    exact ⟨hsh.size_eq.ge, fun _ h => hsh.has_iff.1 h⟩

private theorem has_of_after {steps : List (ThreadId × Action κ υ)} (hi : i < w.instances.size)
    (h : (w.after steps).Has i) : w.Has i := by
  induction steps generalizing w with
  | nil => exact h
  | cons step steps ih =>
    have hact := w.size_le_act_and_has (i := i) step
    exact hact.2 hi (ih (Nat.lt_of_lt_of_le hi hact.1) h)

/-- What a thread does changes no binding of another thread, unless the cache is dropped. -/
private theorem Sound.bound?_act_of_ne (hw : w.Sound) (ht : t' ≠ t) (action : Action κ υ) (i : CacheId) :
    (w.act (t, action)).2.bound? t' i = w.bound? t' i ∨
      i < w.instances.size ∧ ¬ (w.act (t, action)).2.Has i := by
  cases action with
  | make f =>
    rw [Caches.act]
    split
    · exact Or.inl (bound?_make w f t' i)
    · exact Or.inl rfl
  | request j r => exact Or.inl ((w.answer_works_true t j r).bound?_of_ne ht i)
  | isBound j => exact Or.inl rfl
  | detach j => exact Or.inl ((w.bound?_detach t j t' i).trans (if_neg fun h => ht h.1))
  | drop roots =>
    change (w.dropUnreachable roots).bound? t' i = _ ∨ _ ∧ ¬ (w.dropUnreachable roots).Has i
    rw [bound?_dropUnreachable, Has, instance?_dropUnreachable]
    split
    · exact Or.inl rfl
    · cases hx : w.bound? t' i with
      | none => exact Or.inl rfl
      | some x => exact Or.inr ⟨lt_size_of_bound? hx, Bool.false_ne_true⟩
  | beginExit => exact Or.inl ((hw.bound?_beginExit t t' i).trans (if_neg ht))
  | finishExit => exact Or.inl ((hw.bound?_finishExit t t' i).trans (if_neg ht))

private theorem Sound.bound?_after_of_ne (hw : w.Sound) (ht : t' ≠ t) (actions : List (Action κ υ))
    (hi : (w.after (actions.map (t, ·))).Has i) :
    (w.after (actions.map (t, ·))).bound? t' i = w.bound? t' i := by
  induction actions generalizing w with
  | nil => rfl
  | cons action actions ih =>
    refine (ih (hw.act (t, action)) hi).trans ?_
    refine (hw.bound?_act_of_ne ht action i).resolve_right fun ⟨hlt, hnot⟩ => hnot ?_
    exact has_of_after (Nat.lt_of_lt_of_le hlt (w.size_le_act_and_has (i := i) (t, action)).1) hi

/-! ### Threads that have never had an instance -/

/-- The caches that a request enters among the releases have an instance for the thread afterwards. -/
private theorem registered_answer {releases releases' : List CacheId} (h : w.thread t = .running releases)
    (h' : (w.answer t i r).2.thread t = .running releases') (hj : j ∈ releases') :
    j ∈ releases ∨ ∃ x, (w.answer t i r).2.bound? t j = some x := by
  refine (w.answer_works_true t i r).induct
    (P := fun w' => ∀ releases', w'.thread t = .running releases' → j ∈ releases' →
      j ∈ releases ∨ r.IsWrite ∧ ∃ x, w'.bound? t j = some x)
    (fun w₁ w₂ k _ htouch hold releases' hrun hj => ?_) (fun releases' hrun hj => Or.inl ?_) releases' h' hj
    |>.imp_right And.right
  · have hkept : ∀ {releases'}, w₁.thread t = .running releases' → j ∈ releases' →
        j ∈ releases ∨ r.IsWrite ∧ ∃ x, w₂.bound? t j = some x := fun hrun hj =>
      (hold _ hrun hj).imp_right fun ⟨hr, x, hx⟩ => ⟨hr, x, htouch.bound?_of_isWrite hr hx⟩
    rcases htouch.thread t with hsame | ⟨-, hr, hbound, releases₁, hrun₁, hrun₂⟩
    · exact hkept (hsame.symm.trans hrun) hj
    · obtain rfl := Thread.running.inj (hrun₂.symm.trans hrun)
      by_cases hjk : j = k
      · exact Or.inr ⟨hr, hjk ▸ hbound⟩
      · refine hkept hrun₁ ?_
        split at hj
        · exact hj
        · exact (List.mem_cons.1 hj).resolve_left hjk
  · exact Thread.running.inj (hrun.symm.trans h) ▸ hj

/-- A thread that has never had an instance between two actions, and has not finished its exit, has nothing to
release. -/
private theorem running_of_never_bound (h : w.thread t = .running []) {steps : List (ThreadId × Action κ υ)}
    (hnever : ∀ before, before <+: steps → ∀ i, (w.after before).bound? t i = none)
    (hexit : (t, .finishExit) ∉ steps) : (w.after steps).thread t = .running [] := by
  induction steps generalizing w with
  | nil => exact h
  | cons step steps ih =>
    refine ih (w := (w.act step).2) ?_
      (fun before hbefore i => hnever (step :: before) (List.cons_prefix_cons.2 ⟨rfl, hbefore⟩) i)
      fun hmem => hexit (List.mem_cons_of_mem _ hmem)
    have hnext := hnever [step] (List.cons_prefix_cons.2 ⟨rfl, List.nil_prefix⟩)
    obtain ⟨t', action⟩ := step
    cases action with
    | make f =>
      rw [act]
      split
      · exact (thread_congr (make_makes w f).extends_old.threads t).trans h
      · exact h
    | request i r =>
      by_cases ht : t = t'
      · subst ht
        change (w.answer t i r).2.thread t = _
        obtain ⟨releases, hrun, -⟩ := (w.answer_works_true t i r).running h
        rw [hrun]
        refine congrArg Thread.running (List.eq_nil_iff_forall_not_mem.2 fun j hj => ?_)
        rcases registered_answer h hrun hj with hj | ⟨x, hx⟩
        · cases hj
        · cases (hnext j).symm.trans hx
      · exact ((w.answer_works_true t' i r).thread_of_ne ht).trans h
    | isBound i => exact h
    | detach i => exact (w.thread_detach t' i t).trans h
    | drop roots => exact h
    | beginExit =>
      change (w.beginExit t').thread t = _
      by_cases ht : t = t'
      · subst ht
        rw [beginExit_of_no_releases fun i releases h' => List.cons_ne_nil _ _ (Thread.running.inj (h'.symm.trans h))]
        exact h
      · exact ((shrinks_beginExit w t').thread t ht).trans h
    | finishExit =>
      change (w.finishExit t').thread t = _
      rw [thread_finishExit]
      split
      · next ht => exact absurd List.mem_cons_self (ht ▸ hexit)
      · exact h

private theorem release_filter (w : Caches κ υ) (t : ThreadId) (releases : List CacheId) :
    w.release t releases = w.release t (releases.filter fun i => (w.instance? i).isSome) := by
  induction releases generalizing w with
  | nil => rfl
  | cons i releases ih =>
    have hsame : ∀ j, ((w.unbind t i).instance? j).isSome = (w.instance? j).isSome := fun j =>
      Bool.eq_iff_iff.2 (reshapes_unbind w t i).has_iff
    have hrest : w.release t (i :: releases) = (w.unbind t i).release t releases := rfl
    rw [hrest, ih]
    simp only [hsame]
    by_cases hi : (w.instance? i).isSome
    · rw [List.filter_cons_of_pos (p := fun i => (w.instance? i).isSome) hi]
      rfl
    · rw [List.filter_cons_of_neg (p := fun i => (w.instance? i).isSome) hi]
      -- a cache that was dropped has no bindings
      have hnone : w.unbind t i = w := by
        rw [unbind, body?, Option.not_isSome_iff_eq_none.1 hi]
        rfl
      rw [hnone]

/-- Whatever happens to the caches `w` after a run: -/
theorem bindings_released_at_exit (steps : List (ThreadId × Action κ υ)) (t : ThreadId) :
    let w := (empty : Caches κ υ).after steps
    -- who has an instance still runs and has the cache among its releases, once, and this release takes the instance
    (∀ i inner, w.bound? t i = some inner → ∃ releases, w.thread t = .running releases ∧ releases.count i = 1 ∧
      ∀ t' j, (w.release t [i]).bound? t' j = if t' = t ∧ j = i then none else w.bound? t' j) ∧
    -- once its exit is finished the thread has no instance, and gets none, whatever happens then
    (∀ later i, (w.after ((t, .finishExit) :: later)).bound? t i = none) ∧
    -- what the thread does, its exit included, changes no binding of another thread in a cache that still exists
    (∀ (actions : List (Action κ υ)) t' i, t' ≠ t → (w.after (actions.map (t, ·))).Has i →
      (w.after (actions.map (t, ·))).bound? t' i = w.bound? t' i) ∧
    -- after the releases the thread gets no instance either: what it writes at a per-thread cache goes to one that is
    -- made for this write, and if its constructor refers to no other cache, then nothing that existed is changed
    (∀ i₀ releases later, w.thread t = .running (i₀ :: releases) →
      let w₁ := w.after ((t, .beginExit) :: later)
      (∀ i, w₁.bound? t i = none) ∧
      ∀ i make capacity? bindings r, w₁.body? i = some (.perThread make capacity? bindings) → r.IsWrite →
        w₁.answer t i r = (w₁.make make).2.answer t (w₁.make make).1 r ∧
        (make.references = [] → w₁.instances.size ≤ (w₁.make make).1 ∧
          ∀ t' j, j < w₁.instances.size → (w₁.answer t i r).2.sight? t' j = w₁.sight? t' j)) ∧
    -- a thread that has never had an instance has no releases to begin its exit with; what it writes still gets it
    -- one, until the exit is finished
    ((∀ before, before <+: steps → ∀ i, ((empty : Caches κ υ).after before).bound? t i = none) →
      (t, .finishExit) ∉ steps → w.beginExit t = w ∧
      ∀ i make capacity? bindings r, w.body? i = some (.perThread make capacity? bindings) → r.IsWrite →
        (w.answer t i r).2.bound? t i = some (w.make make).1 ∧
        ∀ j, ((w.answer t i r).2.finishExit t).bound? t j = none) ∧
    -- to release what has been dropped does nothing
    ∀ releases, w.release t releases = w.release t (releases.filter fun i => (w.instance? i).isSome) := by
  intro w
  have hw : w.Sound := sound_empty.after steps
  refine ⟨fun i inner hi => ?_, fun later i => ?_, fun actions t' i ht hi => hw.bound?_after_of_ne ht actions hi,
    fun i₀ releases later hrun => ?_, fun hnever hexit => ?_, w.release_filter t⟩
  · obtain ⟨releases, hrun, hmem⟩ := hw.bound t i inner hi
    refine ⟨releases, hrun, List.count_eq_one_of_mem (hw.nodup t releases hrun) hmem, fun t' j => ?_⟩
    simpa using w.bound?_release t [i] t' j
  · refine (hw.finishExit t).bound?_after (fun releases hrun => ?_) later i
    rw [thread_finishExit, if_pos rfl] at hrun
    cases hrun
  · have hreleased : ∀ releases, (w.beginExit t).thread t ≠ .running releases := by
      intro releases hrun'
      cases (thread_beginExit_of_releases hrun).symm.trans hrun'
    have hw₁ : (w.after ((t, .beginExit) :: later)).Sound := hw.after _
    have hnone : ∀ i, (w.after ((t, .beginExit) :: later)).bound? t i = none :=
      (hw.beginExit t).bound?_after hreleased later
    refine ⟨hnone, fun i make capacity? bindings r hb hr => ?_⟩
    have hs := sight?_of_body?_perThread hb t
    rw [hnone] at hs
    have hanswer := hw₁.answer_of_not_running (not_running_after hreleased later) hs hr
    refine ⟨hanswer, fun hmake => ⟨((make_makes _ make).new hmake).1, fun t' j hj => ?_⟩⟩
    rw [hanswer]
    exact sight?_answer_make _ hmake t r t' hj
  · have hrun := running_of_never_bound (w := (empty : Caches κ υ)) Std.HashMap.getD_empty hnever hexit
    refine ⟨beginExit_of_no_releases fun i releases h => ?_, fun i make capacity? bindings r hb hr => ⟨?_, fun j => ?_⟩⟩
    · cases (Thread.running.inj (hrun.symm.trans h))
    · have hs := sight?_of_body?_perThread hb t
      rw [hnever steps (List.prefix_refl _)] at hs
      exact hw.answer_of_running hrun hs hr
    · have hw' : (w.answer t i r).2.Sound := (w.answer_works_true t i r).sound hw
      rw [hw'.bound?_finishExit, if_pos rfl]

/-- A thread writes to a per-thread cache for the first time, and exits. -/
theorem instance_goes_with_its_thread :
    let made : List (ThreadId × Action Nat Nat) := [(0, .make (.perThreadBounded .lru { size := 2 }))]
    let w := (empty : Caches Nat Nat).after (made ++ [(1, .request 0 (.put 5 7))])
    ((∀ before, before <+: made → ∀ i, ((empty : Caches Nat Nat).after before).bound? 1 i = none) ∧
      (1, Action.finishExit) ∉ made) ∧
    w.bound? 1 0 = some 1 ∧ (∃ i releases, w.thread 1 = .running (i :: releases)) ∧
    (∀ i, (w.after [(1, .beginExit), (1, .request 0 (.put 6 8))]).bound? 1 i = none) ∧
    ∀ i, (w.after [(1, .finishExit)]).bound? 1 i = none := by
  intro made w
  have hnever : ∀ before, before <+: made → ∀ i, ((empty : Caches Nat Nat).after before).bound? 1 i = none := by
    intro before hbefore i
    rcases List.prefix_cons_iff.1 hbefore with rfl | ⟨rest, rfl, hrest⟩
    · exact Std.HashMap.getElem?_empty
    · obtain rfl := List.prefix_nil.1 hrest
      rcases i with _ | _ | i <;> exact Std.HashMap.getElem?_empty
  have hexit : (1, Action.finishExit) ∉ made := by simp [made]
  have hbound : w.bound? 1 0 = some 1 := by
    obtain ⟨-, -, -, -, hfirst, -⟩ := bindings_released_at_exit made 1
    exact ((hfirst hnever hexit).2 0 _ _ _ (.put 5 7) rfl trivial).1
  obtain ⟨hhas, hgone, -, hlate, -, -⟩ := bindings_released_at_exit (made ++ [(1, .request 0 (.put 5 7))]) 1
  obtain ⟨i, releases, hrun⟩ : ∃ i releases, w.thread 1 = .running (i :: releases) := by
    obtain ⟨releases, hrun, hcount, -⟩ := hhas 0 1 hbound
    cases releases with
    | nil => cases hcount
    | cons i releases => exact ⟨i, releases, hrun⟩
  exact ⟨⟨hnever, hexit⟩, hbound, ⟨i, releases, hrun⟩, (hlate i releases [(1, .request 0 (.put 6 8))] hrun).1, hgone []⟩

end Caching.Caches
