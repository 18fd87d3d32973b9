import Mathlib
import Caching.Proofs.Caches.Private
import Caching.Proofs.Caches.Run

/-!
# Instances that look alike

Two instances look alike if they are of one kind, hold the same, and lead every thread to instances that look alike
again.  A relation between the instances of two collections of caches says which do (`Alike`): the numbers do not
matter, and neither does anything that is not in the relation.  A request to two instances that look alike is answered
alike, and what it leaves looks alike with what it has made (`Alike.answer`).
-/

namespace Caching.Caches

variable {κ υ : Type} [BEq κ] [Hashable κ] {w w₁ w' w₁' : Caches κ υ} {t u : ThreadId} {i i' x x' : CacheId}
  {s s' : Sight κ υ} {r : Request κ υ} {R R₁ R₂ : CacheId → CacheId → Prop} {f : Factory κ}
  {capacity? : Option Nat} {own? own?' : Option CacheId}

/-- Alike for a thread, if the related instances look alike. -/
inductive Sight.Alike (R : CacheId → CacheId → Prop) : Sight κ υ → Sight κ υ → Prop
  | store (contents : Store κ υ) : Alike R (.store contents) (.store contents)
  | perThread {make : Factory κ} (capacity? : Option Nat) {own? own?' : Option CacheId} (hmake : make.references = [])
      (hown : Option.Rel R own? own?') : Alike R (.perThread make capacity? own?) (.perThread make capacity? own?')
  | forwarding {inner inner' : CacheId} (h : R inner inner') : Alike R (.forwarding inner) (.forwarding inner')

theorem Sight.Alike.mono (h : s.Alike R s') (hR : ∀ x x', R x x' → R₁ x x') : s.Alike R₁ s' := by
  cases h with
  | store contents => exact .store contents
  | perThread capacity? hmake hown =>
    refine .perThread capacity? hmake ?_
    cases hown with
    | none => exact .none
    | some h => exact .some (hR _ _ h)
  | forwarding h => exact .forwarding (hR _ _ h)

/-- A thread may lose its instances on both sides, or get instances that look alike. -/
private theorem Sight.Alike.rebound (h : s.Alike R s') (hown : Option.Rel R own? own?') (t u : ThreadId) :
    (s.rebound t own? u).Alike R (s'.rebound t own?' u) := by
  by_cases hu : u = t
  · subst hu
    rw [Sight.rebound_self, Sight.rebound_self]
    cases h with
    | store contents => exact .store contents
    | perThread capacity? hmake _ => exact .perThread capacity? hmake hown
    | forwarding h => exact .forwarding h
  · rw [Sight.rebound_of_ne hu, Sight.rebound_of_ne hu]
    exact h

/-- The related instances look alike to every thread, and the same threads run. -/
structure Alike (R : CacheId → CacheId → Prop) (w w' : Caches κ υ) : Prop where
  sight? : ∀ x x', R x x' → ∀ t, ∃ s s', w.sight? t x = some s ∧ w'.sight? t x' = some s' ∧ s.Alike R s'
  /-- What is one instance on one side is one on the other. -/
  unique : ∀ x x' y y', R x x' → R y y' → (x = y ↔ x' = y')
  running : ∀ t, (∃ releases, w.thread t = .running releases) ↔ ∃ releases, w'.thread t = .running releases

/-- More instances are related, but none that there were before. -/
structure Grown (w w' : Caches κ υ) (R R₁ : CacheId → CacheId → Prop) : Prop where
  old : ∀ x x', R x x' → R₁ x x'
  new : ∀ x x', R₁ x x' → R x x' ∨ w.instances.size ≤ x ∧ w'.instances.size ≤ x'

theorem Grown.refl (w w' : Caches κ υ) (R : CacheId → CacheId → Prop) : Grown w w' R R :=
  ⟨fun _ _ h => h, fun _ _ h => Or.inl h⟩

theorem Grown.trans (h : Grown w w' R R₁) (hle : w.instances.size ≤ w₁.instances.size)
    (hle' : w'.instances.size ≤ w₁'.instances.size) (h₁ : Grown w₁ w₁' R₁ R₂) : Grown w w' R R₂ where
  old x x' hx := h₁.old x x' (h.old x x' hx)
  new x x' hx := (h₁.new x x' hx).elim (h.new x x') fun hx =>
    Or.inr ⟨Nat.le_trans hle hx.1, Nat.le_trans hle' hx.2⟩

theorem Alike.lt_size (h : Alike R w w') (hx : R x x') : x < w.instances.size ∧ x' < w'.instances.size := by
  obtain ⟨s, s', hs, hs', -⟩ := h.sight? x x' hx 0
  exact ⟨lt_size_of_sight? hs, lt_size_of_sight? hs'⟩

/-- What is not related may change on one side. -/
theorem Alike.left (h : Alike R w w') (hsight : ∀ x x', R x x' → ∀ t, w₁.sight? t x = w.sight? t x)
    (hrun : ∀ t, (∃ releases, w₁.thread t = .running releases) ↔ ∃ releases, w.thread t = .running releases) :
    Alike R w₁ w' where
  sight? x x' hx t := by
    rw [hsight x x' hx t]
    exact h.sight? x x' hx t
  unique := h.unique
  running t := (hrun t).trans (h.running t)

/-! ### Changes on both sides -/

private theorem Alike.reshapes (h : Alike R w w') (hi : R i i') {f f' : ThreadId → Sight κ υ → Sight κ υ}
    (hre : w.Reshapes w₁ i f) (hre' : w'.Reshapes w₁' i' f')
    (hf : ∀ t s s', s.Alike R s' → (f t s).Alike R (f' t s'))
    (hrun : ∀ t, (∃ releases, w₁.thread t = .running releases) ↔ ∃ releases, w₁'.thread t = .running releases) :
    Alike R w₁ w₁' where
  sight? x x' hx t := by
    obtain ⟨s, s', hs, hs', hss'⟩ := h.sight? x x' hx t
    have hsame := h.unique i i' x x' hi hx
    rw [hre.sight?, hre'.sight?, hs, hs']
    by_cases hix : i = x
    · rw [if_pos hix, if_pos (hsame.1 hix)]
      exact ⟨_, _, rfl, rfl, hf t s s' hss'⟩
    · rw [if_neg hix, if_neg fun hix' => hix (hsame.2 hix')]
      exact ⟨s, s', rfl, rfl, hss'⟩
  unique := h.unique
  running := hrun

private theorem Alike.add (h : Alike R w w') (n n' : Nat) {b b' : Body κ υ}
    (hb : ∀ t, (b.sight t).Alike R (b'.sight t)) :
    ∃ R₁, Grown w w' R R₁ ∧ Alike R₁ (w.add n b).2 (w'.add n' b').2 ∧ R₁ (w.add n b).1 (w'.add n' b').1 := by
  have hgrown : Grown w w' R fun x x' => R x x' ∨ x = w.instances.size ∧ x' = w'.instances.size :=
    ⟨fun _ _ => Or.inl, fun _ _ hx => hx.imp_right fun hx => ⟨hx.1.ge, hx.2.ge⟩⟩
  refine ⟨_, hgrown, ⟨?_, ?_, h.running⟩, Or.inr ⟨rfl, rfl⟩⟩
  · rintro x x' (hx | ⟨rfl, rfl⟩) t
    · obtain ⟨s, s', hs, hs', hss'⟩ := h.sight? x x' hx t
      obtain ⟨hlt, hlt'⟩ := h.lt_size hx
      rw [sight?_add, sight?_add, if_neg hlt.ne, if_neg hlt'.ne]
      exact ⟨s, s', hs, hs', hss'.mono hgrown.old⟩
    · rw [sight?_add, sight?_add, if_pos rfl, if_pos rfl]
      exact ⟨_, _, rfl, rfl, (hb t).mono hgrown.old⟩
  · rintro x x' y y' (hx | ⟨rfl, rfl⟩) (hy | ⟨rfl, rfl⟩)
    · exact h.unique x x' y y' hx hy
    · obtain ⟨hlt, hlt'⟩ := h.lt_size hx
      exact iff_of_false hlt.ne hlt'.ne
    · obtain ⟨hlt, hlt'⟩ := h.lt_size hy
      exact iff_of_false hlt.ne' hlt'.ne'
    · exact iff_of_true rfl rfl

/-- What a factory makes anew looks alike on both sides. -/
theorem Alike.make (h : Alike R w w') (hf : f.references = []) :
    ∃ R₁, Grown w w' R R₁ ∧ Alike R₁ (w.make f).2 (w'.make f).2 ∧ R₁ (w.make f).1 (w'.make f).1 := by
  induction f generalizing w w' R with
  | bounded policy capacity => cases policy <;> exact h.add 0 0 fun _ => .store _
  | striped striping hash => exact h.add 0 0 fun _ => .store _
  | perThread make capacity? =>
    refine h.add _ _ fun t => .perThread capacity? hf ?_
    rw [Std.HashMap.getElem?_empty]
    exact .none
  | forwarding inner ih =>
    obtain ⟨R₁, hgrown, h₁, hinner⟩ := ih h hf
    have hb : ∀ t, ((Body.forwarding (w.make inner).1 : Body κ υ).sight t).Alike R₁
        ((Body.forwarding (w'.make inner).1 : Body κ υ).sight t) := fun _ => .forwarding hinner
    obtain ⟨R₂, hgrown', h₂, hi⟩ := h₁.add ((w.make inner).2.rank (w.make inner).1 + 1)
      ((w'.make inner).2.rank (w'.make inner).1 + 1) hb
    exact ⟨R₂, hgrown.trans (make_makes w inner).extends_old.size_le (make_makes w' inner).extends_old.size_le hgrown',
      h₂, hi⟩
  | existing i => cases hf
  | counted counter make ih =>
    have hcounted : Alike R { w with built := w.built.alter counter (some <| ·.getD 0 + 1) }
        { w' with built := w'.built.alter counter (some <| ·.getD 0 + 1) } := ⟨h.sight?, h.unique, h.running⟩
    obtain ⟨R₁, ⟨hold, hnew⟩, h₁, hi⟩ := ih hcounted hf
    exact ⟨R₁, ⟨hold, hnew⟩, h₁, hi⟩

/-- A thread's own instances look alike when they are made, kept or not. -/
private theorem Alike.ownInstance {make : Factory κ} (h : Alike R w w') (hi : R i i') (hmake : make.references = [])
    (hs : w.sight? t i = some (.perThread make capacity? none))
    (hs' : w'.sight? t i' = some (.perThread make capacity? none)) :
    ∃ R₁, Grown w w' R R₁ ∧ Alike R₁ (w.ownInstance t i make).2 (w'.ownInstance t i' make).2 ∧
      R₁ (w.ownInstance t i make).1 (w'.ownInstance t i' make).1 := by
  obtain ⟨R₁, hgrown, h₁, hinner⟩ := h.make hmake
  refine ⟨R₁, hgrown, ?_⟩
  have hbound := bound?_of_sight? hs
  have hbound' := bound?_of_sight? hs'
  by_cases hrun : ∃ releases, w.thread t = .running releases
  · obtain ⟨releases, hrel⟩ := hrun
    obtain ⟨releases', hrel'⟩ := (h.running t).1 ⟨releases, hrel⟩
    obtain ⟨w₁, hown, hre, hthread, -⟩ := ownInstance_of_running hbound hrel make
    obtain ⟨w₁', hown', hre', hthread', -⟩ := ownInstance_of_running hbound' hrel' make
    rw [hown, hown']
    refine ⟨h₁.reshapes (hgrown.old i i' hi) hre hre' (fun u s s' hss' => hss'.rebound (.some hinner) t u) fun u => ?_,
      hinner⟩
    rw [hthread, hthread']
    by_cases hu : t = u
    · simp only [if_pos hu, Thread.running.injEq, exists_eq']
    · simp only [if_neg hu, h.running u]
  · have hrun' : ¬ ∃ releases, w'.thread t = .running releases := fun h' => hrun ((h.running t).2 h')
    rw [ownInstance_of_not_running hbound fun releases h => hrun ⟨releases, h⟩,
      ownInstance_of_not_running hbound' fun releases h => hrun' ⟨releases, h⟩]
    exact ⟨h₁, hinner⟩

/-- To give up instances that look alike leaves what looks alike. -/
private theorem Alike.detach (h : Alike R w w') (hi : R i i') {inner inner' : CacheId}
    (hbound : w.bound? t i = some inner) (hbound' : w'.bound? t i' = some inner') :
    Alike R (w.detach t i).2 (w'.detach t i').2 := by
  refine h.reshapes hi (reshapes_detach hbound) (reshapes_detach hbound')
    (fun u s s' hss' => hss'.rebound .none t u) fun u => ?_
  have hthread : (w.detach t i).2.thread u = w.thread u := by
    rw [detach_of_bound hbound]
    exact thread_congr (threads_unbind w t i) u
  have hthread' : (w'.detach t i').2.thread u = w'.thread u := by
    rw [detach_of_bound hbound']
    exact thread_congr (threads_unbind w' t i') u
  rw [hthread, hthread', h.running u]

/-! ### Requests -/

/-- A request is answered alike, and leaves what looks alike. -/
theorem Alike.answer (h : Alike R w w') (hw : w.Ranked) (hw' : w'.Ranked) (hi : R i i') (t : ThreadId)
    (r : Request κ υ) : (w.answer t i r).1 = (w'.answer t i' r).1 ∧
      ∃ R₁, Grown w w' R R₁ ∧ Alike R₁ (w.answer t i r).2 (w'.answer t i' r).2 := by
  -- on the rank, as a request goes on to instances of smaller rank, by a forwarding cache perhaps twice
  induction hn : w.rank i using Nat.strong_induction_on generalizing w w' R i i' r with
  | _ n ih =>
    subst hn
    obtain ⟨s, s', hs, hs', hss'⟩ := h.sight? i i' hi t
    cases hss' with
    | store contents =>
      rw [answer_of_store hs, answer_of_store hs']
      refine ⟨rfl, R, .refl .., h.reshapes hi (reshapes_store ..) (reshapes_store ..) (fun _ _ _ _ => .store _)
        fun u => ?_⟩
      rw [thread_emitEviction, thread_emitEviction]
      exact h.running u
    | @perThread make capacity? _ _ hmake hown =>
      cases hown with
      | none =>
        by_cases hr : r.IsWrite
        · obtain ⟨R₁, hgrown, h₁, hinner⟩ := h.ownInstance hi hmake hs hs'
          have hrank := hw.rank_eq hs
          have htouch := Touch.own hr hs
          have htouch' := Touch.own hr hs'
          rw [answer_of_write hs hrank hr, answer_of_write hs' (hw'.rank_eq hs') hr]
          obtain ⟨hreply, R₂, hgrown', h₂⟩ :=
            ih _ (hrank ▸ Nat.lt_succ_self _) h₁ (htouch.ranked hw) (htouch'.ranked hw') hinner r rfl
          exact ⟨hreply, R₂, hgrown.trans htouch.size_le htouch'.size_le hgrown', h₂⟩
        · rw [answer_of_unbound hs hr, answer_of_unbound hs' hr]
          exact ⟨rfl, R, .refl .., h⟩
      | @some inner inner' hinner =>
        have hrank : w.rank i = w.rank inner + 1 := ((hw t i _ hs).2.2 inner rfl).2
        have hrank' : w'.rank i' = w'.rank inner' + 1 := ((hw' t i' _ hs').2.2 inner' rfl).2
        have hlt : w.rank inner < w.rank i := hrank ▸ Nat.lt_succ_self _
        by_cases hr : r = .clear
        · subst hr
          have hbound := bound?_of_sight? hs
          have hbound' := bound?_of_sight? hs'
          have hre := reshapes_detach hbound
          have hre' := reshapes_detach hbound'
          rw [answer_clear_of_bound hs hrank, answer_clear_of_bound hs' hrank']
          obtain ⟨hreply, R₁, hgrown, h₁⟩ := ih _ hlt (h.detach hi hbound hbound') ((shrinks_detach w t i).ranked hw)
            ((shrinks_detach w' t i').ranked hw') hinner .clear (hre.rank inner)
          exact ⟨hreply, R₁, (Grown.refl w w' R).trans hre.size_eq.ge hre'.size_eq.ge hgrown, h₁⟩
        · rw [answer_of_bound hs hrank hr, answer_of_bound hs' hrank' hr]
          exact ih _ hlt h hw hw' hinner r rfl
    | @forwarding inner inner' hinner =>
      have hrank : w.rank i = w.rank inner + 1 := (hw t i _ hs).2
      have hrank' : w'.rank i' = w'.rank inner' + 1 := (hw' t i' _ hs').2
      have hlt : w.rank inner < w.rank i := hrank ▸ Nat.lt_succ_self _
      by_cases hr : ∀ k v, r ≠ .putIfAbsent k v
      · rw [answer_of_forwarding hs hrank hr, answer_of_forwarding hs' hrank' hr]
        exact ih _ hlt h hw hw' hinner r rfl
      · obtain ⟨k, v, rfl⟩ : ∃ k v, r = .putIfAbsent k v := by
          by_contra hne
          exact hr fun k v heq => hne ⟨k, v, heq⟩
        rw [answer_putIfAbsent_of_forwarding hs, answer_putIfAbsent_of_forwarding hs']
        obtain ⟨hreply, R₁, hgrown, h₁⟩ := ih _ hlt h hw hw' hinner (.get k) rfl
        have hworks := w.answer_works_true t inner (.get k)
        have hworks' := w'.answer_works_true t inner' (.get k)
        rw [hreply]
        split
        · exact ⟨rfl, R₁, hgrown, h₁⟩
        · obtain ⟨hreply₁, R₂, hgrown', h₂⟩ := ih _ hlt h₁ (hworks.ranked hw) (hworks'.ranked hw')
            (hgrown.old _ _ hinner) (.put k v) (hworks.rank (h.lt_size hinner).1)
          exact ⟨hreply₁, R₂, hgrown.trans hworks.size_le hworks'.size_le hgrown', h₂⟩

/-- Several requests of any threads are answered alike. -/
theorem Alike.answers (h : Alike R w w') (hw : w.Ranked) (hw' : w'.Ranked) (hi : R i i')
    (requests : List (ThreadId × Request κ υ)) :
    (Caching.answers (fun w q => w.answer q.1 i q.2) w requests).1 =
      (Caching.answers (fun w q => w.answer q.1 i' q.2) w' requests).1 := by
  refine (answers_simulates (R := fun _ w w' => w.Ranked ∧ w'.Ranked ∧ ∃ R, R i i' ∧ Alike R w w')
    (fun q _ w w' ⟨hw, hw', R, hi, h⟩ => ?_) ⟨hw, hw', R, hi, h⟩).1
  obtain ⟨hreply, R₁, hgrown, h₁⟩ := h.answer hw hw' hi q.1 q.2
  exact ⟨hreply, (w.answer_works_true q.1 i q.2).ranked hw, (w'.answer_works_true q.1 i' q.2).ranked hw', R₁,
    hgrown.old i i' hi, h₁⟩

/-! ### Exits and dropping -/

theorem Alike.exit (h : Alike R w w') (hw : w.Sound) (hw' : w'.Sound) (t : ThreadId) :
    Alike R ((w.beginExit t).finishExit t) ((w'.beginExit t).finishExit t) where
  sight? x x' hx u := by
    obtain ⟨s, s', hs, hs', hss'⟩ := h.sight? x x' hx u
    rw [hw.sight?_exit, hw'.sight?_exit, hs, hs']
    exact ⟨_, _, rfl, rfl, hss'.rebound .none t u⟩
  unique := h.unique
  running u := by
    by_cases hu : u = t
    · subst hu
      simp only [thread_finishExit, if_true, reduceCtorEq, exists_false]
    · rw [(shrinks_exit w t).thread u hu, (shrinks_exit w' t).thread u hu]
      exact h.running u

/-- What is dropped on one side is in the relation no more. -/
theorem Alike.dropUnreachable (h : Alike R w w') (roots : List CacheId) :
    Alike (fun x x' => R x x' ∧ x ∈ w.reachable roots) (w.dropUnreachable roots) w' where
  sight? x x' hx t := by
    obtain ⟨s, s', hs, hs', hss'⟩ := h.sight? x x' hx.1 t
    have hkept : (w.dropUnreachable roots).sight? t x = some s :=
      (sight?_congr ((instance?_dropUnreachable ..).trans (if_pos hx.2)) t).trans hs
    have hreach : ∀ y ∈ s.references, y ∈ w.reachable roots :=
      fun y hy => mem_reachable_of_reference hx.2 (mem_referencesOf hs hy)
    refine ⟨s, s', hkept, hs', ?_⟩
    cases hss' with
    | store contents => exact .store contents
    | perThread capacity? hmake hown =>
      refine .perThread capacity? hmake ?_
      cases hown with
      | none => exact .none
      | some hy => exact .some ⟨hy, hreach _ (Sight.mem_references_of_own? rfl)⟩
    | forwarding hy => exact .forwarding ⟨hy, hreach _ List.mem_cons_self⟩
  unique x x' y y' hx hy := h.unique x x' y y' hx.1 hy.1
  running := h.running

end Caching.Caches
