import Mathlib
import Caching.Proofs.Caches.Ranked

/-!
# Giving instances up

Detaching, releasing and exiting do one thing: they take instances from one thread (`Shrinks`).  What every instance
is, its rank and its kind, what the other threads have and what was counted stay as they were.
-/

namespace Caching.Caches

variable {κ υ : Type} [BEq κ] [Hashable κ] {w w' : Caches κ υ} {t u : ThreadId} {i x : CacheId}

/-- Everything is as it was, but that a thread may have lost instances. -/
structure Shrinks (t : ThreadId) (w w' : Caches κ υ) : Prop where
  size_eq : w'.instances.size = w.instances.size
  rank : ∀ i, w'.rank i = w.rank i
  sight? : ∀ u i, ∃ f : Sight κ υ → Sight κ υ, w'.sight? u i = (w.sight? u i).map f ∧
    ∀ s, s.SameKind (f s) ∧ (∀ x, (f s).own? = some x → s.own? = some x) ∧ (u ≠ t → f s = s)
  thread : ∀ u, u ≠ t → w'.thread u = w.thread u
  builtCount : ∀ counter, w'.builtCount counter = w.builtCount counter

theorem Shrinks.refl (w : Caches κ υ) (t : ThreadId) : Shrinks t w w where
  size_eq := rfl
  rank _ := rfl
  sight? _ _ := ⟨id, by rw [Option.map_id, id], fun s => ⟨.refl s, fun _ h => h, fun _ => rfl⟩⟩
  thread _ _ := rfl
  builtCount _ := rfl

theorem Shrinks.trans {a b c : Caches κ υ} (hab : Shrinks t a b) (hbc : Shrinks t b c) : Shrinks t a c where
  size_eq := hbc.size_eq.trans hab.size_eq
  rank i := (hbc.rank i).trans (hab.rank i)
  sight? u i := by
    obtain ⟨f, hf, hf'⟩ := hab.sight? u i
    obtain ⟨g, hg, hg'⟩ := hbc.sight? u i
    refine ⟨g ∘ f, by rw [hg, hf, Option.map_map], fun s => ⟨(hf' s).1.trans (hg' _).1, fun x hx => ?_, fun hu => ?_⟩⟩
    · exact (hf' s).2.1 x ((hg' _).2.1 x hx)
    · rw [Function.comp, (hf' s).2.2 hu, (hg' s).2.2 hu]
  thread u hu := (hbc.thread u hu).trans (hab.thread u hu)
  builtCount counter := (hbc.builtCount counter).trans (hab.builtCount counter)

/-! ### What stays -/

/-- What a thread sees comes from what it saw: the same kind of instance, and no other instance of its own. -/
theorem Shrinks.was (h : Shrinks t w w') {s' : Sight κ υ} (hs' : w'.sight? u i = some s') :
    ∃ s, w.sight? u i = some s ∧ s.SameKind s' ∧ ∀ x, s'.own? = some x → s.own? = some x := by
  obtain ⟨f, hf, hf'⟩ := h.sight? u i
  rw [hf] at hs'
  obtain ⟨s, hs, rfl⟩ := Option.map_eq_some_iff.1 hs'
  exact ⟨s, hs, (hf' s).1, (hf' s).2.1⟩

theorem Shrinks.kept (h : Shrinks t w w') {s : Sight κ υ} (hs : w.sight? u i = some s) :
    ∃ s', w'.sight? u i = some s' ∧ s.SameKind s' ∧ (u ≠ t → s' = s) := by
  obtain ⟨f, hf, hf'⟩ := h.sight? u i
  exact ⟨f s, by rw [hf, hs, Option.map_some], (hf' s).1, (hf' s).2.2⟩

theorem Shrinks.has_iff (h : Shrinks t w w') : w'.Has i ↔ w.Has i := by
  rw [has_iff_sight? 0, has_iff_sight? 0]
  constructor
  · rintro ⟨s', hs'⟩
    obtain ⟨s, hs, -⟩ := h.was hs'
    exact ⟨s, hs⟩
  · rintro ⟨s, hs⟩
    obtain ⟨s', hs', -⟩ := h.kept hs
    exact ⟨s', hs'⟩

theorem Shrinks.bound? (h : Shrinks t w w') (hx : w'.bound? u i = some x) : w.bound? u i = some x := by
  rw [bound?_eq] at hx ⊢
  obtain ⟨s', hs', hown'⟩ := Option.bind_eq_some_iff.1 hx
  obtain ⟨s, hs, -, hown⟩ := h.was hs'
  rw [hs]
  exact hown x hown'

theorem Shrinks.ranked (h : Shrinks t w w') (hw : w.Ranked) : w'.Ranked := by
  intro u i s' hs'
  obtain ⟨s, hs, hkind, hown⟩ := h.was hs'
  rw [h.rank]
  exact ((hw u i s hs).sameKind hkind fun y hy => Or.inl (hown y hy)).mono fun x _ hx => ⟨h.has_iff.2 hx, h.rank x⟩

/-- Who loses all instances is left with none, and everything else is seen as before. -/
theorem Shrinks.sight?_eq (h : Shrinks t w w') (hnone : ∀ i, w'.bound? t i = none) (u : ThreadId) (i : CacheId) :
    w'.sight? u i = (w.sight? u i).map (Sight.rebound t none u) := by
  obtain ⟨f, hf, hf'⟩ := h.sight? u i
  rw [hf]
  refine Option.map_congr fun s hs => ?_
  by_cases hu : u = t
  · subst hu
    have hs' : w'.sight? u i = some (f s) := by rw [hf, hs, Option.map_some]
    have hkind := (hf' s).1
    have hown : (f s).own? = none := by rw [← hnone i, bound?_eq, hs', Option.bind_some]
    rw [Sight.rebound_self]
    cases s with
    | store contents =>
      -- a store is the same for every thread, and another thread sees it unchanged
      obtain ⟨s₁, hs₁, -, hsame⟩ := h.kept (sight?_of_body? (body?_of_sight?_store hs) (u + 1))
      rw [hsame (Nat.succ_ne_self u)] at hs₁
      exact Option.some.inj (hs'.symm.trans (sight?_of_body? (body?_of_sight?_store hs₁) u))
    | perThread | forwarding => cases hfs : f _ <;> simp_all [Sight.SameKind, Sight.setOwn, Sight.own?]
  · rw [(hf' s).2.2 hu, Sight.rebound_of_ne hu]

/-! ### What gives instances up -/

/-- Where the thread itself stands does not matter. -/
private theorem Shrinks.setThread (h : Shrinks t w w') (x : Thread) : Shrinks t w (w'.setThread t x) :=
  ⟨h.size_eq, h.rank, h.sight?,
    fun u hu => (thread_setThread ..).trans ((if_neg hu.symm).trans (h.thread u hu)), h.builtCount⟩

private theorem shrinks_unbind (w : Caches κ υ) (t : ThreadId) (i : CacheId) : Shrinks t w (w.unbind t i) := by
  have hre := reshapes_unbind w t i
  refine ⟨hre.size_eq, hre.rank, fun u j => ?_, fun u _ => thread_congr (threads_unbind w t i) u, fun counter => ?_⟩
  · rw [hre.sight?]
    split
    · refine ⟨_, rfl, fun s => ⟨s.rebound_sameKind .., fun x hx => ?_, fun hu => Sight.rebound_of_ne hu ..⟩⟩
      by_cases hu : u = t
      · rw [hu, Sight.rebound_self] at hx
        cases Sight.own?_setOwn hx
      · rwa [Sight.rebound_of_ne hu] at hx
    · exact (Shrinks.refl w t).sight? u j
  · rw [unbind]
    split <;> rfl

theorem shrinks_detach (w : Caches κ υ) (t : ThreadId) (i : CacheId) : Shrinks t w (w.detach t i).2 := by
  have h := shrinks_unbind w t i
  rw [detach]
  split
  · exact .refl w t
  · exact ⟨h.size_eq, h.rank, h.sight?, h.thread, h.builtCount⟩

private theorem shrinks_release (w : Caches κ υ) (t : ThreadId) (releases : List CacheId) :
    Shrinks t w (w.release t releases) := by
  induction releases generalizing w with
  | nil => exact .refl w t
  | cons i releases ih => exact (shrinks_unbind w t i).trans (ih _)

theorem shrinks_beginExit (w : Caches κ υ) (t : ThreadId) : Shrinks t w (w.beginExit t) := by
  rw [beginExit]
  split
  · exact (shrinks_release w t _).setThread _
  · exact .refl w t

theorem shrinks_finishExit (w : Caches κ υ) (t : ThreadId) : Shrinks t w (w.finishExit t) := by
  rw [finishExit]
  split
  · exact (shrinks_release w t _).setThread _
  · exact (Shrinks.refl w t).setThread _

/-- The exit of a thread. -/
theorem shrinks_exit (w : Caches κ υ) (t : ThreadId) : Shrinks t w ((w.beginExit t).finishExit t) :=
  (shrinks_beginExit w t).trans (shrinks_finishExit _ t)

end Caching.Caches
