import Mathlib
import Caching.Caches.Reachable
import Caching.Proofs.Caches.Sight

/-!
# Dropping leaves nothing dangling

The marking goes on in rounds until a round marks nothing new.  A round after which there is anything to look at next
has marked an instance that exists, and there are only so many, so the rounds suffice: with an instance all are marked
that it refers to (`mem_reachable_of_reference`).  So what is kept finds everything it refers to
(`dropUnreachable_kept`).
-/

namespace Caching.Caches

variable {κ υ : Type} [BEq κ] [Hashable κ] {w : Caches κ υ} {i x : CacheId} {t : ThreadId}

/-- The instances that an instance refers to, if it exists. -/
def referencesOf (w : Caches κ υ) (i : CacheId) : List CacheId := ((w.body? i).map Body.references).getD []

private theorem referencesOf_of_size_le (h : w.instances.size ≤ i) : w.referencesOf i = [] := by
  rw [referencesOf, body?, instance?, Array.getElem?_eq_none h]
  rfl

/-- Whatever a thread sees in an instance is referred to by it. -/
theorem mem_referencesOf {s : Sight κ υ} (hs : w.sight? t i = some s) (hx : x ∈ s.references) :
    x ∈ w.referencesOf i := by
  obtain ⟨b, hb, rfl⟩ := Option.map_eq_some_iff.1 hs
  rw [referencesOf, hb]
  cases b with
  | store => exact hx
  | forwarding => exact hx
  | perThread make capacity? bindings =>
    refine (List.mem_append.1 hx).elim (fun hx => List.mem_append_left _ hx) fun hx => List.mem_append_right _ ?_
    have hown := Option.mem_toList.1 hx
    exact List.mem_map.2 ⟨(t, x), Std.HashMap.mem_toList_iff_getElem?_eq_some.2 hown, rfl⟩

/-! ### One round -/

/-- A round marks what it is given, and lists what was not marked. -/
private theorem mark_foldl (ids : List CacheId) (p : Std.HashSet CacheId × List CacheId) (x : CacheId) :
    let p' := ids.foldl (fun p i => if i ∈ p.1 then p else (p.1.insert i, i :: p.2)) p
    (x ∈ p'.1 ↔ x ∈ p.1 ∨ x ∈ ids) ∧ (x ∈ p'.2 ↔ x ∈ p.2 ∨ x ∈ ids ∧ x ∉ p.1) := by
  induction ids generalizing p with
  | nil => simp
  | cons i ids ih =>
    have hrest := ih (if i ∈ p.1 then p else (p.1.insert i, i :: p.2))
    simp only [List.foldl_cons] at hrest ⊢
    rw [hrest.1, hrest.2]
    by_cases hi : i ∈ p.1
    · simp only [hi, if_true, List.mem_cons]
      refine ⟨⟨fun h => h.imp_right Or.inr, fun h => ?_⟩,
        or_congr_right ⟨fun h => ⟨Or.inr h.1, h.2⟩, fun h => ⟨?_, h.2⟩⟩⟩
      · rcases h with h | rfl | h
        exacts [Or.inl h, Or.inl hi, Or.inr h]
      · exact h.1.resolve_left fun hxi => h.2 (hxi ▸ hi)
    · simp only [hi, if_false, List.mem_cons, Std.HashSet.mem_insert, beq_iff_eq]
      by_cases hxi : x = i
      · subst hxi
        simp [hi]
      · simp [hxi, Ne.symm hxi]

private theorem mem_mark (marked : Std.HashSet CacheId) (ids : List CacheId) (x : CacheId) :
    x ∈ (mark marked ids).1 ↔ x ∈ marked ∨ x ∈ ids := (mark_foldl ids (marked, []) x).1

private theorem mem_mark_new (marked : Std.HashSet CacheId) (ids : List CacheId) (x : CacheId) :
    x ∈ (mark marked ids).2 ↔ x ∈ ids ∧ x ∉ marked :=
  (mark_foldl ids (marked, []) x).2.trans (by simp)

/-! ### All rounds -/

/-- How many instances are not marked. -/
def unmarked (w : Caches κ υ) (marked : Std.HashSet CacheId) : Nat :=
  ((Finset.range w.instances.size).filter (· ∉ marked)).card

/-- Marking an instance leaves fewer unmarked. -/
private theorem unmarked_lt {marked marked' : Std.HashSet CacheId} (hsub : ∀ x ∈ marked, x ∈ marked')
    (hi : i < w.instances.size) (hold : i ∉ marked) (hnew : i ∈ marked') : w.unmarked marked' < w.unmarked marked := by
  refine Finset.card_lt_card ⟨fun x hx => ?_, fun hle => ?_⟩
  · obtain ⟨hlt, hx⟩ := Finset.mem_filter.1 hx
    exact Finset.mem_filter.2 ⟨hlt, fun h => hx (hsub x h)⟩
  · exact (Finset.mem_filter.1 (hle (Finset.mem_filter.2 ⟨Finset.mem_range.2 hi, hold⟩))).2 hnew

/-- Invariant of the rounds: what a marked instance refers to is marked, or is looked at next; and there are more
rounds left than unmarked instances, unless there is nothing to look at. -/
private theorem reachableWithin_closed (fuel : Nat) (marked : Std.HashSet CacheId) (next : List CacheId)
    (hclosed : ∀ i ∈ marked, ∀ x ∈ w.referencesOf i, x ∈ marked ∨ x ∈ next)
    (hfuel : w.unmarked marked < fuel ∨ next = []) :
    ∀ i ∈ w.reachableWithin fuel marked next, ∀ x ∈ w.referencesOf i, x ∈ w.reachableWithin fuel marked next := by
  induction fuel generalizing marked next with
  | zero =>
    obtain rfl := hfuel.resolve_left (Nat.not_lt_zero _)
    exact fun i hi x hx => (hclosed i hi x hx).resolve_right List.not_mem_nil
  | succ fuel ih =>
    have hmark := mem_mark marked next
    have hnew := mem_mark_new marked next
    rw [reachableWithin]
    generalize mark marked next = result at hmark hnew ⊢
    obtain ⟨marked', new⟩ := result
    dsimp only at hmark hnew
    cases new with
    | nil =>
      intro i hi x hx
      have hi' : i ∈ marked := by
        refine ((hmark i).1 hi).elim id fun hnext => ?_
        by_contra hnot
        exact List.not_mem_nil ((hnew i).2 ⟨hnext, hnot⟩)
      exact (hmark x).2 (hclosed i hi' x hx)
    | cons first rest =>
      refine ih marked' _ ?_ ?_
      · intro i hi x hx
        by_cases hold : i ∈ marked
        · exact Or.inl ((hmark x).2 (hclosed i hold x hx))
        · have hnext : i ∈ next := ((hmark i).1 hi).resolve_left hold
          exact Or.inr (List.mem_flatMap.2 ⟨i, (hnew i).2 ⟨hnext, hold⟩, hx⟩)
      · by_cases hex : ∃ i ∈ first :: rest, i < w.instances.size
        · obtain ⟨i, hi, hlt⟩ := hex
          obtain ⟨hnext, hold⟩ := (hnew i).1 hi
          have hdrop := unmarked_lt (w := w) (fun x hx => (hmark x).2 (Or.inl hx)) hlt hold ((hmark i).2 (Or.inr hnext))
          have hne : next ≠ [] := fun h => List.not_mem_nil (h ▸ hnext)
          have := hfuel.resolve_right hne
          exact Or.inl (by omega)
        · -- what does not exist refers to nothing
          refine Or.inr (List.flatMap_eq_nil_iff.2 fun i hi => ?_)
          exact referencesOf_of_size_le (Nat.le_of_not_lt fun hlt => hex ⟨i, hi, hlt⟩)

theorem mem_reachable_of_reference {roots : List CacheId} (hi : i ∈ w.reachable roots) (hx : x ∈ w.referencesOf i) :
    x ∈ w.reachable roots := by
  refine reachableWithin_closed _ {} roots (fun i hi => absurd hi Std.HashSet.not_mem_empty) (Or.inl ?_) i hi x hx
  exact Nat.lt_succ_of_le ((Finset.card_filter_le _ _).trans (Finset.card_range _).le)

private theorem mem_reachableWithin_of_mem (fuel : Nat) {marked : Std.HashSet CacheId} (next : List CacheId)
    (h : x ∈ marked) : x ∈ w.reachableWithin fuel marked next := by
  induction fuel generalizing marked next with
  | zero => exact h
  | succ fuel ih =>
    have hmark := (mem_mark marked next x).2 (Or.inl h)
    rw [reachableWithin]
    split
    · next heq => simpa [heq] using hmark
    · next heq =>
      rw [heq] at hmark
      exact ih _ hmark

/-- What is referred to from outside is in use. -/
theorem mem_reachable_of_mem {roots : List CacheId} (h : x ∈ roots) : x ∈ w.reachable roots := by
  have hmark := (mem_mark {} roots x).2 (Or.inr h)
  rw [reachable, reachableWithin]
  split
  · next heq => simpa [heq] using hmark
  · next heq =>
    rw [heq] at hmark
    exact mem_reachableWithin_of_mem _ _ hmark

/-! ### Dropping -/

theorem instance?_dropUnreachable (w : Caches κ υ) (roots : List CacheId) (i : CacheId) :
    (w.dropUnreachable roots).instance? i = if i ∈ w.reachable roots then w.instance? i else none := by
  rw [instance?, instance?, dropUnreachable, Array.getElem?_mapIdx]
  cases w.instances[i]? with
  | none => simp
  | some x? =>
    cases x? with
    | none => simp
    | some x =>
      by_cases h : i ∈ w.reachable roots
      · simp [h, Option.filter]
      · simp [h, Option.filter]

theorem size_dropUnreachable (w : Caches κ υ) (roots : List CacheId) :
    (w.dropUnreachable roots).instances.size = w.instances.size := Array.size_mapIdx

/-- An instance that is kept is as it was. -/
theorem sight?_of_dropUnreachable {roots : List CacheId} {s : Sight κ υ}
    (hs : (w.dropUnreachable roots).sight? t i = some s) : i ∈ w.reachable roots ∧ w.sight? t i = some s := by
  rw [sight?, body?, instance?_dropUnreachable] at hs
  split at hs
  · next hi => exact ⟨hi, hs⟩
  · cases hs

/-- What a kept instance refers to is kept. -/
theorem dropUnreachable_kept {roots : List CacheId} {s : Sight κ υ}
    (hs : (w.dropUnreachable roots).sight? t i = some s) (hx : x ∈ s.references) :
    (w.dropUnreachable roots).instance? x = w.instance? x := by
  obtain ⟨hi, hs⟩ := sight?_of_dropUnreachable hs
  rw [instance?_dropUnreachable, if_pos (mem_reachable_of_reference hi (mem_referencesOf hs hx))]

end Caching.Caches
