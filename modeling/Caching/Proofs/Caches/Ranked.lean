import Mathlib
import Caching.Proofs.Caches.Kept
import Caching.Proofs.Caches.Work

/-!
# Ranks fall along the way

Whatever an instance refers to exists, and the rank of the instance is one more than that of the instances behind
(`Ranked`).  This is so at the beginning and stays so: new instances are ranked when they are made, a request changes
no rank, and dropping leaves nothing dangling.  So the rank is enough steps for every request, and a request to an
instance never comes back to it.
-/

namespace Caching

namespace Factory

variable {κ : Type}

/-- Only the ranks of the instances matter that the factory refers to. -/
private theorem rank_congr {f : Factory κ} {g h : CacheId → Nat} (heq : ∀ x ∈ f.references, g x = h x) :
    f.rank g = f.rank h := by
  induction f with
  | bounded | striped => rfl
  | perThread make capacity? ih => exact congrArg (· + 1) (ih heq)
  | forwarding inner ih => exact congrArg (· + 1) (ih heq)
  | existing i => exact heq i List.mem_cons_self
  | counted counter make ih => exact ih heq

private theorem le_rank_of_mem_references {f : Factory κ} {g : CacheId → Nat} {x : CacheId} (hx : x ∈ f.references) :
    g x ≤ f.rank g := by
  induction f with
  | bounded | striped => cases hx
  | perThread make capacity? ih => exact Nat.le_succ_of_le (ih hx)
  | forwarding inner ih => exact Nat.le_succ_of_le (ih hx)
  | existing i =>
    obtain rfl := List.mem_singleton.1 hx
    exact Nat.le_refl _
  | counted counter make ih => exact ih hx

end Factory

namespace Caches

variable {κ υ : Type} [BEq κ] [Hashable κ] {w w' : Caches κ υ} {t : ThreadId} {i x : CacheId} {n : Nat}
  {r : Request κ υ} {S : CacheId → Prop}

/-- The instance exists. -/
def Has (w : Caches κ υ) (i : CacheId) : Prop := (w.instance? i).isSome

theorem has_iff_sight? (t : ThreadId) : w.Has i ↔ ∃ s, w.sight? t i = some s := by
  rw [Has, sight?, body?]
  cases w.instance? i <;> simp

theorem Has.lt_size (h : w.Has i) : i < w.instances.size := by
  obtain ⟨x, hx⟩ := Option.isSome_iff_exists.1 h
  exact lt_size_of_instance? hx

theorem has_congr (h : w'.instance? i = w.instance? i) : w'.Has i ↔ w.Has i := by
  rw [Has, Has, h]

/-- What the rank `n` of an instance has to do with the instances behind it. -/
def Sight.RankedIn (w : Caches κ υ) (n : Nat) : Sight κ υ → Prop
  | .store _ => True
  | .perThread make _ own? => (∀ x ∈ make.references, w.Has x) ∧ n = make.rank w.rank + 1 ∧
      ∀ y, own? = some y → w.Has y ∧ n = w.rank y + 1
  | .forwarding inner => w.Has inner ∧ n = w.rank inner + 1

def Ranked (w : Caches κ υ) : Prop := ∀ t i s, w.sight? t i = some s → s.RankedIn w (w.rank i)

private theorem Sight.RankedIn.reference {s : Sight κ υ} (h : s.RankedIn w n) (hx : x ∈ s.references) :
    w.Has x ∧ w.rank x < n := by
  cases s with
  | store => cases hx
  | perThread make capacity? own? =>
    obtain ⟨hhas, hn, hown⟩ := h
    rcases List.mem_append.1 hx with hx | hx
    · exact ⟨hhas x hx, hn ▸ Nat.lt_succ_of_le (Factory.le_rank_of_mem_references hx)⟩
    · obtain ⟨hy, hn⟩ := hown x (Option.mem_toList.1 hx)
      exact ⟨hy, hn ▸ Nat.lt_succ_self _⟩
  | forwarding inner =>
    obtain rfl := List.mem_singleton.1 hx
    exact ⟨h.1, h.2 ▸ Nat.lt_succ_self _⟩

/-- What an instance refers to exists and has a smaller rank. -/
theorem Ranked.reference (hw : w.Ranked) {s : Sight κ υ} (hs : w.sight? t i = some s) (hx : x ∈ s.references) :
    w.Has x ∧ w.rank x < w.rank i := (hw t i s hs).reference hx

/-- The rank of an instance stays right while those that it refers to keep theirs. -/
theorem Sight.RankedIn.mono {s : Sight κ υ} (h : s.RankedIn w n)
    (hold : ∀ x ∈ s.references, w.Has x → w'.Has x ∧ w'.rank x = w.rank x) : s.RankedIn w' n := by
  cases s with
  | store => trivial
  | perThread make capacity? own? =>
    obtain ⟨hhas, hn, hown⟩ := h
    have hmake : ∀ x ∈ make.references, w'.Has x ∧ w'.rank x = w.rank x :=
      fun x hx => hold x (List.mem_append_left _ hx) (hhas x hx)
    refine ⟨fun x hx => (hmake x hx).1, ?_, fun y hy => ?_⟩
    · rw [hn, Factory.rank_congr fun x hx => (hmake x hx).2]
    · obtain ⟨hy', hrank⟩ := hold y (List.mem_append_right _ (Option.mem_toList.2 hy)) (hown y hy).1
      exact ⟨hy', hrank ▸ (hown y hy).2⟩
  | forwarding inner =>
    obtain ⟨hi, hrank⟩ := hold inner List.mem_cons_self h.1
    exact ⟨hi, hrank ▸ h.2⟩

/-- The rank stays right with another instance for the thread, if that one has the right rank. -/
theorem Sight.RankedIn.sameKind {s s' : Sight κ υ} (h : s.RankedIn w n) (hkind : s.SameKind s')
    (hown : ∀ y, s'.own? = some y → s.own? = some y ∨ w.Has y ∧ n = w.rank y + 1) : s'.RankedIn w n := by
  cases s with
  | store =>
    cases s' with
    | store => trivial
    | perThread | forwarding => cases hkind
  | perThread make capacity? own? =>
    cases s' with
    | perThread make' capacity?' own?' =>
      obtain ⟨rfl, rfl⟩ := hkind
      exact ⟨h.1, h.2.1, fun y hy => (hown y hy).elim (h.2.2 y) id⟩
    | store | forwarding => cases hkind
  | forwarding inner =>
    cases s' with
    | forwarding inner' =>
      obtain rfl : inner = inner' := hkind
      exact h
    | store | perThread => cases hkind

theorem ranked_empty : (empty : Caches κ υ).Ranked := by
  intro t i s hs
  cases ((empty : Caches κ υ).sight?_of_size_le t (Nat.zero_le i)).symm.trans hs

/-! ### New instances -/

private theorem Extends.kept (h : w'.Extends w) (hx : w.Has x) : w'.Has x ∧ w'.rank x = w.rank x :=
  have hinst := h.instance? x hx.lt_size
  ⟨(has_congr hinst).2 hx, Caches.rank_congr hinst⟩

private theorem has_add (w : Caches κ υ) (n : Nat) (b : Body κ υ) : (w.add n b).2.Has (w.add n b).1 := by
  rw [Has, instance?_add]
  exact congrArg Option.isSome (if_pos rfl)

private theorem Ranked.add (hw : w.Ranked) {b : Body κ υ} (hb : ∀ t, (b.sight t).RankedIn w n) :
    (w.add n b).2.Ranked := by
  intro t i s hs
  have hext := extends_add w n b
  by_cases hi : i = w.instances.size
  · rw [sight?_add, if_pos hi] at hs
    obtain rfl := Option.some.inj hs
    have hrank : (w.add n b).2.rank i = n := hi ▸ rank_add w n b
    rw [hrank]
    exact (hb t).mono fun x _ hx => hext.kept hx
  · rw [sight?_add, if_neg hi] at hs
    rw [Caches.rank_congr (hext.instance? i (lt_size_of_sight? hs))]
    exact (hw t i s hs).mono fun x _ hx => hext.kept hx

/-- What a factory makes is ranked, if what it refers to exists. -/
theorem Ranked.make (hw : w.Ranked) {f : Factory κ} (hf : ∀ x ∈ f.references, w.Has x) :
    (w.make f).2.Ranked ∧ (w.make f).2.Has (w.make f).1 := by
  induction f generalizing w with
  | bounded policy capacity => cases policy <;> exact ⟨hw.add fun _ => trivial, has_add ..⟩
  | striped striping hash => exact ⟨hw.add fun _ => trivial, has_add ..⟩
  | perThread make capacity? =>
    refine ⟨hw.add fun t => ⟨hf, rfl, fun y hy => ?_⟩, has_add ..⟩
    cases Std.HashMap.getElem?_empty.symm.trans hy
  | forwarding inner ih =>
    obtain ⟨hinner, hhas⟩ := ih hw hf
    exact ⟨hinner.add fun t => ⟨hhas, rfl⟩, has_add ..⟩
  | existing i => exact ⟨hw, hf i List.mem_cons_self⟩
  | counted counter make ih => exact ih (w := { w with built := _ }) hw hf

/-! ### Requests -/

/-- The rank suffices for the way through a thread's own instance, also if that is made now. -/
theorem Ranked.rank_eq {make : Factory κ} {capacity? : Option Nat} {own? : Option CacheId} (hw : w.Ranked)
    (hs : w.sight? t i = some (.perThread make capacity? own?)) :
    w.rank i = (w.ownInstance t i make).2.rank (w.ownInstance t i make).1 + 1 := by
  obtain ⟨-, hrank, hown⟩ := hw t i _ hs
  have hbound := bound?_of_sight? hs
  cases own? with
  | some inner =>
    rw [ownInstance_of_bound hbound]
    exact (hown inner rfl).2
  | none =>
    by_cases hrun : ∃ releases, w.thread t = .running releases
    · obtain ⟨releases, hrel⟩ := hrun
      obtain ⟨w', hown, hre, -⟩ := ownInstance_of_running hbound hrel make
      rw [hown, hre.rank, rank_make, hrank]
    · rw [ownInstance_of_not_running hbound fun releases h => hrun ⟨releases, h⟩, rank_make, hrank]

theorem Reshapes.has_iff {f : ThreadId → Sight κ υ → Sight κ υ} (h : w.Reshapes w' i f) : w'.Has x ↔ w.Has x := by
  simp only [has_iff_sight? 0, h.sight?]
  split
  · cases w.sight? 0 x <;> simp
  · rfl

private theorem Reshapes.kept {f : ThreadId → Sight κ υ → Sight κ υ} (h : w.Reshapes w' i f) (hx : w.Has x) :
    w'.Has x ∧ w'.rank x = w.rank x := ⟨h.has_iff.2 hx, h.rank x⟩

/-- An instance may get another content, and another instance for a thread if it fits the rank. -/
private theorem Reshapes.ranked {f : ThreadId → Sight κ υ → Sight κ υ} (h : w.Reshapes w' i f) (hw : w.Ranked)
    (hf : ∀ t s, w.sight? t i = some s → s.SameKind (f t s) ∧
      ∀ y, (f t s).own? = some y → s.own? = some y ∨ w.Has y ∧ w.rank i = w.rank y + 1) : w'.Ranked := by
  intro t j s' hs'
  rw [h.rank]
  rw [h.sight?] at hs'
  by_cases hij : i = j
  · subst hij
    rw [if_pos rfl] at hs'
    obtain ⟨s, hs, rfl⟩ := Option.map_eq_some_iff.1 hs'
    refine Sight.RankedIn.mono (w := w) ?_ fun x _ hx => h.kept hx
    exact (hw t i s hs).sameKind (hf t s hs).1 (hf t s hs).2
  · rw [if_neg hij] at hs'
    exact (hw t j s' hs').mono fun x _ hx => h.kept hx

theorem Touch.ranked (h : Touch r t i w w') (hw : w.Ranked) : w'.Ranked := by
  obtain ⟨w₁, f, hre, hmade, hkind, hown⟩ := h.reshapes
  have hsame : ∀ t', w₁.sight? t' i = w.sight? t' i := fun t' =>
    sight?_congr ((extends_of_made hmade).instance? i h.lt_size) t'
  have hw₁ : w₁.Ranked := by
    obtain rfl | ⟨make, capacity?, hs, rfl⟩ := hmade
    · exact hw
    · exact (hw.make (hw t i _ hs).1).1
  refine hre.ranked hw₁ fun t' s hs => ?_
  rw [hsame] at hs
  obtain ⟨hk, hothers⟩ := hkind t' s hs
  refine ⟨hk, fun y hy => ?_⟩
  by_cases ht : t' = t
  · subst ht
    refine (hown s y hy).imp_right ?_
    rintro ⟨make, capacity?, hmake, rfl, rfl, -⟩
    obtain ⟨hhas, hn, -⟩ := hw t' i _ hmake
    refine ⟨(hw.make hhas).2, ?_⟩
    rw [rank_make, ← hn]
    exact Caches.rank_congr ((make_makes w make).extends_old.instance? i h.lt_size)
  · exact Or.inl (by rw [← hothers ht, hy])

theorem Works.ranked (h : Works r t S w w') (hw : w.Ranked) : w'.Ranked :=
  h.induct (fun _ _ _ _ htouch => htouch.ranked) hw

/-! ### Dropping -/

theorem Ranked.dropUnreachable (hw : w.Ranked) (roots : List CacheId) : (w.dropUnreachable roots).Ranked := by
  intro t i s hs
  obtain ⟨hi, hs'⟩ := sight?_of_dropUnreachable hs
  have hrank : (w.dropUnreachable roots).rank i = w.rank i :=
    Caches.rank_congr (by rw [instance?_dropUnreachable, if_pos hi])
  rw [hrank]
  refine (hw t i s hs').mono fun x hx hhas => ?_
  have hkept := dropUnreachable_kept hs hx
  exact ⟨(has_congr hkept).2 hhas, Caches.rank_congr hkept⟩

/-! ### What lies below an instance -/

/-- The instances of smaller rank lead to no other, and neither do the new ones. -/
theorem Ranked.closed_below (hw : w.Ranked) (t : ThreadId) (n : Nat) :
    w.Closed t fun j => w.instances.size ≤ j ∨ w.rank j < n where
  new j hj := Or.inl hj
  seen j s hj hs x hx := by
    refine Or.inr (Nat.lt_trans (hw.reference hs hx).2 (hj.resolve_left fun h => ?_))
    exact absurd (lt_size_of_sight? hs) (Nat.not_lt.2 h)

/-- Work at an instance leaves those above it as they are. -/
theorem Ranked.sight?_answer (hw : w.Ranked) (hij : w.rank j < w.rank i) (hi : w.Has i) (t t' : ThreadId)
    (r : Request κ υ) : (w.answer t j r).2.sight? t' i = w.sight? t' i := by
  refine (answer_works (hw.closed_below t (w.rank i)) (Or.inr hij) r).sight?_of_not_mem hi.lt_size ?_ t'
  exact fun h => h.elim (fun h => absurd hi.lt_size (Nat.not_lt.2 h)) (Nat.lt_irrefl _)

end Caches

end Caching
