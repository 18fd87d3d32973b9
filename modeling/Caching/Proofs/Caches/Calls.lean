import Mathlib
import Caching.Proofs.Caches.Shrinks

/-!
# How often a constructor is called

Where the calls of one constructor are counted under a name of its own, the count goes up at the per-thread cache with
this constructor and nowhere else: by one for each write of a thread without an instance (`builtCount_answer_root`).
Where no constructor is counted under a name, no request is, and a factory that is called is counted as often as it says
itself (`builtCount_make`).
-/

namespace Caching

/-- How often a call of the factory is counted under a name. -/
def Factory.tally {κ : Type} (counter : String) : Factory κ → Nat
  | .bounded .. | .striped .. | .perThread .. | .existing _ => 0
  | .forwarding inner => inner.tally counter
  | .counted counter' make => make.tally counter + if counter' = counter then 1 else 0

namespace Caches

variable {κ υ : Type} [BEq κ] [Hashable κ] {w w' : Caches κ υ} {t : ThreadId} {i j root : CacheId}
  {r : Request κ υ} {S : CacheId → Prop} {make inner : Factory κ} {capacity? : Option Nat} {own? : Option CacheId}
  {counter : String}

/-- Only the constructor of `root` is counted under the name, and it makes nothing whose constructor is. -/
def CountsAt (w : Caches κ υ) (counter : String) (root : CacheId) : Prop :=
  ∀ t i make capacity? own?, w.sight? t i = some (.perThread make capacity? own?) →
    (∀ part ∈ make.parts, counter ∉ part.counters) ∧ (i ≠ root → counter ∉ make.counters)

private theorem Touch.countsAt (h : Touch r t i w w') (hc : w.CountsAt counter root) : w'.CountsAt counter root := by
  intro u j make' capacity?' own?' hs'
  rcases Nat.lt_or_ge j w.instances.size with hj | hj
  · obtain ⟨s, hs, hkind, -⟩ := h.was hj hs'
    cases s with
    | perThread make capacity? own? =>
      obtain ⟨rfl, rfl⟩ := hkind
      exact hc u j _ _ _ hs
    | store | forwarding => cases hkind
  · -- a new cache was made by a part of a constructor that counts nothing
    obtain ⟨-, make, capacity?, hs, -, hparts⟩ := h.new hj hs'
    have hmem := hparts make' capacity?' own?' rfl
    have hnot := (hc t i make capacity? none hs).1 make' hmem
    refine ⟨fun part hpart hmem' => hnot (Factory.counters_of_mem_parts hpart hmem'), fun _ => hnot⟩

theorem Shrinks.countsAt (h : Shrinks t w w') (hc : w.CountsAt counter root) : w'.CountsAt counter root := by
  intro u j make capacity? own? hs'
  obtain ⟨s, hs, hkind, -⟩ := h.was hs'
  cases s with
  | perThread make' capacity?' own?' =>
    obtain ⟨rfl, rfl⟩ := hkind
    exact hc u j _ _ _ hs
  | store | forwarding => cases hkind

theorem Works.countsAt (h : Works r t S w w') (hc : w.CountsAt counter root) : w'.CountsAt counter root :=
  h.induct (P := fun w' => w'.CountsAt counter root) (fun _ _ _ _ htouch => htouch.countsAt) hc

/-- What is counted when a thread's own instance is made. -/
private theorem builtCount_ownInstance (h : w.bound? t i = none) (make : Factory κ) (counter : String) :
    (w.ownInstance t i make).2.builtCount counter = (w.make make).2.builtCount counter := by
  by_cases hrun : ∃ releases, w.thread t = .running releases
  · obtain ⟨releases, hrel⟩ := hrun
    obtain ⟨w', hown, -, -, hbuilt⟩ := ownInstance_of_running h hrel make
    rw [hown, hbuilt]
  · rw [ownInstance_of_not_running h fun releases h => hrun ⟨releases, h⟩]

/-- A change elsewhere is not counted. -/
private theorem Touch.builtCount (h : Touch r t i w w') (hc : w.CountsAt counter root) (hi : i ≠ root) :
    w'.builtCount counter = w.builtCount counter := by
  cases h with
  | store hs s' evicted? => exact builtCount_emitEviction ..
  | own hr hs =>
    rw [builtCount_ownInstance (bound?_of_sight? hs)]
    exact builtCount_make_of_not_mem ((hc t i _ _ _ hs).2 hi) w
  | detach => exact (shrinks_detach w t i).builtCount counter

/-- Neither is work that does not come to the root. -/
theorem Works.builtCount (h : Works r t S w w') (hS : ¬ S root) (hc : w.CountsAt counter root) :
    w'.builtCount counter = w.builtCount counter :=
  (h.induct (P := fun w' => w'.builtCount counter = w.builtCount counter ∧ w'.CountsAt counter root)
    (fun _ _ _ hi htouch ⟨hbuilt, hc₁⟩ =>
      ⟨(htouch.builtCount hc₁ fun h => hS (h ▸ hi)).trans hbuilt, htouch.countsAt hc₁⟩) ⟨rfl, hc⟩).1

/-- So a request to an instance below the root is not counted. -/
private theorem Ranked.builtCount_answer (hw : w.Ranked) (hij : w.rank i < w.rank root)
    (hroot : root < w.instances.size) (hc : w.CountsAt counter root) (t : ThreadId) (r : Request κ υ) :
    (w.answer t i r).2.builtCount counter = w.builtCount counter := by
  refine (answer_works (hw.closed_below t (w.rank root)) (Or.inr hij) r).builtCount ?_ hc
  exact fun h => h.elim (fun h => absurd hroot (Nat.not_lt.2 h)) (Nat.lt_irrefl _)

/-- A request to the root is counted once, if it is a write and the thread has no instance. -/
theorem builtCount_answer_root (hw : w.Ranked) (hc : w.CountsAt counter root)
    (hs : w.sight? t root = some (.perThread (.counted counter inner) capacity? own?))
    (hinner : counter ∉ inner.counters) (r : Request κ υ) :
    (w.answer t root r).2.builtCount counter =
      w.builtCount counter + if own? = none ∧ r.IsWrite then 1 else 0 := by
  have hroot := lt_size_of_sight? hs
  have hrank := hw.rank_eq hs
  cases own? with
  | some own =>
    have hown := ownInstance_of_bound (bound?_of_sight? hs) (.counted counter inner)
    rw [hown] at hrank
    have hlt : w.rank own < w.rank root := hrank ▸ Nat.lt_succ_self _
    simp only [reduceCtorEq, false_and, if_false, Nat.add_zero]
    by_cases hr : r = .clear
    · subst hr
      have hsh := shrinks_detach w t root
      rw [answer_clear_of_bound hs hrank]
      refine ((hsh.ranked hw).builtCount_answer ?_ (hsh.size_eq ▸ hroot) (hsh.countsAt hc) t .clear).trans
        (hsh.builtCount counter)
      rw [hsh.rank, hsh.rank]
      exact hlt
    · rw [answer_of_bound hs hrank hr]
      exact hw.builtCount_answer hlt hroot hc t r
  | none =>
    by_cases hr : r.IsWrite
    · have htouch := Touch.own hr hs
      rw [answer_of_write hs hrank hr, if_pos ⟨rfl, hr⟩, ← builtCount_make_counted hinner w,
        ← builtCount_ownInstance (bound?_of_sight? hs) (.counted counter inner)]
      refine (htouch.ranked hw).builtCount_answer ?_ (Nat.lt_of_lt_of_le hroot htouch.size_le)
        (htouch.countsAt hc) t r
      rw [htouch.rank hroot, hrank]
      exact Nat.lt_succ_self _
    · rw [answer_of_unbound hs hr, if_neg fun h => hr h.2]
      rfl

/-! ### Where no constructor is counted -/

/-- No constructor of a per-thread cache counts under the name. -/
def Uncounted (w : Caches κ υ) (counter : String) : Prop :=
  ∀ t i make capacity? own?, w.sight? t i = some (.perThread make capacity? own?) → counter ∉ make.counters

private theorem uncounted_iff : w.Uncounted counter ↔ ∀ root, w.CountsAt counter root := by
  refine ⟨fun h root t i make capacity? own? hs => ⟨fun part hpart hmem => ?_, fun _ => h t i _ _ _ hs⟩,
    fun h t i make capacity? own? hs => (h (i + 1) t i make capacity? own? hs).2 (Nat.ne_of_lt i.lt_succ_self)⟩
  exact h t i _ _ _ hs (Factory.counters_of_mem_parts hpart hmem)

theorem Works.uncounted (h : Works r t S w w') (hc : w.Uncounted counter) : w'.Uncounted counter :=
  uncounted_iff.2 fun root => h.countsAt (uncounted_iff.1 hc root)

theorem Works.builtCount_of_uncounted (h : Works r t S w w') (hc : w.Uncounted counter) :
    w'.builtCount counter = w.builtCount counter :=
  (h.induct (P := fun w' => w'.builtCount counter = w.builtCount counter ∧ w'.Uncounted counter)
    (fun _ _ i hi htouch ⟨hbuilt, hc₁⟩ =>
      ⟨(htouch.builtCount (uncounted_iff.1 hc₁ (i + 1)) (Nat.ne_of_lt i.lt_succ_self)).trans hbuilt,
        (htouch.works hi).uncounted hc₁⟩) ⟨rfl, hc⟩).1

theorem Shrinks.uncounted (h : Shrinks t w w') (hc : w.Uncounted counter) : w'.Uncounted counter :=
  uncounted_iff.2 fun root => h.countsAt (uncounted_iff.1 hc root)

theorem uncounted_make (hc : w.Uncounted counter) {f : Factory κ} (hf : ∀ part ∈ f.parts, counter ∉ part.counters) :
    (w.make f).2.Uncounted counter := by
  intro t i make capacity? own? hs
  have hm := make_makes w f
  rcases Nat.lt_or_ge i w.instances.size with hi | hi
  · rw [sight?_congr (hm.extends_old.instance? i hi)] at hs
    exact hc t i _ _ _ hs
  · exact hf make (hm.parts t i make capacity? own? hi hs)

theorem Uncounted.dropUnreachable (hc : w.Uncounted counter) (roots : List CacheId) :
    (w.dropUnreachable roots).Uncounted counter :=
  fun t i _ _ _ hs => hc t i _ _ _ (sight?_of_dropUnreachable hs).2

/-- A call of a factory is counted as often as the factory says. -/
theorem builtCount_make (w : Caches κ υ) (f : Factory κ) (counter : String) :
    (w.make f).2.builtCount counter = w.builtCount counter + f.tally counter := by
  induction f generalizing w with
  | bounded policy capacity => cases policy <;> rfl
  | striped | perThread | existing => rfl
  | forwarding inner ih => exact ih w
  | counted counter' make ih =>
    refine (ih _).trans ?_
    rw [builtCount_counted, Factory.tally]
    omega

end Caches

end Caching
