import Mathlib

/-!
# Runs

What a system answers when requests come one after the other.  Two systems answer a run alike if each request
finds them in a relation that lets them answer it alike (`answers_simulates`), or in a related way
(`answers_relates`); the relation may speak of the requests still to come, for instance of how many they are or
that they are permitted.
-/

namespace Caching

universe u v w

variable {σ τ : Type u} {ι : Type v} {ρ : Type w}

/-- The answers to requests made one after the other, and the state after the last one. -/
def answers (step : σ → ι → ρ × σ) : σ → List ι → List ρ × σ
  | s, [] => ([], s)
  | s, i :: is =>
    let (r, s) := step s i
    let (rs, s) := answers step s is
    (r :: rs, s)

theorem answers_cons (step : σ → ι → ρ × σ) (s : σ) (i : ι) (is : List ι) :
    answers step s (i :: is) =
      ((step s i).1 :: (answers step (step s i).2 is).1, (answers step (step s i).2 is).2) := rfl

theorem answers_append (step : σ → ι → ρ × σ) (s : σ) (is js : List ι) :
    answers step s (is ++ js) =
      ((answers step s is).1 ++ (answers step (answers step s is).2 js).1,
        (answers step (answers step s is).2 js).2) := by
  induction is generalizing s with
  | nil => rfl
  | cons i is ih => simp only [List.cons_append, answers_cons, ih]

theorem length_answers (step : σ → ι → ρ × σ) (s : σ) (is : List ι) :
    (answers step s is).1.length = is.length := by
  induction is generalizing s with
  | nil => rfl
  | cons i is ih => simp only [answers_cons, List.length_cons, ih]

/-- A property that each request carries over holds at the end of a run. -/
theorem answers_invariant {step : σ → ι → ρ × σ} {I : List ι → σ → Prop}
    (hstep : ∀ i is s, I (i :: is) s → I is (step s i).2) {is : List ι} {s : σ} (hs : I is s) :
    I [] (answers step s is).2 := by
  induction is generalizing s with
  | nil => exact hs
  | cons i is ih => exact ih (hstep i is s hs)

/-- Two systems that each request keeps in a relation give answers that are related one by one. -/
theorem answers_relates {step : σ → ι → ρ × σ} {step' : τ → ι → ρ × τ} {R : List ι → σ → τ → Prop}
    {Q : ρ → ρ → Prop}
    (hstep : ∀ i is s t, R (i :: is) s t →
      Q (step s i).1 (step' t i).1 ∧ R is (step s i).2 (step' t i).2)
    {is : List ι} {s : σ} {t : τ} (hst : R is s t) :
    List.Forall₂ Q (answers step s is).1 (answers step' t is).1 ∧
      R [] (answers step s is).2 (answers step' t is).2 := by
  induction is generalizing s t with
  | nil => exact ⟨.nil, hst⟩
  | cons i is ih =>
    obtain ⟨hr, hn⟩ := hstep i is s t hst
    obtain ⟨hrs, hend⟩ := ih hn
    exact ⟨.cons hr hrs, hend⟩

theorem answers_simulates {step : σ → ι → ρ × σ} {step' : τ → ι → ρ × τ} {R : List ι → σ → τ → Prop}
    (hstep : ∀ i is s t, R (i :: is) s t →
      (step s i).1 = (step' t i).1 ∧ R is (step s i).2 (step' t i).2)
    {is : List ι} {s : σ} {t : τ} (hst : R is s t) :
    (answers step s is).1 = (answers step' t is).1 ∧ R [] (answers step s is).2 (answers step' t is).2 := by
  obtain ⟨heq, hend⟩ := answers_relates (Q := Eq) hstep hst
  exact ⟨List.forall₂_eq_eq_eq ▸ heq, hend⟩

end Caching
