import Caching.Proofs.Bounded.Ordered

/-!
# Caches in order of arrival as queues

In order of arrival the list of a cache is a queue: new pairs join at its end, a full cache gives up the pair at
its head, and look-ups and overwrites move nothing.  As long as nothing is removed on request, each request that
brings a key in puts it behind all others, and each key that goes was at the head (`keys_answer`).  So nothing is
lost and nothing comes twice: the keys given up so far, followed by the keys still there, are the keys inserted so
far, in the order of their insertion (`givenUp_append_keys`).
-/

namespace Caching

open Bounded (Request Answer)

/-- Whether a request takes entries out on purpose. -/
def Bounded.Request.TakesOut {κ υ : Type} : Request κ υ → Prop
  | .remove _ | .clear => True
  | _ => False

/-! ### What comes and what goes -/

section Coming

variable {o : Order} {κ υ : Type} [BEq κ]

/-- The keys of a list that are not in a second one. -/
def keysGone (before after : List κ) : List κ := before.filter fun k => !after.any (· == k)

private theorem keysGone_append [ReflBEq κ] (l r : List κ) : keysGone l (l ++ r) = [] := by
  rw [keysGone, List.filter_eq_nil_iff]
  intro k hk
  have hany : (l ++ r).any (· == k) = true :=
    List.any_eq_true.2 ⟨k, List.mem_append_left _ hk, BEq.rfl⟩
  rw [hany]
  simp

/-- Only the head is gone if the rest stays and the head does not come again. -/
private theorem keysGone_cons_append [ReflBEq κ] {k : κ} {l r : List κ} (hk : (l ++ r).any (· == k) = false) :
    keysGone (k :: l) (l ++ r) = [k] := by
  rw [keysGone, List.filter_cons_of_pos (by simp only [hk, Bool.not_false])]
  exact congrArg (k :: ·) (keysGone_append l r)

/-- The key that a request brings in, if it is answered that the key was not there. -/
def insertedKey : Request κ υ × Answer κ → List κ
  | (.put k _, .value? v?) => if v?.isSome then [] else [k]
  | (.putIfAbsent k _, .value? v?) => if v?.isSome then [] else [k]
  | _ => []

variable [Hashable κ]

/-- The keys that are there before a request and not after it. -/
def OrderedCache.givenUpBy (c : OrderedCache o κ υ) (r : Request κ υ) : List κ :=
  keysGone c.keys (c.answer r).2.keys

/-- The keys given up in a run, in the order in which they went. -/
def OrderedCache.givenUp (c : OrderedCache o κ υ) : List (Request κ υ) → List κ
  | [] => []
  | r :: rs => c.givenUpBy r ++ (c.answer r).2.givenUp rs

end Coming

/-! ### The queue -/

namespace PlainCache

variable {κ υ : Type} [BEq κ] {m : PlainCache .arrival κ υ}

/-- A put of a new key. -/
private theorem keys_put {k : κ} (hk : m.value? k = none) (v : υ) :
    (m.put k v).2.keys = (if m.pairs.length = m.capacity then m.keys.tail else m.keys) ++ [k] := by
  simp only [put, hk, keys, added, dropped]
  split
  · rw [List.map_append, List.map_tail]
    rfl
  · rw [List.map_append]
    rfl

/-- A request that takes nothing out on purpose lets at most the head go, and does so only for a new key, which
joins at the end. -/
theorem keys_answer {r : Request κ υ} (hr : ¬ r.TakesOut) :
    (insertedKey (r, (m.answer r).1) = [] ∧ (m.answer r).2.keys = m.keys) ∨
      ∃ k, insertedKey (r, (m.answer r).1) = [k] ∧ m.value? k = none ∧
        (m.answer r).2.keys = (if m.pairs.length = m.capacity then m.keys.tail else m.keys) ++ [k] := by
  have hget : ∀ k, (m.get k).2.keys = m.keys := by
    intro k
    rw [get]
    split <;> rfl
  cases r with
  | get k => exact Or.inl ⟨rfl, hget k⟩
  | getWith k f => exact Or.inl ⟨rfl, hget k⟩
  | put k v =>
    cases hv : m.value? k with
    | none => exact Or.inr ⟨k, by simp [insertedKey, answer, put, hv], hv, keys_put hv v⟩
    | some old =>
      refine Or.inl ⟨by simp [insertedKey, answer, put, hv], ?_⟩
      simp only [answer, put, hv, keys, touched]
      exact keys_overwritten k v m.pairs
  | putIfAbsent k v =>
    cases hv : m.value? k with
    | none =>
      have hput : (m.answer (.putIfAbsent k v)) = m.answer (.put k v) := by
        simp only [answer, putIfAbsent, hv]
      refine Or.inr ⟨k, by simp [insertedKey, answer, putIfAbsent, put, hv], hv, ?_⟩
      rw [hput]
      exact keys_put hv v
    | some current =>
      refine Or.inl ⟨by simp [insertedKey, answer, putIfAbsent, hv], ?_⟩
      simp only [answer, putIfAbsent, hv, keys, touched]
  | contains k => exact Or.inl ⟨rfl, rfl⟩
  | remove k => exact absurd trivial hr
  | length => exact Or.inl ⟨rfl, rfl⟩
  | keys => exact Or.inl ⟨rfl, rfl⟩
  | clear => exact absurd trivial hr

variable [EquivBEq κ]

/-- What goes in a step stood before all that stays, and what comes stands behind it. -/
private theorem keysGone_append_keys_answer (hm : Keyed (·.1) m.pairs) (hpos : 0 < m.capacity) {r : Request κ υ}
    (hr : ¬ r.TakesOut) :
    keysGone m.keys (m.answer r).2.keys ++ (m.answer r).2.keys = m.keys ++ insertedKey (r, (m.answer r).1) := by
  rcases keys_answer (m := m) hr with ⟨hin, hkeys⟩ | ⟨k, hin, hv, hkeys⟩
  · have hnone := keysGone_append m.keys []
    rw [List.append_nil] at hnone
    rw [hin, hkeys, hnone, List.append_nil, List.nil_append]
  · have hk : m.keys.any (· == k) = false := by rw [m.any_keys, hv, Option.isSome_none]
    rw [hin, hkeys]
    split
    · next hfull =>
      have hne : m.pairs ≠ [] := List.ne_nil_of_length_pos (by omega)
      obtain ⟨e, l, hl⟩ := List.exists_cons_of_ne_nil hne
      have hcons : m.keys = e.1 :: l.map (·.1) := by rw [keys, hl, List.map_cons]
      -- the head differs from the keys behind it and from the new one
      have hhead : (l.map (·.1) ++ [k]).any (· == e.1) = false := by
        rw [hcons, List.any_cons, Bool.or_eq_false_iff] at hk
        rw [hl] at hm
        rw [List.any_append, List.any_map, Bool.or_eq_false_iff, List.any_eq_false]
        refine ⟨?_, by simpa [BEq.comm] using hk.1⟩
        intro y hy
        rw [Function.comp_apply, BEq.comm, (List.pairwise_cons.1 hm).1 y hy]
        simp
      rw [hcons, List.tail_cons, keysGone_cons_append hhead]
      simp
    · rw [keysGone_append, List.nil_append]

end PlainCache

/-! ### Runs -/

namespace OrderedCache

variable {κ υ : Type} [BEq κ] [Hashable κ]

namespace Agrees

variable {c : OrderedCache .arrival κ υ} {m : PlainCache .arrival κ υ}

variable [EquivBEq κ] [LawfulHashable κ]

/-- One request: what goes, followed by what is left, is what was there followed by what comes. -/
private theorem givenUpBy_append_keys (hcm : c.Agrees m) {r : Request κ υ} (hr : ¬ r.TakesOut) :
    c.givenUpBy r ++ (c.answer r).2.keys = c.keys ++ insertedKey (r, (c.answer r).1) := by
  have hpos : 0 < m.capacity := by
    rw [hcm.1]
    exact c.capacity.size_pos
  rw [OrderedCache.givenUpBy, hcm.keys, (hcm.answer r).2.keys, (hcm.answer r).1]
  exact PlainCache.keysGone_append_keys_answer hcm.keyed hpos hr

end Agrees

variable [EquivBEq κ] [LawfulHashable κ]

/-- A run in which nothing is taken out on purpose. -/
theorem givenUp_append_keys {c : OrderedCache .arrival κ υ} {m : PlainCache .arrival κ υ} (hcm : c.Agrees m)
    {rs : List (Request κ υ)} (hrs : ∀ r ∈ rs, ¬ r.TakesOut) :
    let run := answers OrderedCache.answer c rs
    c.givenUp rs ++ run.2.keys = c.keys ++ (rs.zip run.1).flatMap insertedKey := by
  induction rs generalizing c m with
  | nil => exact (List.append_nil _).symm
  | cons r rs ih =>
    obtain ⟨hr, hrs⟩ := List.forall_mem_cons.1 hrs
    intro run
    let rest := answers OrderedCache.answer (c.answer r).2 rs
    have hrest : (c.answer r).2.givenUp rs ++ rest.2.keys =
        (c.answer r).2.keys ++ (rs.zip rest.1).flatMap insertedKey := ih (hcm.answer r).2 hrs
    calc c.givenUp (r :: rs) ++ run.2.keys
        = c.givenUpBy r ++ ((c.answer r).2.givenUp rs ++ rest.2.keys) := List.append_assoc ..
      _ = c.givenUpBy r ++ (c.answer r).2.keys ++ (rs.zip rest.1).flatMap insertedKey := by
          rw [hrest, List.append_assoc]
      _ = c.keys ++ (insertedKey (r, (c.answer r).1) ++ (rs.zip rest.1).flatMap insertedKey) := by
          rw [hcm.givenUpBy_append_keys hr, List.append_assoc]

/-- A cache in order of arrival answers every run of requests as a queue of pairs that has the oldest one first.
After each run, and so after each part of it, the keys are those of the queue in its order, no two of them are
equal, and there are no more than the capacity.  If nothing was removed on request, the keys that were given up
and the keys that are left are, one after the other, the keys inserted in the order of their insertion. -/
theorem cacheInOrderOfArrival_answers_as_queue (capacity : Capacity) (rs : List (Request κ υ)) :
    let start : OrderedCache .arrival κ υ := .empty capacity
    let cache := answers OrderedCache.answer start rs
    let queue := answers PlainCache.answer (PlainCache.empty capacity : PlainCache .arrival κ υ) rs
    cache.1 = queue.1 ∧ cache.2.keys = queue.2.keys ∧ Keyed (·.1) queue.2.pairs ∧
      cache.2.length = queue.2.pairs.length ∧ cache.2.length ≤ capacity.size ∧
      ((∀ r ∈ rs, ¬ r.TakesOut) → start.givenUp rs ++ cache.2.keys = (rs.zip cache.1).flatMap insertedKey) := by
  intro start cache queue
  obtain ⟨heq, hagrees, hsize⟩ := answers_agree (o := .arrival) (κ := κ) (υ := υ) capacity rs
  obtain ⟨hcap, l, hc, hm⟩ := id hagrees
  refine ⟨heq, hagrees.keys, hagrees.keyed, ?_, ?_, ?_⟩
  · rw [hc.length, hm, List.length_map]
  · rw [hc.length, ← hsize, hcap]
    exact hc.length_le
  · intro hrs
    exact givenUp_append_keys (Agrees.empty capacity) hrs

theorem pairs_in_order_of_arrival :
    let start : OrderedCache .arrival Nat Nat := .empty { size := 2 }
    let rs : List (Request Nat Nat) :=
      [.put 1 10, .put 2 20, .getWith 1 fun v => v % 10 == 0, .put 1 11, .put 3 30, .contains 1, .keys, .remove 2,
        .putIfAbsent 1 12, .putIfAbsent 3 31, .keys, .get 2, .length, .clear, .keys]
    let undisturbed : List (Request Nat Nat) :=
      [.put 1 10, .put 2 20, .get 1, .put 3 30, .put 1 11, .putIfAbsent 2 21, .put 2 22]
    (answers OrderedCache.answer start rs).1 =
        [.value? (none : Option Nat), .value? (none : Option Nat), .value? (some true), .value? (some 10),
          .value? (none : Option Nat), .flag false, .keys [2, 3], .value? (some 20), .value? (none : Option Nat),
          .value? (some 30), .keys [3, 1], .value? (none : Option Nat), .number 2, .done, .keys []] ∧
      (∀ r ∈ undisturbed, ¬ r.TakesOut) ∧
      start.givenUp undisturbed ++ (answers OrderedCache.answer start undisturbed).2.keys = [1, 2, 3, 1, 2] := by
  intro start rs undisturbed
  have hkept : ∀ r ∈ undisturbed, ¬ r.TakesOut := by
    simp [undisturbed, Bounded.Request.TakesOut]
  refine ⟨?_, hkept, ?_⟩
  · rw [(cacheInOrderOfArrival_answers_as_queue { size := 2 } rs).1]
    rfl
  · have hrun := cacheInOrderOfArrival_answers_as_queue { size := 2 } undisturbed
    rw [hrun.2.2.2.2.2 hkept, hrun.1]
    rfl

end OrderedCache

end Caching
