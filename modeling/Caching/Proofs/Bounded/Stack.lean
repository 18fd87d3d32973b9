import Caching.Proofs.Bounded.Ordered

/-!
# Caches in order of use at two capacities

A cache in order of use is a stack: of two caches that get the same requests, the one of the smaller capacity holds
the first keys of the other one, in the same order.

The reason is that a request that stores a key does the same to the keys whether it meets the key or not, and
whether the cache is full or not: the key goes to the front, and of the other keys the first ones stay, as many as
there is room for (`PlainCache.exists_keys_put`).  To take a key out and to keep a first part are both compatible with
one list being the first part of the other (`isPrefixOf_eraseP`, `isPrefixOf_take`).

A bare look-up is not of this kind, as a key that is missed does not come to the front.
-/

namespace Caching

open Bounded (Request Answer)

/-- Whether a request looks a key up without storing it. -/
def Bounded.Request.isGet {κ υ : Type} : Request κ υ → Bool
  | .get _ | .getWith _ _ => true
  | _ => false

/-- Whether the caller is shown that the key was there. -/
def Bounded.Answer.isHit {κ : Type} : Answer κ → Bool
  | .value? v? => v?.isSome
  | .flag b => b
  | _ => false

/-! ### First parts of lists -/

section FirstParts

variable {κ : Type} [BEq κ] {l r : List κ}

theorem isPrefixOf_take (hlr : l.isPrefixOf r = true) {m n : Nat} (hmn : m ≤ n) :
    (l.take m).isPrefixOf (r.take n) = true := by
  induction l generalizing r m n with
  | nil => simp
  | cons a l ih =>
    cases r with
    | nil => simp at hlr
    | cons b r =>
      rw [List.isPrefixOf_cons_cons, Bool.and_eq_true] at hlr
      cases m with
      | zero => simp
      | succ m =>
        cases n with
        | zero => omega
        | succ n =>
          rw [List.take_succ_cons, List.take_succ_cons, List.isPrefixOf_cons_cons, Bool.and_eq_true]
          exact ⟨hlr.1, ih hlr.2 (by omega)⟩

variable [EquivBEq κ]

theorem isPrefixOf_eraseP (hlr : l.isPrefixOf r = true) (k : κ) :
    (l.eraseP (· == k)).isPrefixOf (r.eraseP (· == k)) = true := by
  induction l generalizing r with
  | nil => simp
  | cons a l ih =>
    cases r with
    | nil => simp at hlr
    | cons b r =>
      rw [List.isPrefixOf_cons_cons, Bool.and_eq_true] at hlr
      obtain ⟨hab, hlr⟩ := hlr
      rw [List.eraseP_cons, List.eraseP_cons, BEq.congr_left hab]
      cases b == k with
      | true => exact hlr
      | false =>
        show (a :: l.eraseP (· == k)).isPrefixOf (b :: r.eraseP (· == k)) = true
        rw [List.isPrefixOf_cons_cons, hab, Bool.true_and]
        exact ih hlr

private theorem any_of_isPrefixOf (hlr : l.isPrefixOf r = true) {k : κ} (hk : l.any (· == k) = true) :
    r.any (· == k) = true := by
  induction l generalizing r with
  | nil => simp at hk
  | cons a l ih =>
    cases r with
    | nil => simp at hlr
    | cons b r =>
      rw [List.isPrefixOf_cons_cons, Bool.and_eq_true] at hlr
      rw [List.any_cons, Bool.or_eq_true] at hk ⊢
      rcases hk with hk | hk
      · left
        rw [← BEq.congr_left hlr.1]
        exact hk
      · right
        exact ih hlr.2 hk

end FirstParts

/-! ### The keys after a request -/

namespace PlainCache

variable {κ υ : Type} [BEq κ] {m : PlainCache .use κ υ} {k : κ}

private theorem keys_eraseP (pairs : List (κ × υ)) (k : κ) :
    (pairs.eraseP fun e => e.1 == k).map (·.1) = (pairs.map (·.1)).eraseP (· == k) := by
  rw [List.eraseP_map]
  rfl

private theorem put_fst (m : PlainCache .use κ υ) (k : κ) (v : υ) : (m.put k v).1 = m.value? k := by
  unfold put
  split
  · next hv => exact hv.symm
  · next hv => exact hv.symm

private theorem putIfAbsent_fst (m : PlainCache .use κ υ) (k : κ) (v : υ) : (m.putIfAbsent k v).1 = m.value? k := by
  unfold putIfAbsent
  split
  · next hv => exact hv.symm
  · exact m.put_fst k v

/-- A key that is there goes to the front, and there is room for all the others. -/
private theorem keys_touched {pairs : List (κ × υ)} {n : Nat} (hlen : pairs.length ≤ n)
    (hk : (pairs.map (·.1)).any (· == k) = true) :
    ∃ i, (i == k) = true ∧
      (touched k pairs .use).map (·.1) = i :: ((pairs.map (·.1)).eraseP (· == k)).take (n - 1) := by
  rw [List.any_map, ← List.isSome_find?, Option.isSome_iff_exists] at hk
  obtain ⟨e, he⟩ := hk
  change (pairs.find? fun e => e.1 == k) = some e at he
  have hek : (e.1 == k) = true := List.find?_some (p := fun e : κ × υ => e.1 == k) he
  have hmem : e.1 ∈ pairs.map (·.1) := List.mem_map.2 ⟨e, List.mem_of_find?_eq_some he, rfl⟩
  have hroom : ((pairs.map (·.1)).eraseP (· == k)).length ≤ n - 1 := by
    rw [List.length_eraseP_of_mem hmem hek, List.length_map]
    omega
  refine ⟨e.1, hek, ?_⟩
  rw [List.take_of_length_le hroom, ← keys_eraseP, touched, he]
  rfl

private theorem keys_added (hm : m.pairs.length ≤ m.capacity) (hk : m.value? k = none) (v : υ) :
    (m.put k v).2.keys = k :: (m.keys.eraseP (· == k)).take (m.capacity - 1) := by
  have hnone : m.keys.eraseP (· == k) = m.keys := by
    apply List.eraseP_of_forall_not
    have hany := m.any_keys k
    rw [hk, Option.isSome_none, List.any_eq_false] at hany
    exact hany
  rw [hnone]
  simp only [put, hk, keys, added]
  rw [List.map_cons]
  congr 1
  split
  · next hfull =>
    rw [dropped, List.map_dropLast, List.dropLast_eq_take, List.length_map, hfull]
  · rw [List.take_of_length_le]
    rw [List.length_map]
    omega

variable [EquivBEq κ]

/-- A key that is stored goes to the front, whether it was there or not, and of the others the first ones stay. -/
theorem exists_keys_put (hm : m.pairs.length ≤ m.capacity) (k : κ) (v : υ) :
    ∃ i, (i == k) = true ∧ (m.put k v).2.keys = i :: (m.keys.eraseP (· == k)).take (m.capacity - 1) := by
  cases hv : m.value? k with
  | none => exact ⟨k, BEq.rfl, m.keys_added hm hv v⟩
  | some old =>
    have hlen : (overwritten k v m.pairs).length ≤ m.capacity := by
      rw [overwritten, List.length_map]
      exact hm
    have hany : ((overwritten k v m.pairs).map (·.1)).any (· == k) = true := by
      rw [keys_overwritten]
      exact (m.any_keys k).trans (by rw [hv, Option.isSome_some])
    simp only [put, hv]
    have htouched := keys_touched hlen hany
    rw [keys_overwritten] at htouched
    exact htouched

private theorem exists_keys_putIfAbsent (hm : m.pairs.length ≤ m.capacity) (k : κ) (v : υ) :
    ∃ i, (i == k) = true ∧ (m.putIfAbsent k v).2.keys = i :: (m.keys.eraseP (· == k)).take (m.capacity - 1) := by
  cases hv : m.value? k with
  | none =>
    simp only [putIfAbsent, hv]
    exact m.exists_keys_put hm k v
  | some current =>
    have hany : m.keys.any (· == k) = true := (m.any_keys k).trans (by rw [hv, Option.isSome_some])
    simp only [putIfAbsent, hv]
    exact keys_touched hm hany

/-! ### Two capacities -/

/-- The cache `m` has at most the capacity of `m'` and holds its first keys. -/
structure OnTopOf (m m' : PlainCache .use κ υ) : Prop where
  capacity_pos : 0 < m.capacity
  capacity_le : m.capacity ≤ m'.capacity
  length_le : m.keys.length ≤ m.capacity
  length_le' : m'.keys.length ≤ m'.capacity
  keys : m.keys.isPrefixOf m'.keys = true

namespace OnTopOf

variable {m' n n' : PlainCache .use κ υ}

/-- A key that the cache on top holds is in the other one, too. -/
private theorem hit (h : m.OnTopOf m') (hk : (m.value? k).isSome = true) : (m'.value? k).isSome = true := by
  rw [← any_keys] at hk ⊢
  exact any_of_isPrefixOf h.keys hk

/-- Both caches store a key. -/
private theorem store {i i' : κ} (h : m.OnTopOf m') (hcap : n.capacity = m.capacity) (hcap' : n'.capacity = m'.capacity)
    (hi : (i == k) = true) (hkeys : n.keys = i :: (m.keys.eraseP (· == k)).take (m.capacity - 1))
    (hi' : (i' == k) = true) (hkeys' : n'.keys = i' :: (m'.keys.eraseP (· == k)).take (m'.capacity - 1)) :
    n.OnTopOf n' := by
  have hpos := h.capacity_pos
  have hle := h.capacity_le
  constructor
  · rw [hcap]
    exact hpos
  · rw [hcap, hcap']
    exact hle
  · rw [hcap, hkeys, List.length_cons, List.length_take]
    omega
  · rw [hcap', hkeys', List.length_cons, List.length_take]
    omega
  · rw [hkeys, hkeys', List.isPrefixOf_cons_cons, Bool.and_eq_true]
    constructor
    · rw [BEq.congr_left hi, BEq.comm]
      exact hi'
    · exact isPrefixOf_take (isPrefixOf_eraseP h.keys k) (by omega)

private theorem remove (h : m.OnTopOf m') (k : κ) : (m.remove k).2.OnTopOf (m'.remove k).2 := by
  have hkeys : ∀ m : PlainCache .use κ υ, (m.remove k).2.keys = m.keys.eraseP (· == k) :=
    fun m => keys_eraseP m.pairs k
  have hlen : ∀ m : PlainCache .use κ υ, (m.remove k).2.keys.length ≤ m.keys.length := by
    intro m
    rw [hkeys]
    exact List.length_eraseP_le
  refine ⟨h.capacity_pos, h.capacity_le, (hlen m).trans h.length_le, (hlen m').trans h.length_le', ?_⟩
  rw [hkeys, hkeys]
  exact isPrefixOf_eraseP h.keys k

/-- Every request but a bare look-up leaves the cache on top. If the caller is shown there that the key was there,
so is the caller of the other one. -/
private theorem answer (h : m.OnTopOf m') {r : Request κ υ} (hr : r.isGet = false) :
    ((m.answer r).1.isHit = true → (m'.answer r).1.isHit = true) ∧ (m.answer r).2.OnTopOf (m'.answer r).2 := by
  have hlen := h.length_le
  have hlen' := h.length_le'
  rw [PlainCache.keys, List.length_map] at hlen hlen'
  cases r with
  | get k => cases hr
  | getWith k f => cases hr
  | put k v =>
    obtain ⟨i, hi, hkeys⟩ := m.exists_keys_put hlen k v
    obtain ⟨i', hi', hkeys'⟩ := m'.exists_keys_put hlen' k v
    constructor
    · show (m.put k v).1.isSome = true → (m'.put k v).1.isSome = true
      rw [put_fst, put_fst]
      exact h.hit
    · exact h.store (m.capacity_answer (.put k v)) (m'.capacity_answer (.put k v)) hi hkeys hi' hkeys'
  | putIfAbsent k v =>
    obtain ⟨i, hi, hkeys⟩ := m.exists_keys_putIfAbsent hlen k v
    obtain ⟨i', hi', hkeys'⟩ := m'.exists_keys_putIfAbsent hlen' k v
    constructor
    · show (m.putIfAbsent k v).1.isSome = true → (m'.putIfAbsent k v).1.isSome = true
      rw [putIfAbsent_fst, putIfAbsent_fst]
      exact h.hit
    · exact h.store (m.capacity_answer (.putIfAbsent k v)) (m'.capacity_answer (.putIfAbsent k v)) hi hkeys hi'
        hkeys'
  | contains k => exact ⟨h.hit, h⟩
  | remove k => exact ⟨h.hit, h.remove k⟩
  | length => exact ⟨id, h⟩
  | keys => exact ⟨id, h⟩
  | clear => exact ⟨id, h.capacity_pos, h.capacity_le, Nat.zero_le _, Nat.zero_le _, rfl⟩

end OnTopOf

end PlainCache

/-! ### Runs -/

namespace OrderedCache

variable {κ υ : Type} [BEq κ] [Hashable κ] [EquivBEq κ] [LawfulHashable κ]

/-- Of two caches in order of use that get the same requests, none of them a bare look-up, the one of the smaller
capacity has the first keys of the other one after each run, and so after each part of it. So the other one holds
all its keys, and a request that meets its key in the smaller cache meets it in the larger one. -/
theorem smaller_capacity_holds_first_keys {capacity capacity' : Capacity} (hle : capacity.size ≤ capacity'.size)
    (rs : List (Request κ υ)) (hrs : ∀ r ∈ rs, r.isGet = false) :
    let small := answers OrderedCache.answer (OrderedCache.empty capacity : OrderedCache .use κ υ) rs
    let large := answers OrderedCache.answer (OrderedCache.empty capacity' : OrderedCache .use κ υ) rs
    small.2.keys.isPrefixOf large.2.keys = true ∧
      (∀ k, small.2.contains k = true → large.2.contains k = true) ∧
      List.Forall₂ (fun a a' => a.isHit = true → a'.isHit = true) small.1 large.1 := by
  intro small large
  obtain ⟨heq, hagrees, -⟩ := answers_agree (o := .use) capacity rs
  obtain ⟨heq', hagrees', -⟩ := answers_agree (o := .use) capacity' rs
  have hstart : (PlainCache.empty capacity : PlainCache .use κ υ).OnTopOf (.empty capacity') :=
    ⟨capacity.size_pos, hle, Nat.zero_le _, Nat.zero_le _, rfl⟩
  obtain ⟨hhits, -, hend⟩ := answers_relates
    (R := fun (rs : List (Request κ υ)) (m m' : PlainCache .use κ υ) =>
      (∀ r ∈ rs, r.isGet = false) ∧ m.OnTopOf m')
    (Q := fun a a' : Answer κ => a.isHit = true → a'.isHit = true)
    (by
      rintro r rs m m' ⟨hrs, h⟩
      obtain ⟨hr, hrs⟩ := List.forall_mem_cons.1 hrs
      obtain ⟨hhit, h'⟩ := h.answer hr
      exact ⟨hhit, hrs, h'⟩)
    ⟨hrs, hstart⟩
  refine ⟨?_, ?_, ?_⟩
  · rw [hagrees.keys, hagrees'.keys]
    exact hend.keys
  · intro k hk
    rw [hagrees.contains] at hk
    rw [hagrees'.contains]
    exact hend.hit hk
  · show List.Forall₂ _ small.1 large.1
    rw [heq, heq']
    exact hhits

/-- The larger cache still has the first key, which the smaller one gave up. -/
theorem first_keys_at_capacity_one_and_two :
    let rs : List (Request Nat Nat) :=
      [.put 1 10, .put 2 20, .contains 1, .putIfAbsent 1 11, .remove 2, .put 3 30, .contains 3]
    let small := answers OrderedCache.answer (OrderedCache.empty { size := 1 } : OrderedCache .use Nat Nat) rs
    let large := answers OrderedCache.answer (OrderedCache.empty { size := 2 } : OrderedCache .use Nat Nat) rs
    1 ≤ 2 ∧ (∀ r ∈ rs, r.isGet = false) ∧ small.2.keys = [3] ∧ large.2.keys = [3, 1] ∧
      small.2.keys.isPrefixOf large.2.keys = true := by
  intro rs small large
  have hle : 1 ≤ 2 := by decide
  have hrs : ∀ r ∈ rs, r.isGet = false := by simp [rs, Request.isGet]
  obtain ⟨-, hagrees, -⟩ := answers_agree (o := .use) { size := 1 } rs
  obtain ⟨-, hagrees', -⟩ := answers_agree (o := .use) { size := 2 } rs
  exact ⟨hle, hrs, hagrees.keys, hagrees'.keys, (smaller_capacity_holds_first_keys hle rs hrs).1⟩

end OrderedCache

end Caching
