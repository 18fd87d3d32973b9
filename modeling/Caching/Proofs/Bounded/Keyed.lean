import Mathlib
import Std.Data.HashMap
import Caching.Linked.Pool

/-!
# Entries with keys

Entries of pairwise different keys (`Keyed`), and an index that leads from each key to the handle of its entry
(`Indexes`).  Keys are compared by `==`, which need not be equality: it is an equivalence that hashing respects.
Where the entry of a key stands does not matter for the index, so its laws speak of an entry at the head of a
list and carry over to any order of the list (`Indexes.perm`).
-/

namespace Caching

open Linked

variable {α κ : Type} [BEq κ]

/-- No two entries have equal keys. -/
def Keyed (key : α → κ) (l : List α) : Prop := l.Pairwise fun x y => (key x == key y) = false

/-! ### Looking for a key -/

section Looking

variable [EquivBEq κ] {key : α → κ} {l r : List α} {x : α} {k : κ}

theorem Keyed.perm (hl : Keyed key l) (hp : l.Perm r) : Keyed key r := by
  refine List.Pairwise.perm hl hp ?_
  intro x y hxy
  rwa [BEq.comm]

/-- Only the entry `x` has its key. -/
theorem Keyed.other (hl : Keyed key (l ++ x :: r)) (hk : (key x == k) = true) :
    ∀ y ∈ l ++ r, (key y == k) = false := by
  intro y hy
  have hp : Keyed key (x :: (l ++ r)) := hl.perm List.perm_middle
  have hxy : (key x == key y) = false := (List.pairwise_cons.1 hp).1 y hy
  rw [← BEq.congr_right hk, BEq.comm]
  exact hxy

omit [EquivBEq κ] in
/-- An entry may change as long as it keeps its key. -/
theorem Keyed.set (hl : Keyed key (x :: l)) {y : α} (hy : key y = key x) : Keyed key (y :: l) := by
  obtain ⟨hx, hl⟩ := List.pairwise_cons.1 hl
  refine List.pairwise_cons.2 ⟨?_, hl⟩
  intro z hz
  rw [hy]
  exact hx z hz

theorem Keyed.find?_middle (hl : Keyed key (l ++ x :: r)) (hk : (key x == k) = true) :
    (l ++ x :: r).find? (fun y => key y == k) = some x := by
  have hnone : l.find? (fun y => key y == k) = none := by
    rw [List.find?_eq_none]
    intro y hy
    simp [hl.other hk y (List.mem_append_left _ hy)]
  rw [List.find?_append, hnone, Option.none_or, List.find?_cons, hk]

theorem Keyed.eraseP_middle (hl : Keyed key (l ++ x :: r)) (hk : (key x == k) = true) :
    (l ++ x :: r).eraseP (fun y => key y == k) = l ++ r := by
  rw [List.eraseP_append_right, List.eraseP_cons, hk, cond_true]
  intro y hy
  simp [hl.other hk y (List.mem_append_left _ hy)]

/-- A change of the entries with one key changes one entry. -/
theorem Keyed.map_middle (hl : Keyed key (l ++ x :: r)) (hk : (key x == k) = true) (f : α → α) :
    (l ++ x :: r).map (fun y => if key y == k then f y else y) = l ++ f x :: r := by
  have hid : ∀ s ⊆ l ++ r, s.map (fun y => if key y == k then f y else y) = s := by
    intro s hs
    conv_rhs => rw [← List.map_id s]
    apply List.map_congr_left
    intro y hy
    simp [hl.other hk y (hs hy)]
  rw [List.map_append, List.map_cons, hid l (by simp), hid r (by simp), if_pos hk]

theorem Keyed.find?_of_mem (hl : Keyed key l) (hx : x ∈ l) (hk : (key x == k) = true) :
    l.find? (fun y => key y == k) = some x := by
  obtain ⟨l, r, rfl⟩ := List.append_of_mem hx
  exact hl.find?_middle hk

/-- The entries with other keys than `x` has. -/
theorem Keyed.filter_perm (hl : Keyed key l) (hp : l.Perm (x :: r)) (hk : (key x == k) = true) :
    (l.filter fun y => !(key y == k)).Perm r := by
  have hother := (hl.perm hp).other (l := []) hk
  have hr : (r.filter fun y => !(key y == k)) = r := by
    rw [List.filter_eq_self]
    intro y hy
    rw [hother y hy, Bool.not_false]
  refine (hp.filter _).trans ?_
  rw [List.filter_cons_of_neg (by simp [hk]), hr]

theorem Keyed.map_perm (hl : Keyed key l) (hp : l.Perm (x :: r)) (hk : (key x == k) = true) (f : α → α) :
    (l.map fun y => if key y == k then f y else y).Perm (f x :: r) := by
  have hmap := (hl.perm hp).map_middle (l := []) hk f
  rw [List.nil_append, List.nil_append] at hmap
  rw [← hmap]
  exact hp.map _

end Looking

/-! ### The index -/

variable [Hashable κ] {key : α → κ} {index : Std.HashMap κ Handle} {l : List (Handle × α)} {h : Handle}
  {e : α} {k : κ}

theorem size_insert_of_absent [EquivBEq κ] [LawfulHashable κ] (hk : index[k]? = none) (h : Handle) :
    (index.insert k h).size = index.size + 1 := by
  rw [Std.HashMap.size_insert, if_neg]
  rw [Std.HashMap.mem_iff_isSome_getElem?, hk]
  exact Bool.false_ne_true

theorem getElem?_erase_of_absent [EquivBEq κ] [LawfulHashable κ] (hk : index[k]? = none) (i : κ) :
    (index.erase i)[k]? = none := by
  rw [Std.HashMap.getElem?_erase, hk, ite_self]

theorem size_erase_of_present [EquivBEq κ] [LawfulHashable κ] (hk : index[k]? = some h) :
    (index.erase k).size + 1 = index.size := by
  have hmem : k ∈ index := by
    rw [Std.HashMap.mem_iff_isSome_getElem?, hk]
    rfl
  have hne : index.isEmpty = false := Std.HashMap.isEmpty_eq_false_iff_exists_mem.2 ⟨k, hmem⟩
  rw [Std.HashMap.isEmpty_eq_size_eq_zero, beq_eq_false_iff_ne] at hne
  rw [Std.HashMap.size_erase, if_pos hmem]
  omega

/-- The index leads from each key to the handle of the one entry that has it. -/
structure Indexes (index : Std.HashMap κ Handle) (key : α → κ) (l : List (Handle × α)) : Prop where
  keyed : Keyed key (l.map (·.2))
  getElem? : ∀ k h, index[k]? = some h ↔ ∃ e, (h, e) ∈ l ∧ (key e == k) = true
  size : index.size = l.length

namespace Indexes

theorem empty (key : α → κ) : Indexes {} key [] where
  keyed := List.Pairwise.nil
  getElem? k h := by simp
  size := Std.HashMap.size_empty

/-- An entry may change as long as it keeps its key. -/
theorem set (hi : Indexes index key ((h, e) :: l)) {e' : α} (he : key e' = key e) :
    Indexes index key ((h, e') :: l) where
  keyed := hi.keyed.set he
  getElem? k i := by
    rw [hi.getElem?]
    simp only [List.mem_cons, Prod.mk.injEq, or_and_right, exists_or, and_assoc, exists_and_left,
      exists_eq_left, he]
  size := hi.size

/-- The entry that a key leads to. -/
theorem split (hi : Indexes index key l) (hk : index[k]? = some h) :
    ∃ e l₁ l₂, l = l₁ ++ (h, e) :: l₂ ∧ (key e == k) = true := by
  obtain ⟨e, hm, he⟩ := (hi.getElem? k h).1 hk
  obtain ⟨l₁, l₂, rfl⟩ := List.append_of_mem hm
  exact ⟨e, l₁, l₂, rfl, he⟩

theorem contains_iff [EquivBEq κ] [LawfulHashable κ] (hi : Indexes index key l) :
    index.contains k = true ↔ ∃ x ∈ l, (key x.2 == k) = true := by
  rw [Std.HashMap.contains_eq_isSome_getElem?, Option.isSome_iff_exists]
  simp only [hi.getElem?, Prod.exists]

/-- No entry has a key that leads nowhere. -/
theorem absent (hi : Indexes index key l) (hk : index[k]? = none) :
    ∀ x ∈ l, (key x.2 == k) = false := by
  intro x hx
  rw [← Bool.not_eq_true]
  intro he
  have hsome := (hi.getElem? k x.1).2 ⟨x.2, hx, he⟩
  rw [hk] at hsome
  cases hsome

variable [EquivBEq κ]

theorem perm (hi : Indexes index key l) {r : List (Handle × α)} (hp : l.Perm r) : Indexes index key r where
  keyed := hi.keyed.perm (hp.map _)
  getElem? k h := by simp only [hi.getElem?, hp.mem_iff]
  size := hi.size.trans hp.length_eq

/-- The same for an entry within the list. -/
theorem set_middle {r : List (Handle × α)} (hi : Indexes index key (l ++ (h, e) :: r)) {e' : α}
    (he : key e' = key e) : Indexes index key (l ++ (h, e') :: r) :=
  ((hi.perm List.perm_middle).set he).perm List.perm_middle.symm

variable [LawfulHashable κ]

theorem insert (hi : Indexes index key l) (hk : index[k]? = none) (h : Handle) (he : key e = k) :
    Indexes (index.insert k h) key ((h, e) :: l) where
  keyed := by
    refine List.pairwise_cons.2 ⟨?_, hi.keyed⟩
    intro y hy
    obtain ⟨x, hx, rfl⟩ := List.mem_map.1 hy
    rw [BEq.comm, he]
    exact hi.absent hk x hx
  getElem? k' h' := by
    rw [Std.HashMap.getElem?_insert]
    simp only [List.mem_cons, Prod.mk.injEq, or_and_right, exists_or, and_assoc, exists_and_left,
      exists_eq_left, he]
    cases hkk : k == k' with
    | true =>
      -- no older entry has the new key
      have hnone : index[k']? = none := by rw [← Std.HashMap.getElem?_congr hkk, hk]
      rw [← hi.getElem?, hnone]
      simp [eq_comm]
    | false => simp [hi.getElem?]
  size := by
    rw [size_insert_of_absent hk, hi.size, List.length_cons]

theorem erase (hi : Indexes index key ((h, e) :: l)) (hk : (key e == k) = true) :
    Indexes (index.erase k) key l where
  keyed := (List.pairwise_cons.1 hi.keyed).2
  getElem? k' h' := by
    have hother := hi.keyed.other (l := []) hk
    rw [Std.HashMap.getElem?_erase]
    cases hkk : k == k' with
    | true =>
      rw [if_pos rfl]
      constructor
      · intro hn; cases hn
      · rintro ⟨e', hm, he'⟩
        have hf := hother e' (List.mem_map.2 ⟨_, hm, rfl⟩)
        rw [BEq.congr_right hkk, he'] at hf
        cases hf
    | false =>
      have he : (key e == k') = false := by rw [BEq.congr_left hk, hkk]
      simp [hi.getElem?, or_and_right, exists_or, he]
  size := by
    have hsize := size_erase_of_present ((hi.getElem? k h).2 ⟨e, by simp, hk⟩)
    rw [hi.size, List.length_cons] at hsize
    exact Nat.succ.inj hsize

end Indexes

end Caching
