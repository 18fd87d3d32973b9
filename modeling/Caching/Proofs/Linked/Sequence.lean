import Caching.Linked.Sequence
import Caching.Proofs.Linked.Chain

/-!
# Sequences as lists

A sequence holds a list of values, each with its handle (`Sequence.Holds`), if its pool stores exactly these values
and its chain lists their handles.  Since every live node is linked, each operation is the one on the list that its
name says, for any handle.
-/

namespace Caching.Linked.Sequence

open Pool

variable {α : Type} {s : Sequence α} {l r : List (Handle × α)} {h : Handle} {v : α}

structure Holds (s : Sequence α) (l : List (Handle × α)) : Prop where
  stores : s.pool.Stores l
  lists : s.chain.Lists s.pool (l.map (·.1))

namespace Holds

theorem empty : (Sequence.empty : Sequence α).Holds [] := ⟨.empty, .empty _⟩

theorem length (hs : s.Holds l) : s.length = l.length := by
  rw [Sequence.length, hs.lists.length, List.length_map]

/-- The value under a handle of the list. -/
theorem get?_middle (hs : s.Holds (l ++ (h, v) :: r)) : s.get? h = some v := (hs.stores.get? h v).2 (by simp)

theorem toList (hs : s.Holds l) : s.toList = l.map (·.2) := by
  rw [Sequence.toList, hs.lists.handles_eq, List.filterMap_map]
  have hget : ∀ x ∈ l, (s.pool.get? ∘ fun x : Handle × α => x.1) x = some x.2 :=
    fun x hx => (hs.stores.get? _ _).2 hx
  rw [List.filterMap_congr hget, ← List.filterMap_eq_map]
  rfl

/-! ### Insertion -/

private theorem contains_insert (hs : s.Holds l) (v : α) : (s.pool.insert v).2.contains s.pool.fresh = true :=
  contains_of_get? (((hs.stores.insert v).get? _ v).2 (List.mem_cons_self ..))

theorem pushFirst (hs : s.Holds l) (v : α) :
    (s.pushFirst v).1 = s.pool.fresh ∧ (s.pushFirst v).2.Holds ((s.pool.fresh, v) :: l) := by
  have hfst := insert_fst s.pool v
  have hsound := hs.stores.sound
  obtain ⟨hl, hr⟩ :=
    (hs.lists.insert hsound v).attachFirst (hs.contains_insert v) (hs.lists.fresh_not_mem hsound)
  have hstores := (hs.stores.insert v).relinked hr
  simp only [Sequence.pushFirst, hfst]
  exact ⟨trivial, hstores, hl⟩

theorem pushLast (hs : s.Holds l) (v : α) :
    (s.pushLast v).1 = s.pool.fresh ∧ (s.pushLast v).2.Holds (l ++ [(s.pool.fresh, v)]) := by
  have hfst := insert_fst s.pool v
  have hsound := hs.stores.sound
  obtain ⟨hl, hr⟩ :=
    (hs.lists.insert hsound v).attachLast (hs.contains_insert v) (hs.lists.fresh_not_mem hsound)
  have hstores := (hs.stores.insert v).relinked hr
  simp only [Sequence.pushLast, hfst]
  exact ⟨trivial, hstores.perm (List.perm_append_singleton _ _).symm, by simpa using hl⟩

/-- A new value directly after a value of the list. -/
theorem insertAfter (hs : s.Holds (l ++ (h, v) :: r)) (w : α) :
    let x := s.chain.attachAfter (s.pool.insert w).2 h (s.pool.insert w).1
    (s.pool.insert w).1 = s.pool.fresh ∧
      (Sequence.mk x.2 x.1).Holds (l ++ (h, v) :: (s.pool.fresh, w) :: r) := by
  have hfst := insert_fst s.pool w
  have hsound := hs.stores.sound
  have hlists := hs.lists.insert hsound w
  have hfresh := hs.lists.fresh_not_mem hsound
  rw [List.map_append, List.map_cons] at hlists hfresh
  obtain ⟨hl, hr⟩ := hlists.attachAfter (hs.contains_insert w) hfresh
  -- the pool stores the new value first, the chain links it behind its predecessor
  have hperm : ((s.pool.fresh, w) :: (l ++ (h, v) :: r)).Perm (l ++ (h, v) :: (s.pool.fresh, w) :: r) := by
    have hmiddle : (l ++ [(h, v)] ++ (s.pool.fresh, w) :: r).Perm ((s.pool.fresh, w) :: (l ++ [(h, v)] ++ r)) :=
      List.perm_middle
    simp only [List.append_assoc, List.singleton_append] at hmiddle
    exact hmiddle.symm
  rw [hfst]
  exact ⟨rfl, ((hs.stores.insert w).relinked hr).perm hperm, by simpa using hl⟩

/-! ### Erasure -/

/-- Freeing a node that was detached from the list leaves the rest of the list. -/
private theorem erase_detached (hs : s.Holds (l ++ (h, v) :: r)) {c : Chain} {p : Pool α} {ks : List Handle}
    (hc : c.Lists p ((l ++ r).map (·.1))) (hr : s.pool.Relinked ks p) :
    (p.erase h).1 = some v ∧ (Sequence.mk (p.erase h).2 c).Holds (l ++ r) := by
  have hstores := (hs.stores.relinked hr).perm List.perm_middle
  obtain ⟨herase, hrest⟩ := hstores.erase
  refine ⟨herase, hrest, hc.erase ?_⟩
  intro hm
  obtain ⟨x, hx, hxh⟩ := List.mem_map.1 hm
  exact hstores.ne_of_mem hx hxh

/-- Detaching a value and then freeing its node. -/
theorem detach_erase (hs : s.Holds (l ++ (h, v) :: r)) :
    let x := (s.chain.detach s.pool h).2
    (x.2.erase h).1 = some v ∧ (Sequence.mk (x.2.erase h).2 x.1).Holds (l ++ r) := by
  have hlists := hs.lists
  rw [List.map_append, List.map_cons] at hlists
  obtain ⟨-, hc, hr⟩ := hlists.detach
  rw [← List.map_append] at hc
  exact hs.erase_detached hc hr

theorem erase (hs : s.Holds (l ++ (h, v) :: r)) : (s.erase h).1 = some v ∧ (s.erase h).2.Holds (l ++ r) := by
  have hlists := hs.lists
  rw [List.map_append, List.map_cons] at hlists
  have htrue := hlists.detach.1
  have hres := hs.detach_erase
  unfold Sequence.erase
  generalize s.chain.detach s.pool h = x at htrue hres ⊢
  obtain ⟨b, c, p⟩ := x
  obtain rfl : b = true := htrue
  exact hres

theorem popFirst (hs : s.Holds l) : s.popFirst.1 = l.head?.map (·.2) ∧ s.popFirst.2.Holds l.tail := by
  obtain ⟨hhead, hc, hr⟩ := hs.lists.detachFirst
  unfold Sequence.popFirst
  cases l with
  | nil =>
    have hres : s.chain.detachFirst s.pool = (none, s.chain, s.pool) := by
      simp only [Chain.detachFirst, hs.lists.first, List.map_nil, List.head?_nil]
    rw [hres]
    exact ⟨rfl, hs⟩
  | cons x l =>
    have hres := erase_detached (l := []) (h := x.1) (v := x.2) hs hc hr
    generalize s.chain.detachFirst s.pool = y at hhead hres ⊢
    obtain ⟨h?, c, p⟩ := y
    obtain rfl : h? = some x.1 := hhead
    exact hres

theorem popLast (hs : s.Holds l) : s.popLast.1 = l.getLast?.map (·.2) ∧ s.popLast.2.Holds l.dropLast := by
  obtain ⟨hlast, hc, hr⟩ := hs.lists.detachLast
  unfold Sequence.popLast
  rcases List.eq_nil_or_concat l with rfl | ⟨l, x, rfl⟩
  · have hres : s.chain.detachLast s.pool = (none, s.chain, s.pool) := by
      simp only [Chain.detachLast, hs.lists.last, List.map_nil, List.getLast?_nil]
    rw [hres]
    exact ⟨rfl, hs⟩
  · rw [List.concat_eq_append] at hs hc hlast ⊢
    have hres := erase_detached (r := []) (h := x.1) (v := x.2) hs (by simpa using hc) hr
    generalize s.chain.detachLast s.pool = y at hlast hres ⊢
    obtain ⟨h?, c, p⟩ := y
    obtain rfl : h? = some x.1 := by simpa using hlast
    simpa using hres

theorem clear (s : Sequence α) : s.clear.Holds [] := ⟨.empty, .empty _⟩

/-! ### Changes in place -/

theorem moveToFirst (hs : s.Holds (l ++ (h, v) :: r)) : (s.moveToFirst h).Holds ((h, v) :: (l ++ r)) := by
  have hlists := hs.lists
  rw [List.map_append, List.map_cons] at hlists
  obtain ⟨hc, hr⟩ := hlists.moveToFirst
  refine ⟨(hs.stores.relinked hr).perm List.perm_middle, ?_⟩
  show (s.chain.moveToFirst s.pool h).1.Lists (s.chain.moveToFirst s.pool h).2 _
  simpa using hc

theorem modifyValue (hs : s.Holds (l ++ (h, v) :: r)) (f : α → α) :
    (s.modifyValue h f).Holds (l ++ (h, f v) :: r) := by
  have hlists := hs.lists.modifyValue h f
  refine ⟨((hs.stores.perm List.perm_middle).modifyValue f).perm List.perm_middle.symm, ?_⟩
  show s.chain.Lists (s.pool.modifyValue h f) _
  simpa using hlists

end Holds

/-! ### Where there is nothing to change -/

theorem erase_of_not_contains (hc : s.pool.contains h = false) : s.erase h = (none, s) := by
  simp only [Sequence.erase, s.chain.detach_of_not_contains hc]

theorem moveToFirst_of_not_contains (hc : s.pool.contains h = false) : s.moveToFirst h = s := by
  simp only [Sequence.moveToFirst, s.chain.moveToFirst_of_not_contains hc]

theorem modifyValue_of_not_contains (hc : s.pool.contains h = false) (f : α → α) : s.modifyValue h f = s := by
  simp only [Sequence.modifyValue, Pool.modifyValue, Pool.modify_of_not_contains _ hc]

theorem replace_of_not_contains (hc : s.pool.contains h = false) (v : α) : s.replace h v = (none, s) := by
  simp only [Sequence.replace, Pool.replace, Pool.modifyValue, Pool.modify_of_not_contains _ hc,
    contains_eq_false_iff.1 hc]

theorem popFirst_of_first?_none (hf : s.chain.first? = none) : s.popFirst = (none, s) := by
  simp only [popFirst, Chain.detachFirst, hf]

theorem popLast_of_last?_none (hl : s.chain.last? = none) : s.popLast = (none, s) := by
  simp only [popLast, Chain.detachLast, hl]

end Caching.Linked.Sequence
