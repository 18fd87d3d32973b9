import Caching.Proofs.Bounded.Keyed
import Caching.Proofs.Linked.Slots

/-!
# Sequences as numbered lists

A sequence names its values by handles, and a handle may be anything: live, given back long ago, or never given out.
The naive model is a list of values with their numbers, beside the numbers given back (`NumberedList`).  A new value
takes the number given back last, or the next one that was never given out, so that its number is not a live one.

A sequence agrees with such a list when it holds the same values under the same numbers and would give the same
numbers out (`Sequence.Agrees`).  Every live node is linked, so that every request keeps the agreement and is
answered alike, whatever handle it names (`Sequence.Agrees.answer`); a handle that is not live is refused without
effect, and a live one keeps its value until its node goes.
-/

namespace Caching.Linked

/-- Values with their numbers, from first to last. -/
structure NumberedList (α : Type) where
  items : List (Handle × α) := []
  /-- The numbers given back, the last one first. -/
  free : List Handle := []
  /-- The first number that was never given out. -/
  next : Handle := 0

namespace Sequence

inductive Request (α : Type) where
  | pushFirst (v : α)
  | pushLast (v : α)
  | erase (h : Handle)
  | popFirst
  | popLast
  | moveToFirst (h : Handle)
  | get (h : Handle)
  /-- Changes the value under a handle and tells what it was. -/
  | edit (h : Handle) (f : α → α)
  /-- Puts another value under a handle and tells the old one. -/
  | replace (h : Handle) (v : α)
  | length
  | values
  | clear

inductive Answer (α : Type) where
  | done
  | handle (h : Handle)
  | value? (v? : Option α)
  | number (n : Nat)
  | values (vs : List α)
  deriving DecidableEq

namespace Request

variable {α : Type}

/-- The handle that a request names. -/
def handle? : Request α → Option Handle
  | .erase h | .moveToFirst h | .get h | .edit h _ | .replace h _ => some h
  | .pushFirst _ | .pushLast _ | .popFirst | .popLast | .length | .values | .clear => none

/-- The answer to a request that names a stale handle. -/
def refusal : Request α → Answer α
  | .erase _ | .get _ | .edit _ _ | .replace _ _ => .value? none
  | _ => .done

/-- What a request makes of the value under a handle that stays live. -/
def edited (r : Request α) (h : Handle) (v : α) : α :=
  match r with
  | .edit i f => if i = h then f v else v
  | .replace i w => if i = h then w else v
  | _ => v

end Request

variable {α : Type}

def answer (s : Sequence α) : Request α → Answer α × Sequence α
  | .pushFirst v => let (h, s) := s.pushFirst v; (.handle h, s)
  | .pushLast v => let (h, s) := s.pushLast v; (.handle h, s)
  | .erase h => let (v?, s) := s.erase h; (.value? v?, s)
  | .popFirst => let (v?, s) := s.popFirst; (.value? v?, s)
  | .popLast => let (v?, s) := s.popLast; (.value? v?, s)
  | .moveToFirst h => (.done, s.moveToFirst h)
  | .get h => (.value? (s.get? h), s)
  | .edit h f => (.value? (s.get? h), s.modifyValue h f)
  | .replace h v => let (old?, s) := s.replace h v; (.value? old?, s)
  | .length => (.number s.length, s)
  | .values => (.values s.toList, s)
  | .clear => (.done, s.clear)

/-- Whatever count a request lowers, it is not zero. -/
def CountsDown (s : Sequence α) : Request α → Prop
  | .erase h | .moveToFirst h => s.pool.contains h = true → 0 < s.pool.size ∧ 0 < s.chain.length
  | .popFirst => s.chain.first? ≠ none → 0 < s.pool.size ∧ 0 < s.chain.length
  | .popLast => s.chain.last? ≠ none → 0 < s.pool.size ∧ 0 < s.chain.length
  | _ => True

end Sequence

/-! ### The naive model -/

namespace NumberedList

open Sequence (Request Answer)

variable {α : Type}

def empty : NumberedList α := {}

def numbers (m : NumberedList α) : List Handle := m.items.map (·.1)

def values (m : NumberedList α) : List α := m.items.map (·.2)

def find? (m : NumberedList α) (h : Handle) : Option (Handle × α) := m.items.find? fun x => x.1 == h

/-- The number that a new value takes. -/
def fresh (m : NumberedList α) : Handle := m.free.headD m.next

/-- The list with other items, when the number of a new value has been taken. -/
def take (m : NumberedList α) (items : List (Handle × α)) : NumberedList α :=
  { items, free := m.free.tail, next := if m.free.isEmpty then m.next + 1 else m.next }

/-- The list with other items, when a number has been given back. -/
def giveBack (m : NumberedList α) (h : Handle) (items : List (Handle × α)) : NumberedList α :=
  { m with items, free := h :: m.free }

def answer (m : NumberedList α) : Request α → Answer α × NumberedList α
  | .pushFirst v => (.handle m.fresh, m.take ((m.fresh, v) :: m.items))
  | .pushLast v => (.handle m.fresh, m.take (m.items ++ [(m.fresh, v)]))
  | .erase h =>
    match m.find? h with
    | none => (.value? none, m)
    | some x => (.value? (some x.2), m.giveBack h (m.items.eraseP fun x => x.1 == h))
  | .popFirst =>
    match m.items.head? with
    | none => (.value? none, m)
    | some x => (.value? (some x.2), m.giveBack x.1 m.items.tail)
  | .popLast =>
    match m.items.getLast? with
    | none => (.value? none, m)
    | some x => (.value? (some x.2), m.giveBack x.1 m.items.dropLast)
  | .moveToFirst h =>
    match m.find? h with
    | none => (.done, m)
    | some x => (.done, { m with items := x :: m.items.eraseP fun x => x.1 == h })
  | .get h => (.value? ((m.find? h).map (·.2)), m)
  | .edit h f =>
    (.value? ((m.find? h).map (·.2)),
      { m with items := m.items.map fun x => if x.1 == h then (x.1, f x.2) else x })
  | .replace h v =>
    (.value? ((m.find? h).map (·.2)), { m with items := m.items.map fun x => if x.1 == h then (x.1, v) else x })
  | .length => (.number m.items.length, m)
  | .values => (.values m.values, m)
  | .clear => (.done, .empty)

/-- A request that takes the value with this number out. -/
def TakesOut (m : NumberedList α) (h : Handle) : Request α → Prop
  | .erase i => i = h
  | .popFirst => m.numbers.head? = some h
  | .popLast => m.numbers.getLast? = some h
  | .clear => True
  | _ => False

end NumberedList

/-! ### Agreement -/

namespace Sequence

open Pool (SameSlots)

variable {α : Type} {s s' : Sequence α} {m : NumberedList α} {h : Handle} {items l r : List (Handle × α)} {v : α}

/-- The sequence holds the items of the list and gives out the same numbers. -/
structure Agrees (s : Sequence α) (m : NumberedList α) : Prop where
  holds : s.Holds m.items
  free : s.pool.free = m.free
  next : s.pool.slots.size = m.next

namespace Agrees

theorem empty : (Sequence.empty : Sequence α).Agrees .empty := ⟨.empty, rfl, rfl⟩

private theorem fresh (hs : s.Agrees m) : s.pool.fresh = m.fresh := by
  rw [Pool.fresh, NumberedList.fresh, hs.free, hs.next]

private theorem contains_iff (hs : s.Agrees m) :
    s.pool.contains h = true ↔ h ∈ m.numbers :=
  hs.holds.stores.contains_iff

private theorem keyed (hs : s.Agrees m) : Keyed (·.1) m.items :=
  (List.pairwise_map.1 hs.holds.stores.nodup).imp fun hne => beq_eq_false_iff_ne.2 hne

/-- A handle is stale in both, or both have its value in one place. -/
private theorem lookup (hs : s.Agrees m) (h : Handle) :
    (s.pool.contains h = false ∧ m.find? h = none) ∨
      ∃ l v r, m.items = l ++ (h, v) :: r ∧ s.pool.contains h = true ∧ m.find? h = some (h, v) ∧
        m.items.eraseP (fun x => x.1 == h) = l ++ r := by
  cases hc : s.pool.contains h with
  | false =>
    refine Or.inl ⟨rfl, List.find?_eq_none.2 ?_⟩
    intro x hx hxh
    have hmem : h ∈ m.numbers := List.mem_map.2 ⟨x, hx, eq_of_beq hxh⟩
    rw [← hs.contains_iff, hc] at hmem
    exact Bool.noConfusion hmem
  | true =>
    obtain ⟨x, hx, rfl⟩ := List.mem_map.1 (hs.contains_iff.1 hc)
    obtain ⟨l, r, hitems⟩ := List.append_of_mem hx
    have hkeyed := hs.keyed
    rw [hitems] at hkeyed
    refine Or.inr ⟨l, x.2, r, hitems, rfl, ?_, ?_⟩
    · rw [NumberedList.find?, hitems]
      exact hkeyed.find?_middle BEq.rfl
    · rw [hitems]
      exact hkeyed.eraseP_middle BEq.rfl

theorem get? (hs : s.Agrees m) (h : Handle) : s.get? h = (m.find? h).map (·.2) := by
  rcases hs.lookup h with ⟨hc, hfind⟩ | ⟨l, v, r, hitems, -, hfind, -⟩
  · rw [hfind]
    exact Pool.contains_eq_false_iff.1 hc
  · have hholds := hs.holds
    rw [hitems] at hholds
    rw [hfind]
    exact hholds.get?_middle

/-! What an insertion and what an erasure do to the numbers. -/

private theorem take (hs : s.Agrees m) (hholds : s'.Holds items) (hsame : (s.pool.insert v).2.SameSlots s'.pool) :
    s'.Agrees (m.take items) where
  holds := hholds
  free := by rw [hsame.free, Pool.free_insert, hs.free]; rfl
  next := by rw [hsame.slots, Pool.size_slots_insert, hs.free, hs.next]; rfl

private theorem giveBack (hs : s.Agrees m) (hc : s.pool.contains h = true) (hholds : s'.Holds items)
    (hsame : (s.pool.erase h).2.SameSlots s'.pool) : s'.Agrees (m.giveBack h items) where
  holds := hholds
  free := by rw [hsame.free, Pool.free_erase, if_pos hc, hs.free]; rfl
  next := by rw [hsame.slots, Pool.size_slots_erase, hs.next]; rfl

/-- A change that leaves the slots as they are. -/
private theorem rearrange (hs : s.Agrees m) (hholds : s'.Holds items) (hsame : s.pool.SameSlots s'.pool) :
    s'.Agrees { m with items } := ⟨hholds, hsame.free.trans hs.free, hsame.slots.trans hs.next⟩

/-! ### One request -/

private theorem pushFirst (hs : s.Agrees m) (v : α) :
    (s.pushFirst v).1 = m.fresh ∧ (s.pushFirst v).2.Agrees (m.take ((m.fresh, v) :: m.items)) := by
  obtain ⟨hfst, hholds⟩ := hs.holds.pushFirst v
  rw [hs.fresh] at hfst hholds
  exact ⟨hfst, hs.take hholds (s.sameSlots_pushFirst v)⟩

private theorem pushLast (hs : s.Agrees m) (v : α) :
    (s.pushLast v).1 = m.fresh ∧ (s.pushLast v).2.Agrees (m.take (m.items ++ [(m.fresh, v)])) := by
  obtain ⟨hfst, hholds⟩ := hs.holds.pushLast v
  rw [hs.fresh] at hfst hholds
  exact ⟨hfst, hs.take hholds (s.sameSlots_pushLast v)⟩

private theorem erase (hs : s.Agrees m) (h : Handle) :
    (s.answer (.erase h)).1 = (m.answer (.erase h)).1 ∧
      (s.answer (.erase h)).2.Agrees (m.answer (.erase h)).2 := by
  rcases hs.lookup h with ⟨hc, hfind⟩ | ⟨l, v, r, hitems, hc, hfind, herase⟩
  · simp only [Sequence.answer, NumberedList.answer, hfind, erase_of_not_contains hc]
    exact ⟨trivial, hs⟩
  · have hholds := hs.holds
    rw [hitems] at hholds
    obtain ⟨hfst, hrest⟩ := hholds.erase
    simp only [Sequence.answer, NumberedList.answer, hfind, herase, hfst]
    exact ⟨trivial, hs.giveBack hc hrest (s.sameSlots_erase h)⟩

private theorem popFirst (hs : s.Agrees m) :
    (s.answer .popFirst).1 = (m.answer .popFirst).1 ∧ (s.answer .popFirst).2.Agrees (m.answer .popFirst).2 := by
  obtain ⟨hfst, hrest⟩ := hs.holds.popFirst
  have hfirst := hs.holds.lists.first
  rw [List.head?_map] at hfirst
  cases hx : m.items.head? with
  | none =>
    rw [hx] at hfirst
    simp only [Sequence.answer, NumberedList.answer, hx, popFirst_of_first?_none hfirst]
    exact ⟨trivial, hs⟩
  | some x =>
    rw [hx] at hfirst hfst
    simp only [Sequence.answer, NumberedList.answer, hx, hfst]
    have hc : s.pool.contains x.1 = true :=
      hs.contains_iff.2 (List.mem_map.2 ⟨x, List.mem_of_head? hx, rfl⟩)
    exact ⟨rfl, hs.giveBack hc hrest (sameSlots_popFirst hfirst)⟩

private theorem popLast (hs : s.Agrees m) :
    (s.answer .popLast).1 = (m.answer .popLast).1 ∧ (s.answer .popLast).2.Agrees (m.answer .popLast).2 := by
  obtain ⟨hfst, hrest⟩ := hs.holds.popLast
  have hlast := hs.holds.lists.last
  rw [List.getLast?_map] at hlast
  cases hx : m.items.getLast? with
  | none =>
    rw [hx] at hlast
    simp only [Sequence.answer, NumberedList.answer, hx, popLast_of_last?_none hlast]
    exact ⟨trivial, hs⟩
  | some x =>
    rw [hx] at hlast hfst
    simp only [Sequence.answer, NumberedList.answer, hx, hfst]
    have hc : s.pool.contains x.1 = true :=
      hs.contains_iff.2 (List.mem_map.2 ⟨x, List.mem_of_getLast? hx, rfl⟩)
    exact ⟨rfl, hs.giveBack hc hrest (sameSlots_popLast hlast)⟩

private theorem moveToFirst (hs : s.Agrees m) (h : Handle) :
    (s.moveToFirst h).Agrees (m.answer (.moveToFirst h)).2 := by
  rcases hs.lookup h with ⟨hc, hfind⟩ | ⟨l, v, r, hitems, -, hfind, herase⟩
  · simp only [NumberedList.answer, hfind, moveToFirst_of_not_contains hc]
    exact hs
  · have hholds := hs.holds
    rw [hitems] at hholds
    simp only [NumberedList.answer, hfind, herase]
    exact hs.rearrange hholds.moveToFirst (s.sameSlots_moveToFirst h)

private theorem edit (hs : s.Agrees m) (h : Handle) (f : α → α) :
    (s.modifyValue h f).Agrees (m.answer (.edit h f)).2 := by
  rcases hs.lookup h with ⟨hc, hfind⟩ | ⟨l, v, r, hitems, -, -, -⟩
  · -- nothing has the number
    have hsame : m.items.map (fun x => if x.1 == h then (x.1, f x.2) else x) = m.items := by
      conv_rhs => rw [← List.map_id m.items]
      apply List.map_congr_left
      intro x hx
      rw [if_neg (List.find?_eq_none.1 hfind x hx)]
      rfl
    simp only [NumberedList.answer, hsame, modifyValue_of_not_contains hc]
    exact hs
  · have hholds := hs.holds
    have hkeyed := hs.keyed
    rw [hitems] at hholds hkeyed
    have hmap : m.items.map (fun x => if x.1 == h then (x.1, f x.2) else x) = l ++ (h, f v) :: r := by
      rw [hitems]
      exact hkeyed.map_middle BEq.rfl fun x => (x.1, f x.2)
    simp only [NumberedList.answer, hmap]
    exact hs.rearrange (hholds.modifyValue f) (Pool.sameSlots_modify _ h)

/-- Every request is answered as the list answers it. -/
theorem answer (hs : s.Agrees m) (r : Request α) :
    (s.answer r).1 = (m.answer r).1 ∧ (s.answer r).2.Agrees (m.answer r).2 := by
  cases r with
  | pushFirst v => exact ⟨congrArg Answer.handle (hs.pushFirst v).1, (hs.pushFirst v).2⟩
  | pushLast v => exact ⟨congrArg Answer.handle (hs.pushLast v).1, (hs.pushLast v).2⟩
  | erase h => exact hs.erase h
  | popFirst => exact hs.popFirst
  | popLast => exact hs.popLast
  | moveToFirst h =>
    refine ⟨?_, hs.moveToFirst h⟩
    simp only [Sequence.answer, NumberedList.answer]
    cases m.find? h <;> rfl
  | get h => exact ⟨congrArg Answer.value? (hs.get? h), hs⟩
  | edit h f => exact ⟨congrArg Answer.value? (hs.get? h), hs.edit h f⟩
  | replace h v => exact ⟨congrArg Answer.value? (hs.get? h), hs.edit h fun _ => v⟩
  | length => exact ⟨congrArg Answer.number hs.holds.length, hs⟩
  | values => exact ⟨congrArg Answer.values hs.holds.toList, hs⟩
  | clear => exact ⟨rfl, .clear s, rfl, rfl⟩

/-! ### What every request keeps -/

private theorem mem_items (hs : s.Agrees m) : s.get? h = some v ↔ (h, v) ∈ m.items := hs.holds.stores.get? h v

/-- A value keeps its number while it is in the list. -/
private theorem keeps (hs : s.Agrees m) {r : Request α} (hv : s.get? h = some v) (hr : ¬ m.TakesOut h r) :
    (s.answer r).2.get? h = some (r.edited h v) := by
  rw [(hs.answer r).2.mem_items]
  rw [hs.mem_items] at hv
  cases r with
  | pushFirst w => exact List.mem_cons_of_mem _ hv
  | pushLast w => exact List.mem_append_left _ hv
  | erase i =>
    have hne : ¬ (h == i) = true := fun he => hr (eq_of_beq he).symm
    simp only [NumberedList.answer, Request.edited]
    split
    · exact hv
    · exact (List.mem_eraseP_of_neg (p := fun x : Handle × α => x.1 == i) hne).2 hv
  | popFirst =>
    simp only [NumberedList.answer, Request.edited]
    cases hitems : m.items with
    | nil =>
      rw [hitems] at hv
      cases hv
    | cons x l =>
      rw [hitems] at hv
      rcases List.mem_cons.1 hv with rfl | hv
      · exact absurd (by simp [NumberedList.TakesOut, NumberedList.numbers, hitems]) hr
      · exact hv
  | popLast =>
    simp only [NumberedList.answer, Request.edited]
    rcases List.eq_nil_or_concat m.items with hitems | ⟨l, x, hitems⟩
    · rw [hitems] at hv
      cases hv
    · rw [List.concat_eq_append] at hitems
      rw [hitems] at hv ⊢
      rw [List.getLast?_concat]
      rcases List.mem_append.1 hv with hv | hv
      · simpa [NumberedList.giveBack] using hv
      · obtain rfl := List.mem_singleton.1 hv
        exact absurd (by simp [NumberedList.TakesOut, NumberedList.numbers, hitems]) hr
  | moveToFirst i =>
    rcases hs.lookup i with ⟨-, hfind⟩ | ⟨l, w, r, hitems, -, hfind, herase⟩
    · simp only [NumberedList.answer, hfind]
      exact hv
    · rw [hitems] at hv
      simp only [NumberedList.answer, hfind, herase]
      exact List.perm_middle.mem_iff.1 hv
  | edit i _ | replace i _ =>
    refine List.mem_map.2 ⟨(h, v), hv, ?_⟩
    simp only [Request.edited, beq_iff_eq, eq_comm (a := i)]
    split <;> rfl
  | get i => exact hv
  | length => exact hv
  | values => exact hv
  | clear => exact absurd trivial hr

/-- Every live node is linked, so that the pool and the chain count alike. -/
private theorem countsDown (hs : s.Agrees m) (r : Request α) : s.CountsDown r := by
  have hpos : ∀ i, s.pool.contains i = true → 0 < s.pool.size ∧ 0 < s.chain.length := by
    intro i hi
    have hsize := hs.holds.stores.sound.size_pos hi
    have hlength := hs.holds.length
    rw [hs.holds.stores.size_eq_length] at hsize
    rw [Sequence.length] at hlength
    rw [hs.holds.stores.size_eq_length, hlength]
    exact ⟨hsize, hsize⟩
  cases r with
  | erase h => exact hpos h
  | moveToFirst h => exact hpos h
  | popFirst =>
    intro hf
    obtain ⟨i, hi⟩ := Option.ne_none_iff_exists'.1 hf
    refine hpos i (hs.holds.lists.contains (List.mem_of_head? ?_))
    rw [← hs.holds.lists.first, hi]
  | popLast =>
    intro hl
    obtain ⟨i, hi⟩ := Option.ne_none_iff_exists'.1 hl
    refine hpos i (hs.holds.lists.contains (List.mem_of_getLast? ?_))
    rw [← hs.holds.lists.last, hi]
  | pushFirst v => trivial
  | pushLast v => trivial
  | get h => trivial
  | edit h f => trivial
  | replace h v => trivial
  | length => trivial
  | values => trivial
  | clear => trivial

end Agrees

/-- A request that names a stale handle is refused and changes nothing. -/
private theorem answer_of_stale (s : Sequence α) {r : Request α} (hr : r.handle? = some h)
    (hc : s.pool.contains h = false) : s.answer r = (r.refusal, s) := by
  have hget : s.get? h = none := Pool.contains_eq_false_iff.1 hc
  cases r with
  | erase i =>
    obtain rfl := Option.some.inj hr
    simp only [Sequence.answer, erase_of_not_contains hc]
    rfl
  | moveToFirst i =>
    obtain rfl := Option.some.inj hr
    simp only [Sequence.answer, moveToFirst_of_not_contains hc]
    rfl
  | get i =>
    obtain rfl := Option.some.inj hr
    simp only [Sequence.answer, hget]
    rfl
  | edit i f =>
    obtain rfl := Option.some.inj hr
    simp only [Sequence.answer, hget, modifyValue_of_not_contains hc]
    rfl
  | replace i v =>
    obtain rfl := Option.some.inj hr
    simp only [Sequence.answer, replace_of_not_contains hc]
    rfl
  | pushFirst v => cases hr
  | pushLast v => cases hr
  | popFirst => cases hr
  | popLast => cases hr
  | length => cases hr
  | values => cases hr
  | clear => cases hr

/-! ### What a sequence shows -/

/-- The list as it is read off the links and the slots.  The slots are the numbers given out so far; each is live,
and then linked, or given back. -/
structure Shows (s : Sequence α) (m : NumberedList α) : Prop where
  nodup : m.numbers.Nodup
  fresh_not_mem : m.fresh ∉ m.numbers
  free_nodup : m.free.Nodup
  disjoint : m.numbers.Disjoint m.free
  given : ∀ h, h < m.next ↔ h ∈ m.numbers ∨ h ∈ m.free
  slots : s.pool.slots.size = m.next
  free : s.pool.free = m.free
  contains : ∀ h, s.pool.contains h = true ↔ h ∈ m.numbers
  handles : s.chain.handles s.pool = m.numbers
  toList : s.toList = m.values
  length : s.length = m.values.length
  size : s.pool.size = s.chain.length

private theorem Agrees.shows (hs : s.Agrees m) : s.Shows m where
  nodup := hs.holds.stores.nodup
  fresh_not_mem := by
    rw [← hs.contains_iff, ← hs.fresh, hs.holds.stores.sound.contains_fresh]
    exact Bool.false_ne_true
  free_nodup := hs.free ▸ hs.holds.stores.sound.free_nodup
  disjoint := by
    intro h hnumber hfree
    rw [← hs.contains_iff] at hnumber
    rw [← hs.free, hs.holds.stores.sound.mem_free, hnumber] at hfree
    exact Bool.noConfusion hfree.2
  given h := by
    rw [← hs.contains_iff, ← hs.free, hs.holds.stores.sound.mem_free, ← hs.next]
    cases hc : s.pool.contains h with
    | true => simp [Pool.lt_size_of_contains hc]
    | false => simp
  slots := hs.next
  free := hs.free
  contains _ := hs.contains_iff
  handles := hs.holds.lists.handles_eq
  toList := hs.holds.toList
  length := by rw [hs.holds.length, NumberedList.values, List.length_map]
  size := by
    have hlength := hs.holds.length
    rw [Sequence.length] at hlength
    rw [hs.holds.stores.size_eq_length, hlength]

/-- In every run of requests, whatever handles they name, a sequence answers as the numbered list does and shows it.
At each point of the run a stale handle is refused without effect, a live one keeps its value until a request takes
it out, and no count is lowered below zero. -/
theorem sequence_answers_as_numberedList (rs : List (Request α)) :
    let s := answers Sequence.answer .empty rs
    let m := answers NumberedList.answer .empty rs
    s.1 = m.1 ∧ s.2.Shows m.2 ∧
      ∀ r,
        (∀ h, r.handle? = some h → s.2.pool.contains h = false → s.2.answer r = (r.refusal, s.2)) ∧
        (∀ h v, s.2.get? h = some v → ¬ m.2.TakesOut h r →
          (s.2.answer r).2.get? h = some (r.edited h v)) ∧
        s.2.CountsDown r := by
  intro s m
  obtain ⟨heq, hagrees⟩ : s.1 = m.1 ∧ s.2.Agrees m.2 := answers_simulates
    (R := fun _ (s : Sequence α) (m : NumberedList α) => s.Agrees m) (fun r _ _ _ hs => hs.answer r) .empty
  refine ⟨heq, hagrees.shows, fun r => ⟨?_, ?_, hagrees.countsDown r⟩⟩
  · intro h hr hc
    exact answer_of_stale _ hr hc
  · intro h v hv hr
    exact hagrees.keeps hv hr

/-- A handle that was given back is refused until it is given out again, and numbering restarts after clearing. -/
theorem numbers_given_back_are_given_out_again :
    let rs : List (Request Nat) :=
      [.pushLast 10, .pushLast 20, .pushFirst 30, .erase 1, .erase 1, .get 7, .moveToFirst 1, .moveToFirst 0,
        .edit 2 (· + 5), .replace 0 15, .replace 1 25, .popLast, .pushLast 40, .pushFirst 50, .values, .length,
        .clear, .get 0, .pushFirst 60]
    (answers Sequence.answer .empty rs).1 =
      [.handle 0, .handle 1, .handle 2, .value? (some 20), .value? none, .value? none, .done, .done,
        .value? (some 30), .value? (some 10), .value? none, .value? (some 35), .handle 2, .handle 1,
        .values [50, 15, 40], .number 3, .done, .value? none, .handle 0] := by
  intro rs
  rw [(sequence_answers_as_numberedList rs).1]
  rfl

end Sequence

end Caching.Linked
