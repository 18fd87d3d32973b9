import Mathlib
import Caching.Linked.Pool

/-!
# Sound pools

A pool is looked at in two ways: `get?` shows the values of its nodes, `links?` shows where the nodes lead.
Insertion, erasure and changes of a node are described by what they do to the two.  In a sound pool the free
handles are those of the empty slots, each once, so that an insertion meets no node (`Sound.contains_fresh`) and
the nodes that are counted are the nodes that are there (`Sound.size_eq_length`).  The empty pool is sound, and
insertion, erasure and every change of a node keep a pool so.
-/

namespace Caching.Linked.Pool

variable {α : Type} {p q r : Pool α} {h i : Handle} {hs : List Handle}

/-! ### The two views -/

/-- Where the node under a handle leads, back and forth. -/
def links? (p : Pool α) (h : Handle) : Option (Option Handle × Option Handle) :=
  (p.node? h).map fun n => (n.prev?, n.next?)

theorem contains_eq_isSome_get? (p : Pool α) (h : Handle) : p.contains h = (p.get? h).isSome := by
  simp [contains, get?]

private theorem contains_eq_isSome_links? (p : Pool α) (h : Handle) : p.contains h = (p.links? h).isSome := by
  simp [contains, links?]

theorem contains_iff_exists_get? : p.contains h = true ↔ ∃ v, p.get? h = some v := by
  rw [contains_eq_isSome_get?, Option.isSome_iff_exists]

theorem contains_of_get? {v : α} (hv : p.get? h = some v) : p.contains h = true :=
  contains_iff_exists_get?.2 ⟨v, hv⟩

theorem contains_of_links? {x : Option Handle × Option Handle} (hx : p.links? h = some x) :
    p.contains h = true := by
  rw [contains_eq_isSome_links?, hx]; rfl

theorem contains_eq_false_iff : p.contains h = false ↔ p.get? h = none := by
  rw [contains_eq_isSome_get?, Option.isSome_eq_false_iff, Option.isNone_iff_eq_none]

theorem lt_size_of_contains (hc : p.contains h = true) : h < p.slots.size := by
  by_contra hn
  simp [contains, node?, Array.getElem?_eq_none (Nat.le_of_not_lt hn)] at hc

/-- A list of different handles with nodes is no longer than the pool. -/
theorem length_le_slots (hnd : hs.Nodup) (hc : ∀ h ∈ hs, p.contains h = true) : hs.length ≤ p.slots.size := by
  have hsub : hs ⊆ List.range p.slots.size := by
    intro h hh
    exact List.mem_range.2 (lt_size_of_contains (hc h hh))
  have := (List.subperm_of_subset hnd hsub).length_le
  rwa [List.length_range] at this

/-! ### Changing a node -/

theorem get?_modify {f : Node α → Node α} (hf : ∀ n, (f n).value = n.value) (h i : Handle) :
    (p.modify h f).get? i = p.get? i := by
  simp only [get?, node?_modify]
  split
  · cases p.node? i <;> simp [hf]
  · rfl

theorem links?_modify (f : Node α → Node α) (h i : Handle) :
    (p.modify h f).links? i =
      if h = i then ((p.node? i).map f).map fun n => (n.prev?, n.next?) else p.links? i := by
  simp only [links?, node?_modify]
  split <;> rfl

theorem links?_modifyValue (f : α → α) (h i : Handle) : (p.modifyValue h f).links? i = p.links? i := by
  rw [modifyValue, links?_modify]
  split
  · simp only [links?, Option.map_map]; rfl
  · rfl

theorem get?_modifyValue (f : α → α) (h i : Handle) :
    (p.modifyValue h f).get? i = if h = i then (p.get? i).map f else p.get? i := by
  simp only [get?, modifyValue, node?_modify]
  split
  · cases p.node? i <;> rfl
  · rfl

theorem size_slots_modify (f : Node α → Node α) (h : Handle) :
    (p.modify h f).slots.size = p.slots.size := by
  simp [modify]

/-- A change under a stale handle changes nothing. -/
theorem modify_of_not_contains (f : Node α → Node α) (hc : p.contains h = false) : p.modify h f = p := by
  have hslots : p.slots.modify h (Option.map f) = p.slots := by
    apply Array.ext_getElem?
    intro i
    rw [Array.getElem?_modify]
    split
    · next e =>
      subst e
      simp only [contains, node?] at hc
      rcases hi : p.slots[h]? with _ | _ | n
      · rfl
      · rfl
      · simp [hi] at hc
    · rfl
  simp only [modify, hslots]

/-- The same slots hold nodes, and the free ones are taken in the same order. -/
structure SameSlots (p q : Pool α) : Prop where
  contains : ∀ h, q.contains h = p.contains h
  free : q.free = p.free
  size : q.size = p.size
  slots : q.slots.size = p.slots.size

namespace SameSlots

theorem refl (p : Pool α) : p.SameSlots p := ⟨fun _ => rfl, rfl, rfl, rfl⟩

theorem trans (h₁ : p.SameSlots q) (h₂ : q.SameSlots r) : p.SameSlots r where
  contains h := (h₂.contains h).trans (h₁.contains h)
  free := h₂.free.trans h₁.free
  size := h₂.size.trans h₁.size
  slots := h₂.slots.trans h₁.slots

end SameSlots

theorem SameSlots.modify (hs : p.SameSlots q) (f : Node α → Node α) (h : Handle) : p.SameSlots (q.modify h f) where
  contains i := (contains_modify q h i f).trans (hs.contains i)
  free := hs.free
  size := hs.size
  slots := (size_slots_modify f h).trans hs.slots

theorem sameSlots_modify (f : Node α → Node α) (h : Handle) : p.SameSlots (p.modify h f) :=
  (SameSlots.refl p).modify f h

/-- `q` is `p` up to where the nodes in `hs` lead. -/
structure Relinked (hs : List Handle) (p q : Pool α) : Prop where
  get? : ∀ h, q.get? h = p.get? h
  links? : ∀ h, h ∉ hs → q.links? h = p.links? h
  free : q.free = p.free
  size : q.size = p.size
  slots : q.slots.size = p.slots.size

namespace Relinked

theorem refl (hs : List Handle) (p : Pool α) : Relinked hs p p :=
  ⟨fun _ => rfl, fun _ _ => rfl, rfl, rfl, rfl⟩

theorem trans (h₁ : Relinked hs p q) (h₂ : Relinked hs q r) : Relinked hs p r where
  get? h := (h₂.get? h).trans (h₁.get? h)
  links? h hh := (h₂.links? h hh).trans (h₁.links? h hh)
  free := h₂.free.trans h₁.free
  size := h₂.size.trans h₁.size
  slots := h₂.slots.trans h₁.slots

theorem mono {ks : List Handle} (hr : Relinked hs p q) (hsub : hs ⊆ ks) : Relinked ks p q where
  get? := hr.get?
  links? h hh := hr.links? h fun hm => hh (hsub hm)
  free := hr.free
  size := hr.size
  slots := hr.slots

theorem modify {f : Node α → Node α} (hm : h ∈ hs) (hf : ∀ n, (f n).value = n.value := by intro; rfl) :
    Relinked hs p (p.modify h f) where
  get? i := get?_modify hf h i
  links? i hi := by
    rw [links?_modify, if_neg]
    intro e
    exact hi (e ▸ hm)
  free := rfl
  size := rfl
  slots := size_slots_modify f h

theorem contains (hr : Relinked hs p q) (h : Handle) : q.contains h = p.contains h := by
  rw [contains_eq_isSome_get?, contains_eq_isSome_get?, hr.get?]

theorem sameSlots (hr : Relinked hs p q) : p.SameSlots q := ⟨hr.contains, hr.free, hr.size, hr.slots⟩

end Relinked

/-! ### Sound pools -/

/-- The free handles are those of the empty slots, each once, and the size counts the other slots. -/
structure Sound (p : Pool α) : Prop where
  free_nodup : p.free.Nodup
  mem_free : ∀ h, h ∈ p.free ↔ h < p.slots.size ∧ p.contains h = false
  size_add_free : p.size + p.free.length = p.slots.size

theorem Sound.empty : (Pool.empty : Pool α).Sound where
  free_nodup := List.nodup_nil
  mem_free h := by simp [Pool.empty]
  size_add_free := rfl

theorem Sound.sameSlots (hp : p.Sound) (hs : p.SameSlots q) : q.Sound where
  free_nodup := hs.free ▸ hp.free_nodup
  mem_free h := by rw [hs.free, hs.slots, hs.contains]; exact hp.mem_free h
  size_add_free := by rw [hs.free, hs.slots, hs.size]; exact hp.size_add_free

theorem Sound.relinked (hp : p.Sound) (hr : Relinked hs p q) : q.Sound := hp.sameSlots hr.sameSlots

theorem Sound.modifyValue (hp : p.Sound) (h : Handle) (f : α → α) : (p.modifyValue h f).Sound :=
  hp.sameSlots (sameSlots_modify _ h)

/-- A sound pool counts its nodes. -/
theorem Sound.size_eq_length (hp : p.Sound) (hnd : hs.Nodup) (hc : ∀ h, p.contains h = true ↔ h ∈ hs) :
    p.size = hs.length := by
  -- with the free handles they are all handles below the number of slots
  have hperm : (hs ++ p.free).Perm (List.range p.slots.size) := by
    rw [List.perm_ext_iff_of_nodup _ List.nodup_range]
    · intro h
      rw [List.mem_append, List.mem_range, hp.mem_free, ← hc h]
      cases hh : p.contains h with
      | true => simp [lt_size_of_contains hh]
      | false => simp
    · refine List.nodup_append'.2 ⟨hnd, hp.free_nodup, ?_⟩
      intro h hh hf
      rw [hp.mem_free, ← Bool.not_eq_true, hc h] at hf
      exact hf.2 hh
  have hlen := hperm.length_eq
  rw [List.length_append, List.length_range] at hlen
  have hadd := hp.size_add_free
  omega

/-- A pool with a node has a size to take one from. -/
theorem Sound.size_pos (hp : p.Sound) (hc : p.contains h = true) : 0 < p.size := by
  -- the slot of the node is not free, so that not all slots are
  have hsub : p.free ⊆ (List.range p.slots.size).erase h := by
    intro i hi
    have hi' := (hp.mem_free i).1 hi
    rw [List.nodup_range.mem_erase_iff, List.mem_range]
    refine ⟨?_, hi'.1⟩
    rintro rfl
    rw [hc] at hi'
    exact Bool.noConfusion hi'.2
  have hlt := lt_size_of_contains hc
  have hpos : 0 < p.slots.size := Nat.zero_lt_of_lt hlt
  have hle := (List.subperm_of_subset hp.free_nodup hsub).length_le
  rw [List.length_erase_of_mem (List.mem_range.2 hlt), List.length_range] at hle
  have hadd := hp.size_add_free
  omega

/-! ### Insertion -/

/-- The handle that the next insertion takes. -/
def fresh (p : Pool α) : Handle := p.free.headD p.slots.size

theorem insert_fst (p : Pool α) (v : α) : (p.insert v).1 = p.fresh := by
  unfold insert fresh
  cases p.free <;> rfl

theorem free_insert (p : Pool α) (v : α) : (p.insert v).2.free = p.free.tail := by
  unfold insert
  cases p.free <;> rfl

theorem size_slots_insert (p : Pool α) (v : α) :
    (p.insert v).2.slots.size = if p.free.isEmpty then p.slots.size + 1 else p.slots.size := by
  unfold insert
  cases p.free <;> simp

theorem Sound.contains_fresh (hp : p.Sound) : p.contains p.fresh = false := by
  unfold fresh
  cases hf : p.free with
  | nil => simp [contains, node?]
  | cons h free => exact ((hp.mem_free h).1 (by simp [hf])).2

private theorem Sound.node?_insert (hp : p.Sound) (v : α) (i : Handle) :
    (p.insert v).2.node? i = if p.fresh = i then some { value := v } else p.node? i := by
  cases hf : p.free with
  | nil =>
    have hfresh : p.fresh = p.slots.size := by simp [fresh, hf]
    rw [hfresh]
    simp only [insert, hf, node?, Array.getElem?_push]
    by_cases e : i = p.slots.size
    · rw [if_pos e, if_pos e.symm]; rfl
    · rw [if_neg e, if_neg (Ne.symm e)]
  | cons h free =>
    have hfresh : p.fresh = h := by simp [fresh, hf]
    have hlt : h < p.slots.size := ((hp.mem_free h).1 (by simp [hf])).1
    rw [hfresh]
    simp only [insert, hf, node?, Array.getElem?_setIfInBounds, hlt, if_true]
    by_cases e : h = i
    · rw [if_pos e, if_pos e]; rfl
    · rw [if_neg e, if_neg e]

theorem Sound.get?_insert (hp : p.Sound) (v : α) (i : Handle) :
    (p.insert v).2.get? i = if p.fresh = i then some v else p.get? i := by
  simp only [get?, hp.node?_insert]
  split <;> rfl

theorem Sound.links?_insert (hp : p.Sound) (v : α) (i : Handle) :
    (p.insert v).2.links? i = if p.fresh = i then some (none, none) else p.links? i := by
  simp only [links?, hp.node?_insert]
  split <;> rfl

theorem Sound.insert (hp : p.Sound) (v : α) : (p.insert v).2.Sound where
  free_nodup := by
    rw [free_insert]
    exact hp.free_nodup.sublist (List.tail_sublist _)
  mem_free i := by
    rw [free_insert, size_slots_insert, contains_eq_false_iff, hp.get?_insert]
    have hi := hp.mem_free i
    have hnd := hp.free_nodup
    rw [contains_eq_false_iff] at hi
    cases hf : p.free with
    | nil =>
      have hfresh : p.fresh = p.slots.size := by simp [fresh, hf]
      rw [hf] at hi
      rw [hfresh]
      simp only [List.tail_nil, List.not_mem_nil, List.isEmpty_nil, if_true, false_iff] at hi ⊢
      rintro ⟨hlt, hn⟩
      by_cases e : p.slots.size = i
      · simp [if_pos e] at hn
      · rw [if_neg e] at hn
        exact hi ⟨Nat.lt_of_le_of_ne (Nat.lt_succ_iff.1 hlt) (Ne.symm e), hn⟩
    | cons h free =>
      have hfresh : p.fresh = h := by simp [fresh, hf]
      rw [hf] at hi hnd
      have hnot : h ∉ free := (List.nodup_cons.1 hnd).1
      rw [hfresh]
      simp only [List.tail_cons, List.isEmpty_cons, Bool.false_eq_true, if_false]
      by_cases e : h = i
      · subst e
        simp [hnot]
      · rw [if_neg e, ← hi, List.mem_cons, or_iff_right (Ne.symm e)]
  size_add_free := by
    have := hp.size_add_free
    rw [free_insert, size_slots_insert]
    unfold Pool.insert
    cases hf : p.free with
    | nil => simp [hf] at this ⊢; omega
    | cons h free => simp [hf] at this ⊢; omega

/-! ### Erasure -/

theorem erase_fst (p : Pool α) (h : Handle) : (p.erase h).1 = p.get? h := by
  unfold erase
  cases hv : p.get? h <;> rfl

theorem erase_of_not_contains (hc : p.contains h = false) : p.erase h = (none, p) := by
  unfold erase
  rw [contains_eq_false_iff.1 hc]

theorem free_erase (p : Pool α) (h : Handle) :
    (p.erase h).2.free = if p.contains h then h :: p.free else p.free := by
  unfold erase
  rw [contains_eq_isSome_get?]
  cases p.get? h <;> rfl

theorem size_slots_erase (p : Pool α) (h : Handle) : (p.erase h).2.slots.size = p.slots.size := by
  unfold erase
  cases p.get? h <;> simp

private theorem node?_erase (p : Pool α) (h i : Handle) :
    (p.erase h).2.node? i = if h = i then none else p.node? i := by
  unfold erase
  cases hv : p.get? h with
  | none =>
    by_cases e : h = i
    · subst e
      simpa [get?] using hv
    · rw [if_neg e]
  | some v =>
    simp only [node?, Array.getElem?_setIfInBounds]
    by_cases e : h = i
    · rw [if_pos e, if_pos e]
      split <;> rfl
    · rw [if_neg e, if_neg e]

theorem get?_erase (p : Pool α) (h i : Handle) :
    (p.erase h).2.get? i = if h = i then none else p.get? i := by
  simp only [get?, node?_erase]
  split <;> rfl

theorem links?_erase (p : Pool α) (h i : Handle) :
    (p.erase h).2.links? i = if h = i then none else p.links? i := by
  simp only [links?, node?_erase]
  split <;> rfl

theorem Sound.erase (hp : p.Sound) (h : Handle) : (p.erase h).2.Sound := by
  cases hc : p.contains h with
  | false => rwa [erase_of_not_contains hc]
  | true =>
    have hnot : h ∉ p.free := fun hm => by
      have := ((hp.mem_free h).1 hm).2
      rw [hc] at this
      exact Bool.noConfusion this
    refine ⟨?_, ?_, ?_⟩
    · rw [free_erase, if_pos hc]
      exact List.nodup_cons.2 ⟨hnot, hp.free_nodup⟩
    · intro i
      rw [free_erase, if_pos hc, size_slots_erase, contains_eq_false_iff, get?_erase, List.mem_cons,
        hp.mem_free, contains_eq_false_iff]
      by_cases e : h = i
      · subst e
        simp [lt_size_of_contains hc]
      · simp [e, Ne.symm e]
    · have hsize : (p.erase h).2.size = p.size - 1 := by
        obtain ⟨v, hv⟩ := contains_iff_exists_get?.1 hc
        simp [Pool.erase, hv]
      have := hp.size_pos hc
      have := hp.size_add_free
      rw [free_erase, if_pos hc, size_slots_erase, hsize, List.length_cons]
      omega

/-! ### What a pool stores -/

/-- A sound pool stores these values under these handles, and no others. -/
structure Stores (p : Pool α) (l : List (Handle × α)) : Prop where
  sound : p.Sound
  nodup : (l.map (·.1)).Nodup
  get? : ∀ h v, p.get? h = some v ↔ (h, v) ∈ l

namespace Stores

variable {l r : List (Handle × α)} {v : α}

theorem empty : (Pool.empty : Pool α).Stores [] where
  sound := .empty
  nodup := List.nodup_nil
  get? h v := by simp [Pool.empty, Pool.get?, node?]

theorem perm (hp : p.Stores l) (hl : l.Perm r) : p.Stores r where
  sound := hp.sound
  nodup := (hl.map _).nodup_iff.1 hp.nodup
  get? h v := by rw [hp.get?, hl.mem_iff]

theorem relinked (hp : p.Stores l) (hr : Relinked hs p q) : q.Stores l where
  sound := hp.sound.relinked hr
  nodup := hp.nodup
  get? h v := by rw [hr.get?, hp.get?]

theorem contains_iff (hp : p.Stores l) : p.contains h = true ↔ h ∈ l.map (·.1) := by
  simp only [contains_iff_exists_get?, hp.get?, List.mem_map, Prod.exists, exists_and_right, exists_eq_right]

theorem size_eq_length (hp : p.Stores l) : p.size = l.length := by
  rw [← List.length_map (·.1)]
  exact hp.sound.size_eq_length hp.nodup fun h => hp.contains_iff

/-- A handle of the list stands there only once. -/
theorem ne_of_mem (hp : p.Stores ((h, v) :: l)) {x : Handle × α} (hx : x ∈ l) : x.1 ≠ h := by
  rintro rfl
  exact (List.nodup_cons.1 hp.nodup).1 (List.mem_map.2 ⟨x, hx, rfl⟩)

theorem insert (hp : p.Stores l) (v : α) : (p.insert v).2.Stores ((p.fresh, v) :: l) where
  sound := hp.sound.insert v
  nodup := by
    refine List.nodup_cons.2 ⟨?_, hp.nodup⟩
    rw [← hp.contains_iff, hp.sound.contains_fresh]
    exact Bool.false_ne_true
  get? h w := by
    rw [hp.sound.get?_insert, List.mem_cons, ← hp.get?, Prod.mk.injEq]
    by_cases e : p.fresh = h
    · subst e
      rw [if_pos rfl, contains_eq_false_iff.1 hp.sound.contains_fresh]
      simp [eq_comm]
    · rw [if_neg e]
      simp [Ne.symm e]

theorem erase (hp : p.Stores ((h, v) :: l)) : (p.erase h).1 = some v ∧ (p.erase h).2.Stores l := by
  refine ⟨?_, hp.sound.erase h, (List.nodup_cons.1 hp.nodup).2, ?_⟩
  · rw [erase_fst]
    exact (hp.get? h v).2 (List.mem_cons_self ..)
  · intro k w
    rw [get?_erase]
    by_cases e : h = k
    · subst e
      rw [if_pos rfl]
      constructor
      · intro hn; cases hn
      · intro hm; exact absurd rfl (hp.ne_of_mem hm)
    · rw [if_neg e, hp.get?]
      simp [Ne.symm e]

theorem modifyValue (hp : p.Stores ((h, v) :: l)) (f : α → α) :
    (p.modifyValue h f).Stores ((h, f v) :: l) where
  sound := hp.sound.modifyValue h f
  nodup := hp.nodup
  get? k w := by
    rw [get?_modifyValue]
    by_cases e : h = k
    · subst e
      have hnot : (h, w) ∉ l := fun hm => hp.ne_of_mem hm rfl
      rw [if_pos rfl, (hp.get? h v).2 (List.mem_cons_self ..)]
      simp [hnot, eq_comm]
    · rw [if_neg e, hp.get?]
      simp [Ne.symm e]

end Stores

end Caching.Linked.Pool
