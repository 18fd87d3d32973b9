import Caching.Proofs.Bounded.Keyed
import Caching.Proofs.Bounded.Request
import Caching.Proofs.Linked.Sequence
import Caching.Proofs.Run

/-!
# Caches in order as plain lists

The naive model of a cache in order of arrival or of use is a list of key-value pairs that is searched from end
to end (`PlainCache`).  The cache agrees with it when its sequence holds the same pairs in the same order and its
index leads to them (`OrderedCache.Holds`, `OrderedCache.Agrees`).  Every request keeps the agreement and is
answered alike, so a cache answers a run of any length as the list does.
-/

namespace Caching

open Linked
open Bounded (Request Answer)

/-! ### The naive model -/

/-- A list of pairs with different keys, oldest first in order of arrival, last used first in order of use. -/
structure PlainCache (o : Order) (κ υ : Type) where
  capacity : Nat
  pairs : List (κ × υ) := []

namespace PlainCache

variable {o : Order} {κ υ : Type} [BEq κ]

def empty (capacity : Capacity) : PlainCache o κ υ := { capacity := capacity.size }

def value? (m : PlainCache o κ υ) (k : κ) : Option υ := (m.pairs.find? fun e => e.1 == k).map (·.2)

/-- The pairs after one of them was used. -/
def touched (k : κ) (pairs : List (κ × υ)) : Order → List (κ × υ)
  | .arrival => pairs
  | .use => (pairs.find? fun e => e.1 == k).toList ++ pairs.eraseP fun e => e.1 == k

/-- The pairs with a new value for a key that is there. -/
def overwritten (k : κ) (v : υ) (pairs : List (κ × υ)) : List (κ × υ) :=
  pairs.map fun e => if e.1 == k then (e.1, v) else e

def added (e : κ × υ) (pairs : List (κ × υ)) : Order → List (κ × υ)
  | .arrival => pairs ++ [e]
  | .use => e :: pairs

/-- The pairs without the one whose turn it is to go. -/
def dropped (pairs : List (κ × υ)) : Order → List (κ × υ)
  | .arrival => pairs.tail
  | .use => pairs.dropLast

def get (m : PlainCache o κ υ) (k : κ) : Option υ × PlainCache o κ υ :=
  match m.value? k with
  | some v => (some v, { m with pairs := touched k m.pairs o })
  | none => (none, m)

def put (m : PlainCache o κ υ) (k : κ) (v : υ) : Option υ × PlainCache o κ υ :=
  match m.value? k with
  | some old => (some old, { m with pairs := touched k (overwritten k v m.pairs) o })
  | none =>
    let pairs := if m.pairs.length = m.capacity then dropped m.pairs o else m.pairs
    (none, { m with pairs := added (k, v) pairs o })

def putIfAbsent (m : PlainCache o κ υ) (k : κ) (v : υ) : Option υ × PlainCache o κ υ :=
  match m.value? k with
  | some current => (some current, { m with pairs := touched k m.pairs o })
  | none => m.put k v

def remove (m : PlainCache o κ υ) (k : κ) : Option υ × PlainCache o κ υ :=
  (m.value? k, { m with pairs := m.pairs.eraseP fun e => e.1 == k })

def keys (m : PlainCache o κ υ) : List κ := m.pairs.map (·.1)

def answer (m : PlainCache o κ υ) : Request κ υ → Answer κ × PlainCache o κ υ
  | .get k => let (v?, m) := m.get k; (.value? v?, m)
  | .getWith k f => let (v?, m) := m.get k; (.value? (v?.map f), m)
  | .put k v => let (old?, m) := m.put k v; (.value? old?, m)
  | .putIfAbsent k v => let (v?, m) := m.putIfAbsent k v; (.value? v?, m)
  | .contains k => (.flag (m.value? k).isSome, m)
  | .remove k => let (v?, m) := m.remove k; (.value? v?, m)
  | .length => (.number m.pairs.length, m)
  | .keys => (.keys m.keys, m)
  | .clear => (.done, { m with pairs := [] })

/-- The capacity never changes. -/
theorem capacity_answer (m : PlainCache o κ υ) (r : Request κ υ) : (m.answer r).2.capacity = m.capacity := by
  cases r <;> simp only [answer, get, put, putIfAbsent, remove]
  all_goals split <;> rfl

theorem any_keys (m : PlainCache o κ υ) (k : κ) : m.keys.any (· == k) = (m.value? k).isSome := by
  rw [value?, Option.isSome_map, List.isSome_find?, keys, List.any_map]
  rfl

theorem keys_overwritten (k : κ) (v : υ) (pairs : List (κ × υ)) :
    (overwritten k v pairs).map (·.1) = pairs.map (·.1) := by
  rw [overwritten, List.map_map]
  apply List.map_congr_left
  intro e _
  simp only [Function.comp_apply]
  split <;> rfl

/-! Where the pair of a key stands is known once the list is split there. -/

variable [EquivBEq κ] {m : PlainCache o κ υ} {l r : List (κ × υ)} {e : κ × υ} {k : κ}

private theorem value?_middle (hm : m.pairs = l ++ e :: r) (hl : Keyed (·.1) (l ++ e :: r)) (hk : (e.1 == k) = true) :
    m.value? k = some e.2 := by
  rw [value?, hm, hl.find?_middle hk]
  rfl

omit [EquivBEq κ] in
private theorem value?_absent (hm : ∀ e ∈ m.pairs, (e.1 == k) = false) : m.value? k = none := by
  rw [value?, Option.map_eq_none_iff, List.find?_eq_none]
  intro e he
  simp [hm e he]

private theorem overwritten_middle (hl : Keyed (·.1) (l ++ e :: r)) (hk : (e.1 == k) = true) (v : υ) :
    overwritten k v (l ++ e :: r) = l ++ (e.1, v) :: r :=
  hl.map_middle hk fun e => (e.1, v)

private theorem touched_use_middle (hl : Keyed (·.1) (l ++ e :: r)) (hk : (e.1 == k) = true) :
    touched k (l ++ e :: r) .use = e :: (l ++ r) := by
  rw [touched, hl.find?_middle hk, hl.eraseP_middle hk]
  rfl

end PlainCache

/-! ### The order of a sequence -/

namespace Order

open PlainCache (touched added dropped)

variable {o : Order} {κ υ : Type} {s : Sequence (κ × υ)} {l r : List (Handle × κ × υ)} {h : Handle} {e : κ × υ}

/-- A use may change where the entry stands, and the pairs of the others keep their order. -/
theorem touch_holds [BEq κ] [EquivBEq κ] (hs : s.Holds (l ++ (h, e) :: r)) :
    ∃ l' r', (o.touch s h).Holds (l' ++ (h, e) :: r') ∧ l' ++ r' = l ++ r ∧
      ∀ e' k, Keyed (·.1) ((l ++ (h, e') :: r).map (·.2)) → (e'.1 == k) = true →
        touched k ((l ++ (h, e') :: r).map (·.2)) o = (l' ++ (h, e') :: r').map (·.2) := by
  cases o with
  | arrival => exact ⟨l, r, hs, rfl, fun _ _ _ _ => rfl⟩
  | use =>
    refine ⟨[], l ++ r, hs.moveToFirst, rfl, ?_⟩
    intro e' k hl hk
    rw [List.map_append, List.map_cons] at hl ⊢
    rw [PlainCache.touched_use_middle hl hk]
    simp

private theorem push_holds (hs : s.Holds l) (e : κ × υ) :
    (o.push s e).1 = s.pool.fresh ∧
      ∃ l', (o.push s e).2.Holds l' ∧ l'.Perm ((s.pool.fresh, e) :: l) ∧
        l'.map (·.2) = added e (l.map (·.2)) o := by
  cases o with
  | arrival =>
    obtain ⟨hh, hs'⟩ := hs.pushLast e
    exact ⟨hh, _, hs', List.perm_append_singleton _ _, by simp [added]⟩
  | use =>
    obtain ⟨hh, hs'⟩ := hs.pushFirst e
    exact ⟨hh, _, hs', List.Perm.refl _, rfl⟩

theorem pop_holds (hs : s.Holds l) (hl : l ≠ []) :
    ∃ x l', (o.pop s).1 = some x.2 ∧ (o.pop s).2.Holds l' ∧ l.Perm (x :: l') ∧
      l'.map (·.2) = dropped (l.map (·.2)) o := by
  cases o with
  | arrival =>
    obtain ⟨x, l, rfl⟩ := List.exists_cons_of_ne_nil hl
    obtain ⟨hx, hs'⟩ := hs.popFirst
    exact ⟨x, l, hx, hs', List.Perm.refl _, rfl⟩
  | use =>
    obtain ⟨l, x, rfl⟩ := (List.eq_nil_or_concat l).resolve_left hl
    rw [List.concat_eq_append] at hs ⊢
    obtain ⟨hx, hs'⟩ := hs.popLast
    refine ⟨x, l, ?_, ?_, List.perm_append_singleton _ _, by simp [dropped]⟩
    · show s.popLast.1 = some x.2
      simpa using hx
    · show s.popLast.2.Holds l
      simpa using hs'

end Order

/-! ### The cache beside the list -/

namespace OrderedCache

open PlainCache (touched overwritten added dropped)

variable {o : Order} {κ υ : Type} [BEq κ] [Hashable κ] {c : OrderedCache o κ υ} {m : PlainCache o κ υ}
  {l r : List (Handle × κ × υ)} {h : Handle} {e : κ × υ} {k : κ}

theorem putIfAbsent_of_absent (hk : c.index[k]? = none) (v : υ) :
    c.putIfAbsent k v = put { c with counters := c.counters.miss } k v := by
  simp only [putIfAbsent, get, hk]

theorem putIfAbsent_of_get {w : υ} (hw : (c.get k).1 = some w) (v : υ) :
    c.putIfAbsent k v = (some w, none, (c.get k).2) := by
  unfold putIfAbsent
  generalize c.get k = x at hw
  obtain ⟨w?, c'⟩ := x
  obtain rfl : w? = some w := hw
  rfl

/-- The cache holds the given pairs in the given order, under these handles. -/
structure Holds (c : OrderedCache o κ υ) (l : List (Handle × κ × υ)) : Prop where
  entries : c.entries.Holds l
  index : Indexes c.index (·.1) l
  length_le : l.length ≤ c.capacity.size

/-- The cache and the list hold the same pairs in the same order. -/
def Agrees (c : OrderedCache o κ υ) (m : PlainCache o κ υ) : Prop :=
  m.capacity = c.capacity.size ∧ ∃ l, c.Holds l ∧ m.pairs = l.map (·.2)

theorem Agrees.empty (capacity : Capacity) :
    (OrderedCache.empty capacity : OrderedCache o κ υ).Agrees (.empty capacity) :=
  ⟨rfl, [], ⟨.empty, .empty _, Nat.zero_le _⟩, rfl⟩

namespace Holds

theorem length (hc : c.Holds l) : c.length = l.length := hc.index.size

theorem ne_nil_of_full (hc : c.Holds l) (hfull : c.capacity.size ≤ c.length) : l ≠ [] := by
  have hpos := c.capacity.size_pos
  rw [hc.length] at hfull
  exact List.ne_nil_of_length_pos (by omega)

theorem keys (hc : c.Holds l) : c.keys = (l.map (·.2)).map (·.1) := by
  rw [OrderedCache.keys, hc.entries.toList]

theorem setCounters (hc : c.Holds l) (n : Counters) : Holds (o := o) { c with counters := n } l :=
  ⟨hc.entries, hc.index, hc.length_le⟩

variable [EquivBEq κ]

theorem touch (hc : c.Holds (l ++ (h, e) :: r)) (hk : (e.1 == k) = true) (n : Counters) :
    (o.touch c.entries h).get? h = some e ∧
      ∃ l', Holds (o := o) { c with entries := o.touch c.entries h, counters := n } l' ∧
        l'.map (·.2) = touched k ((l ++ (h, e) :: r).map (·.2)) o := by
  obtain ⟨l', r', hs, heq, hmap⟩ := o.touch_holds hc.entries
  have hp : (l ++ (h, e) :: r).Perm (l' ++ (h, e) :: r') :=
    List.perm_middle.trans (heq ▸ List.perm_middle.symm)
  refine ⟨hs.get?_middle, _, ⟨hs, hc.index.perm hp, ?_⟩, (hmap e k hc.index.keyed hk).symm⟩
  rw [← hp.length_eq]
  exact hc.length_le

private theorem overwrite (hc : c.Holds (l ++ (h, e) :: r)) (hk : (e.1 == k) = true) (v : υ) (n : Counters) :
    (o.touch c.entries h).get? h = some e ∧
      ∃ l', Holds (o := o) { c with
          entries := (o.touch c.entries h).modifyValue h fun e => (e.1, v), counters := n } l' ∧
        l'.map (·.2) = touched k (overwritten k v ((l ++ (h, e) :: r).map (·.2))) o := by
  obtain ⟨l', r', hs, heq, hmap⟩ := o.touch_holds hc.entries
  have hi : Indexes c.index (·.1) (l ++ (h, (e.1, v)) :: r) := hc.index.set_middle rfl
  have hp : (l ++ (h, (e.1, v)) :: r).Perm (l' ++ (h, (e.1, v)) :: r') :=
    List.perm_middle.trans (heq ▸ List.perm_middle.symm)
  have hover : overwritten k v ((l ++ (h, e) :: r).map (·.2)) = (l ++ (h, (e.1, v)) :: r).map (·.2) := by
    have hl := hc.index.keyed
    rw [List.map_append, List.map_cons] at hl ⊢
    rw [PlainCache.overwritten_middle hl hk]
    simp
  refine ⟨hs.get?_middle, _, ⟨hs.modifyValue _, hi.perm hp, ?_⟩, ?_⟩
  · rw [← hp.length_eq]
    simpa using hc.length_le
  · rw [hover]
    exact (hmap _ k hi.keyed hk).symm

variable [LawfulHashable κ]

/-- A full cache gives up the pair whose turn it is, and of the index what leads to it. -/
theorem evict (hc : c.Holds l) (hl : l ≠ []) :
    c.evict.1 = some { policy := o.policy, remaining := l.length - 1 } ∧ c.evict.2.capacity = c.capacity ∧
      ∃ h e l', c.evict.2.Holds l' ∧ l.Perm ((h, e) :: l') ∧ c.evict.2.index = c.index.erase e.1 ∧
        l'.map (·.2) = dropped (l.map (·.2)) o := by
  obtain ⟨⟨h, e⟩, l', hpop, hs, hp, hmap⟩ := o.pop_holds hc.entries hl
  have hi : Indexes (c.index.erase e.1) (·.1) l' := (hc.index.perm hp).erase BEq.rfl
  have hlen : l'.length + 1 = l.length := hp.length_eq.symm
  have hres : c.evict =
      (some { policy := o.policy, remaining := (c.index.erase e.1).size },
        { c with entries := (o.pop c.entries).2, index := c.index.erase e.1
                 counters := c.counters.eviction }) := by
    unfold OrderedCache.evict
    generalize o.pop c.entries = x at hpop
    obtain ⟨e?, s⟩ := x
    obtain rfl : e? = some e := hpop
    rfl
  have hle := hc.length_le
  rw [hres]
  refine ⟨?_, rfl, h, e, l', ⟨hs, hi, ?_⟩, hp, rfl, hmap⟩
  · rw [hi.size, ← hlen, Nat.add_sub_cancel]
  · show l'.length ≤ c.capacity.size
    omega

/-- A new pair, for which there is room. -/
private theorem add (hc : c.Holds l) (hk : c.index[k]? = none) (hl : l.length < c.capacity.size) (v : υ)
    (n : Counters) :
    ∃ l', Holds (o := o) { c with
        entries := (o.push c.entries (k, v)).2
        index := c.index.insert k (o.push c.entries (k, v)).1
        counters := n } l' ∧
      l'.map (·.2) = added (k, v) (l.map (·.2)) o := by
  obtain ⟨hfst, l', hs, hp, hmap⟩ := o.push_holds hc.entries (k, v)
  refine ⟨l', ⟨hs, ?_, ?_⟩, hmap⟩
  · rw [hfst]
    exact (hc.index.insert hk _ rfl).perm hp.symm
  · rw [hp.length_eq]
    exact hl

end Holds

namespace Agrees

theorem keys (hcm : c.Agrees m) : c.keys = m.keys := by
  obtain ⟨-, l, hc, hm⟩ := hcm
  rw [hc.keys, ← hm]
  rfl

theorem keyed (hcm : c.Agrees m) : Keyed (·.1) m.pairs := by
  obtain ⟨-, l, hc, hm⟩ := hcm
  rw [hm]
  exact hc.index.keyed

variable [EquivBEq κ]

/-- A key leads to its pair in both, or to nothing in both. -/
theorem lookup (hc : c.Holds l) (hm : m.pairs = l.map (·.2)) (k : κ) :
    (c.index[k]? = none ∧ m.value? k = none) ∨
      ∃ h e l₁ l₂, l = l₁ ++ (h, e) :: l₂ ∧ c.index[k]? = some h ∧ (e.1 == k) = true ∧
        m.value? k = some e.2 := by
  cases hk : c.index[k]? with
  | none =>
    refine Or.inl ⟨rfl, PlainCache.value?_absent ?_⟩
    intro e he
    rw [hm] at he
    obtain ⟨x, hx, rfl⟩ := List.mem_map.1 he
    exact hc.index.absent hk x hx
  | some h =>
    obtain ⟨e, l₁, l₂, rfl, he⟩ := hc.index.split hk
    have hl := hc.index.keyed
    rw [List.map_append, List.map_cons] at hm hl
    exact Or.inr ⟨h, e, l₁, l₂, rfl, rfl, he, PlainCache.value?_middle hm hl he⟩

theorem contains [LawfulHashable κ] (hcm : c.Agrees m) (k : κ) : c.contains k = (m.value? k).isSome := by
  obtain ⟨-, l, hc, hm⟩ := hcm
  rw [OrderedCache.contains, Std.HashMap.contains_eq_isSome_getElem?]
  rcases lookup hc hm k with ⟨hi, hv⟩ | ⟨h, e, l₁, l₂, rfl, hi, hk, hv⟩ <;> rw [hi, hv] <;> rfl

theorem get (hcm : c.Agrees m) (k : κ) :
    (c.get k).1 = (m.get k).1 ∧ (c.get k).2.Agrees (m.get k).2 := by
  obtain ⟨hcap, l, hc, hm⟩ := hcm
  rcases lookup hc hm k with ⟨hi, hv⟩ | ⟨h, e, l₁, l₂, rfl, hi, hk, hv⟩
  · simp only [OrderedCache.get, PlainCache.get, hi, hv]
    exact ⟨trivial, hcap, l, ⟨hc.entries, hc.index, hc.length_le⟩, hm⟩
  · obtain ⟨hget, l', hc', hmap⟩ := hc.touch hk c.counters.hit
    simp only [OrderedCache.get, PlainCache.get, hi, hv, hget]
    exact ⟨rfl, hcap, l', hc', by rw [hmap, hm]⟩

variable [LawfulHashable κ]

theorem put (hcm : c.Agrees m) (k : κ) (v : υ) :
    (c.put k v).1 = (m.put k v).1 ∧ (c.put k v).2.2.Agrees (m.put k v).2 := by
  obtain ⟨hcap, l, hc, hm⟩ := hcm
  rcases lookup hc hm k with ⟨hi, hv⟩ | ⟨h, e, l₁, l₂, rfl, hi, hk, hv⟩
  · have hlen : m.pairs.length = l.length := by rw [hm, List.length_map]
    have hle := hc.length_le
    simp only [OrderedCache.put, PlainCache.put, hi, hv, hcap, hlen, hc.length]
    by_cases hfull : c.capacity.size ≤ l.length
    · obtain ⟨-, hcap', h, e, l', hc', hp, hindex, hmap⟩ := hc.evict (hc.ne_nil_of_full (hc.length ▸ hfull))
      have hlen' := hp.length_eq
      rw [List.length_cons] at hlen'
      have hroom : l'.length < c.evict.2.capacity.size := by rw [hcap']; omega
      have hk' : c.evict.2.index[k]? = none := by
        rw [hindex]
        exact getElem?_erase_of_absent hi _
      obtain ⟨l'', hc'', hmap''⟩ := hc'.add hk' hroom v c.evict.2.counters.insertion
      rw [if_pos hfull, if_pos (by omega)]
      refine ⟨trivial, ?_, l'', hc'', ?_⟩
      · show c.capacity.size = c.evict.2.capacity.size
        rw [hcap']
      · rw [hmap'', hmap, hm]
    · obtain ⟨l', hc', hmap⟩ := hc.add hi (by omega) v c.counters.insertion
      rw [if_neg hfull, if_neg (by omega)]
      exact ⟨trivial, rfl, l', hc', by rw [hmap, hm]⟩
  · obtain ⟨hget, l', hc', hmap⟩ := hc.overwrite hk v c.counters.update
    simp only [OrderedCache.put, PlainCache.put, hi, hv, hget]
    exact ⟨rfl, hcap, l', hc', by rw [hmap, hm]⟩

theorem putIfAbsent (hcm : c.Agrees m) (k : κ) (v : υ) :
    (c.putIfAbsent k v).1 = (m.putIfAbsent k v).1 ∧ (c.putIfAbsent k v).2.2.Agrees (m.putIfAbsent k v).2 := by
  obtain ⟨hfst, hsnd⟩ := hcm.get k
  unfold OrderedCache.putIfAbsent
  cases hv : m.value? k with
  | some current =>
    simp only [PlainCache.get, hv] at hfst hsnd
    generalize c.get k = x at hfst hsnd
    obtain ⟨v?, c'⟩ := x
    obtain rfl : v? = some current := hfst
    simp only [PlainCache.putIfAbsent, hv]
    exact ⟨trivial, hsnd⟩
  | none =>
    simp only [PlainCache.get, hv] at hfst hsnd
    generalize c.get k = x at hfst hsnd
    obtain ⟨v?, c'⟩ := x
    obtain rfl : v? = none := hfst
    simp only [PlainCache.putIfAbsent, hv]
    exact Agrees.put hsnd k v

theorem remove (hcm : c.Agrees m) (k : κ) :
    (c.remove k).1 = (m.remove k).1 ∧ (c.remove k).2.Agrees (m.remove k).2 := by
  obtain ⟨hcap, l, hc, hm⟩ := hcm
  rcases lookup hc hm k with ⟨hi, hv⟩ | ⟨h, e, l₁, l₂, rfl, hi, hk, hv⟩
  · have habsent : m.pairs.eraseP (fun e => e.1 == k) = m.pairs := by
      rw [List.eraseP_of_forall_not]
      intro e he
      rw [hm] at he
      obtain ⟨x, hx, rfl⟩ := List.mem_map.1 he
      simp [hc.index.absent hi x hx]
    simp only [OrderedCache.remove, PlainCache.remove, hi, hv, habsent]
    exact ⟨trivial, hcap, l, hc, hm⟩
  · obtain ⟨herase, hs⟩ := hc.entries.erase
    have hl := hc.index.keyed
    rw [List.map_append, List.map_cons] at hl hm
    simp only [OrderedCache.remove, PlainCache.remove, hi, hv]
    generalize c.entries.erase h = x at herase hs
    obtain ⟨e?, s⟩ := x
    obtain rfl : e? = some e := herase
    refine ⟨rfl, hcap, l₁ ++ l₂, ⟨hs, (hc.index.perm List.perm_middle).erase hk, ?_⟩, ?_⟩
    · have hle := hc.length_le
      simp only [List.length_append, List.length_cons] at hle ⊢
      omega
    · rw [hm, hl.eraseP_middle hk, List.map_append]

/-- Every request is answered as the list answers it. -/
theorem answer (hcm : c.Agrees m) (r : Request κ υ) :
    (c.answer r).1 = (m.answer r).1 ∧ (c.answer r).2.Agrees (m.answer r).2 := by
  obtain ⟨hcap, l, hc, hm⟩ := id hcm
  cases r with
  | get k => exact ⟨congrArg Answer.value? (hcm.get k).1, (hcm.get k).2⟩
  | getWith k f =>
    refine ⟨?_, (hcm.get k).2⟩
    show Answer.value? ((c.get k).1.map f) = Answer.value? ((m.get k).1.map f)
    rw [(hcm.get k).1]
  | put k v => exact ⟨congrArg Answer.value? (hcm.put k v).1, (hcm.put k v).2⟩
  | putIfAbsent k v => exact ⟨congrArg Answer.value? (hcm.putIfAbsent k v).1, (hcm.putIfAbsent k v).2⟩
  | contains k => exact ⟨congrArg Answer.flag (hcm.contains k), hcm⟩
  | remove k => exact ⟨congrArg Answer.value? (hcm.remove k).1, (hcm.remove k).2⟩
  | length => exact ⟨congrArg Answer.number (by rw [hc.length, hm, List.length_map]), hcm⟩
  | keys => exact ⟨congrArg Answer.keys hcm.keys, hcm⟩
  | clear => exact ⟨rfl, hcap, [], ⟨.clear _, .empty _, Nat.zero_le _⟩, rfl⟩

end Agrees

/-! ### Runs -/

variable [EquivBEq κ] [LawfulHashable κ]

/-- A run keeps the agreement and is answered alike. -/
theorem answers_agree (capacity : Capacity) (rs : List (Request κ υ)) :
    let cache := answers OrderedCache.answer (OrderedCache.empty capacity : OrderedCache o κ υ) rs
    let list := answers PlainCache.answer (PlainCache.empty capacity : PlainCache o κ υ) rs
    cache.1 = list.1 ∧ cache.2.Agrees list.2 ∧ list.2.capacity = capacity.size := by
  intro cache list
  obtain ⟨heq, hagrees⟩ : cache.1 = list.1 ∧ cache.2.Agrees list.2 :=
    answers_simulates (R := fun _ => Agrees) (fun r _ _ _ hcm => hcm.answer r) (Agrees.empty capacity)
  have hcap : list.2.capacity = capacity.size :=
    answers_invariant (I := fun _ (m : PlainCache o κ υ) => m.capacity = capacity.size)
      (fun r _ m hm => (m.capacity_answer r).trans hm) rfl
  exact ⟨heq, hagrees, hcap⟩

/-- A cache in order of use answers every run of requests as a list of pairs that has the last used one first.
After each run, and so after each part of it, the keys are those of the list in its order, no two of them are
equal, and there are no more than the capacity. -/
theorem cacheInOrderOfUse_answers_as_list (capacity : Capacity) (rs : List (Request κ υ)) :
    let cache := answers OrderedCache.answer (OrderedCache.empty capacity : OrderedCache .use κ υ) rs
    let list := answers PlainCache.answer (PlainCache.empty capacity : PlainCache .use κ υ) rs
    cache.1 = list.1 ∧ cache.2.keys = list.2.keys ∧ Keyed (·.1) list.2.pairs ∧
      cache.2.length = list.2.pairs.length ∧ cache.2.length ≤ capacity.size := by
  intro cache list
  obtain ⟨heq, ⟨hcap, l, hc, hm⟩, hsize⟩ := answers_agree (o := .use) capacity rs
  refine ⟨heq, ?_, ?_, ?_, ?_⟩
  · show cache.2.keys = list.2.pairs.map (·.1)
    rw [hc.keys, ← hm]
  · rw [hm]
    exact hc.index.keyed
  · rw [hc.length, hm, List.length_map]
  · rw [hc.length, ← hsize, hcap]
    exact hc.length_le

theorem two_pairs_in_order_of_use :
    let rs : List (Request Nat Nat) :=
      [.put 1 10, .put 2 20, .getWith 1 fun v => v % 10 == 0, .put 3 30, .contains 2, .keys, .putIfAbsent 1 11,
        .put 3 31, .keys, .remove 1, .get 1, .length, .clear, .keys]
    (answers OrderedCache.answer (OrderedCache.empty { size := 2 } : OrderedCache .use Nat Nat) rs).1 =
      [.value? (none : Option Nat), .value? (none : Option Nat), .value? (some true),
        .value? (none : Option Nat), .flag false, .keys [3, 1], .value? (some 10), .value? (some 30),
        .keys [3, 1], .value? (some 10), .value? (none : Option Nat), .number 1, .done, .keys []] := by
  intro rs
  rw [(cacheInOrderOfUse_answers_as_list { size := 2 } rs).1]
  rfl

end OrderedCache

end Caching
