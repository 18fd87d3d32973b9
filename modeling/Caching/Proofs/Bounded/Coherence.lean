import Caching.Proofs.Bounded.FrequencyChecked
import Caching.Proofs.Bounded.OrderedChecked

/-!
# Indexes that mirror what is linked

A bounded cache has an index beside its linked nodes.  After every run the keys of the index are the keys of the
nodes, each of them once, and each leads to the live node that carries it (`Indexed.Mirrored`).  Therefore a request
never goes on without a node that the index promises, a key that is there is always found, and a full cache that
evicts loses exactly one node together with its index entry (`OrderedCache.Coherent`, `FrequencyCache.Coherent`).
-/

namespace Caching

open Linked
open Bounded (Request CountedRequest)

/-! ### An index and the nodes it leads to -/

/-- An index, the pool that it leads into, and the handles of the pool that are linked, in their order. -/
structure Indexed (α κ : Type) [BEq κ] [Hashable κ] where
  index : Std.HashMap κ Handle
  pool : Pool α
  linked : List Handle

namespace Indexed

variable {α κ : Type} [BEq κ] [Hashable κ] {x x' : Indexed α κ} {key : α → κ} {l l' : List (Handle × α)}
  {h : Handle} {e : α}

/-- The values of the linked nodes. -/
def values (x : Indexed α κ) : List α := x.linked.filterMap x.pool.get?

/-- The index and the linked nodes have the same keys, and the pool has no other nodes. -/
structure Mirrored (key : α → κ) (x : Indexed α κ) : Prop where
  nodup : x.linked.Nodup
  live : ∀ h, h ∈ x.linked ↔ ∃ e, x.pool.get? h = some e
  /-- No two nodes have the same key. -/
  keyed : Keyed key x.values
  contains_iff : ∀ k, x.index.contains k = true ↔ ∃ e ∈ x.values, (key e == k) = true
  /-- Each key leads to the linked node that carries it. -/
  target : ∀ k h, x.index[k]? = some h ↔ h ∈ x.linked ∧ ∃ e, x.pool.get? h = some e ∧ (key e == k) = true
  size : x.index.size = x.linked.length
  pool_size : x.pool.size = x.linked.length

/-- One node goes, and of the index only its entry. -/
def Loses (key : α → κ) (x x' : Indexed α κ) : Prop :=
  ∃ h e, x.index[key e]? = some h ∧ x.pool.get? h = some e ∧ x'.index = x.index.erase (key e) ∧
    (∀ i, x'.pool.get? i = if h = i then none else x.pool.get? i) ∧ x.linked.Perm (h :: x'.linked)

/-- The index leads to these values, which are all in the pool and linked in this order. -/
structure Leads (key : α → κ) (x : Indexed α κ) (l : List (Handle × α)) : Prop where
  index : Indexes x.index key l
  stores : x.pool.Stores l
  linked : x.linked = l.map (·.1)

namespace Leads

private theorem values (hx : x.Leads key l) : x.values = l.map (·.2) := by
  have hget : ∀ z ∈ l, (x.pool.get? ∘ fun z : Handle × α => z.1) z = some z.2 :=
    fun z hz => (hx.stores.get? _ _).2 hz
  rw [Indexed.values, hx.linked, List.filterMap_map, List.filterMap_congr hget, ← List.filterMap_eq_map]
  rfl

private theorem mem_linked (hx : x.Leads key l) : h ∈ x.linked ↔ ∃ e, x.pool.get? h = some e := by
  simp only [hx.linked, hx.stores.get?, List.mem_map, Prod.exists, exists_and_right, exists_eq_right]

variable [EquivBEq κ] [LawfulHashable κ]

private theorem mirrored (hx : x.Leads key l) : x.Mirrored key where
  nodup := by
    rw [hx.linked]
    exact hx.stores.nodup
  live h := hx.mem_linked
  keyed := by
    rw [hx.values]
    exact hx.index.keyed
  contains_iff k := by
    rw [hx.index.contains_iff, hx.values]
    simp only [List.mem_map, exists_exists_and_eq_and]
  target k h := by
    rw [hx.index.getElem?, hx.mem_linked]
    simp only [← hx.stores.get?]
    constructor
    · rintro ⟨e, he, hk⟩
      exact ⟨⟨e, he⟩, e, he, hk⟩
    · rintro ⟨-, he⟩
      exact he
  size := by rw [hx.index.size, hx.linked, List.length_map]
  pool_size := by rw [hx.stores.size_eq_length, hx.linked, List.length_map]

omit [LawfulHashable κ] in
private theorem loses (hx : x.Leads key l) (hx' : x'.Leads key l') (hp : l.Perm ((h, e) :: l'))
    (hindex : x'.index = x.index.erase (key e)) : x.Loses key x' := by
  have hmem : (h, e) ∈ l := hp.mem_iff.2 (List.mem_cons_self ..)
  have herase := (hx.stores.perm hp).erase.2
  refine ⟨h, e, (hx.index.getElem? _ _).2 ⟨e, hmem, BEq.rfl⟩, (hx.stores.get? h e).2 hmem, hindex, ?_, ?_⟩
  · intro i
    rw [← Pool.get?_erase]
    ext v
    rw [hx'.stores.get?, herase.get?]
  · rw [hx.linked, hx'.linked]
    exact hp.map _

end Leads

end Indexed

/-! ### In order of arrival or of use -/

namespace OrderedCache

variable {o : Order} {κ υ : Type} [BEq κ] [Hashable κ] {c : OrderedCache o κ υ} {l : List (Handle × κ × υ)}

def indexed (c : OrderedCache o κ υ) : Indexed (κ × υ) κ where
  index := c.index
  pool := c.entries.pool
  linked := c.entries.chain.handles c.entries.pool

/-- The index and the list mirror each other, and no request goes on without a node. -/
structure Coherent (c : OrderedCache o κ υ) : Prop where
  mirrored : c.indexed.Mirrored (·.1)
  /-- The length of the list is shown as the length. -/
  describe : c.describe = o.policy.describeCache c.capacity c.length []
  /-- A request does what it does where it insists on each node. -/
  answer? : ∀ r, c.answer? r = some (c.answer r)
  /-- Who looks for a key finds the node that the index leads to. -/
  found : ∀ k h, c.index[k]? = some h → ∃ e, c.entries.get? h = some e ∧ (c.get k).1 = some e.2 ∧
    (∀ v, (c.put k v).1 = some e.2) ∧ (c.remove k).1 = some e.2
  remove : ∀ k, (c.remove k).2.contains k = false
  evict : c.capacity.size ≤ c.length →
    (∃ eviction, c.evict.1 = some eviction ∧ c.evict? = some (eviction, c.evict.2)) ∧
      c.indexed.Loses (·.1) c.evict.2.indexed ∧ c.evict.2.indexed.Mirrored (·.1)

variable [EquivBEq κ] [LawfulHashable κ]

private theorem contains_remove (c : OrderedCache o κ υ) (k : κ) : (c.remove k).2.contains k = false := by
  unfold remove contains
  cases hk : c.index[k]? with
  | none =>
    simp only [Std.HashMap.contains_eq_isSome_getElem?, hk]
    rfl
  | some h =>
    dsimp only
    split <;> simp

namespace Holds

omit [EquivBEq κ] [LawfulHashable κ] in
private theorem indexed (hc : c.Holds l) : c.indexed.Leads (·.1) l :=
  ⟨hc.index, hc.entries.stores, hc.entries.lists.handles_eq⟩

private theorem found (hc : c.Holds l) {k : κ} {h : Handle} (hk : c.index[k]? = some h) :
    ∃ e, c.entries.get? h = some e ∧ (c.get k).1 = some e.2 ∧ (∀ v, (c.put k v).1 = some e.2) ∧
      (c.remove k).1 = some e.2 := by
  let m : PlainCache o κ υ := { capacity := c.capacity.size, pairs := l.map (·.2) }
  have hm : m.pairs = l.map (·.2) := rfl
  have hagrees : c.Agrees m := ⟨rfl, l, hc, hm⟩
  have hget := (hagrees.get k).1
  have hput := fun v => (hagrees.put k v).1
  have hremove := (hagrees.remove k).1
  rcases Agrees.lookup hc hm k with ⟨hnone, -⟩ | ⟨h', e, l₁, l₂, rfl, hsome, -, hv⟩
  · rw [hnone] at hk
    cases hk
  · obtain rfl : h' = h := Option.some.inj (hsome.symm.trans hk)
    simp only [PlainCache.get, PlainCache.put, PlainCache.remove, hv] at hget hput hremove
    exact ⟨e, hc.entries.get?_middle, hget, hput, hremove⟩

private theorem evict_loses (hc : c.Holds l) (hl : l ≠ []) :
    c.indexed.Loses (·.1) c.evict.2.indexed ∧ c.evict.2.indexed.Mirrored (·.1) := by
  obtain ⟨-, -, h, e, l', hc', hp, hindex, -⟩ := hc.evict hl
  exact ⟨hc.indexed.loses hc'.indexed hp hindex, hc'.indexed.mirrored⟩

private theorem coherent (hc : c.Holds l) : c.Coherent where
  mirrored := hc.indexed.mirrored
  describe := by
    rw [OrderedCache.describe, hc.length, hc.entries.length]
  answer? := hc.answer?
  found k h hk := hc.found hk
  remove k := c.contains_remove k
  evict hfull := by
    have hne := hc.ne_nil_of_full hfull
    exact ⟨hc.evict? hne, hc.evict_loses hne⟩

end Holds

end OrderedCache

/-! ### In order of frequency -/

namespace FrequencyCache

open Layer (flat)

variable {κ υ : Type} [BEq κ] [Hashable κ] {c : FrequencyCache κ υ} {m : Ranking κ υ} {L : List (Layer κ υ)}
  {T : List (Ranked κ υ)}

def indexed (c : FrequencyCache κ υ) : Indexed (Entry κ υ) κ where
  index := c.index
  pool := c.entries
  linked := c.linked

/-- The index and the buckets mirror each other, and no request goes on without a node. -/
structure Coherent (c : FrequencyCache κ υ) : Prop where
  mirrored : c.indexed.Mirrored Entry.key
  /-- The number of entries in the pool is shown as the length. -/
  describe : c.describe = Policy.lfu.describeCache c.capacity c.length [("buckets", .number c.bucketCount)]
  /-- A request does what it does where it insists on each entry and each bucket. -/
  answer? : ∀ r, c.answer? r = some (c.answer r)
  /-- Who looks for a key finds the node that the index leads to. -/
  found : ∀ k h, c.index[k]? = some h → ∃ e, c.entries.get? h = some e ∧ (c.get k).1 = some e.value ∧
    (∀ v, (c.put k v).1 = some e.value) ∧ (c.remove k).1 = some e.value
  remove : ∀ k, (c.remove k).2.contains k = false
  evict : c.capacity.size ≤ c.length →
    (∃ eviction, c.evict.1 = some eviction ∧ c.evict? = some (eviction, c.evict.2)) ∧
      c.indexed.Loses Entry.key c.evict.2.indexed ∧ c.evict.2.indexed.Mirrored Entry.key

private theorem Holds.indexed (hc : c.Holds L) : c.indexed.Leads Entry.key (flat L) :=
  ⟨hc.index, hc.laid.entries, hc.laid.linked⟩

variable [EquivBEq κ] [LawfulHashable κ]

private theorem contains_remove (c : FrequencyCache κ υ) (k : κ) : (c.remove k).2.contains k = false := by
  have herased : (c.index.erase k).contains k = false := by simp
  cases hk : c.index[k]? with
  | none =>
    simp only [remove, contains, Std.HashMap.contains_eq_isSome_getElem?, hk]
    rfl
  | some h =>
    cases he : c.entries.get? h with
    | none =>
      simp only [remove, hk, he]
      exact herased
    | some e =>
      cases hb : c.byFrequency[e.frequency]? with
      | none =>
        simp only [remove, hk, he, hb]
        split <;> exact herased
      | some b =>
        have hindex : (leaveBucket { c with index := c.index.erase k } b h).index = c.index.erase k :=
          (sameFront_leaveBucket _ b h).index
        rw [← hindex] at herased
        simp only [remove, hk, he, hb]
        split <;> exact herased

namespace Mirrors

private theorem found (hcm : c.Mirrors m L T) (hm : m.tick + 1 < 2 ^ 64) {k : κ} {h : Handle}
    (hk : c.index[k]? = some h) : ∃ e, c.entries.get? h = some e ∧ (c.get k).1 = some e.value ∧
      (∀ v, (c.put k v).1 = some e.value) ∧ (c.remove k).1 = some e.value := by
  have hagrees : c.Agrees m := ⟨L, T, hcm⟩
  have hget := (hagrees.get hm k).1
  have hput := fun v => (hagrees.put hm k v).1
  have hremove := (hagrees.remove k).1
  rcases hcm.lookup k with ⟨hnone, -⟩ | ⟨h', e, l, r, P, t, Q, hsome, hflat, -, -, ht, hshown, -⟩
  · rw [hnone] at hk
    cases hk
  · obtain rfl : h' = h := Option.some.inj (hsome.symm.trans hk)
    have hvalue := (Ranked.shown_eq_iff.1 hshown).2.1
    simp only [Ranking.get, Ranking.put, ht, Option.map_some, hvalue] at hget hput hremove
    exact ⟨e, (hcm.holds.laid.entries.get? h' e).2 (by simp [hflat]), hget, hput, hremove⟩

private theorem coherent (hcm : c.Mirrors m L T) (hm : m.tick + 1 < 2 ^ 64) : c.Coherent where
  mirrored := hcm.holds.indexed.mirrored
  describe := by
    have hsize : c.entries.size = c.length := hcm.holds.sizes.2.2.1.symm
    rw [FrequencyCache.describe, hsize]
  answer? := hcm.holds.answer? fun z hz => hcm.frequency_lt hm hz
  found k h hk := hcm.found hm hk
  remove k := c.contains_remove k
  evict hfull := by
    have hne := hcm.holds.ne_nil_of_full hfull
    obtain ⟨h, e, r, hflat, -, -, hindex, L', hc', hflat'⟩ := hcm.holds.evict hne
    have hp : (flat L).Perm ((h, e) :: flat L') := by rw [hflat, hflat']
    exact ⟨hcm.holds.evict? hne, hcm.holds.indexed.loses hc'.indexed hp hindex, hc'.indexed.mirrored⟩

end Mirrors

end FrequencyCache

/-! ### Runs -/

variable {κ υ : Type} [BEq κ] [Hashable κ] [EquivBEq κ] [LawfulHashable κ]

/-- After every run of requests to a bounded cache, of fewer than `2 ^ 64 - 1` ones in order of frequency, the index
mirrors what is linked, and none of the ways out that an operation has in case they differ is taken. -/
theorem index_mirrors_linked_nodes (capacity : Capacity) :
    (∀ (o : Order) (rs : List (Request κ υ)),
      let c := (answers OrderedCache.answer (OrderedCache.empty capacity : OrderedCache o κ υ) rs).2
      c.capacity.size = capacity.size ∧ c.Coherent) ∧
    ∀ rs : List (CountedRequest κ υ), rs.length < 2 ^ 64 - 1 →
      let c := (answers FrequencyCache.answer (FrequencyCache.empty capacity : FrequencyCache κ υ) rs).2
      c.capacity.size = capacity.size ∧ c.Coherent := by
  constructor
  · intro o rs c
    obtain ⟨-, ⟨hcap, l, hc, -⟩, hsize⟩ := OrderedCache.answers_agree (o := o) capacity rs
    exact ⟨hcap.symm.trans hsize, hc.coherent⟩
  · intro rs hrs c
    obtain ⟨hcap, m, ⟨L, T, hcm⟩, hm⟩ := FrequencyCache.lasts_answers capacity hrs
    exact ⟨congrArg Capacity.size hcap, hcm.coherent (by omega)⟩

/-- In a full cache of two keys a use of the first one leaves the node of the second one to be evicted. -/
theorem two_keys_mirrored_and_one_evicted :
    let rs : List (CountedRequest Nat Nat) := [.plain (.put 1 10), .plain (.put 2 20), .plain (.get 1)]
    let c := (answers FrequencyCache.answer (FrequencyCache.empty { size := 2 } : FrequencyCache Nat Nat) rs).2
    rs.length < 2 ^ 64 - 1 ∧ c.indexed.Mirrored Entry.key ∧
      (∃ h e, c.index[1]? = some h ∧ c.entries.get? h = some e ∧ (c.get 1).1 = some e.value) ∧
      (∃ eviction, c.evict.1 = some eviction ∧ c.evict? = some (eviction, c.evict.2)) ∧
      c.indexed.Loses Entry.key c.evict.2.indexed := by
  intro rs c
  have hrs : rs.length < 2 ^ 64 - 1 := by decide
  obtain ⟨hcap, hc⟩ := (index_mirrors_linked_nodes { size := 2 }).2 rs hrs
  obtain ⟨-, ⟨L, T, hcm⟩, -⟩ := FrequencyCache.answers_agree { size := 2 } hrs
  have hone : c.index.contains 1 = true := hcm.contains 1
  rw [Std.HashMap.contains_eq_isSome_getElem?, Option.isSome_iff_exists] at hone
  obtain ⟨h, hone⟩ := hone
  obtain ⟨e, hnode, hget, -⟩ := hc.found 1 h hone
  have hlength : c.length = 2 := hcm.length
  have hfull : c.capacity.size ≤ c.length := by
    rw [hcap, hlength]
  obtain ⟨hevict, hloses, -⟩ := hc.evict hfull
  exact ⟨hrs, hc.mirrored, ⟨h, e, hone, hnode, hget⟩, hevict, hloses⟩

end Caching
