import Caching.Proofs.Bounded.Accounts

/-!
# What a request costs a bounded cache

A request gives an entry up if it stores a value under a new key and finds the cache full, and only then
(`Bounded.Request.tally_evicted`).  What is then told of the loss is the policy, the length without the entry, and in
a cache in order of frequency the lowest frequency, which the entry had (`OrderedCache.Holds.loss?_eq`,
`FrequencyCache.Holds.loss?_eq`).  The loss is told by the request that causes it, and the counter of evictions goes
up by one with it.
-/

namespace Caching

open Linked
open Bounded (Request CountedRequest)

private theorem Capacity.eq_of_size {a b : Capacity} (h : a.size = b.size) : a = b := by
  obtain ⟨n, hn⟩ := a
  obtain ⟨m, hm⟩ := b
  obtain rfl : n = m := h
  rfl

namespace Bounded.Request

variable {κ υ : Type}

/-- The key that the request is to store a value under. -/
def stored? : Request κ υ → Option κ
  | .put k _ | .putIfAbsent k _ => some k
  | _ => none

theorem tally_evicted (contains : κ → Bool) (full : Bool) (length : Nat) (r : Request κ υ) :
    (r.tally contains full length).evicted =
      if full = true ∧ ∃ k, r.stored? = some k ∧ contains k = false then 1 else 0 := by
  cases r with
  | put k v => cases full <;> cases hk : contains k <;> simp [tally, Tally.store, stored?, hk]
  | putIfAbsent k v => cases full <;> cases hk : contains k <;> simp [tally, Tally.storeIfAbsent, stored?, hk]
  | get k | getWith k f => simp [tally, Tally.lookUp, stored?]
  | contains k | remove k | length | keys | clear => simp [tally, stored?]

end Bounded.Request

/-! ### Caches in order of arrival or of use -/

namespace OrderedCache

variable {o : Order} {κ υ : Type} [BEq κ] [Hashable κ] {c : OrderedCache o κ υ} {l : List (Handle × κ × υ)} {k : κ}

/-- The loss that a request tells of. -/
def loss? (c : OrderedCache o κ υ) : Request κ υ → Option Eviction
  | .put k v => (c.put k v).2.1
  | .putIfAbsent k v => (c.putIfAbsent k v).2.1
  | _ => none

variable [EquivBEq κ] [LawfulHashable κ]

theorem Agrees.capacity_eq {m : PlainCache o κ υ} (hcm : c.Agrees m) (r : Request κ υ) :
    (c.answer r).2.capacity = c.capacity := by
  apply Capacity.eq_of_size
  rw [← (hcm.answer r).2.1, m.capacity_answer, hcm.1]

namespace Holds

private theorem loss?_put (hc : c.Holds l) (k : κ) (v : υ) :
    (c.put k v).2.1 = if c.capacity.size ≤ c.length ∧ c.contains k = false then
      some { policy := o.policy, remaining := c.capacity.size - 1 } else none := by
  rw [contains_eq]
  cases hk : c.index[k]? with
  | some h => simp [put, hk]
  | none =>
    by_cases hfull : c.capacity.size ≤ c.length
    · have hle := hc.length_le
      have hlength := hc.length
      have hevict := (hc.evict (hc.ne_nil_of_full hfull)).1
      have hsize : l.length = c.capacity.size := by omega
      simp only [put, hk, hevict, hsize, hfull, Option.isSome_none, and_self, if_true]
    · simp only [put, hk, hfull, false_and, if_false]

private theorem loss?_putIfAbsent (hc : c.Holds l) (k : κ) (v : υ) :
    (c.putIfAbsent k v).2.1 = if c.capacity.size ≤ c.length ∧ c.contains k = false then
      some { policy := o.policy, remaining := c.capacity.size - 1 } else none := by
  cases hk : c.index[k]? with
  | none =>
    rw [putIfAbsent_of_absent hk]
    exact (hc.setCounters c.counters.miss).loss?_put k v
  | some h =>
    obtain ⟨e, l₁, l₂, rfl, hek⟩ := hc.index.split hk
    have hvalue : (c.get k).1 = some e.2 := by
      simp only [OrderedCache.get, hk, (hc.touch hek c.counters.hit).1]
      rfl
    rw [putIfAbsent_of_get hvalue, contains_eq, hk]
    simp

/-- A loss is told of if the request costs an entry. -/
theorem loss?_eq (hc : c.Holds l) (r : Request κ υ) :
    c.loss? r = if (c.tally r).evicted = 1 then
      some { policy := o.policy, remaining := c.capacity.size - 1 } else none := by
  rw [tally, Request.tally_evicted]
  cases r with
  | put k v => simpa [loss?, Request.stored?] using hc.loss?_put k v
  | putIfAbsent k v => simpa [loss?, Request.stored?] using hc.loss?_putIfAbsent k v
  | get | getWith | contains | remove | length | keys | clear => simp [loss?, Request.stored?]

end Holds

end OrderedCache

/-! ### Caches in order of frequency -/

namespace FrequencyCache

open Layer (flat)

variable {κ υ : Type} [BEq κ] [Hashable κ] {c : FrequencyCache κ υ} {L : List (Layer κ υ)} {k : κ}

/-- The loss that a request tells of. -/
def loss? (c : FrequencyCache κ υ) : CountedRequest κ υ → Option Eviction
  | .plain (.put k v) => (c.put k v).2.1
  | .plain (.putIfAbsent k v) => (c.putIfAbsent k v).2.1
  | _ => none

variable [EquivBEq κ] [LawfulHashable κ]

namespace Holds

private theorem loss?_put (hc : c.Holds L) (k : κ) (v : υ) :
    (c.put k v).2.1 = if c.capacity.size ≤ c.length ∧ c.contains k = false then
      some { policy := .lfu, frequency? := c.lowestFrequency?, remaining := c.capacity.size - 1 } else none := by
  rw [contains_eq]
  cases hk : c.index[k]? with
  | some h => simp [put, hk]
  | none =>
    have hle := hc.length_le
    have hlength := hc.length
    rw [(hc.put_new hk v).2.1]
    by_cases hfull : c.capacity.size ≤ c.length
    · -- the entry to go is there, and it has the lowest frequency
      have hsize : (flat L).length = c.capacity.size := by omega
      obtain ⟨z, r, hflat⟩ := List.exists_cons_of_ne_nil (hc.ne_nil_of_full hfull)
      have hlowest : c.lowestFrequency? = some z.2.frequency := by
        rw [hc.lowestFrequency?_eq_head?, hflat]
        rfl
      rw [if_pos hsize, if_pos ⟨hfull, rfl⟩, hflat, hlowest]
      rfl
    · have hsize : ¬ (flat L).length = c.capacity.size := by omega
      simp [hsize, hfull]

private theorem loss?_putIfAbsent (hc : c.Holds L) (k : κ) (v : υ) :
    (c.putIfAbsent k v).2.1 = if c.capacity.size ≤ c.length ∧ c.contains k = false then
      some { policy := .lfu, frequency? := c.lowestFrequency?, remaining := c.capacity.size - 1 } else none := by
  cases hk : c.index[k]? with
  | none =>
    rw [putIfAbsent_of_absent hk]
    exact (hc.setCounters (c.count .miss).counters).loss?_put k v
  | some h =>
    obtain ⟨e, l, r, hflat, -⟩ := hc.lookup hk
    rw [putIfAbsent_of_get (hc.get_fst hk hflat), contains_eq, hk]
    simp

/-- A loss is told of if the request costs an entry. -/
theorem loss?_eq (hc : c.Holds L) (r : CountedRequest κ υ) :
    c.loss? r = if (c.tally r).evicted = 1 then
      some { policy := .lfu, frequency? := c.lowestFrequency?, remaining := c.capacity.size - 1 } else none := by
  cases r with
  | frequencyOf k => simp [loss?, tally]
  | plain r =>
    rw [tally, Request.tally_evicted]
    cases r with
    | put k v => simpa [loss?, Request.stored?] using hc.loss?_put k v
    | putIfAbsent k v => simpa [loss?, Request.stored?] using hc.loss?_putIfAbsent k v
    | get | getWith | contains | remove | length | keys | clear => simp [loss?, Request.stored?]

end Holds

end FrequencyCache

end Caching
