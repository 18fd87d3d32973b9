import Caching.Proofs.Bounded.Ordered
import Caching.Proofs.Linked.Checked

/-!
# Caches in order that insist on their handles

An operation of a cache in order of arrival or of use goes on without a value where the index leads to a handle that
has no node.  The operations of this module fail there, and an eviction fails, too, if there is no node to give up or
if the index has no entry for it.  On a cache whose index leads to the pairs of its sequence they do what the
operations do, so these never go on without a value.
-/

namespace Caching

open Linked
open Bounded (Request Answer)

namespace Order

variable {α : Type}

def touch? (s : Sequence α) (h : Handle) : Order → Option (Sequence α)
  | .arrival => some s
  | .use => s.moveToFirst? h

def push? (s : Sequence α) (v : α) : Order → Option (Handle × Sequence α)
  | .arrival => s.pushLast? v
  | .use => s.pushFirst? v

def pop? (s : Sequence α) : Order → Option (α × Sequence α)
  | .arrival => s.popFirst?
  | .use => s.popLast?

variable {o : Order} {s : Sequence α} {l r : List (Handle × α)} {h : Handle} {v : α}

private theorem touch?_eq (hs : s.Holds (l ++ (h, v) :: r)) : o.touch? s h = some (o.touch s h) := by
  cases o with
  | arrival => rfl
  | use => exact hs.moveToFirst?

private theorem push?_eq (hs : s.Holds l) (v : α) : o.push? s v = some (o.push s v) := by
  cases o with
  | arrival => exact hs.pushLast? v
  | use => exact hs.pushFirst? v

private theorem pop?_eq (hs : s.Holds l) (hv : (o.pop s).1 = some v) : o.pop? s = some (v, (o.pop s).2) := by
  cases o with
  | arrival =>
    cases l with
    | nil =>
      have hnone := hs.popFirst.1
      rw [show s.popFirst.1 = some v from hv] at hnone
      cases hnone
    | cons x l =>
      have hx := hs.popFirst.1
      rw [show s.popFirst.1 = some v from hv] at hx
      obtain rfl : v = x.2 := Option.some_inj.1 hx
      exact hs.popFirst?
  | use =>
    rcases List.eq_nil_or_concat l with rfl | ⟨l, x, rfl⟩
    · have hnone := hs.popLast.1
      rw [show s.popLast.1 = some v from hv] at hnone
      cases hnone
    · rw [List.concat_eq_append] at hs
      have hx := hs.popLast.1
      rw [show s.popLast.1 = some v from hv, List.getLast?_concat] at hx
      obtain rfl : v = x.2 := Option.some_inj.1 hx
      exact hs.popLast?

end Order

namespace OrderedCache

variable {o : Order} {κ υ : Type} [BEq κ] [Hashable κ]

def get? (c : OrderedCache o κ υ) (k : κ) : Option (Option υ × OrderedCache o κ υ) :=
  match c.index[k]? with
  | none => some (none, { c with counters := c.counters.miss })
  | some h => do
    let entries ← o.touch? c.entries h
    let e ← entries.get? h
    return (some e.2, { c with entries, counters := c.counters.hit })

/-- Gives up one entry, which is there and in the index. -/
def evict? (c : OrderedCache o κ υ) : Option (Eviction × OrderedCache o κ υ) := do
  let (e, entries) ← o.pop? c.entries
  if c.index.contains e.1 then
    let index := c.index.erase e.1
    some ({ policy := o.policy, remaining := index.size },
      { c with entries, index, counters := c.counters.eviction })
  else none

/-- Makes room for a new key. -/
def makeRoom? (c : OrderedCache o κ υ) : Option (Option Eviction × OrderedCache o κ υ) :=
  if c.capacity.size ≤ c.length then do
    let (eviction, c) ← c.evict?
    return (some eviction, c)
  else some (none, c)

def put? (c : OrderedCache o κ υ) (k : κ) (v : υ) :
    Option (Option υ × Option Eviction × OrderedCache o κ υ) :=
  match c.index[k]? with
  | some h => do
    let entries ← o.touch? c.entries h
    let e ← entries.get? h
    let entries ← entries.modifyValue? h fun e => (e.1, v)
    return (some e.2, none, { c with entries, counters := c.counters.update })
  | none => do
    let (evicted?, c) ← c.makeRoom?
    let (h, entries) ← o.push? c.entries (k, v)
    return (none, evicted?, { c with entries, index := c.index.insert k h, counters := c.counters.insertion })

def putIfAbsent? (c : OrderedCache o κ υ) (k : κ) (v : υ) :
    Option (Option υ × Option Eviction × OrderedCache o κ υ) := do
  let (current?, c) ← c.get? k
  if current?.isSome then return (current?, none, c) else c.put? k v

def remove? (c : OrderedCache o κ υ) (k : κ) : Option (Option υ × OrderedCache o κ υ) :=
  match c.index[k]? with
  | none => some (none, c)
  | some h => do
    let (e, entries) ← c.entries.erase? h
    return (some e.2, { c with entries, index := c.index.erase k, counters := c.counters.removal })

def answer? (c : OrderedCache o κ υ) : Request κ υ → Option (Answer κ × OrderedCache o κ υ)
  | .get k => (c.get? k).map fun x => (.value? x.1, x.2)
  | .getWith k f => (c.get? k).map fun x => (.value? (x.1.map f), x.2)
  | .put k v => (c.put? k v).map fun x => (.value? x.1, x.2.2)
  | .putIfAbsent k v => (c.putIfAbsent? k v).map fun x => (.value? x.1, x.2.2)
  | .contains k => some (.flag (c.contains k), c)
  | .remove k => (c.remove? k).map fun x => (.value? x.1, x.2)
  | .length => some (.number c.length, c)
  | .keys => c.entries.toList?.map fun pairs => (.keys (pairs.map (·.1)), c)
  | .clear => some (.done, c.clear)

namespace Holds

variable {c : OrderedCache o κ υ} {l : List (Handle × κ × υ)}

private theorem remove? (hc : c.Holds l) (k : κ) : c.remove? k = some (c.remove k) := by
  unfold OrderedCache.remove? OrderedCache.remove
  cases hk : c.index[k]? with
  | none => rfl
  | some h =>
    obtain ⟨e, l₁, l₂, rfl, hek⟩ := hc.index.split hk
    have herase := hc.entries.erase.1
    simp only [hc.entries.erase?, Option.bind_eq_bind, Option.bind_some]
    generalize c.entries.erase h = x at herase ⊢
    obtain ⟨e?, s⟩ := x
    obtain rfl : e? = some e := herase
    rfl

variable [EquivBEq κ]

theorem get? (hc : c.Holds l) (k : κ) : c.get? k = some (c.get k) := by
  unfold OrderedCache.get? OrderedCache.get
  cases hk : c.index[k]? with
  | none => rfl
  | some h =>
    obtain ⟨e, l₁, l₂, rfl, hek⟩ := hc.index.split hk
    have hget := (hc.touch hek c.counters.hit).1
    simp only [o.touch?_eq hc.entries, hget, Option.bind_eq_bind, Option.bind_some]
    rfl

/-- A look-up leaves the cache as one of its kind. -/
private theorem exists_get (hc : c.Holds l) (k : κ) : ∃ l', (c.get k).2.Holds l' := by
  unfold OrderedCache.get
  cases hk : c.index[k]? with
  | none => exact ⟨l, hc.setCounters _⟩
  | some h =>
    obtain ⟨e, l₁, l₂, rfl, hek⟩ := hc.index.split hk
    obtain ⟨-, l', hc', -⟩ := hc.touch hek c.counters.hit
    exact ⟨l', hc'⟩

variable [LawfulHashable κ]

theorem evict? (hc : c.Holds l) (hl : l ≠ []) :
    ∃ eviction, c.evict.1 = some eviction ∧ c.evict? = some (eviction, c.evict.2) := by
  obtain ⟨x, l', hpop, -, hp, -⟩ := o.pop_holds hc.entries hl
  have hindexed : c.index.contains x.2.1 = true :=
    hc.index.contains_iff.2 ⟨x, hp.mem_iff.2 (List.mem_cons_self ..), BEq.rfl⟩
  have hpop? := o.pop?_eq hc.entries hpop
  unfold OrderedCache.evict? OrderedCache.evict
  rw [hpop?]
  generalize o.pop c.entries = y at hpop ⊢
  obtain ⟨e?, s⟩ := y
  obtain rfl : e? = some x.2 := hpop
  simp only [Option.bind_eq_bind, Option.bind_some, hindexed, if_true]
  exact ⟨_, rfl, rfl⟩

private theorem makeRoom? (hc : c.Holds l) :
    c.makeRoom? = some (if c.capacity.size ≤ c.length then c.evict else (none, c)) := by
  unfold OrderedCache.makeRoom?
  split
  · next hfull =>
    obtain ⟨eviction, hfst, hevict⟩ := hc.evict? (hc.ne_nil_of_full hfull)
    rw [hevict]
    show some (some eviction, c.evict.2) = some c.evict
    rw [← hfst]
  · rfl

private theorem exists_makeRoom (hc : c.Holds l) :
    ∃ l', (if c.capacity.size ≤ c.length then c.evict else (none, c)).2.Holds l' := by
  split
  · next hfull =>
    obtain ⟨-, -, -, -, l', hc', -⟩ := hc.evict (hc.ne_nil_of_full hfull)
    exact ⟨l', hc'⟩
  · exact ⟨l, hc⟩

private theorem put? (hc : c.Holds l) (k : κ) (v : υ) : c.put? k v = some (c.put k v) := by
  unfold OrderedCache.put? OrderedCache.put
  cases hk : c.index[k]? with
  | some h =>
    obtain ⟨e, l₁, l₂, rfl, hek⟩ := hc.index.split hk
    obtain ⟨l₁', l₂', hs, -⟩ := o.touch_holds hc.entries
    simp only [o.touch?_eq hc.entries, hs.get?_middle, hs.modifyValue?, Option.bind_eq_bind, Option.bind_some]
    rfl
  | none =>
    obtain ⟨l', hc'⟩ := hc.exists_makeRoom
    simp only [hc.makeRoom?, o.push?_eq hc'.entries, Option.bind_eq_bind, Option.bind_some]
    rfl

private theorem putIfAbsent? (hc : c.Holds l) (k : κ) (v : υ) : c.putIfAbsent? k v = some (c.putIfAbsent k v) := by
  obtain ⟨l', hc'⟩ := hc.exists_get k
  unfold OrderedCache.putIfAbsent? OrderedCache.putIfAbsent
  rw [hc.get? k]
  generalize c.get k = x at hc'
  obtain ⟨_ | current, c'⟩ := x
  · exact hc'.put? k v
  · rfl

/-- No request meets a handle without a node. -/
theorem answer? (hc : c.Holds l) (r : Request κ υ) : c.answer? r = some (c.answer r) := by
  cases r with
  | get k => exact congrArg (Option.map _) (hc.get? k)
  | getWith k f => exact congrArg (Option.map _) (hc.get? k)
  | put k v => exact congrArg (Option.map _) (hc.put? k v)
  | putIfAbsent k v => exact congrArg (Option.map _) (hc.putIfAbsent? k v)
  | contains k => rfl
  | remove k => exact congrArg (Option.map _) (hc.remove? k)
  | length => rfl
  | keys => exact congrArg (Option.map _) hc.entries.toList?
  | clear => rfl

end Holds

end OrderedCache

end Caching
