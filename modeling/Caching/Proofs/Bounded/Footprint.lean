import Caching.Proofs.Bounded.FrequencyRuns
import Caching.Proofs.Bounded.Ordered
import Caching.Proofs.Bounded.Saturation
import Caching.Proofs.Linked.Slots

/-!
# The slots of a bounded cache

A cache gives an entry up before it takes a new one, and a bucket that is left empty goes with the entry that left
it.  So the pools of a cache never have more slots than its capacity calls for, and exactly as many as they had nodes
at once since they were last cleared (`Tight`).

A request may change a pool twice, as an eviction and the insertion after it do.  The states of the cache in between
are `OrderedCache.between` and `FrequencyCache.between`; from each of these moments to the next no pool changes by
more than one insertion or erasure (`OrderedCache.isChain_between`, `FrequencyCache.isChain_between`), so that no
node was held that is not counted at one of them.
-/

namespace Caching

open Linked
open Bounded (Request CountedRequest)

/-- The slots of a pool are as many as the most nodes held at once, and within a bound.  Each empty one is free
once, and the size is the number of the others. -/
structure Tight {α : Type} (p : Pool α) (peak bound : Nat) : Prop where
  slots : p.slots.size = peak
  slots_le : p.slots.size ≤ bound
  free_nodup : p.free.Nodup
  mem_free : ∀ h, h ∈ p.free ↔ h < p.slots.size ∧ p.contains h = false
  size : p.size = p.slots.toList.countP Option.isSome

private theorem Linked.Pool.Sound.tight {α : Type} {p : Pool α} {peak bound : Nat} (hp : p.Sound)
    (hslots : p.slots.size = peak) (hpeak : peak ≤ bound) : Tight p peak bound :=
  ⟨hslots, hslots ▸ hpeak, hp.free_nodup, hp.mem_free, hp.size_eq_countP⟩

def Bounded.Request.isClear {κ υ : Type} : Request κ υ → Bool
  | .clear => true
  | _ => false

theorem Bounded.Request.isClear_iff {κ υ : Type} {r : Request κ υ} : r.isClear = true ↔ r = .clear := by
  cases r <;> simp [isClear]

def Bounded.CountedRequest.isClear {κ υ : Type} : CountedRequest κ υ → Bool
  | .plain r => r.isClear
  | .frequencyOf _ => false

/-! ### The order of a sequence -/

namespace Order

variable {o : Order} {α : Type}

private theorem sameSlots_touch (s : Sequence α) (h : Handle) : s.pool.SameSlots (o.touch s h).pool := by
  cases o with
  | arrival => exact .refl _
  | use => exact s.sameSlots_moveToFirst h

private theorem change_push (s : Sequence α) (e : α) : s.pool.Change (o.push s e).2.pool := by
  cases o with
  | arrival => exact .insertion e (s.sameSlots_pushLast e)
  | use => exact .insertion e (s.sameSlots_pushFirst e)

private theorem change_pop (s : Sequence α) : s.pool.Change (o.pop s).2.pool := by
  cases o with
  | arrival =>
    show s.pool.Change s.popFirst.2.pool
    cases hf : s.chain.first? with
    | none =>
      rw [Sequence.popFirst_of_first?_none hf]
      exact .none (.refl _)
    | some h => exact .erasure h (Sequence.sameSlots_popFirst hf)
  | use =>
    show s.pool.Change s.popLast.2.pool
    cases hl : s.chain.last? with
    | none =>
      rw [Sequence.popLast_of_last?_none hl]
      exact .none (.refl _)
    | some h => exact .erasure h (Sequence.sameSlots_popLast hl)

end Order

/-! ### Caches in order of arrival or of use -/

namespace OrderedCache

variable {o : Order} {κ υ : Type} [BEq κ] [Hashable κ] {c : OrderedCache o κ υ} {k : κ}

/-- The state of the cache between an eviction and the insertion that it makes room for. -/
def evicted (c : OrderedCache o κ υ) (k : κ) : List (OrderedCache o κ υ) :=
  if c.index[k]? = none ∧ c.capacity.size ≤ c.length then [c.evict.2] else []

/-- The states that a request passes through. -/
def between (c : OrderedCache o κ υ) : Request κ υ → List (OrderedCache o κ υ)
  | .put k _ => c.evicted k
  | .putIfAbsent k _ => evicted { c with counters := c.counters.miss } k
  | _ => []

/-- From `c` to `c'` the pool changes once at most. -/
def Moves (c c' : OrderedCache o κ υ) : Prop := c.entries.pool.Change c'.entries.pool

private theorem entries_evict (c : OrderedCache o κ υ) : c.evict.2.entries = (o.pop c.entries).2 := by
  unfold evict
  split <;> simp_all

private theorem sameSlots_get (c : OrderedCache o κ υ) (k : κ) :
    c.entries.pool.SameSlots (c.get k).2.entries.pool ∧ (c.get k).2.index = c.index := by
  unfold OrderedCache.get
  cases c.index[k]? with
  | none => exact ⟨.refl _, rfl⟩
  | some h => exact ⟨Order.sameSlots_touch _ h, rfl⟩

private theorem sameSlots_overwrite (hk : c.index[k]? ≠ none) (v : υ) :
    c.entries.pool.SameSlots (c.put k v).2.2.entries.pool := by
  cases hh : c.index[k]? with
  | none => exact absurd hh hk
  | some h =>
    simp only [put, hh]
    exact (Order.sameSlots_touch _ h).modify _ h

private theorem sameSlots_putIfAbsent (hk : c.index[k]? ≠ none) (v : υ) :
    c.entries.pool.SameSlots (c.putIfAbsent k v).2.2.entries.pool := by
  obtain ⟨hpool, hindex⟩ := c.sameSlots_get k
  unfold OrderedCache.putIfAbsent
  generalize c.get k = x at hpool hindex
  obtain ⟨_ | w, c'⟩ := x
  · exact hpool.trans (sameSlots_overwrite (hindex ▸ hk) v)
  · exact hpool

private theorem moves_remove (c : OrderedCache o κ υ) (k : κ) : c.Moves (c.remove k).2 := by
  cases hk : c.index[k]? with
  | none =>
    simp only [OrderedCache.remove, hk]
    exact .none (.refl _)
  | some h =>
    have hentries : (c.remove k).2.entries = (c.entries.erase h).2 := by
      simp only [OrderedCache.remove, hk]
      split <;> simp_all
    unfold Moves
    rw [hentries]
    exact .erasure h (c.entries.sameSlots_erase h)

/-- An insertion changes the pool in two steps if it evicts. -/
private theorem isChain_put (c : OrderedCache o κ υ) (k : κ) (v : υ) :
    (c :: (c.evicted k ++ [(c.put k v).2.2])).IsChain Moves := by
  unfold evicted
  by_cases hk : c.index[k]? = none
  · by_cases hfull : c.capacity.size ≤ c.length
    · have hevict : c.Moves c.evict.2 := by
        unfold Moves
        rw [entries_evict]
        exact Order.change_pop c.entries
      have hput : Moves c.evict.2 (c.put k v).2.2 := by
        simp only [put, hk, if_pos hfull]
        exact Order.change_push c.evict.2.entries (k, v)
      rw [if_pos ⟨hk, hfull⟩]
      exact List.isChain_cons_cons.2 ⟨hevict, List.isChain_pair.2 hput⟩
    · have hput : c.Moves (c.put k v).2.2 := by
        simp only [put, hk, if_neg hfull]
        exact Order.change_push c.entries (k, v)
      rw [if_neg (not_and.2 fun _ => hfull)]
      exact List.isChain_pair.2 hput
  · rw [if_neg (fun h => hk h.1)]
    exact List.isChain_pair.2 (.none (sameSlots_overwrite hk v))

theorem isChain_between (c : OrderedCache o κ υ) {r : Request κ υ} (hr : r.isClear = false) :
    (c :: (c.between r ++ [(c.answer r).2])).IsChain Moves := by
  have hrefl : c.Moves c := .none (.refl _)
  cases r with
  | get k => exact List.isChain_pair.2 (.none (c.sameSlots_get k).1)
  | getWith k f => exact List.isChain_pair.2 (.none (c.sameSlots_get k).1)
  | put k v => exact c.isChain_put k v
  | putIfAbsent k v =>
    by_cases hk : c.index[k]? = none
    · -- counting the miss leaves the pool alone
      have hput := isChain_put (o := o) { c with counters := c.counters.miss } k v
      rw [← putIfAbsent_of_absent hk v, List.isChain_cons] at hput
      exact List.isChain_cons.2 hput
    · have hnone : evicted (o := o) { c with counters := c.counters.miss } k = [] := if_neg fun h => hk h.1
      simp only [between, hnone]
      exact List.isChain_pair.2 (.none (sameSlots_putIfAbsent hk v))
  | contains k => exact List.isChain_pair.2 hrefl
  | remove k => exact List.isChain_pair.2 (c.moves_remove k)
  | length => exact List.isChain_pair.2 hrefl
  | keys => exact List.isChain_pair.2 hrefl
  | clear => cases hr

/-- At every moment of a run the pool holds no more nodes than the capacity. -/
private theorem Holds.size_le [EquivBEq κ] [LawfulHashable κ] {l : List (Handle × κ × υ)} (hc : c.Holds l)
    (r : Request κ υ) : ∀ t ∈ c.between r, t.entries.pool.size ≤ c.capacity.size := by
  have hevicted : ∀ {c : OrderedCache o κ υ} {l : List (Handle × κ × υ)} (k : κ), c.Holds l →
      ∀ t ∈ c.evicted k, t.entries.pool.size ≤ c.capacity.size := by
    intro c l k hc t ht
    unfold evicted at ht
    split at ht
    · next hfull =>
      obtain ⟨-, hcap, -, -, l', hc', -⟩ := hc.evict (hc.ne_nil_of_full hfull.2)
      rw [List.mem_singleton.1 ht, hc'.entries.stores.size_eq_length, ← hcap]
      exact hc'.length_le
    · cases ht
  intro t ht
  cases r with
  | put k v => exact hevicted k hc t ht
  | putIfAbsent k v =>
    exact hevicted k (hc.setCounters c.counters.miss) t ht
  | get k => cases ht
  | getWith k f => cases ht
  | contains k => cases ht
  | remove k => cases ht
  | length => cases ht
  | keys => cases ht
  | clear => cases ht

private theorem tight_run [EquivBEq κ] [LawfulHashable κ] (capacity : Capacity) (rs : List (Request κ υ)) :
    let fresh : OrderedCache o κ υ := .empty capacity
    Tight (answers OrderedCache.answer fresh rs).2.entries.pool
      (peak (fun c => c.entries.pool.size) OrderedCache.answer between Request.isClear 0 fresh rs)
      capacity.size := by
  intro fresh
  have hfresh : ∀ (c : OrderedCache o κ υ) r, Request.isClear r = true →
      (c.answer r).2.entries.pool = .empty := by
    intro c r hr
    obtain rfl := Request.isClear_iff.1 hr
    rfl
  have hsound : fresh.entries.pool.Sound := .empty
  obtain ⟨hsound, hslots⟩ := slots_eq_peak (fun c : OrderedCache o κ υ => c.entries.pool) hfresh
    (fun c r hr => c.isChain_between hr) hsound rs
  refine hsound.tight hslots (peak_le (I := fun _ (c : OrderedCache o κ υ) =>
    ∃ m, c.Agrees m ∧ m.capacity = capacity.size) ?_ (Nat.zero_le _) ⟨_, Agrees.empty capacity, rfl⟩)
  rintro r rs c ⟨m, hcm, hcap⟩
  have hnext := hcm.answer r
  refine ⟨⟨_, hnext.2, (m.capacity_answer r).trans hcap⟩, ?_⟩
  obtain ⟨hc, l, hl, -⟩ := hcm
  obtain ⟨hc', l', hl', -⟩ := hnext.2
  rw [List.forall_mem_append, List.forall_mem_singleton, ← hcap]
  refine ⟨hc ▸ hl.size_le r, ?_⟩
  rw [hl'.entries.stores.size_eq_length, ← m.capacity_answer r, hc']
  exact hl'.length_le

end OrderedCache

/-! ### Caches in order of frequency -/

namespace FrequencyCache

open Layer (flat)

variable {κ υ : Type} [BEq κ] [Hashable κ] {c : FrequencyCache κ υ} {L : List (Layer κ υ)} {k : κ}

/-- The state of the cache when the next bucket of an entry is there and its old one still stands. -/
def halfway (c : FrequencyCache κ υ) (h : Handle) : FrequencyCache κ υ :=
  match c.entries.get? h with
  | none => c
  | some e =>
    match c.byFrequency[e.frequency]? with
    | none => c
    | some b => (c.bucketAfter b (frequencyAfter e.frequency)).2

/-- The states that a look-up passes through. -/
def duringGet (c : FrequencyCache κ υ) (k : κ) : List (FrequencyCache κ υ) :=
  match c.index[k]? with
  | none => []
  | some h => [(c.count .hit).halfway h]

/-- The states that storing a value passes through. -/
def duringPut (c : FrequencyCache κ υ) (k : κ) (v : υ) : List (FrequencyCache κ υ) :=
  match c.index[k]? with
  | some h =>
    [halfway { c.count .update with entries := c.entries.modifyValue h fun e => { e with value := v } } h]
  | none => if c.capacity.size ≤ c.length then [c.evict.2] else []

/-- The states that a request passes through. -/
def between (c : FrequencyCache κ υ) : CountedRequest κ υ → List (FrequencyCache κ υ)
  | .plain (.get k) => c.duringGet k
  | .plain (.getWith k _) => c.duringGet k
  | .plain (.put k v) => c.duringPut k v
  | .plain (.putIfAbsent k v) =>
    match c.get k with
    | (some _, _) => c.duringGet k
    | (none, c') => c.duringGet k ++ c' :: c'.duringPut k v
  | _ => []

/-- From `c` to `c'` each pool changes once at most. -/
structure Moves (c c' : FrequencyCache κ υ) : Prop where
  entries : c.entries.Change c'.entries
  buckets : c.buckets.Change c'.buckets

theorem Moves.refl (c : FrequencyCache κ υ) : c.Moves c := ⟨.none (.refl _), .none (.refl _)⟩

private theorem change_bucketAfter (c : FrequencyCache κ υ) (b : Handle) (f : UInt64) :
    (c.bucketAfter b f).2.entries = c.entries ∧ c.buckets.Change (c.bucketAfter b f).2.buckets := by
  unfold bucketAfter
  split
  · exact ⟨rfl, .none (.refl _)⟩
  · exact ⟨rfl, .insertion _ (c.chain.sameSlots_attachAfter _ _ _)⟩

private theorem change_firstBucket (c : FrequencyCache κ υ) :
    c.firstBucket.2.entries = c.entries ∧ c.buckets.Change c.firstBucket.2.buckets := by
  unfold firstBucket
  split
  · exact ⟨rfl, .none (.refl _)⟩
  · exact ⟨rfl, .insertion _ (c.chain.sameSlots_attachFirst _ _)⟩

private theorem sameSlots_joinBucket (c : FrequencyCache κ υ) (b h : Handle) :
    c.entries.SameSlots (c.joinBucket b h).entries ∧ c.buckets.SameSlots (c.joinBucket b h).buckets := by
  unfold joinBucket
  split
  · exact ⟨.refl _, .refl _⟩
  · next bucket _ => exact ⟨bucket.entries.sameSlots_attachLast _ h, Pool.sameSlots_modify _ b⟩

/-- The bucket that is left may go; the entry stays in the pool. -/
private theorem change_leaveBucket (c : FrequencyCache κ υ) (b h : Handle) :
    c.entries.SameSlots (c.leaveBucket b h).entries ∧ c.buckets.Change (c.leaveBucket b h).buckets := by
  unfold leaveBucket
  split
  · exact ⟨.refl _, .none (.refl _)⟩
  · next bucket _ =>
    have hentries := bucket.entries.sameSlots_detach c.entries h
    have hbuckets : c.buckets.SameSlots
        (c.buckets.modifyValue b fun x => { x with entries := (bucket.entries.detach c.entries h).2.1 }) :=
      Pool.sameSlots_modify _ b
    dsimp only
    split
    · exact ⟨hentries, (hbuckets.trans (c.chain.sameSlots_detach _ b)).erasure b⟩
    · exact ⟨hentries, .none hbuckets⟩

private theorem change_halfway (c : FrequencyCache κ υ) (h : Handle) :
    (c.halfway h).entries = c.entries ∧ c.buckets.Change (c.halfway h).buckets := by
  unfold halfway
  split
  · exact ⟨rfl, .none (.refl _)⟩
  · split
    · exact ⟨rfl, .none (.refl _)⟩
    · exact c.change_bucketAfter _ _

private theorem moves_promote (c : FrequencyCache κ υ) (h : Handle) : (c.halfway h).Moves (c.promote h) := by
  cases he : c.entries.get? h with
  | none =>
    simp only [halfway, promote, he]
    exact .refl c
  | some e =>
    cases hb : c.byFrequency[e.frequency]? with
    | none =>
      simp only [halfway, promote, he, hb]
      exact .refl c
    | some b =>
      simp only [halfway, promote, he, hb]
      generalize c.bucketAfter b (frequencyAfter e.frequency) = x
      obtain ⟨target, c₁⟩ := x
      obtain ⟨hleft, hleftBuckets⟩ := c₁.change_leaveBucket b h
      obtain ⟨hjoined, hjoinedBuckets⟩ := (c₁.leaveBucket b h).sameSlots_joinBucket target h
      exact ⟨.none ((hleft.trans hjoined).modify _ h), hleftBuckets.sameSlots hjoinedBuckets⟩

private theorem moves_evict (c : FrequencyCache κ υ) : c.Moves c.evict.2 := by
  unfold evict
  split
  · exact .refl c
  · next b _ =>
    split
    · exact .refl c
    · next h _ =>
      obtain ⟨hleft, hbuckets⟩ := c.change_leaveBucket b h
      have hentries := hleft.erasure h
      dsimp only
      generalize (c.leaveBucket b h).entries.erase h = x at hentries
      obtain ⟨_ | e, entries⟩ := x
      · exact ⟨hentries, hbuckets⟩
      · exact ⟨hentries, hbuckets⟩

private theorem moves_insertNew (c : FrequencyCache κ υ) (k : κ) (v : υ) : c.Moves (c.insertNew k v) := by
  obtain ⟨hfirst, hfirstBuckets⟩ := c.change_firstBucket
  obtain ⟨hjoined, hjoinedBuckets⟩ := sameSlots_joinBucket
    { c.firstBucket.2 with
      entries := (c.firstBucket.2.entries.insert { key := k, value := v, frequency := 1 }).2 }
    c.firstBucket.1 (c.firstBucket.2.entries.insert { key := k, value := v, frequency := 1 }).1
  refine ⟨?_, hfirstBuckets.sameSlots hjoinedBuckets⟩
  rw [← hfirst]
  exact .insertion _ hjoined

private theorem moves_remove (c : FrequencyCache κ υ) (k : κ) : c.Moves (c.remove k).2 := by
  cases hk : c.index[k]? with
  | none =>
    simp only [FrequencyCache.remove, hk]
    exact .refl c
  | some h =>
    cases he : c.entries.get? h with
    | none =>
      simp only [FrequencyCache.remove, hk, he]
      exact ⟨.none (.refl _), .none (.refl _)⟩
    | some e =>
      -- the entry leaves its bucket, if there is one, and then the pool
      have hleave : ∃ c' : FrequencyCache κ υ, c.entries.SameSlots c'.entries ∧ c.buckets.Change c'.buckets ∧
          (c.remove k).2.entries = (c'.entries.erase h).2 ∧ (c.remove k).2.buckets = c'.buckets := by
        cases hb : c.byFrequency[e.frequency]? with
        | none =>
          refine ⟨c, .refl _, .none (.refl _), ?_⟩
          simp only [FrequencyCache.remove, hk, he, hb]
          split
          · next herase => exact ⟨(congrArg Prod.snd herase).symm, rfl⟩
          · next herase => exact ⟨(congrArg Prod.snd herase).symm, rfl⟩
        | some b =>
          obtain ⟨hentries, hbuckets⟩ := change_leaveBucket { c with index := c.index.erase k } b h
          refine ⟨_, hentries, hbuckets, ?_⟩
          simp only [FrequencyCache.remove, hk, he, hb]
          split
          · next herase => exact ⟨(congrArg Prod.snd herase).symm, rfl⟩
          · next herase => exact ⟨(congrArg Prod.snd herase).symm, rfl⟩
      obtain ⟨c', hentries, hbuckets, hremoved, hkept⟩ := hleave
      refine ⟨?_, ?_⟩
      · rw [hremoved]
        exact hentries.erasure h
      · rw [hkept]
        exact hbuckets

private theorem isChain_get (c : FrequencyCache κ υ) (k : κ) :
    (c :: (c.duringGet k ++ [(c.get k).2])).IsChain Moves := by
  unfold duringGet
  cases hk : c.index[k]? with
  | none =>
    simp only [FrequencyCache.get, hk]
    exact List.isChain_pair.2 ⟨.none (.refl _), .none (.refl _)⟩
  | some h =>
    obtain ⟨hentries, hbuckets⟩ := (c.count .hit).change_halfway h
    have hhalf : c.Moves ((c.count .hit).halfway h) := ⟨.none (hentries ▸ .refl _), hbuckets⟩
    simp only [FrequencyCache.get, hk]
    exact List.isChain_cons_cons.2 ⟨hhalf, List.isChain_pair.2 (moves_promote _ h)⟩

private theorem isChain_put (c : FrequencyCache κ υ) (k : κ) (v : υ) :
    (c :: (c.duringPut k v ++ [(c.put k v).2.2])).IsChain Moves := by
  unfold duringPut
  cases hk : c.index[k]? with
  | some h =>
    let c₁ : FrequencyCache κ υ :=
      { c.count .update with entries := c.entries.modifyValue h fun e => { e with value := v } }
    obtain ⟨hentries, hbuckets⟩ := c₁.change_halfway h
    have hhalf : c.Moves (c₁.halfway h) := ⟨.none (hentries ▸ Pool.sameSlots_modify _ h), hbuckets⟩
    simp only [FrequencyCache.put, hk]
    exact List.isChain_cons_cons.2 ⟨hhalf, List.isChain_pair.2 (moves_promote _ h)⟩
  | none =>
    rw [put_of_absent hk]
    by_cases hfull : c.capacity.size ≤ c.length
    · simp only [if_pos hfull]
      exact List.isChain_cons_cons.2 ⟨c.moves_evict, List.isChain_pair.2 (moves_insertNew _ k v)⟩
    · simp only [if_neg hfull]
      exact List.isChain_pair.2 (moves_insertNew _ k v)

theorem isChain_between (c : FrequencyCache κ υ) {r : CountedRequest κ υ} (hr : r.isClear = false) :
    (c :: (c.between r ++ [(c.answer r).2])).IsChain Moves := by
  cases r with
  | frequencyOf k => exact List.isChain_pair.2 (.refl c)
  | plain r =>
    cases r with
    | get k => exact c.isChain_get k
    | getWith k f => exact c.isChain_get k
    | put k v => exact c.isChain_put k v
    | putIfAbsent k v =>
      have hget := c.isChain_get k
      simp only [between, FrequencyCache.answer, FrequencyCache.putIfAbsent]
      generalize c.get k = x at hget
      obtain ⟨_ | w, c'⟩ := x
      · -- the look-up first, and then the insertion
        have hput := c'.isChain_put k v
        rw [List.append_assoc, List.cons_append, ← List.cons_append]
        exact List.isChain_split.2 ⟨hget, hput⟩
      · exact hget
    | contains k => exact List.isChain_pair.2 (.refl c)
    | remove k => exact List.isChain_pair.2 (c.moves_remove k)
    | length => exact List.isChain_pair.2 (.refl c)
    | keys => exact List.isChain_pair.2 (.refl c)
    | clear => cases hr

/-- The pools hold no more nodes than the capacity calls for. -/
def Fits (c : FrequencyCache κ υ) (capacity : Capacity) : Prop :=
  c.entries.size ≤ capacity.size ∧ c.buckets.size ≤ capacity.size + 1

namespace Holds

/-- No bucket is empty, so that there are no more buckets than entries. -/
private theorem size_buckets_le (hc : c.Holds L) : c.buckets.size ≤ (flat L).length := by
  have hsize : c.buckets.size = (L.map fun x => x.entries.length).length := by
    rw [hc.laid.buckets.stores.size_eq_length, List.length_map, List.length_map]
  rw [hsize, flat, List.length_flatMap]
  apply List.length_le_sum_of_one_le
  intro n hn
  obtain ⟨x, hx, rfl⟩ := List.mem_map.1 hn
  exact List.length_pos_iff.2 (hc.tidy x hx).filled

private theorem fits (hc : c.Holds L) : c.Fits c.capacity := by
  have hle := hc.length_le
  have hbuckets := hc.size_buckets_le
  refine ⟨?_, by omega⟩
  rw [hc.laid.entries.size_eq_length]
  exact hle

/-- Halfway there may be one bucket more. -/
private theorem fits_halfway (hc : c.Holds L) (h : Handle) : (c.halfway h).Fits c.capacity := by
  obtain ⟨hentries, hchange⟩ := c.change_halfway h
  have hbuckets := hc.size_buckets_le
  have hle := hc.length_le
  have hone := hchange.size_le
  refine ⟨?_, by omega⟩
  rw [hentries]
  exact hc.fits.1

private theorem fits_duringGet (hc : c.Holds L) (k : κ) : ∀ t ∈ c.duringGet k, t.Fits c.capacity := by
  intro t ht
  unfold duringGet at ht
  split at ht
  · cases ht
  · next h _ =>
    rw [List.mem_singleton.1 ht]
    exact (hc.setCounters (c.count .hit).counters).fits_halfway h

variable [EquivBEq κ] [LawfulHashable κ]

private theorem fits_duringPut (hc : c.Holds L) (k : κ) (v : υ) : ∀ t ∈ c.duringPut k v, t.Fits c.capacity := by
  intro t ht
  unfold duringPut at ht
  split at ht
  · next h hk =>
    obtain ⟨e, l, r, hflat, -⟩ := hc.lookup hk
    obtain ⟨L', -, hc'⟩ := hc.setValue hflat v
    rw [List.mem_singleton.1 ht]
    exact (hc'.setCounters (c.count .update).counters).fits_halfway h
  · split at ht
    · next hfull =>
      obtain ⟨-, -, -, -, -, hcap, -, L', hc', -⟩ := hc.evict (hc.ne_nil_of_full hfull)
      rw [List.mem_singleton.1 ht, ← hcap]
      exact hc'.fits
    · cases ht

private theorem fits_between (hc : c.Holds L) (r : CountedRequest κ υ) : ∀ t ∈ c.between r, t.Fits c.capacity := by
  intro t ht
  cases r with
  | frequencyOf k => cases ht
  | plain r =>
    cases r with
    | get k => exact hc.fits_duringGet k t ht
    | getWith k f => exact hc.fits_duringGet k t ht
    | put k v => exact hc.fits_duringPut k v t ht
    | putIfAbsent k v =>
      simp only [between] at ht
      cases hk : c.index[k]? with
      | some h =>
        -- the look-up finds the value, and nothing comes after it
        obtain ⟨e, l, r, hflat, -⟩ := hc.lookup hk
        have hvalue := hc.get_fst hk hflat
        generalize c.get k = x at hvalue ht
        obtain ⟨v?, c'⟩ := x
        obtain rfl : v? = some e.value := hvalue
        exact hc.fits_duringGet k t ht
      | none =>
        have hcount := hc.setCounters (c.count .miss).counters
        simp only [FrequencyCache.get, duringGet, hk, List.nil_append] at ht
        rcases List.mem_cons.1 ht with rfl | ht
        · exact hcount.fits
        · exact hcount.fits_duringPut k v t ht
    | contains k => cases ht
    | remove k => cases ht
    | length => cases ht
    | keys => cases ht
    | clear => cases ht

end Holds

variable [EquivBEq κ] [LawfulHashable κ]

private theorem Lasts.fits {capacity : Capacity} {n : Nat} (hc : c.Lasts capacity (n + 1)) (r : CountedRequest κ υ) :
    ∀ t ∈ c.between r ++ [(c.answer r).2], t.Fits capacity := by
  obtain ⟨hcap', m', ⟨L', T', hnext⟩, -⟩ := hc.answer r
  obtain ⟨hcap, m, ⟨L, T, hcm⟩, -⟩ := hc
  rw [List.forall_mem_append, List.forall_mem_singleton]
  exact ⟨hcap ▸ hcm.holds.fits_between r, hcap' ▸ hnext.holds.fits⟩

private theorem tight_run (capacity : Capacity) {rs : List (CountedRequest κ υ)} (hrs : rs.length < 2 ^ 64 - 1) :
    let fresh : FrequencyCache κ υ := .empty capacity
    let c := (answers FrequencyCache.answer fresh rs).2
    Tight c.entries (peak (fun c => c.entries.size) FrequencyCache.answer between CountedRequest.isClear 0 fresh rs)
        capacity.size ∧
      Tight c.buckets (peak (fun c => c.buckets.size) FrequencyCache.answer between CountedRequest.isClear 0 fresh rs)
        (capacity.size + 1) := by
  intro fresh c
  have hclear : ∀ (c : FrequencyCache κ υ) r, CountedRequest.isClear r = true → (c.answer r).2 = c.clear := by
    rintro c (r | k) hr
    · obtain rfl := Request.isClear_iff.1 hr
      rfl
    · cases hr
  obtain ⟨hentries, hentriesSlots⟩ := slots_eq_peak (fun c : FrequencyCache κ υ => c.entries)
    (fun c r hr => congrArg FrequencyCache.entries (hclear c r hr))
    (fun c r hr => (c.isChain_between hr).imp fun _ _ => Moves.entries) (s := fresh) Pool.Sound.empty rs
  obtain ⟨hbuckets, hbucketsSlots⟩ := slots_eq_peak (fun c : FrequencyCache κ υ => c.buckets)
    (fun c r hr => congrArg FrequencyCache.buckets (hclear c r hr))
    (fun c r hr => (c.isChain_between hr).imp fun _ _ => Moves.buckets) (s := fresh) Pool.Sound.empty rs
  have hlasts : fresh.Lasts capacity rs.length := lasts_empty capacity hrs
  constructor
  · refine hentries.tight hentriesSlots
      (peak_le (I := fun rs c => c.Lasts capacity rs.length) ?_ (Nat.zero_le _) hlasts)
    intro r rs c hc
    exact ⟨hc.answer r, fun t ht => (hc.fits r t ht).1⟩
  · refine hbuckets.tight hbucketsSlots
      (peak_le (I := fun rs c => c.Lasts capacity rs.length) ?_ (Nat.zero_le _) hlasts)
    intro r rs c hc
    exact ⟨hc.answer r, fun t ht => (hc.fits r t ht).2⟩

end FrequencyCache

/-! ### Every policy -/

variable {κ υ : Type} [BEq κ] [Hashable κ] [EquivBEq κ] [LawfulHashable κ]

/-- After every run the pool of entries of a bounded cache has as many slots as it held entries at once since it was
last cleared, and no more than the capacity; in a cache in order of frequency that takes fewer than `2 ^ 64 - 1`
requests the pool of buckets has as many slots as it held buckets at once, and one more than the capacity at most.
The entries and buckets are counted at the moments between which no pool changes by more than one node. -/
theorem slots_are_as_many_as_needed (capacity : Capacity) :
    (∀ (o : Order) (rs : List (Request κ υ)),
      let fresh : OrderedCache o κ υ := .empty capacity
      let c := (answers OrderedCache.answer fresh rs).2
      let most := peak (fun c : OrderedCache o κ υ => c.entries.pool.size) OrderedCache.answer OrderedCache.between
        Request.isClear 0 fresh rs
      Tight c.entries.pool most capacity.size ∧
        ∀ r, r.isClear = false → (c :: (c.between r ++ [(c.answer r).2])).IsChain OrderedCache.Moves) ∧
    ∀ rs : List (CountedRequest κ υ), rs.length < 2 ^ 64 - 1 →
      let fresh : FrequencyCache κ υ := .empty capacity
      let c := (answers FrequencyCache.answer fresh rs).2
      let most := fun size : FrequencyCache κ υ → Nat =>
        peak size FrequencyCache.answer FrequencyCache.between CountedRequest.isClear 0 fresh rs
      Tight c.entries (most fun c => c.entries.size) capacity.size ∧
        Tight c.buckets (most fun c => c.buckets.size) (capacity.size + 1) ∧
        ∀ r, r.isClear = false → (c :: (c.between r ++ [(c.answer r).2])).IsChain FrequencyCache.Moves := by
  refine ⟨?_, ?_⟩
  · intro o rs fresh c most
    exact ⟨OrderedCache.tight_run capacity rs, fun r hr => c.isChain_between hr⟩
  · intro rs hrs fresh c most
    obtain ⟨hentries, hbuckets⟩ := FrequencyCache.tight_run capacity hrs
    exact ⟨hentries, hbuckets, fun r hr => c.isChain_between hr⟩

/-- A third key meets two caches that are full, and a use needs one bucket more while it lasts. -/
theorem slots_after_eviction_and_use :
    let rs : List (Request Nat Nat) :=
      [.put 1 10, .put 2 20, .put 3 30, .get 3, .remove 3, .clear, .put 4 40, .get 4]
    rs.length < 2 ^ 64 - 1 ∧
      (∀ o, (answers OrderedCache.answer (.empty { size := 2 } : OrderedCache o Nat Nat)
        rs).2.entries.pool.slots.size ≤ 2) ∧
      (answers FrequencyCache.answer (.empty { size := 2 } : FrequencyCache Nat Nat)
        (rs.map CountedRequest.plain)).2.buckets.slots.size ≤ 3 := by
  intro rs
  have hrs : rs.length < 2 ^ 64 - 1 := by decide
  obtain ⟨hordered, hfrequency⟩ := slots_are_as_many_as_needed (κ := Nat) (υ := Nat) { size := 2 }
  refine ⟨hrs, ?_, ?_⟩
  · intro o
    exact (hordered o rs).1.slots_le
  · obtain ⟨-, hbuckets, -⟩ := hfrequency (rs.map CountedRequest.plain) hrs
    exact hbuckets.slots_le

end Caching
