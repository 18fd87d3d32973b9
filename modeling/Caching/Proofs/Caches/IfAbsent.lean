import Mathlib
import Caching.Proofs.Bounded.FrequencyRuns
import Caching.Proofs.Bounded.Ordered
import Caching.Proofs.Caches.Private
import Caching.Proofs.Caches.Run

/-!
# One request or two

A value is stored under a new key in one request (`putIfAbsent`), or by a look-up and, if that finds nothing, a second
request (`lookUpThenPut`).  At a store the two are the same, and at a per-thread cache that has an instance for the
thread as well.  At one that has none yet, one request has the instance made before the look-up, which then counts as
a miss there; of two requests only the second one has it made.  So this miss is all in which they differ.
-/

namespace Caching

variable {κ υ : Type} [BEq κ] [Hashable κ]

/-! ### Stores -/

namespace Store

/-- Stores a value unless a look-up finds one, in two requests. -/
def lookUpThenPut (s : Store κ υ) (k : κ) (v : υ) : Option υ × Option Eviction × Store κ υ :=
  match s.get k with
  | (some current, s) => (some current, none, s)
  | (none, s) => s.put k v

private theorem lookUpThenPut_of_some {s : Store κ υ} {k : κ} {u : υ} (h : (s.get k).1 = some u) (v : υ) :
    s.lookUpThenPut k v = (some u, none, (s.get k).2) := by
  unfold lookUpThenPut
  generalize s.get k = x at h ⊢
  obtain ⟨u?, s'⟩ := x
  obtain rfl : u? = some u := h
  rfl

private theorem lookUpThenPut_of_none {s : Store κ υ} {k : κ} (h : (s.get k).1 = none) (v : υ) :
    s.lookUpThenPut k v = (s.get k).2.put k v := by
  unfold lookUpThenPut
  generalize s.get k = x at h ⊢
  obtain ⟨u?, s'⟩ := x
  obtain rfl : u? = none := h
  rfl

private theorem putIfAbsent_eq_lookUpThenPut (s : Store κ υ) (k : κ) (v : υ) :
    s.putIfAbsent k v = s.lookUpThenPut k v := by
  unfold putIfAbsent lookUpThenPut
  cases s with
  | fifo c | lru c =>
    simp only [get, OrderedCache.putIfAbsent]
    generalize c.get k = x
    obtain ⟨_ | u, c'⟩ := x <;> rfl
  | lfu c =>
    simp only [get, FrequencyCache.putIfAbsent]
    generalize c.get k = x
    obtain ⟨_ | u, c'⟩ := x <;> rfl
  | striped m =>
    simp only [get, StripedMap.putIfAbsent]
    cases hu : m.get? k with
    | none => simp only [put, StripedMap.put, hu]
    | some u => rfl

/-- Counts a look-up that finds nothing. -/
def miss : Store κ υ → Store κ υ
  | .fifo c => .fifo { c with counters := c.counters.miss }
  | .lru c => .lru { c with counters := c.counters.miss }
  | .lfu c => .lfu (c.count .miss)
  | .striped m => .striped m

end Store

/-! Where there is room for a new key, the miss is all that the two ways of storing it differ in. -/

private theorem OrderedCache.putIfAbsent_of_room {o : Order} {c : OrderedCache o κ υ} {k : κ} (hk : c.index[k]? = none)
    (hroom : c.length < c.capacity.size) (v : υ) : ∃ c', c.put k v = (none, none, c') ∧
      c.putIfAbsent k v = (none, none, { c' with counters := c'.counters.miss }) := by
  have hput : ¬ c.capacity.size ≤ c.length := Nat.not_le.2 hroom
  have hmiss : ¬ c.capacity.size ≤ length (o := o) { c with counters := c.counters.miss } := hput
  refine ⟨_, by simp only [put, hk, if_neg hput]; rfl, ?_⟩
  rw [putIfAbsent_of_absent hk]
  simp only [put, hk, if_neg hmiss]
  rfl

private theorem FrequencyCache.insertNew_miss (c : FrequencyCache κ υ) (k : κ) (v : υ) :
    (c.count .miss).insertNew k v = (c.insertNew k v).count .miss := by
  unfold insertNew firstBucket joinBucket count
  cases c.byFrequency[(1 : UInt64)]? with
  | some b =>
    dsimp only
    split <;> rfl
  | none =>
    dsimp only
    split <;> rfl

private theorem FrequencyCache.putIfAbsent_of_room {c : FrequencyCache κ υ} {k : κ} (hk : c.index[k]? = none)
    (hroom : c.length < c.capacity.size) (v : υ) : ∃ c', c.put k v = (none, none, c') ∧
      c.putIfAbsent k v = (none, none, c'.count .miss) := by
  have hput : ¬ c.capacity.size ≤ c.length := Nat.not_le.2 hroom
  have hmiss : ¬ (c.count .miss).capacity.size ≤ (c.count .miss).length := hput
  have hk' : (c.count .miss).index[k]? = none := hk
  refine ⟨c.insertNew k v, ?_, ?_⟩
  · rw [put_of_absent hk, if_neg hput]
  · rw [putIfAbsent_of_absent hk, put_of_absent hk', if_neg hmiss, insertNew_miss]

private theorem StripedMap.putIfAbsent_of_absent {m : StripedMap κ υ} {k : κ} (hk : m.get? k = none) (v : υ) :
    ∃ m', m.put k v = (none, m') ∧ m.putIfAbsent k v = (none, m') := by
  simp only [put, putIfAbsent, hk]
  exact ⟨_, rfl, rfl⟩

/-- An empty store that nothing was asked of. -/
inductive Store.Fresh : Store κ υ → Prop
  | fifo (capacity : Capacity) : Fresh (.fifo (.empty capacity))
  | lru (capacity : Capacity) : Fresh (.lru (.empty capacity))
  | lfu (capacity : Capacity) : Fresh (.lfu (.empty capacity))
  | striped (striping : Striping) (hash : κ → UInt64) : Fresh (.striped (.empty striping hash))

theorem Store.Fresh.putIfAbsent {s : Store κ υ} (hs : s.Fresh) (k : κ) (v : υ) :
    ∃ s', s.put k v = (none, none, s') ∧ s.putIfAbsent k v = (none, none, s'.miss) := by
  have hk : ({} : Std.HashMap κ Linked.Handle)[k]? = none := Std.HashMap.getElem?_empty
  cases hs with
  | fifo capacity =>
    obtain ⟨c', hput, hif⟩ := OrderedCache.putIfAbsent_of_room (c := .empty (o := .arrival) capacity) hk
      capacity.size_pos v
    exact ⟨.fifo c', by simp only [put, hput], by simp only [Store.putIfAbsent, hif, miss]⟩
  | lru capacity =>
    obtain ⟨c', hput, hif⟩ := OrderedCache.putIfAbsent_of_room (c := .empty (o := .use) capacity) hk
      capacity.size_pos v
    exact ⟨.lru c', by simp only [put, hput], by simp only [Store.putIfAbsent, hif, miss]⟩
  | lfu capacity =>
    obtain ⟨c', hput, hif⟩ := FrequencyCache.putIfAbsent_of_room (c := .empty capacity) hk capacity.size_pos v
    exact ⟨.lfu c', by simp only [put, hput], by simp only [Store.putIfAbsent, hif, miss]⟩
  | striped striping hash =>
    have habsent : (StripedMap.empty striping hash : StripedMap κ υ).get? k = none := by
      simp [StripedMap.get?, StripedMap.segment, StripedMap.empty]
    obtain ⟨m', hput, hif⟩ := StripedMap.putIfAbsent_of_absent habsent v
    exact ⟨.striped m', by simp only [put, hput], by simp only [Store.putIfAbsent, hif, miss]⟩

/-- A factory that makes a store makes it anew, and nothing above it. -/
private theorem Private.fresh_of_made? {make : Factory κ} {s : Store κ υ} (h : made? make = some (.store s)) :
    s.Fresh ∧ ∀ rankOf, make.rank rankOf = 0 := by
  induction make with
  | bounded policy capacity =>
    refine ⟨?_, fun _ => rfl⟩
    cases policy <;> cases h <;> constructor
  | striped striping hash =>
    cases h
    exact ⟨.striped striping hash, fun _ => rfl⟩
  | counted _ make ih => exact ih h
  | existing => cases h
  | perThread make _ =>
    obtain ⟨p, -, hp⟩ := Option.map_eq_some_iff.1 h
    cases hp
  | forwarding inner =>
    obtain ⟨p, -, hp⟩ := Option.map_eq_some_iff.1 h
    cases hp

namespace Caches

variable {w : Caches κ υ} {t : ThreadId} {i inner : CacheId} {s fresh : Store κ υ} {make : Factory κ}
  {capacity? : Option Nat} {own? : Option CacheId} {k : κ} {v : υ}

private theorem lookUpThenPut_of_some {u : υ} (h : (w.get t i k).1 = some u) (v : υ) :
    w.lookUpThenPut t i k v = (some u, (w.get t i k).2) := by
  unfold lookUpThenPut
  generalize w.get t i k = x at h ⊢
  obtain ⟨u?, w'⟩ := x
  obtain rfl : u? = some u := h
  rfl

private theorem lookUpThenPut_of_none (h : (w.get t i k).1 = none) (v : υ) :
    w.lookUpThenPut t i k v = (w.get t i k).2.put t i k v := by
  unfold lookUpThenPut
  generalize w.get t i k = x at h ⊢
  obtain ⟨u?, w'⟩ := x
  obtain rfl : u? = none := h
  rfl

/-! ### At a store -/

/-- Of two contents the last one stays. -/
private theorem setBody_setBody (w : Caches κ υ) (i : CacheId) (b b' : Body κ υ) :
    (w.setBody i b).setBody i b' = w.setBody i b' := by
  have hset : (w.setBody i b).instances.modify i (Option.map fun x => { x with body := b' }) =
      w.instances.modify i (Option.map fun x => { x with body := b' }) := by
    apply Array.ext_getElem?
    intro j
    simp only [setBody, Array.getElem?_modify]
    split <;> simp [Option.map_map, Function.comp_def]
  exact congrArg (fun x => { w with instances := x }) hset

private theorem get_of_store (h : w.sight? t i = some (.store s)) (k : κ) :
    w.get t i k = ((s.get k).1, w.setBody i (.store (s.get k).2)) := by
  simp only [get, target_of_store h, updateStore_of_sight? h, emitEviction]

private theorem put_of_store (h : w.sight? t i = some (.store s)) (k : κ) (v : υ) :
    w.put t i k v = ((s.put k v).1, (w.setBody i (.store (s.put k v).2.2)).emitEviction (s.put k v).2.1) := by
  simp only [put, settle_of_store h, updateStore_of_sight? h]

private theorem lookUpThenPut_of_store (h : w.sight? t i = some (.store s)) (k : κ) (v : υ) :
    w.lookUpThenPut t i k v = ((s.lookUpThenPut k v).1,
      (w.setBody i (.store (s.lookUpThenPut k v).2.2)).emitEviction (s.lookUpThenPut k v).2.1) := by
  have hget := get_of_store h k
  cases hu : (s.get k).1 with
  | some u =>
    rw [hu] at hget
    rw [lookUpThenPut_of_some (by rw [hget]), hget, Store.lookUpThenPut_of_some hu]
    rfl
  | none =>
    rw [hu] at hget
    have hafter : (w.setBody i (.store (s.get k).2)).sight? t i = some (.store (s.get k).2) := by
      rw [sight?_setBody, if_pos rfl, h]
      rfl
    rw [lookUpThenPut_of_none (by rw [hget]), hget, put_of_store hafter, Store.lookUpThenPut_of_none hu,
      setBody_setBody]

private theorem putIfAbsent_eq_lookUpThenPut_of_store (h : w.sight? t i = some (.store s)) (k : κ) (v : υ) :
    w.putIfAbsent t i k v = w.lookUpThenPut t i k v := by
  rw [putIfAbsent_of_store h, updateStore_of_sight? h, lookUpThenPut_of_store h, Store.putIfAbsent_eq_lookUpThenPut]

private theorem sight?_putIfAbsent_of_store (h : w.sight? t i = some (.store s)) (k : κ) (v : υ) :
    (w.putIfAbsent t i k v).2.sight? t i = some (.store (s.putIfAbsent k v).2.2) :=
  (sight?_answer_of_store h (.putIfAbsent k v) t i).trans (if_pos rfl)

/-! ### At a per-thread cache with an instance for the thread -/

/-- Only a store has rank 0. -/
private theorem Ranked.store_of_rank_eq_zero (hw : w.Ranked) (hi : w.Has i) (h : w.rank i = 0) (t : ThreadId) :
    ∃ s, w.sight? t i = some (.store s) := by
  obtain ⟨s, hs⟩ := (has_iff_sight? t).1 hi
  have hranked := hw t i s hs
  rw [h] at hranked
  cases s with
  | store s => exact ⟨s, hs⟩
  | perThread make capacity? own? => exact absurd hranked.2.1 (Nat.succ_ne_zero _).symm
  | forwarding inner => exact absurd hranked.2 (Nat.succ_ne_zero _).symm

private theorem put_of_perThread (h : w.sight? t i = some (.perThread make capacity? own?))
    (hrank : w.rank i = (w.ownInstance t i make).2.rank (w.ownInstance t i make).1 + 1) (k : κ) (v : υ) :
    w.put t i k v = (w.ownInstance t i make).2.put t (w.ownInstance t i make).1 k v := by
  simp only [put, settle_of_perThread h hrank]

/-- Both requests go on to the thread's own instance, which the first one leaves to the thread. -/
private theorem Ranked.lookUpThenPut_of_bound (hw : w.Ranked)
    (hs : w.sight? t i = some (.perThread make capacity? (some inner))) (k : κ) (v : υ) :
    w.lookUpThenPut t i k v = w.lookUpThenPut t inner k v := by
  have hi : w.Has i := (has_iff_sight? t).2 ⟨_, hs⟩
  obtain ⟨hinner, hrank⟩ := (hw t i _ hs).2.2 inner rfl
  have hget : w.get t i k = w.get t inner k := by
    simp only [get, target_of_bound hs hrank]
  cases hu : (w.get t inner k).1 with
  | some u => rw [lookUpThenPut_of_some (hget ▸ hu), lookUpThenPut_of_some hu, hget]
  | none =>
    have hworks := w.answer_works_true t inner (.get k)
    have hs' : (w.get t inner k).2.sight? t i = some (.perThread make capacity? (some inner)) :=
      (hw.sight?_answer (hrank ▸ Nat.lt_succ_self _) hi t t (.get k)).trans hs
    have hown := ownInstance_of_bound (bound?_of_sight? hs') make
    have hput := put_of_perThread hs' ((hworks.ranked hw).rank_eq hs') k v
    rw [lookUpThenPut_of_none (hget ▸ hu), lookUpThenPut_of_none hu, hget, hput, hown]

private theorem Ranked.putIfAbsent_eq_inner (hw : w.Ranked)
    (hs : w.sight? t i = some (.perThread make capacity? (some inner))) (k : κ) (v : υ) :
    w.putIfAbsent t i k v = w.putIfAbsent t inner k v := by
  rw [putIfAbsent_of_perThread hs (hw.rank_eq hs), ownInstance_of_bound (bound?_of_sight? hs)]

private theorem Ranked.putIfAbsent_of_bound (hw : w.Ranked)
    (hs : w.sight? t i = some (.perThread make capacity? (some inner)))
    (hmake : Private.made? make = some (.store fresh)) (k : κ) (v : υ) :
    w.putIfAbsent t i k v = w.lookUpThenPut t i k v := by
  obtain ⟨-, hmakes, hown⟩ := hw t i _ hs
  obtain ⟨hinner, hrank⟩ := hown inner rfl
  rw [(Private.fresh_of_made? hmake).2] at hmakes
  have hzero : w.rank inner = 0 := by omega
  obtain ⟨s, hstore⟩ := hw.store_of_rank_eq_zero hinner hzero t
  rw [hw.putIfAbsent_eq_inner hs, putIfAbsent_eq_lookUpThenPut_of_store hstore, hw.lookUpThenPut_of_bound hs]

/-! ### At a per-thread cache without one -/

/-- Counts a look-up that finds nothing at an instance, if that is a store. -/
def miss (w : Caches κ υ) (i : CacheId) : Caches κ υ :=
  match w.body? i with
  | some (.store s) => w.setBody i (.store s.miss)
  | _ => w

private theorem miss_setBody (h : w.sight? t i = some (.store s)) (s' : Store κ υ) :
    (w.setBody i (.store s')).miss i = w.setBody i (.store s'.miss) := by
  have hs' : (w.setBody i (.store s')).sight? t i = some (.store s') := by
    rw [sight?_setBody, if_pos rfl, h]
    rfl
  simp only [miss, body?_of_sight?_store hs', setBody_setBody]

private theorem bound?_miss (w : Caches κ υ) (i : CacheId) (t : ThreadId) (j : CacheId) :
    (w.miss i).bound? t j = w.bound? t j := by
  unfold miss
  split
  · next s hb =>
    rw [bound?_eq, bound?_eq, sight?_setBody]
    split
    · next hij =>
      rw [← hij, sight?_of_body? hb]
      rfl
    · rfl
  · rfl

private theorem thread_miss (w : Caches κ υ) (i : CacheId) (t : ThreadId) : (w.miss i).thread t = w.thread t := by
  unfold miss
  split <;> rfl

private theorem builtCount_miss (w : Caches κ υ) (i : CacheId) (counter : String) :
    (w.miss i).builtCount counter = w.builtCount counter := by
  unfold miss
  split <;> rfl

/-- A store is made under a number of its own. -/
private theorem make_fst_ne (hmake : Private.made? make = some (.store fresh)) {j : CacheId}
    (hj : j < w.instances.size) : (w.make make).1 ≠ j :=
  Nat.ne_of_gt (Nat.lt_of_lt_of_le hj ((make_makes w make).new (Private.references_of_made? hmake)).1)

/-- Kept or not, what a thread gets is the store as it is made. -/
private theorem sight?_ownInstance_of_made? (hs : w.sight? t i = some (.perThread make capacity? none))
    (hmake : Private.made? make = some (.store fresh)) :
    (w.ownInstance t i make).2.sight? t (w.ownInstance t i make).1 = some (.store fresh) := by
  have hbound := bound?_of_sight? hs
  have hmade : (w.make make).2.sight? t (w.make make).1 = some (.store fresh) := by
    cases w.shows_make hmake t with
    | store h => exact h
  by_cases hrun : ∃ releases, w.thread t = .running releases
  · obtain ⟨releases, hrun⟩ := hrun
    obtain ⟨w₁, hown, hre, -⟩ := ownInstance_of_running hbound hrun make
    rw [hown, hre.sight?, if_neg (make_fst_ne hmake (lt_size_of_sight? hs)).symm, hmade]
  · rw [ownInstance_of_not_running hbound (fun releases h => hrun ⟨releases, h⟩), hmade]

/-- A value that a thread stores is seen in the instance that the thread gets for it, and nothing else is seen
differently. -/
private theorem Ranked.sight?_put_of_unbound {releases : List CacheId} (hw : w.Ranked)
    (hs : w.sight? t i = some (.perThread make capacity? none)) (hmake : Private.made? make = some (.store fresh))
    (hrun : w.thread t = .running releases) (k : κ) (v : υ) :
    let w' := (w.answer t i (.put k v)).2
    w'.sight? t i = some (.perThread make capacity? (some (w.make make).1)) ∧
      w'.sight? t (w.make make).1 = some (.store (fresh.put k v).2.2) ∧
      ∀ t' j, j < w.instances.size → t' ≠ t ∨ j ≠ i → w'.sight? t' j = w.sight? t' j := by
  intro w'
  have hmakes := make_makes w make
  have hown := sight?_ownInstance_of_made? hs hmake
  have hwrite := answer_of_write hs (hw.rank_eq hs) (r := .put k v) trivial
  obtain ⟨w₁, hw₁, hre, -⟩ := ownInstance_of_running (bound?_of_sight? hs) hrun make
  rw [hw₁] at hown hwrite
  have hseen := sight?_answer_of_store hown (.put k v)
  rw [← hwrite] at hseen
  -- at the instances that there were, it is the binding that is new
  have hold : ∀ t' j, j < w.instances.size → w'.sight? t' j =
      if i = j then (w.sight? t' j).map (Sight.rebound t (some (w.make make).1) t') else w.sight? t' j := by
    intro t' j hj
    rw [hseen, if_neg (make_fst_ne hmake hj), hre.sight?, sight?_congr (hmakes.extends_old.instance? j hj)]
  refine ⟨?_, (hseen t _).trans (if_pos rfl), ?_⟩
  · rw [hold t i (lt_size_of_sight? hs), if_pos rfl, hs]
    exact congrArg some (Sight.rebound_self ..)
  · intro t' j hj hne
    rw [hold t' j hj]
    split
    · next hij =>
      have ht : t' ≠ t := hne.resolve_right fun h => h hij.symm
      cases w.sight? t' j with
      | none => rfl
      | some s => exact congrArg some (Sight.rebound_of_ne ht ..)
    · rfl

/-- Of two requests only the second one has the instance made. -/
private theorem Ranked.putIfAbsent_of_unbound (hw : w.Ranked)
    (hs : w.sight? t i = some (.perThread make capacity? none))
    (hmake : Private.made? make = some (.store fresh)) (k : κ) (v : υ) :
    w.putIfAbsent t i k v =
      ((w.lookUpThenPut t i k v).1, (w.lookUpThenPut t i k v).2.miss (w.make make).1) := by
  have hrank := hw.rank_eq hs
  have hown := sight?_ownInstance_of_made? hs hmake
  have hget : w.get t i k = (none, w) := by
    simp only [get, target_of_unbound hs]
  obtain ⟨s', hput, hif⟩ := (Private.fresh_of_made? hmake).1.putIfAbsent k v
  rw [putIfAbsent_of_perThread hs hrank, putIfAbsent_of_store hown, updateStore_of_sight? hown, hif,
    lookUpThenPut_of_none (by rw [hget]), hget, put_of_perThread hs hrank, put_of_store hown, hput,
    ← ownInstance_fst (bound?_of_sight? hs) make]
  simp only [emitEviction, miss_setBody hown]

/-! ### After every run -/

/-- After every run, and for every thread, a value is stored under a new key in one request as it is in two: at a store
without any difference, and so at a per-thread cache that makes stores if it has an instance for the thread.  If it has
none, the one request counts a miss at the instance that it makes, whether the thread can keep the instance or not. -/
theorem putIfAbsent_agrees_with_lookUpThenPut (before : List (ThreadId × Action κ υ)) (t : ThreadId) (i : CacheId)
    (k : κ) (v : υ) :
    let w := (empty : Caches κ υ).after before
    let one := w.putIfAbsent t i k v
    let two := w.lookUpThenPut t i k v
    (∀ s, w.sight? t i = some (.store s) → one = two) ∧
    ∀ make capacity? own? (fresh : Store κ υ), w.sight? t i = some (.perThread make capacity? own?) →
      Private.made? make = some (.store fresh) →
      one.1 = two.1 ∧ (∀ u j, one.2.bound? u j = two.2.bound? u j) ∧ (∀ u, one.2.thread u = two.2.thread u) ∧
        (∀ counter, one.2.builtCount counter = two.2.builtCount counter) ∧
        one.2 = if own? = none then two.2.miss (w.make make).1 else two.2 := by
  intro w one two
  have hw : w.Ranked := (sound_empty.after before).ranked
  refine ⟨fun s hs => putIfAbsent_eq_lookUpThenPut_of_store hs k v, ?_⟩
  intro make capacity? own? fresh hs hmake
  cases own? with
  | none =>
    have heq : one = (two.1, two.2.miss (w.make make).1) := hw.putIfAbsent_of_unbound hs hmake k v
    rw [heq]
    refine ⟨rfl, ?_, ?_, ?_, (if_pos rfl).symm⟩
    · exact bound?_miss two.2 (w.make make).1
    · exact thread_miss two.2 (w.make make).1
    · exact builtCount_miss two.2 (w.make make).1
  | some inner =>
    have heq : one = two := hw.putIfAbsent_of_bound hs hmake k v
    rw [heq]
    exact ⟨rfl, fun _ _ => rfl, fun _ => rfl, fun _ => rfl, rfl⟩

/-- Thread 0 has stored a value in a full store and in a per-thread cache.  At the store the value is found under its
key, and another key costs it; at the per-thread cache it is found by thread 0, and thread 1 has no instance yet. -/
theorem one_request_or_two_at_two_caches :
    let make : Factory Nat := .counted "caches" (.bounded .lfu ⟨2, Nat.two_pos⟩)
    let makes : List (ThreadId × Action Nat Nat) :=
      [(0, .make (.perThread make (some 2))), (0, .make (.bounded .lru ⟨1, Nat.one_pos⟩))]
    let before := makes ++ [(0, .request 0 (.put 5 7)), (0, .request 1 (.put 5 7))]
    let w := (empty : Caches Nat Nat).after before
    let fresh : Store Nat Nat := .lfu (.empty ⟨2, Nat.two_pos⟩)
    (∃ s, w.sight? 1 1 = some (.store s)) ∧
      ((w.putIfAbsent 1 1 5 8).1 = some 7 ∧ w.putIfAbsent 1 1 5 8 = w.lookUpThenPut 1 1 5 8) ∧
      ((w.putIfAbsent 1 1 6 8).2.contains 1 1 5 = false ∧ w.putIfAbsent 1 1 6 8 = w.lookUpThenPut 1 1 6 8) ∧
      Private.made? make = some (.store fresh) ∧ w.sight? 0 0 = some (.perThread make (some 2) (some 2)) ∧
      ((w.putIfAbsent 0 0 5 8).1 = some 7 ∧ (w.lookUpThenPut 0 0 5 8).1 = some 7 ∧
        (w.putIfAbsent 0 0 5 8).2 = (w.lookUpThenPut 0 0 5 8).2) ∧
      w.sight? 1 0 = some (.perThread make (some 2) none) ∧
      (w.putIfAbsent 1 0 5 8).1 = (w.lookUpThenPut 1 0 5 8).1 ∧
      (w.putIfAbsent 1 0 5 8).2 = (w.lookUpThenPut 1 0 5 8).2.miss (w.make make).1 := by
  intro make makes before w fresh
  have hw : w.Ranked := (sound_empty.after before).ranked
  have hmake : Private.made? make = some (.store fresh) := rfl
  -- the caches are made, then thread 0 stores a value in the one and in the other
  let w₀ := (empty : Caches Nat Nat).after makes
  let w₁ := (w₀.answer 0 0 (.put 5 7)).2
  let c : OrderedCache .use Nat Nat := ((OrderedCache.empty ⟨1, Nat.one_pos⟩).put 5 7).2.2
  have hbody : w₀.body? 0 = some (.perThread make (some 2) {}) := rfl
  have hunbound : ∀ t, w₀.sight? t 0 = some (.perThread make (some 2) none) := by
    intro t
    rw [sight?_of_body? hbody, Body.sight, Std.HashMap.getElem?_empty]
  have hempty : w₀.sight? 0 1 = some (.store (.lru (.empty ⟨1, Nat.one_pos⟩))) := rfl
  have hw₀ : w₀.Ranked := (sound_empty.after _).ranked
  have hrun : w₀.thread 0 = .running [] := Std.HashMap.getD_empty
  obtain ⟨hbound, hown, hothers⟩ := hw₀.sight?_put_of_unbound (hunbound 0) hmake hrun 5 7
  have hempty₁ := (hothers 0 1 (lt_size_of_sight? hempty) (Or.inr Nat.one_ne_zero)).trans hempty
  have hunbound₁ := (hothers 1 0 (lt_size_of_sight? (hunbound 0)) (Or.inl Nat.one_ne_zero)).trans (hunbound 1)
  have hseen : ∀ u j, w.sight? u j = if 1 = j then some (.store (.lru c)) else w₁.sight? u j := by
    have hw₁ : w = (w₁.answer 0 1 (.put 5 7)).2 := by
      simp only [w, before]
      rw [after_append, after_request, after_request, after_nil]
    rw [hw₁]
    exact sight?_answer_of_store hempty₁ (.put 5 7)
  have hfull : w.sight? 1 1 = some (.store (.lru c)) := (hseen 1 1).trans (if_pos rfl)
  have hzero : w.sight? 0 0 = some (.perThread make (some 2) (some 2)) := (hseen 0 0).trans hbound
  have hinner : w.sight? 0 2 = some (.store (fresh.put 5 7).2.2) := (hseen 0 2).trans hown
  have hone : w.sight? 1 0 = some (.perThread make (some 2) none) := (hseen 1 0).trans hunbound₁
  have hagree := putIfAbsent_agrees_with_lookUpThenPut before
  have hlru := (OrderedCache.Agrees.empty (o := .use) (κ := Nat) (υ := Nat) ⟨1, Nat.one_pos⟩).put 5 7
  have hlfu := (FrequencyCache.Agrees.empty (κ := Nat) (υ := Nat) ⟨2, Nat.two_pos⟩).put (by decide) 5 7
  obtain ⟨hsame, -, -, -, hafter⟩ := (hagree 0 0 5 8).2 make (some 2) (some 2) fresh hzero hmake
  obtain ⟨hreply, -, -, -, hmiss⟩ := (hagree 1 0 5 8).2 make (some 2) none fresh hone hmake
  rw [if_neg (Option.some_ne_none _)] at hafter
  rw [if_pos rfl] at hmiss
  have hfound : (w.putIfAbsent 0 0 5 8).1 = some 7 := by
    rw [hw.putIfAbsent_eq_inner hzero, putIfAbsent_of_store hinner, updateStore_of_sight? hinner]
    exact (hlfu.2.putIfAbsent (by decide) 5 8).1
  refine ⟨⟨_, hfull⟩, ⟨?_, (hagree 1 1 5 8).1 _ hfull⟩, ⟨?_, (hagree 1 1 6 8).1 _ hfull⟩, hmake, hzero,
    ⟨hfound, hsame.symm.trans hfound, hafter⟩, hone, hreply, hmiss⟩
  · rw [putIfAbsent_of_store hfull, updateStore_of_sight? hfull]
    exact (hlru.2.putIfAbsent 5 8).1
  · rw [contains, target_of_store (sight?_putIfAbsent_of_store hfull 6 8)]
    exact (hlru.2.putIfAbsent 6 8).2.contains 5

end Caches

end Caching
