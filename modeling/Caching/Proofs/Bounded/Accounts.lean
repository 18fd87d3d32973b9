import Caching.Proofs.Bounded.FrequencyRuns
import Caching.Proofs.Bounded.Ordered
import Caching.Proofs.Bounded.Saturation

/-!
# The counters of a bounded cache as accounts

What a run comes to is its tally: how many look-ups there were and how many of them found their key, how many values
were stored, and how many entries clearing took.  Every request enters its tally in the counters, and what it enters
there and what it does to the length balance (`OrderedCache.Booked`, `FrequencyCache.Booked`); both add up along a
run (`tallied_run`).  The counters are words, so their sums are those of words; they are the true ones while a run
is too short for a counter to wrap around (`Balanced`).
-/

namespace Caching

open Linked
open Bounded (Request CountedRequest)

/-! ### Tallies -/

structure Tally where
  lookUps : Nat := 0
  /-- The look-ups that found their key. -/
  found : Nat := 0
  /-- The values that were to be stored, except those refused since their key was there. -/
  stores : Nat := 0
  added : Nat := 0
  overwritten : Nat := 0
  evicted : Nat := 0
  removed : Nat := 0
  /-- The entries that clearing took. -/
  cleared : Nat := 0

namespace Tally

instance : Add Tally where
  add t u :=
    { lookUps := t.lookUps + u.lookUps, found := t.found + u.found, stores := t.stores + u.stores
      added := t.added + u.added, overwritten := t.overwritten + u.overwritten
      evicted := t.evicted + u.evicted, removed := t.removed + u.removed, cleared := t.cleared + u.cleared }

def lookUp (found : Bool) : Tally := { lookUps := 1, found := found.toNat }

/-- Storing a value in a cache that has the key, or is full. -/
def store (found full : Bool) : Tally :=
  { stores := 1, added := (!found).toNat, overwritten := found.toNat, evicted := (!found && full).toNat }

def storeIfAbsent (found full : Bool) : Tally :=
  { lookUps := 1, found := found.toNat, stores := (!found).toNat, added := (!found).toNat
    evicted := (!found && full).toNat }

private theorem storeIfAbsent_false (full : Bool) : storeIfAbsent false full = lookUp false + store false full := by
  cases full <;> rfl

/-- What holds of the tally of `n` requests. -/
structure Within (t : Tally) (n : Nat) : Prop where
  lookUps : t.lookUps ≤ n
  found : t.found ≤ t.lookUps
  stores : t.added + t.overwritten = t.stores
  stores_le : t.stores ≤ n
  evicted : t.evicted ≤ n
  removed : t.removed ≤ n
  /-- A request uses one entry at most. -/
  uses : t.found + t.overwritten ≤ n

private theorem Within.add {t u : Tally} {m n : Nat} (ht : t.Within m) (hu : u.Within n) : (t + u).Within (m + n) where
  lookUps := Nat.add_le_add ht.lookUps hu.lookUps
  found := Nat.add_le_add ht.found hu.found
  stores := by
    show t.added + u.added + (t.overwritten + u.overwritten) = t.stores + u.stores
    rw [← ht.stores, ← hu.stores]
    omega
  stores_le := Nat.add_le_add ht.stores_le hu.stores_le
  evicted := Nat.add_le_add ht.evicted hu.evicted
  removed := Nat.add_le_add ht.removed hu.removed
  uses := by
    have := ht.uses
    have := hu.uses
    show t.found + u.found + (t.overwritten + u.overwritten) ≤ m + n
    omega

private theorem within_lookUp (found : Bool) : (lookUp found).Within 1 := by
  cases found <;> constructor <;> decide

private theorem within_store (found full : Bool) : (store found full).Within 1 := by
  cases found <;> cases full <;> constructor <;> decide

private theorem within_storeIfAbsent (found full : Bool) : (storeIfAbsent found full).Within 1 := by
  cases found <;> cases full <;> constructor <;> decide

private theorem within_remove (found : Bool) : Tally.Within { removed := found.toNat } 1 := by
  cases found <;> constructor <;> decide

private theorem within_clear (n : Nat) : Tally.Within { cleared := n } 1 :=
  ⟨Nat.zero_le 1, Nat.le_refl 0, rfl, Nat.zero_le 1, Nat.zero_le 1, Nat.zero_le 1, Nat.zero_le 1⟩

private theorem within_empty : Tally.Within {} 0 := by
  constructor <;> decide

end Tally

/-- What a request comes to in a cache with these keys, so full and so long. -/
def Bounded.Request.tally {κ υ : Type} (contains : κ → Bool) (full : Bool) (length : Nat) : Request κ υ → Tally
  | .get k => .lookUp (contains k)
  | .getWith k _ => .lookUp (contains k)
  | .put k _ => .store (contains k) full
  | .putIfAbsent k _ => .storeIfAbsent (contains k) full
  | .remove k => { removed := (contains k).toNat }
  | .clear => { cleared := length }
  | .contains _ | .length | .keys => {}

private theorem Bounded.Request.tally_within {κ υ : Type} (contains : κ → Bool) (full : Bool) (length : Nat)
    (r : Request κ υ) : (r.tally contains full length).Within 1 := by
  cases r with
  | get k => exact Tally.within_lookUp _
  | getWith k f => exact Tally.within_lookUp _
  | put k v => exact Tally.within_store _ full
  | putIfAbsent k v => exact Tally.within_storeIfAbsent _ full
  | remove k => exact Tally.within_remove _
  | clear => exact Tally.within_clear _
  | contains k => exact Tally.within_clear 0
  | length => exact Tally.within_clear 0
  | keys => exact Tally.within_clear 0

/-- The counters with a tally entered in them. -/
def Counters.plus (c : Counters) (t : Tally) : Counters where
  requests := c.requests + .ofNat t.lookUps
  hits := c.hits + .ofNat t.found
  insertions := c.insertions + .ofNat t.added
  updates := c.updates + .ofNat t.overwritten
  evictions := c.evictions + .ofNat t.evicted
  removals := c.removals + .ofNat t.removed

private theorem Counters.plus_empty (c : Counters) : c.plus {} = c := by
  simp [plus]

private theorem Counters.plus_add (c : Counters) (t u : Tally) : (c.plus t).plus u = c.plus (t + u) := by
  simp only [plus, UInt64.add_assoc, ← UInt64.ofNat_add]
  rfl

/-! What the counters record, as tallies. -/

namespace Counters

private theorem hit_eq (c : Counters) : c.hit = c.plus (.lookUp true) := by
  simp [hit, plus, Tally.lookUp]

private theorem miss_eq (c : Counters) : c.miss = c.plus (.lookUp false) := by
  simp [miss, plus, Tally.lookUp]

private theorem update_eq (c : Counters) (full : Bool) : c.update = c.plus (.store true full) := by
  simp [update, plus, Tally.store]

private theorem insertion_eq (c : Counters) : c.insertion = c.plus (.store false false) := by
  simp [insertion, plus, Tally.store]

private theorem eviction_insertion_eq (c : Counters) : c.eviction.insertion = c.plus (.store false true) := by
  simp [eviction, insertion, plus, Tally.store]

private theorem removal_eq (c : Counters) : c.removal = c.plus { removed := 1 } := by
  simp [removal, plus]

end Counters

/-- The tally was entered in the counters, and the length changed by it. -/
structure Booked (t : Tally) (c c' : Counters) (n n' : Nat) : Prop where
  counters : c' = c.plus t
  length : n + t.added = n' + t.evicted + t.removed + t.cleared

theorem Booked.refl (c : Counters) (n : Nat) : Booked {} c c n n := ⟨c.plus_empty.symm, rfl⟩

theorem Booked.trans {t u : Tally} {a b c : Counters} {m n k : Nat} (h₁ : Booked t a b m n)
    (h₂ : Booked u b c n k) : Booked (t + u) a c m k where
  counters := by rw [h₂.counters, h₁.counters, Counters.plus_add]
  length := by
    have := h₁.length
    have := h₂.length
    show m + (t.added + u.added) = k + (t.evicted + u.evicted) + (t.removed + u.removed) + (t.cleared + u.cleared)
    omega

/-! ### Runs -/

section Runs

universe u v w

variable {σ : Type u} {ι : Type v} {ρ : Type w} {step : σ → ι → ρ × σ} {tally : σ → ι → Tally}

/-- What the requests of a run come to, each in the state that it is made in. -/
def tallied (step : σ → ι → ρ × σ) (tally : σ → ι → Tally) : σ → List ι → Tally
  | _, [] => {}
  | s, i :: is => tally s i + tallied step tally (step s i).2 is

private theorem tallied_within (htally : ∀ s i, (tally s i).Within 1) (s : σ) (is : List ι) :
    (tallied step tally s is).Within is.length := by
  induction is generalizing s with
  | nil => exact Tally.within_empty
  | cons i is ih =>
    rw [List.length_cons, Nat.add_comm]
    exact (htally s i).add (ih _)

/-- What each request does to its tally and what adds up, a run does to its own. -/
theorem tallied_run {R : Tally → σ → σ → Prop} {I : List ι → σ → Prop} (hrefl : ∀ s, R {} s s)
    (htrans : ∀ t u a b c, R t a b → R u b c → R (t + u) a c)
    (hstep : ∀ i is s, I (i :: is) s → I is (step s i).2 ∧ R (tally s i) s (step s i).2)
    {is : List ι} {s : σ} (hs : I is s) : R (tallied step tally s is) s (answers step s is).2 := by
  induction is generalizing s with
  | nil => exact hrefl s
  | cons i is ih =>
    obtain ⟨hnext, hi⟩ := hstep i is s hs
    exact htrans _ _ _ _ _ hi (ih hnext)

end Runs

/-! ### Caches in order of arrival or of use -/

namespace OrderedCache

variable {o : Order} {κ υ : Type} [BEq κ] [Hashable κ] {c : OrderedCache o κ υ} {l : List (Handle × κ × υ)} {k : κ}

def tally (c : OrderedCache o κ υ) (r : Request κ υ) : Tally :=
  r.tally c.contains (c.capacity.size ≤ c.length) c.length

/-- From `c` to `c'` the tally was entered. -/
def Books (t : Tally) (c c' : OrderedCache o κ υ) : Prop := Booked t c.counters c'.counters c.length c'.length

/-- An eviction that gives up an entry counts it. -/
private theorem counters_evict {eviction : Eviction} (he : c.evict.1 = some eviction) :
    c.evict.2.counters = c.counters.eviction := by
  unfold evict at he ⊢
  split at he
  · cases he
  · rfl

variable [EquivBEq κ] [LawfulHashable κ]

theorem contains_eq (c : OrderedCache o κ υ) (k : κ) : c.contains k = c.index[k]?.isSome :=
  Std.HashMap.contains_eq_isSome_getElem?

private theorem books_get (c : OrderedCache o κ υ) (k : κ) : Books (.lookUp (c.contains k)) c (c.get k).2 := by
  rw [contains_eq]
  unfold OrderedCache.get
  cases c.index[k]? with
  | none => exact ⟨c.counters.miss_eq, rfl⟩
  | some h => exact ⟨c.counters.hit_eq, rfl⟩

namespace Holds

private theorem books_put (hc : c.Holds l) (k : κ) (v : υ) :
    Books (.store (c.contains k) (c.capacity.size ≤ c.length)) c (c.put k v).2.2 := by
  rw [contains_eq]
  cases hk : c.index[k]? with
  | some h =>
    simp only [put, hk]
    exact ⟨c.counters.update_eq _, rfl⟩
  | none =>
    by_cases hfull : c.capacity.size ≤ c.length
    · obtain ⟨hevict, -, h, e, l', hc', hp, hindex, -⟩ := hc.evict (hc.ne_nil_of_full hfull)
      have hk' : c.evict.2.index[k]? = none := by
        rw [hindex]
        exact getElem?_erase_of_absent hk _
      simp only [put, hk, if_pos hfull, decide_eq_true hfull]
      refine ⟨?_, ?_⟩
      · show c.evict.2.counters.insertion = _
        rw [counters_evict hevict]
        exact c.counters.eviction_insertion_eq
      · show c.length + 1 = (c.evict.2.index.insert k _).size + 1
        rw [size_insert_of_absent hk', hc'.index.size, hc.length, hp.length_eq, List.length_cons]
    · simp only [put, hk, if_neg hfull, decide_eq_false hfull]
      exact ⟨c.counters.insertion_eq, (size_insert_of_absent hk _).symm⟩

private theorem books_putIfAbsent (hc : c.Holds l) (k : κ) (v : υ) :
    Books (c.tally (.putIfAbsent k v)) c (c.putIfAbsent k v).2.2 := by
  have hget := c.books_get k
  rw [contains_eq] at hget
  simp only [tally, Request.tally, contains_eq]
  cases hk : c.index[k]? with
  | some h =>
    obtain ⟨e, l₁, l₂, rfl, hek⟩ := hc.index.split hk
    have hvalue : (c.get k).1 = some e.2 := by
      simp only [OrderedCache.get, hk, (hc.touch hek c.counters.hit).1]
      rfl
    rw [hk] at hget
    rw [putIfAbsent_of_get hvalue]
    exact hget
  | none =>
    have hres : (c.get k).2 = { c with counters := c.counters.miss } := by
      simp only [OrderedCache.get, hk]
    have hput : Books (.store (c.contains k) (c.capacity.size ≤ c.length)) (c.get k).2 (c.putIfAbsent k v).2.2 := by
      rw [hres, putIfAbsent_of_absent hk]
      exact (hc.setCounters c.counters.miss).books_put k v
    rw [hk] at hget
    rw [contains_eq, hk] at hput
    rw [Option.isSome_none, Tally.storeIfAbsent_false]
    exact hget.trans hput

private theorem books_remove (hc : c.Holds l) (k : κ) : Books { removed := (c.contains k).toNat } c (c.remove k).2 := by
  rw [contains_eq]
  cases hk : c.index[k]? with
  | none =>
    simp only [OrderedCache.remove, hk]
    exact .refl _ _
  | some h =>
    obtain ⟨e, l₁, l₂, rfl, -⟩ := hc.index.split hk
    have herase := hc.entries.erase.1
    simp only [OrderedCache.remove, hk]
    generalize c.entries.erase h = x at herase ⊢
    obtain ⟨e?, s⟩ := x
    obtain rfl : e? = some e := herase
    exact ⟨c.counters.removal_eq, (size_erase_of_present hk).symm⟩

theorem books_answer (hc : c.Holds l) (r : Request κ υ) : Books (c.tally r) c (c.answer r).2 := by
  cases r with
  | get k => exact c.books_get k
  | getWith k f => exact c.books_get k
  | put k v => exact hc.books_put k v
  | putIfAbsent k v => exact hc.books_putIfAbsent k v
  | remove k => exact hc.books_remove k
  | clear =>
    have hempty : c.clear.length = 0 := Std.HashMap.size_empty
    refine ⟨c.counters.plus_empty.symm, ?_⟩
    show c.length = c.clear.length + 0 + 0 + c.length
    rw [hempty, Nat.zero_add]
  | contains k => exact .refl _ _
  | length => exact .refl _ _
  | keys => exact .refl _ _

end Holds

private theorem books_run (capacity : Capacity) (rs : List (Request κ υ)) :
    let fresh : OrderedCache o κ υ := .empty capacity
    Books (tallied OrderedCache.answer tally fresh rs) fresh (answers OrderedCache.answer fresh rs).2 := by
  intro fresh
  refine tallied_run (R := Books) (I := fun _ (c : OrderedCache o κ υ) => ∃ m, c.Agrees m)
    (fun _ => .refl _ _) (fun _ _ _ _ _ => .trans) ?_ ⟨_, Agrees.empty capacity⟩
  rintro r rs c ⟨m, hcm⟩
  refine ⟨⟨_, (hcm.answer r).2⟩, ?_⟩
  obtain ⟨-, l, hc, -⟩ := hcm
  exact hc.books_answer r

end OrderedCache

/-! ### Caches in order of frequency -/

namespace FrequencyCache

open Layer (flat)

variable {κ υ : Type} [BEq κ] [Hashable κ] {c : FrequencyCache κ υ} {L : List (Layer κ υ)} {k : κ} {h : Handle}
  {e : Entry κ υ} {l r : List (Handle × Entry κ υ)}

def tally (c : FrequencyCache κ υ) : CountedRequest κ υ → Tally
  | .plain r => r.tally c.contains (c.capacity.size ≤ c.length) c.length
  | .frequencyOf _ => {}

private theorem tally_within (c : FrequencyCache κ υ) (r : CountedRequest κ υ) : (c.tally r).Within 1 := by
  cases r with
  | plain r => exact r.tally_within _ _ _
  | frequencyOf k => exact Tally.within_clear 0

/-- From `c` to `c'` the tally was entered; each look-up that found its key and each overwrite is an increment. -/
structure Books (t : Tally) (c c' : FrequencyCache κ υ) : Prop where
  core : Booked t c.counters.core c'.counters.core c.length c'.length
  increments : c'.counters.increments = c.counters.increments + .ofNat (t.found + t.overwritten)

theorem Books.refl (c : FrequencyCache κ υ) : Books {} c c := ⟨.refl _ _, (UInt64.add_zero _).symm⟩

theorem Books.trans {t u : Tally} {a b c : FrequencyCache κ υ} (h₁ : Books t a b) (h₂ : Books u b c) :
    Books (t + u) a c where
  core := h₁.core.trans h₂.core
  increments := by
    have hsum : (t + u).found + (t + u).overwritten = t.found + t.overwritten + (u.found + u.overwritten) := by
      show t.found + u.found + (t.overwritten + u.overwritten) = _
      omega
    rw [h₂.increments, h₁.increments, UInt64.add_assoc, ← UInt64.ofNat_add, hsum]

theorem counters_promote {b : Handle} (hget : c.entries.get? h = some e)
    (hb : c.byFrequency[e.frequency]? = some b) :
    (c.promote h).counters = c.counters.increment (frequencyAfter e.frequency) := by
  have hfront := ((c.sameFront_bucketAfter b (frequencyAfter e.frequency)).trans
    (sameFront_leaveBucket _ b h)).trans
      (sameFront_joinBucket _ (c.bucketAfter b (frequencyAfter e.frequency)).1 h)
  simp only [promote, hget, hb, hfront.counters]

theorem counters_evict {eviction : Eviction} (he : c.evict.1 = some eviction) :
    c.evict.2.counters = (c.count .eviction).counters := by
  unfold evict at he ⊢
  split at he
  · cases he
  · next b _ =>
    split at he
    · cases he
    · next h _ =>
      dsimp only at he ⊢
      split at he
      · cases he
      · simp only [count, (sameFront_leaveBucket c b h).counters]

theorem counters_insertNew (c : FrequencyCache κ υ) (k : κ) (v : υ) :
    (c.insertNew k v).counters = (c.count .insertion).counters := by
  have hfront := c.sameFront_firstBucket.trans ((sameFront_setEntries _ _).trans (sameFront_joinBucket
    { c.firstBucket.2 with
      entries := (c.firstBucket.2.entries.insert { key := k, value := v, frequency := 1 }).2 }
    c.firstBucket.1 (c.firstBucket.2.entries.insert { key := k, value := v, frequency := 1 }).1))
  simp only [insertNew, count, hfront.counters]

theorem counters_remove {v : υ} (hv : (c.remove k).1 = some v) :
    (c.remove k).2.counters = (c.count .removal).counters := by
  cases hk : c.index[k]? with
  | none => simp only [remove, hk, reduceCtorEq] at hv
  | some h =>
    cases he : c.entries.get? h with
    | none => simp only [remove, hk, he, reduceCtorEq] at hv
    | some e =>
      cases hb : c.byFrequency[e.frequency]? with
      | none =>
        simp only [remove, hk, he, hb] at hv ⊢
        split at hv
        · cases hv
        · rfl
      | some b =>
        have hfront := sameFront_leaveBucket { c with index := c.index.erase k } b h
        simp only [remove, hk, he, hb] at hv ⊢
        split at hv
        · cases hv
        · simp only [count, hfront.counters]

variable [EquivBEq κ] [LawfulHashable κ]

theorem contains_eq (c : FrequencyCache κ υ) (k : κ) : c.contains k = c.index[k]?.isSome :=
  Std.HashMap.contains_eq_isSome_getElem?

namespace Holds

omit [EquivBEq κ] [LawfulHashable κ] in
/-- A use of an entry is one increment. -/
private theorem increments_promote (hc : c.Holds L) (hflat : flat L = l ++ (h, e) :: r) :
    (c.promote h).counters.core = c.counters.core ∧
      (c.promote h).counters.increments = c.counters.increments + 1 ∧ (c.promote h).length = c.length := by
  have hget := (hc.laid.entries.get? h e).2 (by simp [hflat])
  obtain ⟨A, x, B, l, r, -, -, -, -, -, hb⟩ := hc.laid.split hc.tidy hflat
  rw [counters_promote hget hb]
  exact ⟨rfl, rfl, congrArg Std.HashMap.size (c.index_promote h).1⟩

private theorem books_get (hc : c.Holds L) (k : κ) : Books (.lookUp (c.contains k)) c (c.get k).2 := by
  rw [contains_eq]
  cases hk : c.index[k]? with
  | none =>
    simp only [FrequencyCache.get, hk]
    exact ⟨⟨c.counters.core.miss_eq, rfl⟩, (UInt64.add_zero _).symm⟩
  | some h =>
    obtain ⟨e, l, r, hflat, -⟩ := hc.lookup hk
    obtain ⟨hcore, hincrements, hlength⟩ := (hc.setCounters (c.count .hit).counters).increments_promote hflat
    simp only [FrequencyCache.get, hk]
    exact ⟨⟨hcore.trans c.counters.core.hit_eq, hlength.symm⟩, hincrements⟩

private theorem books_put (hc : c.Holds L) (k : κ) (v : υ) :
    Books (.store (c.contains k) (c.capacity.size ≤ c.length)) c (c.put k v).2.2 := by
  rw [contains_eq]
  cases hk : c.index[k]? with
  | some h =>
    obtain ⟨e, l, r, hflat, -⟩ := hc.lookup hk
    obtain ⟨L', hflat', hc'⟩ := hc.setValue hflat v
    obtain ⟨hcore, hincrements, hlength⟩ := (hc'.setCounters (c.count .update).counters).increments_promote hflat'
    simp only [FrequencyCache.put, hk]
    exact ⟨⟨hcore.trans (c.counters.core.update_eq _), hlength.symm⟩, hincrements⟩
  | none =>
    obtain ⟨-, -, h, L', hc', hp⟩ := hc.put_new hk v
    have hlength := hp.perm.length_eq
    rw [← hc'.length, List.length_cons] at hlength
    have hle := hc.length_le
    have hpos := c.capacity.size_pos
    by_cases hfull : c.capacity.size ≤ c.length
    · have heq : (flat L).length = c.capacity.size := by
        rw [hc.length] at hfull
        omega
      obtain ⟨h, e, r, hflat, hevict, -⟩ := hc.evict (hc.ne_nil_of_full hfull)
      have hcounters : (c.put k v).2.2.counters = ((c.count .eviction).count .insertion).counters := by
        rw [put_of_absent hk, if_pos hfull, counters_insertNew, count, counters_evict hevict]
        rfl
      rw [if_pos heq, List.length_tail, ← hc.length] at hlength
      rw [← hc.length] at heq
      refine ⟨⟨?_, ?_⟩, ?_⟩
      · rw [hcounters, decide_eq_true hfull]
        exact c.counters.core.eviction_insertion_eq
      · rw [hlength, decide_eq_true hfull]
        show c.length + 1 = c.length - 1 + 1 + 1 + 0 + 0
        omega
      · rw [hcounters]
        exact (UInt64.add_zero _).symm
    · have hne : ¬ (flat L).length = c.capacity.size := by
        rw [← hc.length]
        omega
      have hcounters : (c.put k v).2.2.counters = (c.count .insertion).counters := by
        rw [put_of_absent hk, if_neg hfull, counters_insertNew]
      rw [if_neg hne, ← hc.length] at hlength
      refine ⟨⟨?_, ?_⟩, ?_⟩
      · rw [hcounters, decide_eq_false hfull]
        exact c.counters.core.insertion_eq
      · rw [hlength, decide_eq_false hfull]
        rfl
      · rw [hcounters]
        exact (UInt64.add_zero _).symm

private theorem books_putIfAbsent (hc : c.Holds L) (k : κ) (v : υ) :
    Books (c.tally (.plain (.putIfAbsent k v))) c (c.putIfAbsent k v).2.2 := by
  have hget := hc.books_get k
  rw [contains_eq] at hget
  simp only [tally, Request.tally, contains_eq]
  cases hk : c.index[k]? with
  | some h =>
    obtain ⟨e, l, r, hflat, -⟩ := hc.lookup hk
    rw [hk] at hget
    rw [putIfAbsent_of_get (hc.get_fst hk hflat)]
    exact hget
  | none =>
    have hres : (c.get k).2 = c.count .miss := by
      simp only [FrequencyCache.get, hk]
    have hput : Books (.store (c.contains k) (c.capacity.size ≤ c.length)) (c.get k).2 (c.putIfAbsent k v).2.2 := by
      rw [hres, putIfAbsent_of_absent hk]
      exact Holds.books_put (hc.setCounters (c.count .miss).counters) k v
    rw [hk] at hget
    rw [contains_eq, hk] at hput
    rw [Option.isSome_none, Tally.storeIfAbsent_false]
    exact hget.trans hput

private theorem books_remove (hc : c.Holds L) (k : κ) : Books { removed := (c.contains k).toNat } c (c.remove k).2 := by
  rw [contains_eq]
  cases hk : c.index[k]? with
  | none =>
    simp only [FrequencyCache.remove, hk]
    exact .refl c
  | some h =>
    obtain ⟨e, l, r, hflat, hek, -⟩ := hc.lookup hk
    obtain ⟨hvalue, L', hc', hflat'⟩ := hc.remove_hit hk hflat hek
    have hcounters := counters_remove hvalue
    refine ⟨⟨?_, ?_⟩, ?_⟩
    · rw [hcounters]
      exact c.counters.core.removal_eq
    · rw [hc.length, hc'.length, hflat, hflat', List.perm_middle.length_eq]
      rfl
    · rw [hcounters]
      exact (UInt64.add_zero _).symm

theorem books_answer (hc : c.Holds L) (r : CountedRequest κ υ) : Books (c.tally r) c (c.answer r).2 := by
  cases r with
  | frequencyOf k => exact .refl c
  | plain r =>
    cases r with
    | get k => exact hc.books_get k
    | getWith k f => exact hc.books_get k
    | put k v => exact hc.books_put k v
    | putIfAbsent k v => exact hc.books_putIfAbsent k v
    | remove k => exact hc.books_remove k
    | clear =>
      have hempty : c.clear.length = 0 := Std.HashMap.size_empty
      refine ⟨⟨c.counters.core.plus_empty.symm, ?_⟩, (UInt64.add_zero _).symm⟩
      show c.length = c.clear.length + 0 + 0 + c.length
      rw [hempty, Nat.zero_add]
    | contains k => exact .refl c
    | length => exact .refl c
    | keys => exact .refl c

end Holds

/-- The requests to come bound how often the entries will have been used. -/
private theorem books_run (capacity : Capacity) {rs : List (CountedRequest κ υ)} (hrs : rs.length < 2 ^ 64 - 1) :
    Books (tallied FrequencyCache.answer tally (empty capacity) rs) (empty capacity)
      (answers FrequencyCache.answer (empty capacity) rs).2 := by
  refine tallied_run (R := Books)
    (I := fun rs (c : FrequencyCache κ υ) => c.Lasts capacity rs.length)
    .refl (fun _ _ _ _ _ => .trans) ?_ (lasts_empty capacity hrs)
  intro r rs c hc
  refine ⟨hc.answer r, ?_⟩
  obtain ⟨-, m, ⟨L, T, hcm⟩, -⟩ := hc
  exact hcm.holds.books_answer r

end FrequencyCache

/-! ### The balance -/

/-- The counters of a cache of this length, after requests that came to this tally. -/
structure Balanced (c : Counters) (length : Nat) (t : Tally) : Prop where
  entries : c.insertions.toNat = c.evictions.toNat + c.removals.toNat + length + t.cleared
  requests : c.requests.toNat = t.lookUps
  hits : c.hits.toNat = t.found
  hits_le : c.hits.toNat ≤ c.requests.toNat
  misses : c.misses.toNat = c.requests.toNat - c.hits.toNat
  stores : c.insertions.toNat + c.updates.toNat = t.stores
  updates : c.updates.toNat = t.overwritten
  evictions : c.evictions.toNat = t.evicted
  removals : c.removals.toNat = t.removed

private theorem toNat_zero_add {n : Nat} (hn : n < 2 ^ 64) : ((0 : UInt64) + .ofNat n).toNat = n := by
  rw [UInt64.zero_add]
  exact UInt64.toNat_ofNat_of_lt' hn

/-- Fewer requests than there are words leave no counter wrapped around. -/
private theorem Booked.balanced {t : Tally} {c : Counters} {n length : Nat} (hc : Booked t {} c 0 length)
    (ht : t.Within n) (hn : n < 2 ^ 64) : Balanced c length t := by
  have hword : ∀ m, m ≤ n → ((0 : UInt64) + .ofNat m).toNat = m := fun m hm =>
    toNat_zero_add (Nat.lt_of_le_of_lt hm hn)
  have hlength := hc.length
  have hstores := ht.stores
  have hstores_le := ht.stores_le
  have hfound := ht.found
  have hrequests : c.requests.toNat = t.lookUps := by
    rw [hc.counters]
    exact hword _ ht.lookUps
  have hhits : c.hits.toNat = t.found := by
    rw [hc.counters]
    exact hword _ (hfound.trans ht.lookUps)
  have hinsertions : c.insertions.toNat = t.added := by
    rw [hc.counters]
    exact hword _ (by omega)
  have hupdates : c.updates.toNat = t.overwritten := by
    rw [hc.counters]
    exact hword _ (by omega)
  have hevictions : c.evictions.toNat = t.evicted := by
    rw [hc.counters]
    exact hword _ ht.evicted
  have hremovals : c.removals.toNat = t.removed := by
    rw [hc.counters]
    exact hword _ ht.removed
  have hle : c.hits ≤ c.requests := by
    rw [UInt64.le_iff_toNat_le]
    omega
  exact
    { entries := by omega
      requests := hrequests
      hits := hhits
      hits_le := UInt64.le_iff_toNat_le.1 hle
      misses := UInt64.toNat_sub_of_le _ _ hle
      stores := by omega
      updates := hupdates
      evictions := hevictions
      removals := hremovals }

variable {κ υ : Type} [BEq κ] [Hashable κ] [EquivBEq κ] [LawfulHashable κ]

/-- After every run of fewer than `2 ^ 64 - 1` requests the counters of a bounded cache account for every entry that
was ever stored and for every look-up.  In a cache in order of frequency each hit and each overwrite raised one
frequency.  Clearing leaves these counters as they are. -/
theorem counters_balance (capacity : Capacity) :
    (∀ (o : Order) (rs : List (Request κ υ)), rs.length < 2 ^ 64 - 1 →
      let fresh : OrderedCache o κ υ := .empty capacity
      let c := (answers OrderedCache.answer fresh rs).2
      Balanced c.counters c.length (tallied OrderedCache.answer OrderedCache.tally fresh rs) ∧
        c.clear.counters = c.counters) ∧
    ∀ rs : List (CountedRequest κ υ), rs.length < 2 ^ 64 - 1 →
      let fresh : FrequencyCache κ υ := .empty capacity
      let c := (answers FrequencyCache.answer fresh rs).2
      Balanced c.counters.core c.length (tallied FrequencyCache.answer FrequencyCache.tally fresh rs) ∧
        c.counters.increments.toNat = c.counters.core.hits.toNat + c.counters.core.updates.toNat ∧
        c.clear.counters.core = c.counters.core ∧ c.clear.counters.increments = c.counters.increments := by
  constructor
  · intro o rs hrs fresh c
    have hempty : fresh.length = 0 := Std.HashMap.size_empty
    have hbooks : Booked (tallied OrderedCache.answer OrderedCache.tally fresh rs) {} c.counters fresh.length
      c.length := OrderedCache.books_run capacity rs
    have hwithin : (tallied OrderedCache.answer OrderedCache.tally fresh rs).Within rs.length :=
      tallied_within (fun _ r => r.tally_within _ _ _) fresh rs
    rw [hempty] at hbooks
    exact ⟨hbooks.balanced hwithin (by omega), rfl⟩
  · intro rs hrs fresh c
    have hempty : fresh.length = 0 := Std.HashMap.size_empty
    have hbooks : FrequencyCache.Books (tallied FrequencyCache.answer FrequencyCache.tally fresh rs) fresh c :=
      FrequencyCache.books_run capacity hrs
    have hwithin : (tallied FrequencyCache.answer FrequencyCache.tally fresh rs).Within rs.length :=
      tallied_within FrequencyCache.tally_within fresh rs
    have hcore := hbooks.core
    rw [hempty] at hcore
    have hbalanced := hcore.balanced hwithin (by omega)
    refine ⟨hbalanced, ?_, rfl, rfl⟩
    have huses := hwithin.uses
    rw [hbooks.increments, hbalanced.hits, hbalanced.updates]
    exact toNat_zero_add (by omega)

/-- After two look-ups and three stores, whatever became of them. -/
theorem counters_after_lookUps_and_stores :
    let rs : List (Request Nat Nat) := [.put 1 10, .get 1, .put 2 20, .put 1 11, .remove 2, .getWith 3 id, .clear]
    rs.length < 2 ^ 64 - 1 ∧
      (∀ o,
        let n := (answers OrderedCache.answer (.empty { size := 1 } : OrderedCache o Nat Nat) rs).2.counters
        n.requests.toNat = 2 ∧ n.insertions.toNat + n.updates.toNat = 3) ∧
      let n := (answers FrequencyCache.answer (.empty { size := 1 } : FrequencyCache Nat Nat)
        (rs.map CountedRequest.plain)).2.counters
      n.core.requests.toNat = 2 ∧ n.core.insertions.toNat + n.core.updates.toNat = 3 ∧
        n.increments.toNat = n.core.hits.toNat + n.core.updates.toNat := by
  intro rs
  have hrs : rs.length < 2 ^ 64 - 1 := by decide
  obtain ⟨hordered, hfrequency⟩ := counters_balance (κ := Nat) (υ := Nat) { size := 1 }
  refine ⟨hrs, ?_, ?_⟩
  · intro o n
    obtain ⟨hbalanced, -⟩ := hordered o rs hrs
    exact ⟨hbalanced.requests, hbalanced.stores⟩
  · intro n
    obtain ⟨hbalanced, hincrements, -⟩ := hfrequency (rs.map CountedRequest.plain) hrs
    exact ⟨hbalanced.requests, hbalanced.stores, hincrements⟩

end Caching
