import Caching.Proofs.Bounded.Eviction
import Caching.Proofs.Caches.Answer
import Caching.Session.Run

/-!
# What the log tells of losses

The log of the caches tells of each entry that a bounded cache gave up.  What is asked of such a cache, of whatever
kind the request and by whatever thread (`Use`), appends one event to the log if it is to store a value under a new
key and meets a full cache, and nothing if not (`Store.Told`).

A use does to the store what some request of bounded caches does (`Use.bounded`), so that what is known of these
carries over; the store of the instance is one that such requests have led to (`Store.Follows`).
-/

namespace Caching

open Bounded (CountedRequest)

/-- What can be asked of an instance: what every cache answers, and what only some do. -/
inductive Use (κ υ : Type) where
  | request (r : Request κ υ)
  | inspection (q : Inspection κ υ)

namespace Use

variable {κ υ : Type}

/-- The key that a value is to be stored under. -/
def stored? : Use κ υ → Option κ
  | .request (.put k _) | .request (.putIfAbsent k _) | .request (.putIf true k _) => some k
  | _ => none

/-- The request of bounded caches that does the same to one. -/
def bounded : Use κ υ → Bounded.Request κ υ
  | .request (.get k) => .get k
  | .request (.put k v) | .request (.putIf true k v) => .put k v
  | .request (.putIfAbsent k v) => .putIfAbsent k v
  | .request (.remove k) | .request (.removeIf true k) => .remove k
  | .request .clear => .clear
  | .inspection (.getWith k f) => .getWith k f
  | _ => .length

private theorem stored?_bounded (u : Use κ υ) : u.bounded.stored? = u.stored? := by
  cases u with
  | inspection q => cases q <;> rfl
  | request r =>
    cases r with
    | putIf condition k v => cases condition <;> rfl
    | removeIf condition k => cases condition <;> rfl
    | get | put | contains | remove | length | isEmpty | clear | capacity | putIfAbsent => rfl

end Use

/-! ### At a store -/

namespace Store

variable {κ υ : Type} [BEq κ] [Hashable κ]

/-- The loss that a use tells of, and the store after it. -/
def use (s : Store κ υ) : Use κ υ → Option Eviction × Store κ υ
  | .request r => (s.answer r).2
  | .inspection (.getWith k f) => (none, (s.getWith k f).2)
  | .inspection _ => (none, s)

def evictions? : Store κ υ → Option UInt64
  | .fifo c => some c.counters.evictions
  | .lru c => some c.counters.evictions
  | .lfu c => some c.counters.core.evictions
  | .striped _ => none

/-- A new key is to be stored, and the store is full. -/
def Overflows (s : Store κ υ) (u : Use κ υ) : Prop :=
  ∃ k, u.stored? = some k ∧ s.contains k = false ∧ s.capacity? = some s.length

instance (s : Store κ υ) (u : Use κ υ) : Decidable (s.Overflows u) :=
  inferInstanceAs (Decidable (∃ k, u.stored? = some k ∧ s.contains k = false ∧ s.capacity? = some s.length))

/-- The lowest frequency of an entry, for stores that count frequencies. -/
def Lowest (s : Store κ υ) (f? : Option UInt64) : Prop :=
  match s with
  | .lfu c => ∃ f, f? = some f ∧ IsLeast c.frequencies f
  | _ => f? = none

/-- What the log tells of a use that led from `s` to `s'`. -/
structure Told (p : Policy) (capacity : Capacity) (s s' : Store κ υ) (u : Use κ υ) (events : List Event) : Prop where
  lost : s.Overflows u → ∃ f?, s.Lowest f? ∧
    events = [.evicted { policy := p, frequency? := f?, remaining := capacity.size - 1 }]
  kept : ¬ s.Overflows u → events = []
  counted : ∃ n, s.evictions? = some n ∧ s'.evictions? = some (n + .ofNat events.length)

/-- The store of a bounded cache that will not wrap a frequency around in `n` more uses. -/
def Follows (p : Policy) (capacity : Capacity) (n : Nat) : Store κ υ → Prop
  | .fifo c => p = .fifo ∧ c.capacity = capacity ∧ ∃ m, c.Agrees m
  | .lru c => p = .lru ∧ c.capacity = capacity ∧ ∃ m, c.Agrees m
  | .lfu c => p = .lfu ∧ c.Lasts capacity n
  | .striped _ => False

/-- A use of a bounded cache is a request to it. -/
private theorem use_eq (u : Use κ υ) :
    (∀ c : OrderedCache .arrival κ υ, (Store.fifo c).use u = (c.loss? u.bounded, .fifo (c.answer u.bounded).2)) ∧
      (∀ c : OrderedCache .use κ υ, (Store.lru c).use u = (c.loss? u.bounded, .lru (c.answer u.bounded).2)) ∧
      ∀ c : FrequencyCache κ υ, (Store.lfu c).use u =
        (c.loss? (.plain u.bounded), .lfu (c.answer (.plain u.bounded)).2) := by
  cases u with
  | inspection q => cases q <;> exact ⟨fun _ => rfl, fun _ => rfl, fun _ => rfl⟩
  | request r =>
    cases r with
    | putIf condition k v => cases condition <;> exact ⟨fun _ => rfl, fun _ => rfl, fun _ => rfl⟩
    | removeIf condition k => cases condition <;> exact ⟨fun _ => rfl, fun _ => rfl, fun _ => rfl⟩
    | get | put | contains | remove | length | isEmpty | clear | capacity | putIfAbsent =>
      exact ⟨fun _ => rfl, fun _ => rfl, fun _ => rfl⟩

/-- A tally of one request, and the loss told of with it. -/
private theorem told_of_tally {p : Policy} {capacity : Capacity} {s s' : Store κ υ} {u : Use κ υ} {evicted : Nat}
    {f? : Option UInt64} {n : UInt64} {loss? : Option Eviction}
    (hevicted : evicted = if s.Overflows u then 1 else 0)
    (hloss : loss? = if evicted = 1 then
      some { policy := p, frequency? := f?, remaining := capacity.size - 1 } else none)
    (hlowest : s.Overflows u → s.Lowest f?) (hn : s.evictions? = some n)
    (hn' : s'.evictions? = some (n + .ofNat evicted)) :
    s.Told p capacity s' u (loss?.toList.map .evicted) := by
  by_cases hover : s.Overflows u
  · rw [if_pos hover] at hevicted
    rw [hevicted, if_pos rfl] at hloss
    subst hloss hevicted
    exact ⟨fun _ => ⟨f?, hlowest hover, rfl⟩, fun h => absurd hover h, n, hn, hn'⟩
  · rw [if_neg hover] at hevicted
    rw [hevicted, if_neg (by decide)] at hloss
    subst hloss hevicted
    exact ⟨fun h => absurd h hover, fun _ => rfl, n, hn, hn'⟩

/-- A store is full if it has come to its capacity, which it cannot go beyond. -/
private theorem evicted_eq {s : Store κ υ} {u : Use κ υ} {contains : κ → Bool} {size length : Nat}
    (hcontains : ∀ k, s.contains k = contains k) (hcapacity : s.capacity? = some size)
    (hlength : s.length = length) (hle : length ≤ size) :
    (u.bounded.tally contains (size ≤ length) length).evicted = if s.Overflows u then 1 else 0 := by
  have hiff : (decide (size ≤ length) = true ∧ ∃ k, u.bounded.stored? = some k ∧ contains k = false) ↔
      s.Overflows u := by
    rw [Overflows, hcapacity, hlength, u.stored?_bounded, decide_eq_true_iff]
    constructor
    · rintro ⟨hfull, k, hk, habsent⟩
      exact ⟨k, hk, (hcontains k).trans habsent, congrArg some (by omega)⟩
    · rintro ⟨k, hk, habsent, hsize⟩
      exact ⟨(Option.some_inj.1 hsize).le, k, hk, (hcontains k).symm.trans habsent⟩
  rw [Bounded.Request.tally_evicted]
  simp only [hiff]

/-- The store of a cache just made. -/
private theorem follows_empty (p : Policy) (capacity : Capacity) {n : Nat} (hn : p = .lfu → n < 2 ^ 64 - 1) :
    ∃ s : Store κ υ, (∀ w : Caches κ υ, w.make (.bounded p capacity) = w.add 0 (.store s)) ∧
      s.Follows p capacity n ∧ s.evictions? = some 0 := by
  cases p with
  | fifo => exact ⟨.fifo (.empty capacity), fun _ => rfl, ⟨rfl, rfl, _, .empty capacity⟩, rfl⟩
  | lru => exact ⟨.lru (.empty capacity), fun _ => rfl, ⟨rfl, rfl, _, .empty capacity⟩, rfl⟩
  | lfu => exact ⟨.lfu (.empty capacity), fun _ => rfl, ⟨rfl, FrequencyCache.lasts_empty capacity (hn rfl)⟩, rfl⟩

private theorem Follows.policy? {p : Policy} {capacity : Capacity} {n : Nat} {s : Store κ υ}
    (hs : s.Follows p capacity n) : s.policy? = some p := by
  cases s with
  | fifo | lru | lfu => exact congrArg some hs.1.symm
  | striped => exact hs.elim

private theorem Follows.capacity? {p : Policy} {capacity : Capacity} {n : Nat} {s : Store κ υ}
    (hs : s.Follows p capacity n) : s.capacity? = some capacity.size := by
  cases s with
  | fifo | lru | lfu => exact congrArg (fun capacity : Capacity => some capacity.size) hs.2.1
  | striped => exact hs.elim

variable [EquivBEq κ] [LawfulHashable κ]

/-- What is told of a use of a cache in order of arrival or of use, which is the store `s` and becomes `s'`. -/
private theorem told_of_agrees {o : Order} {c : OrderedCache o κ υ} {m : PlainCache o κ υ} (hcm : c.Agrees m)
    (u : Use κ υ) {s s' : Store κ υ} (hcontains : ∀ k, s.contains k = c.contains k)
    (hcapacity : s.capacity? = some c.capacity.size) (hlength : s.length = c.length) (hlowest : s.Lowest none)
    (hn : s.evictions? = some c.counters.evictions)
    (hn' : s'.evictions? = some (c.answer u.bounded).2.counters.evictions) :
    s.Told o.policy c.capacity s' u ((c.loss? u.bounded).toList.map .evicted) := by
  obtain ⟨-, l, hc, -⟩ := hcm
  have hbooks := hc.books_answer u.bounded
  have hle : c.length ≤ c.capacity.size := by
    rw [hc.length]
    exact hc.length_le
  have hevicted : (c.tally u.bounded).evicted = if s.Overflows u then 1 else 0 :=
    evicted_eq hcontains hcapacity hlength hle
  refine told_of_tally hevicted (hc.loss?_eq u.bounded) (fun _ => hlowest) hn ?_
  rw [hn', hbooks.counters]
  rfl

/-- What is told of a use of a cache in order of frequency. -/
private theorem told_of_holds {c : FrequencyCache κ υ} {L : List (Layer κ υ)} (hc : c.Holds L) (u : Use κ υ) :
    (Store.lfu c).Told .lfu c.capacity (.lfu (c.answer (.plain u.bounded)).2) u
      ((c.loss? (.plain u.bounded)).toList.map .evicted) := by
  have hbooks := hc.books_answer (.plain u.bounded)
  have hle : c.length ≤ c.capacity.size := by
    rw [hc.length]
    exact hc.length_le
  have hevicted : (c.tally (.plain u.bounded)).evicted = if (Store.lfu c).Overflows u then 1 else 0 :=
    evicted_eq (s := .lfu c) (fun _ => rfl) rfl rfl hle
  refine told_of_tally hevicted (hc.loss?_eq (.plain u.bounded)) ?_ rfl ?_
  · -- a full cache has entries, so it has a lowest frequency
    rintro ⟨k, -, -, hfull⟩
    have hpos := c.capacity.size_pos
    have hsize : c.capacity.size = c.length := Option.some_inj.1 hfull
    cases hlow : c.lowestFrequency? with
    | none =>
      have hzero := hc.lowestFrequency?_eq_none.1 hlow
      omega
    | some f => exact ⟨f, rfl, hc.isLeast_frequencies hlow⟩
  · exact congrArg some (congrArg Counters.evictions hbooks.core.counters)

/-- A use keeps what holds of the store, and is told of. -/
private theorem Follows.use {p : Policy} {capacity : Capacity} {n : Nat} {s : Store κ υ}
    (hs : s.Follows p capacity (n + 1)) (u : Use κ υ) :
    (s.use u).2.Follows p capacity n ∧
      s.Told p capacity (s.use u).2 u ((s.use u).1.toList.map .evicted) := by
  obtain ⟨hfifo, hlru, hlfu⟩ := use_eq u
  cases s with
  | fifo c =>
    obtain ⟨rfl, rfl, m, hcm⟩ := hs
    rw [hfifo]
    refine ⟨⟨rfl, hcm.capacity_eq u.bounded, _, (hcm.answer u.bounded).2⟩, ?_⟩
    exact told_of_agrees hcm u (fun _ => rfl) rfl rfl rfl rfl rfl
  | lru c =>
    obtain ⟨rfl, rfl, m, hcm⟩ := hs
    rw [hlru]
    refine ⟨⟨rfl, hcm.capacity_eq u.bounded, _, (hcm.answer u.bounded).2⟩, ?_⟩
    exact told_of_agrees hcm u (fun _ => rfl) rfl rfl rfl rfl rfl
  | lfu c =>
    obtain ⟨rfl, hlasts⟩ := hs
    rw [hlfu]
    refine ⟨⟨rfl, hlasts.answer _⟩, ?_⟩
    obtain ⟨rfl, m, ⟨L, T, hcm⟩, -⟩ := hlasts
    exact told_of_holds hcm.holds u
  | striped map => exact hs.elim

end Store

/-! ### At an instance -/

namespace Caches

variable {κ υ : Type} [BEq κ] [Hashable κ] {w : Caches κ υ} {i : CacheId} {s : Store κ υ}

/-- Carries a use out for a thread. -/
def use (w : Caches κ υ) (t : ThreadId) (i : CacheId) : Use κ υ → Caches κ υ
  | .request r => (w.answer t i r).2
  | .inspection q => (w.inspect t i q).2.2

/-- A use of an instance by a thread, answered with the events that it appends to the log. -/
def call (i : CacheId) (w : Caches κ υ) (x : ThreadId × Use κ υ) : List Event × Caches κ υ :=
  ((w.use x.1 i x.2).log.toList.drop w.log.size, w.use x.1 i x.2)

private theorem use_of_store (h : w.body? i = some (.store s)) (t : ThreadId) (u : Use κ υ) :
    w.use t i u = (w.setBody i (.store (s.use u).2)).emitEviction (s.use u).1 := by
  have hsight : w.sight? t i = some (.store s) := sight?_of_body? h t
  cases u with
  | request r =>
    rw [use, answer_of_store hsight]
    rfl
  | inspection q =>
    have hself : (w.setBody i (.store s)).emitEviction none = w := setBody_self h
    cases q with
    | getWith k f =>
      simp only [use, inspect, h, updateStore_of_sight? hsight, Store.use]
    | frequencyOf k => cases s <;> simp only [use, inspect, h, Store.use, hself]
    | segmentCount => cases s <;> simp only [use, inspect, h, Store.use, hself]
    | capacity | keys | report | algorithm | isBound | boundThreads | detach =>
      simp only [use, inspect, h, Store.use, hself]

private theorem body?_add (w : Caches κ υ) (rank : Nat) (b : Body κ υ) :
    (w.add rank b).2.body? (w.add rank b).1 = some b := by
  rw [body?, instance?_add]
  exact congrArg (Option.map Instance.body) (if_pos rfl)

private theorem body?_use (h : w.body? i = some (.store s)) (t : ThreadId) (u : Use κ υ) :
    (w.use t i u).body? i = some (.store (s.use u).2) := by
  have hshape := (w.reshapes_store i (s.use u).2 (s.use u).1).sight? t i
  rw [if_pos rfl, sight?_of_body? h t, ← use_of_store h] at hshape
  exact body?_of_sight?_store hshape

private theorem log_use (h : w.body? i = some (.store s)) (t : ThreadId) (u : Use κ υ) :
    (w.use t i u).log.toList = w.log.toList ++ (s.use u).1.toList.map .evicted := by
  rw [use_of_store h]
  cases (s.use u).1 with
  | none => exact (List.append_nil _).symm
  | some e => exact Array.toList_push

/-- A run of uses of a cache in order of frequency is a run of requests to it. -/
theorem body?_answers_lfu {c : FrequencyCache κ υ} (h : w.body? i = some (.store (.lfu c)))
    (us : List (ThreadId × Use κ υ)) :
    (answers (call i) w us).2.body? i =
      some (.store (.lfu (answers FrequencyCache.answer c (us.map fun x => .plain x.2.bounded)).2)) := by
  induction us generalizing w c with
  | nil => exact h
  | cons x us ih =>
    have huse := body?_use h x.1 x.2
    rw [(Store.use_eq x.2).2.2 c] at huse
    exact ih huse

/-- The events of a use are those of the losses. -/
private theorem call_fst (h : w.body? i = some (.store s)) (x : ThreadId × Use κ υ) :
    (call i w x).1 = (s.use x.2).1.toList.map .evicted := by
  rw [call, log_use h]
  exact List.drop_left' Array.length_toList

variable [EquivBEq κ] [LawfulHashable κ] {p : Policy} {capacity : Capacity}

private theorem call_told {n : Nat} (h : w.body? i = some (.store s)) (hs : s.Follows p capacity (n + 1))
    (x : ThreadId × Use κ υ) :
    ∃ s', (call i w x).2.body? i = some (.store s') ∧ s'.Follows p capacity n ∧
      s.Told p capacity s' x.2 (call i w x).1 := by
  obtain ⟨hnext, htold⟩ := hs.use x.2
  refine ⟨(s.use x.2).2, body?_use h x.1 x.2, hnext, ?_⟩
  rw [call_fst h]
  exact htold

/-- A run leaves what holds of the store for the uses to come. -/
private theorem follows_answers {us : List (ThreadId × Use κ υ)} {n : Nat} (h : w.body? i = some (.store s))
    (hs : s.Follows p capacity (us.length + n)) :
    ∃ s', (answers (call i) w us).2.body? i = some (.store s') ∧ s'.Follows p capacity n := by
  induction us generalizing w s with
  | nil =>
    rw [List.length_nil, Nat.zero_add] at hs
    exact ⟨s, h, hs⟩
  | cons x us ih =>
    rw [List.length_cons, Nat.add_right_comm] at hs
    obtain ⟨s', h', hs', -⟩ := call_told h hs x
    exact ih h' hs'

/-- Along a run the events of the uses make up the log, and the counter of evictions goes up with them. -/
private theorem log_answers {us : List (ThreadId × Use κ υ)} {n : UInt64} (h : w.body? i = some (.store s))
    (hs : s.Follows p capacity us.length) (hn : s.evictions? = some n) :
    let run := answers (call i) w us
    run.2.log.toList = w.log.toList ++ run.1.flatten ∧
      ∃ s', run.2.body? i = some (.store s') ∧ s'.evictions? = some (n + .ofNat run.1.flatten.length) := by
  induction us generalizing w s n with
  | nil =>
    refine ⟨(List.append_nil _).symm, s, h, ?_⟩
    rw [hn]
    exact congrArg some (UInt64.add_zero n).symm
  | cons x us ih =>
    obtain ⟨s', h', hs', htold⟩ := call_told h hs x
    obtain ⟨m, hm, hm'⟩ := htold.counted
    obtain rfl : m = n := Option.some_inj.1 (hm.symm.trans hn)
    obtain ⟨hlog, s'', h'', hn''⟩ := ih h' hs' hm'
    have hfirst : (call i w x).2.log.toList = w.log.toList ++ (call i w x).1 := by
      rw [call_fst h]
      exact log_use h x.1 x.2
    simp only [answers_cons, List.flatten_cons]
    refine ⟨?_, s'', h'', ?_⟩
    · rw [hlog, hfirst, List.append_assoc]
    · rw [hn'', UInt64.add_assoc, ← UInt64.ofNat_add, List.length_append]

/-- The log tells the truth about the losses of a bounded cache, in every run of uses by any threads; if the cache
counts frequencies, in every run of fewer than `2 ^ 64 - 1` uses.  A use appends one event if it is to store a value
under a new key and finds the cache full, and none if not.  The event gives the length without the entry and, of a
cache that counts frequencies, the lowest one that there was.  The counter of evictions goes up by one with each event,
and the log is made of the events in the order of the uses. -/
theorem log_tells_of_each_loss (w : Caches κ υ) (p : Policy) (capacity : Capacity)
    (us : List (ThreadId × Use κ υ)) (hus : p = .lfu → us.length < 2 ^ 64 - 1) :
    let i := (w.make (.bounded p capacity)).1
    let fresh := (w.make (.bounded p capacity)).2
    let run := answers (call i) fresh us
    run.2.log.toList = w.log.toList ++ run.1.flatten ∧
      (∃ s, run.2.body? i = some (.store s) ∧ s.evictions? = some (.ofNat run.1.flatten.length)) ∧
      ∀ before x later, us = before ++ x :: later →
        let w' := (answers (call i) fresh before).2
        ∃ s s', w'.body? i = some (.store s) ∧ (call i w' x).2.body? i = some (.store s') ∧
          s.policy? = some p ∧ s.capacity? = some capacity.size ∧
          run.1[before.length]? = some (call i w' x).1 ∧ s.Told p capacity s' x.2 (call i w' x).1 := by
  intro i fresh run
  obtain ⟨s, hmake, hs, hn⟩ := Store.follows_empty (κ := κ) (υ := υ) p capacity hus
  have hbody : fresh.body? i = some (.store s) := by
    simp only [fresh, i, hmake, body?_add]
  have hlog : fresh.log = w.log := by
    simp only [fresh, hmake]
    rfl
  obtain ⟨hrun, s', h', hn'⟩ := log_answers hbody hs hn
  rw [UInt64.zero_add] at hn'
  refine ⟨hlog ▸ hrun, ⟨s', h', hn'⟩, ?_⟩
  rintro before x later rfl
  intro w'
  -- the uses to come are those of `later` and the one before them
  have huses : s.Follows p capacity (before.length + (later.length + 1)) := by simpa using hs
  obtain ⟨s₁, h₁, hs₁⟩ := follows_answers hbody huses
  obtain ⟨s₂, h₂, -, htold⟩ := call_told h₁ hs₁ x
  have hevents : run.1[before.length]? = some (call i w' x).1 := by
    have hlength : (answers (call i) fresh before).1.length = before.length := length_answers _ _ _
    simp only [run, answers_append, answers_cons, ← hlength, List.getElem?_append_right (Nat.le_refl _),
      Nat.sub_self, List.getElem?_cons_zero, w']
  exact ⟨s₁, s₂, h₁, h₂, hs₁.policy?, hs₁.capacity?, hevents, htold⟩

/-- One entry has been looked up twice and the other one once when a third key is stored in a full cache. -/
theorem log_tells_of_lower_frequency :
    let before : List (ThreadId × Use Nat Nat) :=
      [(0, .request (.put 1 10)), (1, .request (.get 1)), (0, .request (.get 1)), (1, .request (.put 2 20)),
        (1, .request (.get 2))]
    let us := before ++ [(0, .request (.put 3 30))]
    let fresh := (Caches.empty.make (.bounded .lfu ⟨2, Nat.two_pos⟩)).2
    us.length < 2 ^ 64 - 1 ∧
      (∃ c : FrequencyCache Nat Nat, (answers (call 0) fresh before).2.body? 0 = some (.store (.lfu c)) ∧
        c.toList = [⟨2, 20, 2⟩, ⟨1, 10, 3⟩]) ∧
      (answers (call 0) fresh us).1[5]? = some [.evicted { policy := .lfu, frequency? := some 2, remaining := 1 }] := by
  intro before us fresh
  have hus : us.length < 2 ^ 64 - 1 := by decide
  obtain ⟨-, -, hcalls⟩ := log_tells_of_each_loss (κ := Nat) (υ := Nat) .empty .lfu ⟨2, Nat.two_pos⟩ us fun _ => hus
  obtain ⟨s, s', hs, -, -, -, hevents, htold⟩ := hcalls before (0, .request (.put 3 30)) [] rfl
  -- the cache that the uses before the last one lead to
  obtain ⟨c, hbody, hlist, habsent, hfull, L, hc⟩ : ∃ c : FrequencyCache Nat Nat,
      (answers (call 0) fresh before).2.body? 0 = some (.store (.lfu c)) ∧ c.toList = [⟨2, 20, 2⟩, ⟨1, 10, 3⟩] ∧
        c.contains 3 = false ∧ c.capacity.size = c.length ∧ ∃ L, c.Holds L := by
    have hfresh : fresh.body? 0 = some (.store (.lfu (.empty ⟨2, Nat.two_pos⟩))) := body?_add .empty 0 _
    let rs := before.map fun x => Bounded.CountedRequest.plain x.2.bounded
    have hrs : rs.length < 2 ^ 64 - 1 := by decide
    obtain ⟨-, ⟨L, T, hcm⟩, hcap⟩ := FrequencyCache.answers_agree ⟨2, Nat.two_pos⟩ hrs
    refine ⟨_, body?_answers_lfu hfresh before, Entry.shown_injective.list_map hcm.toList_shown, hcm.contains 3, ?_,
      L, hcm.holds⟩
    rw [hcap, hcm.length]
    rfl
  obtain rfl : s = .lfu c := Body.store.inj (Option.some_inj.1 (hs.symm.trans hbody))
  obtain ⟨f?, ⟨f, rfl, hleast⟩, hevent⟩ := htold.lost ⟨3, rfl, habsent, congrArg some hfull⟩
  have hfrequencies : ∀ g, g ∈ c.frequencies ↔ g ∈ c.toList.map Entry.frequency := by
    intro g
    rw [hc.mem_frequencies, hc.laid.toList, List.map_map, List.mem_map]
    rfl
  rw [hlist] at hfrequencies
  have hlowest : f ≤ 2 := hleast.2 ((hfrequencies 2).2 (List.mem_cons_self ..))
  have htwo : f = 2 := by
    have hf := (hfrequencies f).1 hleast.1
    simp only [List.map_cons, List.map_nil, List.mem_cons, List.not_mem_nil, or_false] at hf
    rcases hf with rfl | rfl
    · rfl
    · exact absurd hlowest (by decide)
  rw [htwo] at hevent
  exact ⟨hus, ⟨c, hbody, hlist⟩, hevents.trans (congrArg some hevent)⟩

end Caches

end Caching
