import Caching.Proofs.Bounded.Keyed
import Caching.Proofs.Bounded.Request
import Caching.Proofs.Run

/-!
# The naive model of a cache in order of frequency

Entries that carry their frequency and the moment at which they reached it, in no order.  The order is made anew
whenever it is asked for, by sorting (`Ranking.ranked`); the entry to go is the first in it.  `Ranking.Orders` says
that a list is the model's entries in order, and each change of the model is followed on such a list: a change of
one entry takes it out of the list and puts it back at another place (`Orders.hit`, `Orders.insert`,
`Orders.delete`, `Orders.dropLeast`).

The frequency of a key is one more than the hits on it since its last insertion (`frequencyOf?_answers`).
-/

namespace Caching

open Bounded (Request CountedRequest Answer)

/-- An entry with its frequency and the moment at which it reached it. -/
structure Ranked (κ υ : Type) where
  key : κ
  value : υ
  frequency : Nat
  tick : Nat

namespace Ranked

variable {κ υ : Type}

/-- The order in which entries go. -/
def Precedes (a b : Ranked κ υ) : Prop :=
  a.frequency < b.frequency ∨ a.frequency = b.frequency ∧ a.tick ≤ b.tick

instance : DecidableRel (@Precedes κ υ) := fun a b =>
  inferInstanceAs (Decidable (a.frequency < b.frequency ∨ a.frequency = b.frequency ∧ a.tick ≤ b.tick))

def StrictlyPrecedes (a b : Ranked κ υ) : Prop :=
  a.frequency < b.frequency ∨ a.frequency = b.frequency ∧ a.tick < b.tick

private theorem StrictlyPrecedes.precedes {a b : Ranked κ υ} (hab : a.StrictlyPrecedes b) : a.Precedes b := by
  rcases hab with hlt | ⟨heq, hlt⟩
  · exact Or.inl hlt
  · exact Or.inr ⟨heq, Nat.le_of_lt hlt⟩

instance : Std.Total (@Precedes κ υ) where
  total a b := by
    unfold Precedes
    omega

instance : IsTrans (Ranked κ υ) Precedes where
  trans a b c := by
    unfold Precedes
    omega

/-- Entries in strict order are in the order in which sorting puts them. -/
private theorem insertionSort_eq {l T : List (Ranked κ υ)} (hp : T.Perm l) (hT : T.Pairwise StrictlyPrecedes) :
    l.insertionSort Precedes = T := by
  have hsort := (List.perm_insertionSort Precedes l).trans hp.symm
  refine hsort.eq_of_pairwise ?_ (List.pairwise_insertionSort _ l) (hT.imp StrictlyPrecedes.precedes)
  intro a b ha hb hab hba
  -- two different entries differ in frequency or tick
  have hsymm : Std.Symm fun x y : Ranked κ υ => x.frequency ≠ y.frequency ∨ x.tick ≠ y.tick :=
    ⟨fun x y hxy => by omega⟩
  have hdiffer : T.Pairwise fun x y => x.frequency ≠ y.frequency ∨ x.tick ≠ y.tick := by
    refine hT.imp ?_
    intro x y hxy
    unfold StrictlyPrecedes at hxy
    omega
  by_contra hne
  have hab' := hdiffer.forall (hsort.mem_iff.1 ha) hb hne
  unfold Precedes at hab hba
  omega

end Ranked

structure Ranking (κ υ : Type) where
  capacity : Nat
  entries : List (Ranked κ υ) := []
  /-- The next moment. -/
  tick : Nat := 0

namespace Ranking

variable {κ υ : Type} [BEq κ]

def empty (capacity : Capacity) : Ranking κ υ := { capacity := capacity.size }

def find? (m : Ranking κ υ) (k : κ) : Option (Ranked κ υ) := m.entries.find? fun e => e.key == k

/-- The entries by frequency, those of one frequency by the moment at which they reached it. -/
def ranked (m : Ranking κ υ) : List (Ranked κ υ) := m.entries.insertionSort Ranked.Precedes

def keys (m : Ranking κ υ) : List κ := m.ranked.map (·.key)

def frequencyOf? (m : Ranking κ υ) (k : κ) : Option Nat := (m.find? k).map (·.frequency)

/-- Counts a use of a key and may change its value. -/
def hit (m : Ranking κ υ) (k : κ) (f : υ → υ) : Ranking κ υ :=
  { m with
    entries := m.entries.map fun e =>
      if e.key == k then { e with value := f e.value, frequency := e.frequency + 1, tick := m.tick } else e
    tick := m.tick + 1 }

def insert (m : Ranking κ υ) (k : κ) (v : υ) : Ranking κ υ :=
  { m with
    entries := { key := k, value := v, frequency := 1, tick := m.tick } :: m.entries
    tick := m.tick + 1 }

def delete (m : Ranking κ υ) (k : κ) : Ranking κ υ :=
  { m with entries := m.entries.filter fun e => !(e.key == k) }

/-- Deletes the entry of the least frequency that reached it first. -/
def dropLeast (m : Ranking κ υ) : Ranking κ υ :=
  match m.ranked with
  | [] => m
  | e :: _ => m.delete e.key

def get (m : Ranking κ υ) (k : κ) : Option υ × Ranking κ υ :=
  match m.find? k with
  | some e => (some e.value, m.hit k id)
  | none => (none, m)

def put (m : Ranking κ υ) (k : κ) (v : υ) : Option υ × Ranking κ υ :=
  match m.find? k with
  | some e => (some e.value, m.hit k fun _ => v)
  | none =>
    let m := if m.entries.length = m.capacity then m.dropLeast else m
    (none, m.insert k v)

def putIfAbsent (m : Ranking κ υ) (k : κ) (v : υ) : Option υ × Ranking κ υ :=
  match m.find? k with
  | some e => (some e.value, m.hit k id)
  | none => m.put k v

def answer (m : Ranking κ υ) : CountedRequest κ υ → Answer κ × Ranking κ υ
  | .plain (.get k) => let (v?, m) := m.get k; (.value? v?, m)
  | .plain (.getWith k f) => let (v?, m) := m.get k; (.value? (v?.map f), m)
  | .plain (.put k v) => let (old?, m) := m.put k v; (.value? old?, m)
  | .plain (.putIfAbsent k v) => let (v?, m) := m.putIfAbsent k v; (.value? v?, m)
  | .plain (.contains k) => (.flag (m.find? k).isSome, m)
  | .plain (.remove k) => (.value? ((m.find? k).map (·.value)), m.delete k)
  | .plain .length => (.number m.entries.length, m)
  | .plain .keys => (.keys m.keys, m)
  | .plain .clear => (.done, { m with entries := [] })
  | .frequencyOf k => (.frequency? (m.frequencyOf? k), m)

theorem dropLeast_eq (m : Ranking κ υ) : m.dropLeast = { m with entries := m.dropLeast.entries } := by
  unfold dropLeast
  split <;> rfl

/-- The clock moves by at most one a request. -/
theorem tick_answer (m : Ranking κ υ) (r : CountedRequest κ υ) : (m.answer r).2.tick ≤ m.tick + 1 := by
  have hput : ∀ k v, (m.put k v).2.tick ≤ m.tick + 1 := by
    intro k v
    unfold put
    split
    · exact Nat.le_refl _
    · dsimp only
      split
      · rw [dropLeast_eq]
        exact Nat.le_refl _
      · exact Nat.le_refl _
  have hget : ∀ k, (m.get k).2.tick ≤ m.tick + 1 := by
    intro k
    unfold get
    split
    · exact Nat.le_refl _
    · exact Nat.le_succ _
  cases r with
  | frequencyOf k => exact Nat.le_succ _
  | plain r =>
    cases r with
    | get k => exact hget k
    | getWith k f => exact hget k
    | put k v => exact hput k v
    | putIfAbsent k v =>
      show (m.putIfAbsent k v).2.tick ≤ m.tick + 1
      unfold putIfAbsent
      split
      · exact Nat.le_refl _
      · exact hput k v
    | contains k => exact Nat.le_succ _
    | remove k => exact Nat.le_succ _
    | length => exact Nat.le_succ _
    | keys => exact Nat.le_succ _
    | clear => exact Nat.le_succ _

/-! ### The entries in order -/

/-- The list has the entries of the model in the order in which they go.  No frequency and no tick is ahead of
the clock. -/
structure Orders (m : Ranking κ υ) (T : List (Ranked κ υ)) : Prop where
  perm : m.entries.Perm T
  keyed : Keyed Ranked.key T
  ordered : T.Pairwise Ranked.StrictlyPrecedes
  recent : ∀ t ∈ T, t.frequency ≤ m.tick ∧ t.tick < m.tick

namespace Orders

variable {m : Ranking κ υ} {T T₁ T₂ P Q : List (Ranked κ υ)} {t : Ranked κ υ} {k : κ}

theorem empty (capacity : Capacity) : (Ranking.empty capacity : Ranking κ υ).Orders [] where
  perm := List.Perm.refl _
  keyed := List.Pairwise.nil
  ordered := List.Pairwise.nil
  recent t ht := by cases ht

theorem ranked_eq (hm : m.Orders T) : m.ranked = T := Ranked.insertionSort_eq hm.perm.symm hm.ordered

omit [BEq κ] in
/-- An entry that is newer than those before it and has a lower frequency than those behind it. -/
private theorem ordered_middle (hT : (T₁ ++ T₂).Pairwise Ranked.StrictlyPrecedes)
    (h₁ : ∀ x ∈ T₁, x.frequency ≤ t.frequency ∧ x.tick < t.tick) (h₂ : ∀ x ∈ T₂, t.frequency < x.frequency) :
    (T₁ ++ t :: T₂).Pairwise Ranked.StrictlyPrecedes := by
  rw [List.pairwise_append] at hT ⊢
  obtain ⟨hT₁, hT₂, hT₁₂⟩ := hT
  refine ⟨hT₁, List.pairwise_cons.2 ⟨fun x hx => Or.inl (h₂ x hx), hT₂⟩, ?_⟩
  intro x hx y hy
  rcases List.mem_cons.1 hy with rfl | hy
  · obtain ⟨hf, htick⟩ := h₁ x hx
    rcases Nat.lt_or_eq_of_le hf with hlt | heq
    · exact Or.inl hlt
    · exact Or.inr ⟨heq, htick⟩
  · exact hT₁₂ x hx y hy

omit [BEq κ] in
/-- The clock moves on when an entry comes in. -/
private theorem recent_middle {n : Nat} (hT : ∀ x ∈ T₁ ++ T₂, x.frequency ≤ n ∧ x.tick < n)
    (ht : t.frequency ≤ n + 1 ∧ t.tick < n + 1) :
    ∀ x ∈ T₁ ++ t :: T₂, x.frequency ≤ n + 1 ∧ x.tick < n + 1 := by
  intro x hx
  rw [List.perm_middle.mem_iff, List.mem_cons] at hx
  rcases hx with rfl | hx
  · exact ht
  · have := hT x hx
    omega

variable [EquivBEq κ]

theorem find?_some (hm : m.Orders T) (ht : t ∈ T) (hk : (t.key == k) = true) : m.find? k = some t :=
  (hm.keyed.perm hm.perm.symm).find?_of_mem (hm.perm.mem_iff.2 ht) hk

omit [EquivBEq κ] in
theorem find?_none (hm : m.Orders T) (hk : ∀ t ∈ T, (t.key == k) = false) : m.find? k = none := by
  rw [find?, List.find?_eq_none]
  intro t ht
  simp [hk t (hm.perm.mem_iff.1 ht)]

/-- A use takes an entry to the end of its new frequency. -/
theorem hit (hm : m.Orders (P ++ t :: Q)) (hk : (t.key == k) = true) (f : υ → υ) (hsplit : P ++ Q = T₁ ++ T₂)
    (h₁ : ∀ x ∈ T₁, x.frequency ≤ t.frequency + 1) (h₂ : ∀ x ∈ T₂, t.frequency + 1 < x.frequency) :
    (m.hit k f).Orders
      (T₁ ++ { t with value := f t.value, frequency := t.frequency + 1, tick := m.tick } :: T₂) := by
  have hperm : m.entries.Perm (t :: (T₁ ++ T₂)) := by
    rw [← hsplit]
    exact hm.perm.trans List.perm_middle
  have hkeyed : Keyed Ranked.key (t :: (T₁ ++ T₂)) := (hm.keyed.perm hm.perm.symm).perm hperm
  -- the entries that are not hit stay in order
  have hsub : (T₁ ++ T₂).Sublist (P ++ t :: Q) := by
    rw [← hsplit]
    exact List.Sublist.append_left (List.sublist_cons_self t Q) P
  have hrecent : ∀ x ∈ T₁ ++ T₂, x.frequency ≤ m.tick ∧ x.tick < m.tick := fun x hx =>
    hm.recent x (hsub.subset hx)
  have hmap := (hm.keyed.perm hm.perm.symm).map_perm hperm hk fun e =>
    { e with value := f e.value, frequency := e.frequency + 1, tick := m.tick }
  refine ⟨hmap.trans List.perm_middle.symm, ?_, ?_, ?_⟩
  · have hset : Keyed Ranked.key
        ({ t with value := f t.value, frequency := t.frequency + 1, tick := m.tick } :: (T₁ ++ T₂)) :=
      hkeyed.set rfl
    exact hset.perm List.perm_middle.symm
  · exact ordered_middle (hm.ordered.sublist hsub)
      (fun x hx => ⟨h₁ x hx, (hrecent x (List.mem_append_left _ hx)).2⟩) h₂
  · have hf : t.frequency + 1 ≤ m.tick + 1 := Nat.succ_le_succ (hm.recent t (by simp)).1
    exact recent_middle hrecent ⟨hf, Nat.lt_succ_self _⟩

/-- A new entry goes behind those of frequency 1. -/
theorem insert (hm : m.Orders (T₁ ++ T₂)) (hk : ∀ x ∈ T₁ ++ T₂, (x.key == k) = false) (v : υ)
    (h₁ : ∀ x ∈ T₁, x.frequency ≤ 1) (h₂ : ∀ x ∈ T₂, 1 < x.frequency) :
    (m.insert k v).Orders (T₁ ++ { key := k, value := v, frequency := 1, tick := m.tick } :: T₂) := by
  have hkeyed : Keyed Ranked.key ({ key := k, value := v, frequency := 1, tick := m.tick } :: (T₁ ++ T₂)) := by
    refine List.pairwise_cons.2 ⟨?_, hm.keyed⟩
    intro x hx
    rw [BEq.comm]
    exact hk x hx
  refine ⟨(hm.perm.cons _).trans List.perm_middle.symm, hkeyed.perm List.perm_middle.symm, ?_, ?_⟩
  · exact ordered_middle hm.ordered
      (fun x hx => ⟨h₁ x hx, (hm.recent x (List.mem_append_left _ hx)).2⟩) h₂
  · have hf : 1 ≤ m.tick + 1 := Nat.succ_le_succ (Nat.zero_le _)
    exact recent_middle hm.recent ⟨hf, Nat.lt_succ_self _⟩

theorem delete (hm : m.Orders (P ++ t :: Q)) (hk : (t.key == k) = true) : (m.delete k).Orders (P ++ Q) := by
  have hsub : (P ++ Q).Sublist (P ++ t :: Q) := List.Sublist.append_left (List.sublist_cons_self t Q) P
  have hperm := hm.perm.trans List.perm_middle
  refine ⟨(hm.keyed.perm hm.perm.symm).filter_perm hperm hk, hm.keyed.sublist hsub, hm.ordered.sublist hsub, ?_⟩
  intro x hx
  exact hm.recent x (hsub.subset hx)

theorem dropLeast (hm : m.Orders (t :: Q)) : m.dropLeast.Orders Q := by
  have hres : m.dropLeast = m.delete t.key := by
    simp only [Ranking.dropLeast, hm.ranked_eq]
  rw [hres]
  exact hm.delete (P := []) BEq.rfl

end Orders

/-! ### How often a key was used -/

/-- A request to a key that is answered with the value it met. -/
def hits (k : κ) : CountedRequest κ υ × Answer κ → Bool
  | (.plain (.get i), .value? v?) => i == k && v?.isSome
  | (.plain (.getWith i _), .value? v?) => i == k && v?.isSome
  | (.plain (.put i _), .value? v?) => i == k && v?.isSome
  | (.plain (.putIfAbsent i _), .value? v?) => i == k && v?.isSome
  | _ => false

/-- A request that stores a value under a key and is answered that there was none. -/
def inserts (k : κ) : CountedRequest κ υ × Answer κ → Bool
  | (.plain (.put i _), .value? v?) => i == k && v?.isNone
  | (.plain (.putIfAbsent i _), .value? v?) => i == k && v?.isNone
  | _ => false

/-- The number of hits on a key since it was last inserted, read off the requests and their answers. -/
def hitsSinceInsertion (k : κ) (trace : List (CountedRequest κ υ × Answer κ)) : Nat :=
  (trace.reverse.takeWhile fun x => !inserts k x).countP (hits k)

private theorem hitsSinceInsertion_append (k : κ) (trace : List (CountedRequest κ υ × Answer κ))
    (x : CountedRequest κ υ × Answer κ) :
    hitsSinceInsertion k (trace ++ [x]) =
      if inserts k x then 0 else hitsSinceInsertion k trace + if hits k x then 1 else 0 := by
  rw [hitsSinceInsertion, List.reverse_append, List.reverse_singleton, List.singleton_append,
    List.takeWhile_cons]
  cases inserts k x with
  | true => rfl
  | false =>
    rw [Bool.not_false, if_pos rfl, List.countP_cons]
    rfl

variable [EquivBEq κ] {m : Ranking κ υ}

private theorem frequencyOf?_hit (m : Ranking κ υ) (i k : κ) (f : υ → υ) :
    (m.hit i f).frequencyOf? k = (m.frequencyOf? k).map fun n => if i == k then n + 1 else n := by
  have hkey : ((fun e : Ranked κ υ => e.key == k) ∘ fun e =>
      if e.key == i then { e with value := f e.value, frequency := e.frequency + 1, tick := m.tick } else e) =
      fun e => e.key == k := by
    funext e
    dsimp only [Function.comp]
    split <;> rfl
  simp only [frequencyOf?, find?, hit, List.find?_map, hkey, Option.map_map]
  cases he : m.entries.find? fun e => e.key == k with
  | none => rfl
  | some e =>
    have hek : (e.key == k) = true := List.find?_some (p := fun e : Ranked κ υ => e.key == k) he
    have hik : (e.key == i) = (i == k) := by rw [BEq.congr_left hek, BEq.comm]
    simp only [Option.map_some, Function.comp, hik]
    split <;> rfl

omit [EquivBEq κ] in
private theorem frequencyOf?_insert (m : Ranking κ υ) (i k : κ) (v : υ) :
    (m.insert i v).frequencyOf? k = if i == k then some 1 else m.frequencyOf? k := by
  simp only [frequencyOf?, find?, insert, List.find?_cons]
  cases i == k <;> rfl

private theorem frequencyOf?_delete (m : Ranking κ υ) (i k : κ) :
    (m.delete i).frequencyOf? k = if i == k then none else m.frequencyOf? k := by
  simp only [frequencyOf?, find?, delete, List.find?_filter]
  have hkey : ∀ e : Ranked κ υ, (e.key == k) = true → (e.key == i) = (i == k) := by
    intro e hek
    rw [BEq.congr_left hek, BEq.comm]
  cases hik : i == k with
  | true =>
    rw [if_pos rfl, Option.map_eq_none_iff, List.find?_eq_none]
    intro e _ hand
    rw [decide_eq_true_eq] at hand
    obtain ⟨hei, hek⟩ := hand
    simp [hkey e hek, hik] at hei
  | false =>
    have hsame : (fun e : Ranked κ υ => decide ((!(e.key == i)) = true ∧ (e.key == k) = true)) =
        fun e => e.key == k := by
      funext e
      cases hek : e.key == k with
      | true => simp [hkey e hek, hik]
      | false => simp
    rw [hsame]
    simp

private theorem frequencyOf?_dropLeast {k : κ} {n : Nat} (hn : m.dropLeast.frequencyOf? k = some n) :
    m.frequencyOf? k = some n := by
  unfold dropLeast at hn
  split at hn
  · exact hn
  · rw [frequencyOf?_delete] at hn
    split at hn
    · cases hn
    · exact hn

/-- A frequency is that of a new key, or comes from the frequency before. -/
private theorem frequencyOf?_answer {k : κ} {n : Nat} (r : CountedRequest κ υ)
    (hn : (m.answer r).2.frequencyOf? k = some n) :
    if inserts k (r, (m.answer r).1) then n = 1
    else ∃ n', m.frequencyOf? k = some n' ∧ n = n' + if hits k (r, (m.answer r).1) then 1 else 0 := by
  have hhit : ∀ {i f}, (m.hit i f).frequencyOf? k = some n →
      ∃ n', m.frequencyOf? k = some n' ∧ n = n' + if i == k then 1 else 0 := by
    intro i f hn
    rw [frequencyOf?_hit, Option.map_eq_some_iff] at hn
    obtain ⟨n', hn', rfl⟩ := hn
    refine ⟨n', hn', ?_⟩
    split <;> rfl
  have hnew : ∀ {i v}, m.find? i = none → (m.put i v).2.frequencyOf? k = some n →
      if i == k then n = 1 else m.frequencyOf? k = some n := by
    intro i v hi hn
    simp only [put, hi, frequencyOf?_insert] at hn
    cases hik : i == k with
    | true =>
      rw [hik, if_pos rfl] at hn
      exact (Option.some_inj.1 hn).symm
    | false =>
      rw [hik, if_neg Bool.false_ne_true] at hn
      rw [if_neg Bool.false_ne_true]
      split at hn
      · exact frequencyOf?_dropLeast hn
      · exact hn
  cases r with
  | frequencyOf i => exact ⟨n, hn, rfl⟩
  | plain r =>
    cases r with
    | get i =>
      cases hi : m.find? i <;> simp only [answer, get, hi] at hn ⊢
      · simpa [inserts, hits] using hn
      · simpa [inserts, hits] using hhit hn
    | getWith i f =>
      cases hi : m.find? i <;> simp only [answer, get, hi] at hn ⊢
      · simpa [inserts, hits] using hn
      · simpa [inserts, hits] using hhit hn
    | put i v =>
      cases hi : m.find? i <;> simp only [answer] at hn ⊢
      · have := hnew hi hn
        simp only [put, hi]
        simpa [inserts, hits] using this
      · simp only [put, hi] at hn ⊢
        simpa [inserts, hits] using hhit hn
    | putIfAbsent i v =>
      cases hi : m.find? i <;> simp only [answer, putIfAbsent, hi] at hn ⊢
      · have := hnew hi hn
        simp only [put, hi]
        simpa [inserts, hits] using this
      · simpa [inserts, hits] using hhit hn
    | remove i =>
      simp only [answer, frequencyOf?_delete] at hn
      split at hn
      · cases hn
      · exact ⟨n, hn, rfl⟩
    | clear => cases hn
    | contains i => exact ⟨n, hn, rfl⟩
    | length => exact ⟨n, hn, rfl⟩
    | keys => exact ⟨n, hn, rfl⟩

/-- The frequency of a key is one more than the hits on it since its last insertion. -/
theorem frequencyOf?_answers (capacity : Capacity) (rs : List (CountedRequest κ υ)) {k : κ} {n : Nat}
    (hn : (answers answer (empty capacity) rs).2.frequencyOf? k = some n) :
    n = 1 + hitsSinceInsertion k (rs.zip (answers answer (empty capacity) rs).1) := by
  induction rs using List.reverseRecOn generalizing n with
  | nil => cases hn
  | append_singleton rs r ih =>
    rw [answers_append] at hn ⊢
    rw [List.zip_append (length_answers ..).symm]
    have hstep := frequencyOf?_answer r hn
    show n = 1 + hitsSinceInsertion k
      (_ ++ [(r, ((answers answer (empty capacity) rs).2.answer r).1)])
    rw [hitsSinceInsertion_append]
    split at hstep
    · next hins =>
      rw [if_pos hins, hstep]
    · next hins =>
      obtain ⟨n', hn', rfl⟩ := hstep
      rw [if_neg hins, ih hn', Nat.add_assoc]

end Ranking

end Caching
