import Caching.Proofs.Bounded.Ordered
import Caching.Striped

/-!
# Striped maps as one map

The naive model of a striped map is one list of pairs with different keys, of any length (`PlainMap`).  A striped
map agrees with it when every key that is in a segment is in the segment that it belongs to, a look-up there finds
what the list has, and the sizes of the segments add up to the length of the list (`StripedMap.Agrees`).  Which
segment a key belongs to matters to none of this, as long as equal keys belong to the same one.  So the answers of
a run show neither the hash function nor the number of segments.
-/

namespace Caching

open Bounded (Answer)

/-! ### Requests -/

namespace Striped

inductive Request (κ υ : Type) : Type 1 where
  | get (k : κ)
  /-- A look-up that passes the value through a function. -/
  | getWith {β : Type} (k : κ) (f : υ → β)
  | put (k : κ) (v : υ)
  | putIfAbsent (k : κ) (v : υ)
  | contains (k : κ)
  | remove (k : κ)
  | length
  | isEmpty
  | clear

end Striped

open Striped (Request)

def StripedMap.answer {κ υ : Type} [BEq κ] [Hashable κ] (m : StripedMap κ υ) :
    Request κ υ → Answer κ × StripedMap κ υ
  | .get k => (.value? (m.get? k), m)
  | .getWith k f => (.value? (m.getWith k f), m)
  | .put k v => let (old?, m) := m.put k v; (.value? old?, m)
  | .putIfAbsent k v => let (v?, m) := m.putIfAbsent k v; (.value? v?, m)
  | .contains k => (.flag (m.contains k), m)
  | .remove k => let (v?, m) := m.remove k; (.value? v?, m)
  | .length => (.number m.length, m)
  | .isEmpty => (.flag m.isEmpty, m)
  | .clear => (.done, m.clear)

/-! ### The naive model -/

/-- A list of pairs with different keys. -/
structure PlainMap (κ υ : Type) where
  pairs : List (κ × υ) := []

namespace PlainMap

variable {κ υ : Type} [BEq κ]

def empty : PlainMap κ υ := {}

def value? (f : PlainMap κ υ) (k : κ) : Option υ := (f.pairs.find? fun e => e.1 == k).map (·.2)

def put (f : PlainMap κ υ) (k : κ) (v : υ) : Option υ × PlainMap κ υ :=
  match f.value? k with
  | some old => (some old, { pairs := f.pairs.map fun e => if e.1 == k then (e.1, v) else e })
  | none => (none, { pairs := f.pairs ++ [(k, v)] })

def putIfAbsent (f : PlainMap κ υ) (k : κ) (v : υ) : Option υ × PlainMap κ υ :=
  match f.value? k with
  | some current => (some current, f)
  | none => f.put k v

def remove (f : PlainMap κ υ) (k : κ) : Option υ × PlainMap κ υ :=
  (f.value? k, { pairs := f.pairs.eraseP fun e => e.1 == k })

def answer (f : PlainMap κ υ) : Request κ υ → Answer κ × PlainMap κ υ
  | .get k => (.value? (f.value? k), f)
  | .getWith k g => (.value? ((f.value? k).map g), f)
  | .put k v => let (old?, f) := f.put k v; (.value? old?, f)
  | .putIfAbsent k v => let (v?, f) := f.putIfAbsent k v; (.value? v?, f)
  | .contains k => (.flag (f.value? k).isSome, f)
  | .remove k => let (v?, f) := f.remove k; (.value? v?, f)
  | .length => (.number f.pairs.length, f)
  | .isEmpty => (.flag f.pairs.isEmpty, f)
  | .clear => (.done, .empty)

/-! The pair of a key stands somewhere, or nowhere; what a change does to the look-ups follows from where. -/

variable {f : PlainMap κ υ} {l r : List (κ × υ)} {e : κ × υ} {k : κ} {v : υ}

private theorem value?_eq_none : f.value? k = none ↔ ∀ e ∈ f.pairs, (e.1 == k) = false := by
  simp [value?]

/-- Where the pair of a key that is there stands. -/
private theorem split_of_value?_eq_some (hk : f.value? k = some v) :
    ∃ l e r, f = { pairs := l ++ e :: r } ∧ (e.1 == k) = true := by
  obtain ⟨e, he, rfl⟩ := Option.map_eq_some_iff.1 hk
  obtain ⟨l, r, hl⟩ := List.append_of_mem (List.mem_of_find?_eq_some he)
  have hek : (e.1 == k) = true := by simpa using List.find?_some he
  refine ⟨l, e, r, ?_, hek⟩
  rw [← hl]

variable [EquivBEq κ]

/-- Only the pair in the middle matters to a look-up of its key, and only the others do to any other. -/
private theorem value?_middle (hl : Keyed (·.1) (l ++ e :: r)) (i : κ) :
    ({ pairs := l ++ e :: r } : PlainMap κ υ).value? i =
      if e.1 == i then some e.2 else ({ pairs := l ++ r } : PlainMap κ υ).value? i := by
  cases hi : e.1 == i with
  | true => rw [value?, hl.find?_middle hi, Option.map_some, if_pos rfl]
  | false =>
    rw [if_neg Bool.false_ne_true, value?, value?, List.find?_append, List.find?_append, List.find?_cons, hi]

/-- After a put the key has the new value, and no other key is concerned. -/
private theorem put_spec (hf : Keyed (·.1) f.pairs) (k : κ) (v : υ) :
    (f.put k v).1 = f.value? k ∧ Keyed (·.1) (f.put k v).2.pairs ∧
      (f.put k v).2.pairs.length = (if (f.value? k).isSome then f.pairs.length else f.pairs.length + 1) ∧
      ∀ i, (f.put k v).2.value? i = if k == i then some v else f.value? i := by
  cases hk : f.value? k with
  | none =>
    have hkeyed : Keyed (·.1) (f.pairs ++ [(k, v)]) := by
      refine Keyed.perm (l := (k, v) :: f.pairs) (List.pairwise_cons.2 ⟨?_, hf⟩)
        (List.perm_append_singleton _ _).symm
      intro e he
      rw [BEq.comm]
      exact value?_eq_none.1 hk e he
    simp only [put, hk]
    refine ⟨trivial, hkeyed, by simp, ?_⟩
    intro i
    rw [value?_middle hkeyed, List.append_nil]
  | some old =>
    obtain ⟨l, e, r, rfl, he⟩ := split_of_value?_eq_some hk
    have hset : Keyed (·.1) ((e.1, v) :: (l ++ r)) := (hf.perm List.perm_middle).set rfl
    have hkeyed : Keyed (·.1) (l ++ (e.1, v) :: r) := hset.perm List.perm_middle.symm
    simp only [put, hk, hf.map_middle he fun e => (e.1, v)]
    refine ⟨trivial, hkeyed, by simp, ?_⟩
    intro i
    rw [value?_middle hkeyed, value?_middle hf, BEq.congr_left he]
    split <;> rfl

/-- After a removal the key has no value, and no other key is concerned. -/
private theorem remove_spec (hf : Keyed (·.1) f.pairs) (k : κ) :
    Keyed (·.1) (f.remove k).2.pairs ∧
      (f.remove k).2.pairs.length = (if (f.value? k).isSome then f.pairs.length - 1 else f.pairs.length) ∧
      ∀ i, (f.remove k).2.value? i = if k == i then none else f.value? i := by
  cases hk : f.value? k with
  | none =>
    have habsent := value?_eq_none.1 hk
    have hpairs : f.pairs.eraseP (fun e => e.1 == k) = f.pairs :=
      List.eraseP_of_forall_not fun e he => by simp [habsent e he]
    simp only [remove, hpairs]
    refine ⟨hf, rfl, ?_⟩
    intro i
    split
    · next hi =>
      refine value?_eq_none.2 fun e he => ?_
      rw [← BEq.congr_right hi, habsent e he]
    · rfl
  | some old =>
    obtain ⟨l, e, r, rfl, he⟩ := split_of_value?_eq_some hk
    simp only [remove, hf.eraseP_middle he]
    refine ⟨(List.pairwise_cons.1 (hf.perm List.perm_middle)).2, by simp, ?_⟩
    intro i
    rw [value?_middle hf, BEq.congr_left he]
    split
    · next hi => exact value?_eq_none.2 (hf.other (by rw [BEq.congr_left he, hi]))
    · rfl

end PlainMap

/-! ### Segments -/

namespace StripedMap

variable {κ υ : Type} [BEq κ] [Hashable κ] {m : StripedMap κ υ} {f : PlainMap κ υ} {k : κ} {v? : Option υ}
  {g : Std.HashMap κ υ → Std.HashMap κ υ}

private theorem length_eq_sum (m : StripedMap κ υ) : m.length = (m.segments.toList.map (·.size)).sum := by
  rw [length, ← Array.foldl_toList, List.sum_eq_foldl, List.foldl_map]

private theorem getElem?_slot (m : StripedMap κ υ) (k : κ) : m.segments[(m.slot k).1]? = some (m.segment k) :=
  Array.getElem?_eq_getElem _

private theorem segmentCount_modify (m : StripedMap κ υ) (k : κ) (g : Std.HashMap κ υ → Std.HashMap κ υ) :
    (m.modify k g).segmentCount = m.segmentCount := Array.size_modify

private theorem slot_modify (m : StripedMap κ υ) (k : κ) (g : Std.HashMap κ υ → Std.HashMap κ υ) (i : κ) :
    ((m.modify k g).slot i).1 = (m.slot i).1 := by
  show (m.hash i).toNat % (m.modify k g).segmentCount = (m.hash i).toNat % m.segmentCount
  rw [segmentCount_modify]

/-- A change at a key changes the segment of that key. -/
private theorem getElem?_modify (m : StripedMap κ υ) (k : κ) (g : Std.HashMap κ υ → Std.HashMap κ υ) (n : Nat) :
    (m.modify k g).segments[n]? = if (m.slot k).1 = n then some (g (m.segment k)) else m.segments[n]? := by
  rw [modify, Array.getElem?_modify]
  split
  · next hn => rw [← hn, getElem?_slot, Option.map_some]
  · rfl

private theorem segment_modify (m : StripedMap κ υ) (k : κ) (g : Std.HashMap κ υ → Std.HashMap κ υ) (i : κ) :
    (m.modify k g).segment i = if (m.slot k).1 = (m.slot i).1 then g (m.segment k) else m.segment i := by
  have hsome := getElem?_slot (m.modify k g) i
  rw [slot_modify, getElem?_modify, getElem?_slot] at hsome
  split
  · next hn => rw [if_pos hn] at hsome; exact (Option.some.inj hsome).symm
  · next hn => rw [if_neg hn] at hsome; exact (Option.some.inj hsome).symm

private theorem length_modify (m : StripedMap κ υ) (k : κ) (g : Std.HashMap κ υ → Std.HashMap κ υ) :
    (m.modify k g).length + (m.segment k).size = m.length + (g (m.segment k)).size := by
  have hlt : (m.slot k).1 < m.segments.toList.length := (m.slot k).2
  obtain ⟨l, s, r, hl, hlen, hmod⟩ := List.exists_of_modify g hlt
  have hs : m.segment k = s := by
    have hsome := getElem?_slot m k
    rw [← Array.getElem?_toList, hl, ← hlen, List.getElem?_append_right (Nat.le_refl _)] at hsome
    simpa using hsome.symm
  rw [length_eq_sum, length_eq_sum, modify, Array.toList_modify, hmod, hl, hs]
  simp only [List.map_append, List.map_cons, List.sum_append, List.sum_cons]
  omega

/-- The map and the list have the same pairs, and each pair of the map is in the segment that its key belongs to. -/
structure Agrees (m : StripedMap κ υ) (f : PlainMap κ υ) : Prop where
  respects : ∀ a b, (a == b) = true → m.hash a = m.hash b
  placed : ∀ n s, m.segments[n]? = some s → ∀ k ∈ s, (m.slot k).1 = n
  get? : ∀ k, m.get? k = f.value? k
  length : m.length = f.pairs.length
  keyed : Keyed (·.1) f.pairs

namespace Agrees

private theorem slot_congr (hmf : m.Agrees f) {i : κ} (hi : (k == i) = true) : (m.slot k).1 = (m.slot i).1 := by
  simp only [slot, hmf.respects k i hi]

theorem empty (striping : Striping) {hash : κ → UInt64}
    (hhash : ∀ a b, (a == b) = true → hash a = hash b) :
    (StripedMap.empty striping hash : StripedMap κ υ).Agrees .empty where
  respects := hhash
  placed n s hs k hk := by
    have hempty : s = {} := by
      rw [StripedMap.empty, Array.getElem?_replicate] at hs
      split at hs
      · exact (Option.some.inj hs).symm
      · cases hs
    rw [hempty] at hk
    exact absurd hk Std.HashMap.not_mem_empty
  get? k := by
    simp [StripedMap.get?, segment, StripedMap.empty, PlainMap.value?, PlainMap.empty]
  length := by
    rw [length_eq_sum, StripedMap.empty, Array.toList_replicate, List.map_replicate, Std.HashMap.size_empty]
    simp [PlainMap.empty]
  keyed := List.Pairwise.nil

theorem clear (hmf : m.Agrees f) : m.clear.Agrees .empty where
  respects := hmf.respects
  placed n s hs k hk := by
    rw [StripedMap.clear, Array.getElem?_map, Option.map_eq_some_iff] at hs
    obtain ⟨-, -, rfl⟩ := hs
    exact absurd hk Std.HashMap.not_mem_empty
  get? k := by
    simp [StripedMap.get?, segment, StripedMap.clear, PlainMap.value?, PlainMap.empty]
  length := by
    rw [length_eq_sum, StripedMap.clear, Array.toList_map, List.map_map]
    simp [Function.comp_def, PlainMap.empty]
  keyed := List.Pairwise.nil

/-- A key is in the segment that it belongs to, or in none. -/
private theorem mem_segment_iff (hmf : m.Agrees f) {n : Nat} {s : Std.HashMap κ υ} (hs : m.segments[n]? = some s)
    (k : κ) : k ∈ s ↔ m.contains k = true ∧ (m.slot k).1 = n := by
  have hin : (m.slot k).1 = n → s = m.segment k := by
    rintro rfl
    rw [getElem?_slot] at hs
    exact (Option.some.inj hs).symm
  constructor
  · intro hk
    have hn := hmf.placed n s hs k hk
    rw [hin hn] at hk
    exact ⟨Std.HashMap.mem_iff_contains.1 hk, hn⟩
  · rintro ⟨hk, hn⟩
    rw [hin hn]
    exact Std.HashMap.mem_iff_contains.2 hk

variable [EquivBEq κ] [LawfulHashable κ]

private theorem contains (hmf : m.Agrees f) (k : κ) : m.contains k = (f.value? k).isSome := by
  rw [StripedMap.contains, Std.HashMap.contains_eq_isSome_getElem?, ← hmf.get?]
  rfl

private theorem isSome_value?_iff (hmf : m.Agrees f) (k : κ) : (f.value? k).isSome = true ↔ k ∈ m.segment k := by
  rw [← hmf.get?, StripedMap.get?, Std.HashMap.mem_iff_isSome_getElem?]

/-- A change of what a key leads to, made in its segment and in the list. -/
private theorem modify (hmf : m.Agrees f) {f' : PlainMap κ υ}
    (hg : ∀ i, (g (m.segment k))[i]? = if k == i then v? else (m.segment k)[i]?)
    (hf' : ∀ i, f'.value? i = if k == i then v? else f.value? i) (hkeyed : Keyed (·.1) f'.pairs)
    (hlen : (g (m.segment k)).size + f.pairs.length = (m.segment k).size + f'.pairs.length) :
    (m.modify k g).Agrees f' where
  respects := hmf.respects
  placed n s hs i hi := by
    rw [slot_modify]
    rw [getElem?_modify] at hs
    split at hs
    · next hn =>
      obtain rfl := Option.some.inj hs
      rw [Std.HashMap.mem_iff_isSome_getElem?, hg] at hi
      split at hi
      · next hki => rw [← hn, hmf.slot_congr hki]
      · rw [← Std.HashMap.mem_iff_isSome_getElem?] at hi
        rw [← hn]
        exact hmf.placed _ _ (getElem?_slot m k) i hi
    · exact hmf.placed n s hs i hi
  get? i := by
    rw [StripedMap.get?, segment_modify, hf', ← hmf.get?, StripedMap.get?]
    split
    · next hn =>
      have hseg : m.segment k = m.segment i := by
        have hsome := getElem?_slot m k
        rw [hn, getElem?_slot] at hsome
        exact (Option.some.inj hsome).symm
      rw [hg, hseg]
    · next hn =>
      rw [if_neg]
      intro hki
      exact hn (hmf.slot_congr hki)
  length := by
    have hmod := length_modify m k g
    rw [hmf.length] at hmod
    omega
  keyed := hkeyed

private theorem put (hmf : m.Agrees f) (k : κ) (v : υ) :
    (m.put k v).1 = (f.put k v).1 ∧ (m.put k v).2.Agrees (f.put k v).2 := by
  obtain ⟨hfst, hkeyed, hlen, hvalue⟩ := PlainMap.put_spec hmf.keyed k v
  have hmem := hmf.isSome_value?_iff k
  refine ⟨(hmf.get? k).trans hfst.symm, hmf.modify ?_ hvalue hkeyed ?_⟩
  · exact fun i => Std.HashMap.getElem?_insert
  · rw [hlen, Std.HashMap.size_insert]
    by_cases hk : k ∈ m.segment k
    · rw [if_pos hk, if_pos (hmem.2 hk)]
    · rw [if_neg hk, if_neg (mt hmem.1 hk)]
      omega

private theorem remove (hmf : m.Agrees f) (k : κ) :
    (m.remove k).1 = (f.remove k).1 ∧ (m.remove k).2.Agrees (f.remove k).2 := by
  obtain ⟨hkeyed, hlen, hvalue⟩ := PlainMap.remove_spec hmf.keyed k
  have hmem := hmf.isSome_value?_iff k
  refine ⟨hmf.get? k, hmf.modify ?_ hvalue hkeyed ?_⟩
  · exact fun i => Std.HashMap.getElem?_erase
  · rw [hlen, Std.HashMap.size_erase]
    by_cases hk : k ∈ m.segment k
    · have hsize : 0 < (m.segment k).size := by
        have hne := Std.HashMap.isEmpty_eq_false_iff_exists_mem.2 ⟨k, hk⟩
        rw [Std.HashMap.isEmpty_eq_size_eq_zero, beq_eq_false_iff_ne] at hne
        exact Nat.pos_of_ne_zero hne
      have hpairs : 0 < f.pairs.length := by
        obtain ⟨v, hv⟩ := Option.isSome_iff_exists.1 (hmem.2 hk)
        obtain ⟨l, e, r, rfl, -⟩ := PlainMap.split_of_value?_eq_some hv
        simp
      rw [if_pos hk, if_pos (hmem.2 hk)]
      omega
    · rw [if_neg hk, if_neg (mt hmem.1 hk)]

/-- Every request is answered as the list answers it. -/
private theorem answer (hmf : m.Agrees f) (r : Request κ υ) :
    (m.answer r).1 = (f.answer r).1 ∧ (m.answer r).2.Agrees (f.answer r).2 := by
  cases r with
  | get k => exact ⟨congrArg Answer.value? (hmf.get? k), hmf⟩
  | getWith k g =>
    refine ⟨?_, hmf⟩
    show Answer.value? ((m.get? k).map g) = Answer.value? ((f.value? k).map g)
    rw [hmf.get?]
  | put k v => exact ⟨congrArg Answer.value? (hmf.put k v).1, (hmf.put k v).2⟩
  | putIfAbsent k v =>
    simp only [StripedMap.answer, PlainMap.answer, StripedMap.putIfAbsent, PlainMap.putIfAbsent, hmf.get?]
    cases hk : f.value? k with
    | some current => exact ⟨rfl, hmf⟩
    | none =>
      refine ⟨?_, (hmf.put k v).2⟩
      rw [(PlainMap.put_spec hmf.keyed k v).1, hk]
  | contains k => exact ⟨congrArg Answer.flag (hmf.contains k), hmf⟩
  | remove k => exact ⟨congrArg Answer.value? (hmf.remove k).1, (hmf.remove k).2⟩
  | length => exact ⟨congrArg Answer.number hmf.length, hmf⟩
  | isEmpty =>
    refine ⟨congrArg Answer.flag ?_, hmf⟩
    -- all segments are empty if and only if their sizes add up to nothing
    rw [Bool.eq_iff_iff, List.isEmpty_iff_length_eq_zero, ← hmf.length, length_eq_sum, List.sum_eq_zero_iff,
      StripedMap.isEmpty, ← Array.all_toList, List.all_eq_true]
    simp [Std.HashMap.isEmpty_eq_size_eq_zero]
  | clear => exact ⟨rfl, hmf.clear⟩

end Agrees

/-- No request changes the hash function or the number of segments. -/
private theorem striping_answer (m : StripedMap κ υ) (r : Request κ υ) :
    (m.answer r).2.segmentCount = m.segmentCount ∧ (m.answer r).2.hash = m.hash := by
  cases r with
  | put k v => exact ⟨segmentCount_modify m k _, rfl⟩
  | putIfAbsent k v =>
    simp only [answer, putIfAbsent]
    cases m.get? k with
    | some current => exact ⟨rfl, rfl⟩
    | none => exact ⟨segmentCount_modify m k _, rfl⟩
  | remove k => exact ⟨segmentCount_modify m k _, rfl⟩
  | clear => exact ⟨Array.size_map, rfl⟩
  | _ => exact ⟨rfl, rfl⟩

/-! ### Runs -/

variable [EquivBEq κ] [LawfulHashable κ]

/-- A run keeps the agreement and is answered alike; the hash function and the number of segments stay. -/
theorem answers_agree (striping : Striping) {hash : κ → UInt64}
    (hhash : ∀ a b, (a == b) = true → hash a = hash b) (rs : List (Request κ υ)) :
    let striped := answers StripedMap.answer (StripedMap.empty striping hash) rs
    let plain := answers PlainMap.answer PlainMap.empty rs
    striped.1 = plain.1 ∧ striped.2.Agrees plain.2 ∧
      striped.2.segmentCount = max striping.segments 1 ∧ striped.2.hash = hash := by
  intro striped plain
  obtain ⟨heq, hagrees⟩ : striped.1 = plain.1 ∧ striped.2.Agrees plain.2 :=
    answers_simulates (R := fun _ => Agrees) (fun r _ _ _ hmf => hmf.answer r) (Agrees.empty striping hhash)
  have hkept : striped.2.segmentCount = max striping.segments 1 ∧ striped.2.hash = hash :=
    answers_invariant
      (I := fun _ (m : StripedMap κ υ) => m.segmentCount = max striping.segments 1 ∧ m.hash = hash)
      (by
        rintro r - m ⟨hcount, hm⟩
        obtain ⟨hcount', hm'⟩ := m.striping_answer r
        exact ⟨hcount'.trans hcount, hm'.trans hm⟩)
      ⟨Array.size_replicate, rfl⟩
  exact ⟨heq, hagrees, hkept⟩

/-- A striped map answers every run of requests as one list of pairs does, and so as any other striped map does,
whatever the hash functions are, as long as they do not tell equal keys apart, and whatever was requested of the
segments: one is made if none was requested, and a check beforehand refuses just this request.  After each run the
segment of a key is one of those made, a key that is there is in that segment and in no other, and the length is the
number of keys that are there. -/
theorem stripedMap_answers_as_one_map (striping striping' : Striping) {hash hash' : κ → UInt64}
    (hhash : ∀ a b, (a == b) = true → hash a = hash b) (hhash' : ∀ a b, (a == b) = true → hash' a = hash' b)
    (rs : List (Request κ υ)) :
    let striped := answers StripedMap.answer (StripedMap.empty striping hash) rs
    let plain := answers PlainMap.answer PlainMap.empty rs
    striped.1 = plain.1 ∧ striped.1 = (answers StripedMap.answer (StripedMap.empty striping' hash') rs).1 ∧
      (striped.2.segments.size = max striping.segments 1 ∧ 0 < striped.2.segments.size ∧
        ∀ k, (hash k).toNat % max striping.segments 1 < striped.2.segments.size ∧
          (striped.2.slot k).1 = (hash k).toNat % max striping.segments 1) ∧
      (∀ (i : Fin striped.2.segments.size) k,
        k ∈ striped.2.segments[i] ↔ striped.2.contains k = true ∧ striped.2.slot k = i) ∧
      (Keyed (·.1) plain.2.pairs ∧ (∀ k, striped.2.contains k = plain.2.pairs.any (·.1 == k)) ∧
        striped.2.length = plain.2.pairs.length) ∧
      ∀ s, striping.checked = .ok s ↔ s = striping ∧ 1 ≤ striping.segments := by
  intro striped plain
  obtain ⟨heq, hagrees, hcount, hhashed⟩ := answers_agree striping hhash rs
  obtain ⟨heq', -⟩ := answers_agree striping' hhash' rs
  have hpos : 0 < striped.2.segments.size := striped.2.segments_pos
  have hslot : ∀ k, (striped.2.slot k).1 = (hash k).toNat % max striping.segments 1 := by
    intro k
    calc (striped.2.slot k).1 = (striped.2.hash k).toNat % striped.2.segmentCount := rfl
      _ = (hash k).toNat % max striping.segments 1 := by rw [hcount, hhashed]
  refine ⟨heq, heq.trans heq'.symm, ⟨hcount, hpos, fun k => ⟨?_, hslot k⟩⟩, ?_,
    ⟨hagrees.keyed, ?_, hagrees.length⟩, ?_⟩
  · rw [← hslot]
    exact (striped.2.slot k).2
  · intro i k
    rw [Fin.ext_iff]
    exact hagrees.mem_segment_iff (Array.getElem?_eq_getElem i.2) k
  · intro k
    rw [hagrees.contains, PlainMap.value?, Option.isSome_map, List.isSome_find?]
  · intro s
    rw [Striping.checked]
    split
    · next hzero => simp [hzero]
    · next hzero => simp [eq_comm, Nat.one_le_iff_ne_zero, hzero]

/-- All keys in one segment, and each key by its own number in one of three. -/
theorem same_answers_from_one_and_three_segments :
    let rs : List (Request Nat Nat) :=
      [.isEmpty, .put 1 10, .put 4 40, .put 2 20, .put 4 41, .getWith 4 fun v => v % 10 == 1, .putIfAbsent 1 11,
        .putIfAbsent 3 30, .length, .remove 1, .contains 1, .get 2, .length, .clear, .isEmpty, .get 2]
    (answers StripedMap.answer (StripedMap.empty { segments := 0 } fun _ => 7) rs).1 =
        [.flag true, .value? (none : Option Nat), .value? (none : Option Nat), .value? (none : Option Nat),
          .value? (some 40), .value? (some true), .value? (some 10), .value? (none : Option Nat), .number 4,
          .value? (some 10), .flag false, .value? (some 20), .number 3, .done, .flag true,
          .value? (none : Option Nat)] ∧
      (answers StripedMap.answer (StripedMap.empty { segments := 0 } fun _ => 7) rs).1 =
        (answers StripedMap.answer (StripedMap.empty { segments := 3 } UInt64.ofNat) rs).1 := by
  intro rs
  have hone : ∀ a b : Nat, (a == b) = true → (7 : UInt64) = 7 := fun _ _ _ => rfl
  have hown : ∀ a b : Nat, (a == b) = true → UInt64.ofNat a = UInt64.ofNat b := by
    intro a b hab
    rw [eq_of_beq hab]
  have hrun := stripedMap_answers_as_one_map { segments := 0 } { segments := 3 } hone hown rs
  refine ⟨?_, hrun.2.1⟩
  rw [hrun.1]
  rfl

end StripedMap

end Caching
