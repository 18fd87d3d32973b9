import Caching.Proofs.Bounded.Frequency
import Caching.Proofs.Bounded.Ranking

/-!
# Runs of a cache in order of frequency

The list that the layers form is the naive model's entries in order, each with a tick that the cache does not keep
(`FrequencyCache.Agrees`).  An entry put in behind those of its frequency is one with the newest tick, so that each
request keeps the agreement and is answered alike.

A frequency is never ahead of the clock and the clock moves by at most one a request, so in a run of fewer than
`2 ^ 64 - 1` requests no frequency comes near the largest word.
-/

namespace Caching

open Linked
open Bounded (Request CountedRequest Answer)

/-- What is seen of an entry. -/
def Entry.shown {κ υ : Type} (e : Entry κ υ) : κ × υ × Nat := (e.key, e.value, e.frequency.toNat)

def Ranked.shown {κ υ : Type} (t : Ranked κ υ) : κ × υ × Nat := (t.key, t.value, t.frequency)

theorem Ranked.shown_eq_iff {κ υ : Type} {t : Ranked κ υ} {e : Entry κ υ} :
    t.shown = e.shown ↔ t.key = e.key ∧ t.value = e.value ∧ t.frequency = e.frequency.toNat := by
  simp [Ranked.shown, Entry.shown]

theorem Entry.shown_injective {κ υ : Type} : Function.Injective (Entry.shown : Entry κ υ → κ × υ × Nat) := by
  rintro ⟨k, v, f⟩ ⟨k', v', f'⟩ h
  simp only [Entry.shown, Prod.mk.injEq, UInt64.toNat_inj] at h
  obtain ⟨rfl, rfl, rfl⟩ := h
  rfl

namespace FrequencyCache

open Layer (flat)

variable {κ υ : Type} [BEq κ] [Hashable κ] {c : FrequencyCache κ υ} {m : Ranking κ υ} {L : List (Layer κ υ)}
  {T : List (Ranked κ υ)} {k : κ}

/-- The entries of the naive model show what the entries of the cache show, in the same order. -/
structure Mirrors (c : FrequencyCache κ υ) (m : Ranking κ υ) (L : List (Layer κ υ)) (T : List (Ranked κ υ)) :
    Prop where
  holds : c.Holds L
  orders : m.Orders T
  shown : T.map Ranked.shown = (flat L).map fun z => z.2.shown
  capacity : m.capacity = c.capacity.size

def Agrees (c : FrequencyCache κ υ) (m : Ranking κ υ) : Prop := ∃ L T, c.Mirrors m L T

omit [BEq κ] [Hashable κ] in
/-- An entry of one list and what it stands for in the other. -/
private theorem shown_split {l r : List (Handle × Entry κ υ)} {z : Handle × Entry κ υ}
    (hT : T.map Ranked.shown = (l ++ z :: r).map fun z => z.2.shown) :
    ∃ P t Q, T = P ++ t :: Q ∧ t.shown = z.2.shown ∧
      (P ++ Q).map Ranked.shown = (l ++ r).map fun z => z.2.shown := by
  rw [List.map_append, List.map_cons, List.map_eq_append_iff] at hT
  obtain ⟨P, R, rfl, hP, hR⟩ := hT
  obtain ⟨t, Q, rfl, ht, hQ⟩ := List.map_eq_cons_iff.1 hR
  exact ⟨P, t, Q, rfl, ht, by rw [List.map_append, List.map_append, hP, hQ]⟩

omit [BEq κ] [Hashable κ] in
/-- Where an entry is put in one list, and where in the other. -/
private theorem shown_place {l l' : List (Handle × Entry κ υ)} {z : Handle × Entry κ υ}
    (hT : T.map Ranked.shown = l.map fun z => z.2.shown) (hp : PlacedIn z l l') :
    ∃ T₁ T₂, T = T₁ ++ T₂ ∧ (∀ x ∈ T₁, x.frequency ≤ z.2.frequency.toNat) ∧
      (∀ x ∈ T₂, z.2.frequency.toNat < x.frequency) ∧
      ∀ t : Ranked κ υ, t.shown = z.2.shown →
        (T₁ ++ t :: T₂).map Ranked.shown = l'.map fun z => z.2.shown := by
  obtain ⟨l₁, l₂, rfl, rfl, h₁, h₂⟩ := hp
  rw [List.map_append, List.map_eq_append_iff] at hT
  obtain ⟨T₁, T₂, rfl, hT₁, hT₂⟩ := hT
  have hmem : ∀ {S : List (Ranked κ υ)} {s : List (Handle × Entry κ υ)},
      S.map Ranked.shown = s.map (fun z => z.2.shown) → ∀ x ∈ S, ∃ y ∈ s, x.frequency = y.2.frequency.toNat := by
    intro S s hS x hx
    have hxs : x.shown ∈ s.map fun z => z.2.shown := hS ▸ List.mem_map.2 ⟨x, hx, rfl⟩
    obtain ⟨y, hy, hyx⟩ := List.mem_map.1 hxs
    exact ⟨y, hy, (Ranked.shown_eq_iff.1 hyx.symm).2.2⟩
  refine ⟨T₁, T₂, rfl, ?_, ?_, ?_⟩
  · intro x hx
    obtain ⟨y, hy, hxy⟩ := hmem hT₁ x hx
    rw [hxy]
    exact UInt64.le_iff_toNat_le.1 (h₁ y hy)
  · intro x hx
    obtain ⟨y, hy, hxy⟩ := hmem hT₂ x hx
    rw [hxy]
    exact UInt64.lt_iff_toNat_lt.1 (h₂ y hy)
  · intro t ht
    rw [List.map_append, List.map_cons, List.map_append, List.map_cons, hT₁, hT₂, ht]

namespace Mirrors

theorem length (hcm : c.Mirrors m L T) : c.length = m.entries.length := by
  rw [hcm.holds.length, hcm.orders.perm.length_eq, ← List.length_map Ranked.shown, hcm.shown, List.length_map]

/-- No entry is near the largest frequency as long as the clock is not. -/
theorem frequency_lt (hcm : c.Mirrors m L T) (hm : m.tick + 1 < 2 ^ 64) {z : Handle × Entry κ υ}
    (hz : z ∈ flat L) : z.2.frequency.toNat + 1 < 2 ^ 64 := by
  have hzs : z.2.shown ∈ T.map Ranked.shown := hcm.shown ▸ List.mem_map.2 ⟨z, hz, rfl⟩
  obtain ⟨t, ht, htz⟩ := List.mem_map.1 hzs
  rw [← (Ranked.shown_eq_iff.1 htz).2.2]
  have := (hcm.orders.recent t ht).1
  omega

theorem toList_shown (hcm : c.Mirrors m L T) : c.toList.map Entry.shown = m.ranked.map Ranked.shown := by
  rw [hcm.holds.laid.toList, List.map_map, hcm.orders.ranked_eq, hcm.shown]
  rfl

theorem keys (hcm : c.Mirrors m L T) : c.keys = m.keys := by
  have hkeys := congrArg (List.map fun v : κ × υ × Nat => v.1) hcm.toList_shown
  rw [List.map_map, List.map_map] at hkeys
  exact hkeys

variable [EquivBEq κ]

/-- A key leads to its entry in both, or to nothing in both. -/
theorem lookup (hcm : c.Mirrors m L T) (k : κ) :
    (c.index[k]? = none ∧ m.find? k = none ∧ ∀ t ∈ T, (t.key == k) = false) ∨
      ∃ h e l r P t Q, c.index[k]? = some h ∧ flat L = l ++ (h, e) :: r ∧ (e.key == k) = true ∧
        T = P ++ t :: Q ∧ m.find? k = some t ∧ t.shown = e.shown ∧
        (P ++ Q).map Ranked.shown = (l ++ r).map fun z => z.2.shown := by
  cases hk : c.index[k]? with
  | none =>
    have hnone : ∀ t ∈ T, (t.key == k) = false := by
      intro t ht
      have hts : t.shown ∈ (flat L).map fun z => z.2.shown := hcm.shown ▸ List.mem_map.2 ⟨t, ht, rfl⟩
      obtain ⟨z, hz, hzt⟩ := List.mem_map.1 hts
      rw [(Ranked.shown_eq_iff.1 hzt.symm).1]
      exact hcm.holds.index.absent hk z hz
    exact Or.inl ⟨rfl, hcm.orders.find?_none hnone, hnone⟩
  | some h =>
    obtain ⟨e, l, r, hflat, hek, -⟩ := hcm.holds.lookup hk
    obtain ⟨P, t, Q, rfl, ht, hPQ⟩ := shown_split (z := (h, e)) (by rw [hcm.shown, hflat])
    have htk : (t.key == k) = true := by
      rw [(Ranked.shown_eq_iff.1 ht).1]
      exact hek
    exact Or.inr ⟨h, e, l, r, P, t, Q, rfl, hflat, hek, rfl, hcm.orders.find?_some (by simp) htk, ht, hPQ⟩

theorem contains [LawfulHashable κ] (hcm : c.Mirrors m L T) (k : κ) : c.contains k = (m.find? k).isSome := by
  rw [FrequencyCache.contains, Std.HashMap.contains_eq_isSome_getElem?]
  rcases hcm.lookup k with ⟨hk, hfind, -⟩ | ⟨h, e, l, r, P, t, Q, hk, -, -, -, hfind, -⟩ <;> rw [hk, hfind] <;> rfl

private theorem frequencyOf? (hcm : c.Mirrors m L T) (k : κ) :
    (c.frequencyOf? k).map (·.toNat) = m.frequencyOf? k := by
  rcases hcm.lookup k with ⟨hk, hfind, -⟩ | ⟨h, e, l, r, P, t, Q, hk, hflat, -, -, hfind, ht, -⟩
  · simp only [FrequencyCache.frequencyOf?, Ranking.frequencyOf?, hk, hfind, Option.bind_none, Option.map_none]
  · have hget : c.entries.get? h = some e := (hcm.holds.laid.entries.get? h e).2 (by simp [hflat])
    have hfreq := (Ranked.shown_eq_iff.1 ht).2.2
    simp only [FrequencyCache.frequencyOf?, Ranking.frequencyOf?, hk, hfind, Option.bind_some, hget,
      Option.map_some, hfreq]

/-- A use of an entry is a hit in the naive model. -/
private theorem hit {P Q : List (Ranked κ υ)} {t : Ranked κ υ} {l r : List (Handle × Entry κ υ)} {h : Handle}
    {e : Entry κ υ} (hcm : c.Mirrors m L (P ++ t :: Q)) (hek : (e.key == k) = true) (ht : t.shown = e.shown)
    (hPQ : (P ++ Q).map Ranked.shown = (l ++ r).map fun z => z.2.shown)
    (hf : e.frequency.toNat + 1 < 2 ^ 64) (f : υ → υ) {c' : FrequencyCache κ υ} {L' : List (Layer κ υ)}
    (hc' : c'.Holds L') (hp : PlacedIn (h, { e with value := f e.value }.used) (l ++ r) (flat L'))
    (hcap : c'.capacity = c.capacity) : c'.Agrees (m.hit k f) := by
  obtain ⟨T₁, T₂, hsplit, h₁, h₂, hshown⟩ := shown_place hPQ hp
  obtain ⟨hkey, hvalue, hfreq⟩ := Ranked.shown_eq_iff.1 ht
  have hused : (frequencyAfter e.frequency).toNat = t.frequency + 1 := by
    rw [hfreq, toNat_frequencyAfter hf]
  have hz : ({ e with value := f e.value }.used : Entry κ υ).frequency.toNat = t.frequency + 1 := hused
  rw [hz] at h₁ h₂
  refine ⟨L', _, hc', hcm.orders.hit (by rw [hkey]; exact hek) f hsplit h₁ h₂, hshown _ ?_, ?_⟩
  · show (t.key, f t.value, t.frequency + 1) = (e.key, f e.value, (frequencyAfter e.frequency).toNat)
    rw [hkey, hvalue, hused]
  · rw [hcap]
    exact hcm.capacity

/-- A new entry is an insertion in the naive model. -/
private theorem insert {l : List (Handle × Entry κ υ)} {h : Handle} {v : υ} (hm : m.Orders T)
    (hT : T.map Ranked.shown = l.map fun z => z.2.shown) (hk : ∀ t ∈ T, (t.key == k) = false)
    (hc : c.Holds L) (hp : PlacedIn (h, { key := k, value := v, frequency := 1 }) l (flat L))
    (hcap : m.capacity = c.capacity.size) : c.Agrees (m.insert k v) := by
  obtain ⟨T₁, T₂, rfl, h₁, h₂, hshown⟩ := shown_place hT hp
  exact ⟨L, _, hc, hm.insert hk v h₁ h₂, hshown _ rfl, hcap⟩

end Mirrors

namespace Agrees

theorem empty (capacity : Capacity) :
    (FrequencyCache.empty capacity : FrequencyCache κ υ).Agrees (.empty capacity) :=
  ⟨[], [], .empty capacity, .empty capacity, rfl, rfl⟩

variable [EquivBEq κ]

theorem get (hcm : c.Agrees m) (hm : m.tick + 1 < 2 ^ 64) (k : κ) :
    (c.get k).1 = (m.get k).1 ∧ (c.get k).2.Agrees (m.get k).2 := by
  obtain ⟨L, T, hcm⟩ := hcm
  rcases hcm.lookup k with ⟨hk, hfind, -⟩ | ⟨h, e, l, r, P, t, Q, hk, hflat, hek, rfl, hfind, ht, hPQ⟩
  · simp only [FrequencyCache.get, Ranking.get, hk, hfind]
    exact ⟨trivial, L, T, hcm.holds.setCounters _, hcm.orders, hcm.shown, hcm.capacity⟩
  · have hf := hcm.frequency_lt hm (z := (h, e)) (by simp [hflat])
    obtain ⟨hval, L', hc', hp⟩ := hcm.holds.get_hit hk hflat (Or.inl hf)
    rw [hval]
    simp only [Ranking.get, hfind]
    refine ⟨?_, hcm.hit hek ht hPQ hf id hc' hp (c.capacity_get k)⟩
    rw [(Ranked.shown_eq_iff.1 ht).2.1]

variable [LawfulHashable κ]

theorem put (hcm : c.Agrees m) (hm : m.tick + 1 < 2 ^ 64) (k : κ) (v : υ) :
    (c.put k v).1 = (m.put k v).1 ∧ (c.put k v).2.2.Agrees (m.put k v).2 := by
  obtain ⟨L, T, hcm⟩ := hcm
  rcases hcm.lookup k with ⟨hk, hfind, hnone⟩ | ⟨h, e, l, r, P, t, Q, hk, hflat, hek, rfl, hfind, ht, hPQ⟩
  · obtain ⟨hval, -, h, L', hc', hp⟩ := hcm.holds.put_new hk v
    have hlen : m.entries.length = (flat L).length := by
      rw [← hcm.length, hcm.holds.length]
    rw [hval]
    simp only [Ranking.put, hfind]
    refine ⟨trivial, ?_⟩
    have hcap := (c.capacity_put k v).symm ▸ hcm.capacity
    rw [hlen, hcm.capacity]
    by_cases hfull : (flat L).length = c.capacity.size
    · rw [if_pos hfull] at hp ⊢
      have hshown := hcm.shown
      have horders := hcm.orders
      cases hflat : flat L with
      | nil =>
        have := c.capacity.size_pos
        rw [hflat] at hfull
        exact absurd hfull (Nat.ne_of_lt this)
      | cons z l =>
        -- the first entry of the cache is the least one of the naive model
        rw [hflat] at hshown hp
        obtain ⟨t, Q, rfl, -, hQ⟩ := List.map_eq_cons_iff.1 hshown
        refine Mirrors.insert horders.dropLeast hQ (fun x hx => hnone x (List.mem_cons_of_mem _ hx)) hc' hp ?_
        rw [Ranking.dropLeast_eq]
        exact hcap
    · rw [if_neg hfull] at hp ⊢
      exact Mirrors.insert hcm.orders hcm.shown hnone hc' hp hcap
  · have hf := hcm.frequency_lt hm (z := (h, e)) (by simp [hflat])
    obtain ⟨hval, -, L', hc', hp⟩ := hcm.holds.put_hit hk hflat (Or.inl hf) v
    rw [hval]
    simp only [Ranking.put, hfind]
    refine ⟨?_, hcm.hit hek ht hPQ hf (fun _ => v) hc' hp (c.capacity_put k v)⟩
    rw [(Ranked.shown_eq_iff.1 ht).2.1]

theorem putIfAbsent (hcm : c.Agrees m) (hm : m.tick + 1 < 2 ^ 64) (k : κ) (v : υ) :
    (c.putIfAbsent k v).1 = (m.putIfAbsent k v).1 ∧ (c.putIfAbsent k v).2.2.Agrees (m.putIfAbsent k v).2 := by
  obtain ⟨hfst, hsnd⟩ := hcm.get hm k
  unfold FrequencyCache.putIfAbsent
  generalize c.get k = x at hfst hsnd
  obtain ⟨v?, c'⟩ := x
  cases hfind : m.find? k with
  | some t =>
    simp only [Ranking.get, hfind] at hfst hsnd
    subst hfst
    simp only [Ranking.putIfAbsent, hfind]
    exact ⟨trivial, hsnd⟩
  | none =>
    simp only [Ranking.get, hfind] at hfst hsnd
    subst hfst
    simp only [Ranking.putIfAbsent, hfind]
    exact Agrees.put hsnd hm k v

theorem remove (hcm : c.Agrees m) (k : κ) :
    (c.remove k).1 = (m.find? k).map (·.value) ∧ (c.remove k).2.Agrees (m.delete k) := by
  obtain ⟨L, T, hcm⟩ := hcm
  rcases hcm.lookup k with ⟨hk, hfind, hnone⟩ | ⟨h, e, l, r, P, t, Q, hk, hflat, hek, rfl, hfind, ht, hPQ⟩
  · have hdelete : m.delete k = m := by
      have hfilter : (m.entries.filter fun e => !(e.key == k)) = m.entries := by
        rw [List.filter_eq_self]
        intro t ht
        rw [hnone t (hcm.orders.perm.mem_iff.1 ht), Bool.not_false]
      rw [Ranking.delete, hfilter]
    simp only [FrequencyCache.remove, hk, hfind, hdelete]
    exact ⟨rfl, L, T, hcm⟩
  · obtain ⟨hval, L', hc', hflat'⟩ := hcm.holds.remove_hit hk hflat hek
    have htk : (t.key == k) = true := by
      rw [(Ranked.shown_eq_iff.1 ht).1]
      exact hek
    rw [hval, hfind]
    refine ⟨?_, L', P ++ Q, hc', hcm.orders.delete htk, by rw [hPQ, hflat'], ?_⟩
    · rw [Option.map_some, (Ranked.shown_eq_iff.1 ht).2.1]
    · rw [c.capacity_remove]
      exact hcm.capacity

/-- Every request is answered as the naive model answers it. -/
private theorem answer (hcm : c.Agrees m) (hm : m.tick + 1 < 2 ^ 64) (r : CountedRequest κ υ) :
    (c.answer r).1 = (m.answer r).1 ∧ (c.answer r).2.Agrees (m.answer r).2 := by
  obtain ⟨L, T, hmirrors⟩ := id hcm
  cases r with
  | frequencyOf k => exact ⟨congrArg Answer.frequency? (hmirrors.frequencyOf? k), hcm⟩
  | plain r =>
    cases r with
    | get k => exact ⟨congrArg Answer.value? (hcm.get hm k).1, (hcm.get hm k).2⟩
    | getWith k f =>
      refine ⟨?_, (hcm.get hm k).2⟩
      show Answer.value? ((c.get k).1.map f) = Answer.value? ((m.get k).1.map f)
      rw [(hcm.get hm k).1]
    | put k v => exact ⟨congrArg Answer.value? (hcm.put hm k v).1, (hcm.put hm k v).2⟩
    | putIfAbsent k v =>
      exact ⟨congrArg Answer.value? (hcm.putIfAbsent hm k v).1, (hcm.putIfAbsent hm k v).2⟩
    | contains k => exact ⟨congrArg Answer.flag (hmirrors.contains k), hcm⟩
    | remove k => exact ⟨congrArg Answer.value? (hcm.remove k).1, (hcm.remove k).2⟩
    | length => exact ⟨congrArg Answer.number hmirrors.length, hcm⟩
    | keys => exact ⟨congrArg Answer.keys hmirrors.keys, hcm⟩
    | clear =>
      refine ⟨rfl, [], [], holds_clear c, ⟨List.Perm.refl _, List.Pairwise.nil, List.Pairwise.nil, ?_⟩, rfl,
        hmirrors.capacity⟩
      intro t ht
      cases ht

end Agrees

/-! ### Runs -/

private theorem capacity_answer (c : FrequencyCache κ υ) (r : CountedRequest κ υ) :
    (c.answer r).2.capacity = c.capacity := by
  cases r with
  | frequencyOf k => rfl
  | plain r =>
    cases r with
    | get k => exact c.capacity_get k
    | getWith k f => exact c.capacity_get k
    | put k v => exact c.capacity_put k v
    | putIfAbsent k v => exact c.capacity_putIfAbsent k v
    | remove k => exact c.capacity_remove k
    | contains k => rfl
    | length => rfl
    | keys => rfl
    | clear => rfl

/-- A cache that will not wrap a frequency around in `n` more requests. -/
def Lasts (capacity : Capacity) (n : Nat) (c : FrequencyCache κ υ) : Prop :=
  c.capacity = capacity ∧ ∃ m, c.Agrees m ∧ m.tick + n < 2 ^ 64 - 1

theorem lasts_empty (capacity : Capacity) {n : Nat} (hn : n < 2 ^ 64 - 1) :
    (FrequencyCache.empty capacity : FrequencyCache κ υ).Lasts capacity n :=
  ⟨rfl, _, Agrees.empty capacity, by simpa [Ranking.empty] using hn⟩

variable [EquivBEq κ] [LawfulHashable κ]

theorem Lasts.answer {capacity : Capacity} {n : Nat} (hc : c.Lasts capacity (n + 1)) (r : CountedRequest κ υ) :
    (c.answer r).2.Lasts capacity n := by
  obtain ⟨hcap, m, hcm, hm⟩ := hc
  have htick := m.tick_answer r
  exact ⟨(c.capacity_answer r).trans hcap, _, (hcm.answer (by omega) r).2, by omega⟩

theorem lasts_answers (capacity : Capacity) {rs : List (CountedRequest κ υ)} (hrs : rs.length < 2 ^ 64 - 1) :
    (answers FrequencyCache.answer (FrequencyCache.empty capacity) rs).2.Lasts capacity 0 :=
  answers_invariant (I := fun rs (c : FrequencyCache κ υ) => c.Lasts capacity rs.length)
    (fun r _ _ hc => hc.answer r) (lasts_empty capacity hrs)

/-- A run keeps the agreement and is answered alike. -/
theorem answers_agree (capacity : Capacity) {rs : List (CountedRequest κ υ)} (hrs : rs.length < 2 ^ 64 - 1) :
    let cache := answers FrequencyCache.answer (FrequencyCache.empty capacity) rs
    let ranking := answers Ranking.answer (Ranking.empty capacity) rs
    cache.1 = ranking.1 ∧ cache.2.Agrees ranking.2 ∧ cache.2.capacity = capacity := by
  intro cache ranking
  have hcap : cache.2.capacity = capacity := (lasts_answers capacity hrs).1
  -- the requests to come bound how far the clock will get
  obtain ⟨heq, hagrees, -⟩ := answers_simulates
    (R := fun rs (c : FrequencyCache κ υ) (m : Ranking κ υ) => c.Agrees m ∧ m.tick + rs.length < 2 ^ 64 - 1)
    (by
      rintro r rs c m ⟨hcm, hm⟩
      rw [List.length_cons] at hm
      have htick := m.tick_answer r
      have hstep := hcm.answer (by omega) r
      exact ⟨hstep.1, hstep.2, by omega⟩)
    ⟨Agrees.empty capacity, by simpa [Ranking.empty] using hrs⟩
  exact ⟨heq, hagrees, hcap⟩

/-- A cache in order of frequency answers every run of fewer than `2 ^ 64 - 1` requests as the naive model does.
After each run, and so after each part of it, the keys are those of the entries sorted by frequency and tick, a key
that is there has one more than the hits since its last insertion as its frequency, and there are no more keys than
the capacity. -/
theorem cacheInOrderOfFrequency_answers_as_ranking (capacity : Capacity) (rs : List (CountedRequest κ υ))
    (hrs : rs.length < 2 ^ 64 - 1) :
    let cache := answers FrequencyCache.answer (FrequencyCache.empty capacity) rs
    let ranking := answers Ranking.answer (Ranking.empty capacity) rs
    cache.1 = ranking.1 ∧ cache.2.keys = ranking.2.ranked.map (·.key) ∧ cache.2.length ≤ capacity.size ∧
      ∀ k, (cache.2.frequencyOf? k).map (·.toNat) =
        if cache.2.contains k then some (1 + Ranking.hitsSinceInsertion k (rs.zip cache.1)) else none := by
  intro cache ranking
  obtain ⟨heq, ⟨L, T, hcm⟩, hcap⟩ := answers_agree capacity hrs
  refine ⟨heq, hcm.keys, ?_, ?_⟩
  · rw [← hcap, hcm.holds.length]
    exact hcm.holds.length_le
  · intro k
    have hcontains : cache.2.contains k = (ranking.2.frequencyOf? k).isSome := by
      rw [hcm.contains, Ranking.frequencyOf?, Option.isSome_map]
    rw [hcm.frequencyOf?, hcontains, heq]
    cases hn : ranking.2.frequencyOf? k with
    | none => rfl
    | some n =>
      rw [Option.isSome_some, if_pos rfl, Ranking.frequencyOf?_answers capacity rs hn]

theorem three_keys_in_order_of_frequency :
    let rs : List (CountedRequest Nat Nat) :=
      [.plain (.put 1 10), .plain (.put 2 20), .plain (.get 1), .plain (.put 3 30), .plain (.contains 2),
        .plain (.put 3 31), .plain .keys, .plain (.putIfAbsent 1 11), .frequencyOf 1, .plain (.put 4 40),
        .plain .keys, .plain (.remove 1), .plain (.getWith 4 fun v => v + 1), .plain .keys, .plain .length,
        .plain .clear, .frequencyOf 4]
    rs.length < 2 ^ 64 - 1 ∧
      (answers FrequencyCache.answer (FrequencyCache.empty { size := 2 }) rs).1 =
        [.value? (none : Option Nat), .value? (none : Option Nat), .value? (some 10),
          .value? (none : Option Nat), .flag false, .value? (some 30), .keys [1, 3], .value? (some 10),
          .frequency? (some 3), .value? (none : Option Nat), .keys [4, 1], .value? (some 10), .value? (some 41),
          .keys [4], .number 1, .done, .frequency? none] := by
  intro rs
  have hrs : rs.length < 2 ^ 64 - 1 := by decide
  refine ⟨hrs, ?_⟩
  rw [(cacheInOrderOfFrequency_answers_as_ranking { size := 2 } rs hrs).1]
  rfl

/-- After every run of fewer than `2 ^ 64 - 1` requests the cache is made of tidy layers.  What it counts agrees with
them, the lowest frequency is that of an entry, and there are as many buckets as different frequencies. -/
theorem layers_after_every_run (capacity : Capacity) (rs : List (CountedRequest κ υ))
    (hrs : rs.length < 2 ^ 64 - 1) :
    let c := (answers FrequencyCache.answer (FrequencyCache.empty capacity) rs).2
    ∃ L, c.Holds L ∧
      (c.byFrequency.size = c.chain.length ∧ c.buckets.size = c.chain.length) ∧
      (c.index.size = c.entries.size ∧ c.entries.size = (L.map fun x => x.bucket.entries.length).sum ∧
        c.entries.size ≤ capacity.size) ∧
      (c.lowestFrequency? = none ↔ c.length = 0) ∧
      (∀ f, c.lowestFrequency? = some f →
        (∃ k, c.frequencyOf? k = some f) ∧ ∀ k g, c.frequencyOf? k = some g → f ≤ g) ∧
      c.bucketCount = {f | ∃ k, c.frequencyOf? k = some f}.ncard := by
  intro c
  obtain ⟨-, ⟨L, T, hcm⟩, hcap⟩ := answers_agree capacity hrs
  have hc := hcm.holds
  obtain ⟨hmap, hbuckets, hindex, hentries⟩ := hc.sizes
  have hle : c.entries.size ≤ capacity.size := by
    rw [← hcap, ← hindex, hc.index.size]
    exact hc.length_le
  exact ⟨L, hc, ⟨hmap, hbuckets⟩, ⟨hindex, hentries, hle⟩, hc.lowestFrequency?_eq_none,
    fun f hf => hc.lowestFrequency?_eq_some hf, hc.bucketCount_eq_ncard⟩

/-- A use links the bucket of frequency 2 in, an insertion that of frequency 1; an eviction empties the latter, and
it is linked in again. -/
theorem layers_after_uses_and_eviction :
    let rs : List (CountedRequest Nat Nat) :=
      [.plain (.put 1 10), .plain (.get 1), .plain (.put 2 20), .plain (.put 3 30), .plain (.remove 1)]
    let c := (answers FrequencyCache.answer (FrequencyCache.empty { size := 2 }) rs).2
    rs.length < 2 ^ 64 - 1 ∧ ∃ L, c.Holds L ∧ (∀ x ∈ L, x.Tidy) ∧ c.entries.size ≤ 2 := by
  intro rs c
  have hrs : rs.length < 2 ^ 64 - 1 := by decide
  obtain ⟨L, hc, -, ⟨-, -, hle⟩, -⟩ := layers_after_every_run { size := 2 } rs hrs
  exact ⟨hrs, L, hc, hc.tidy, hle⟩

end FrequencyCache

end Caching
