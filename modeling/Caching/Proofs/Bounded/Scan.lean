import Caching.Proofs.Bounded.FrequencyRuns

/-!
# Scans of a cache in order of frequency

A scan stores new keys one after another.  A full cache has its entries of frequency 1 in front of those of a
higher one (`FrequencyCache.Parted`), and a new key takes the place of the first of all: it goes to the end of the
front part (`Parted.put_front`).  From then on the scan moves through the front part alone, first over the entries
that were there and then over its own (`Parted.scan`).  Only if there is no entry of frequency 1 at the start, the
first new key costs an entry that was used more than once (`Parted.put_back`).
-/

namespace Caching

open Linked
open Bounded (CountedRequest)

/-- The entry of a new key. -/
def Entry.fresh {κ υ : Type} (p : κ × υ) : Entry κ υ := { key := p.1, value := p.2, frequency := 1 }

namespace FrequencyCache

open Layer (flat)

variable {κ υ : Type} [BEq κ] [Hashable κ] {c : FrequencyCache κ υ} {L : List (Layer κ υ)}
  {front back : List (Entry κ υ)} {e : Entry κ υ} {k : κ}

/-- Stores pairs one after another; each answer is the value that was replaced and the eviction. -/
def scan (c : FrequencyCache κ υ) (ps : List (κ × υ)) :
    List (Option υ × Option Eviction) × FrequencyCache κ υ :=
  answers (fun c p => let (old?, evicted?, c) := c.put p.1 p.2; ((old?, evicted?), c)) c ps

/-- The answer to a put that costs an entry of the given frequency. -/
def costs (capacity : Capacity) (f : UInt64) : Option υ × Option Eviction :=
  (none, some { policy := .lfu, frequency? := some f, remaining := capacity.size - 1 })

private theorem scan_cons {p : κ × υ} {ps : List (κ × υ)} {evicted? : Option Eviction}
    (hold : (c.put p.1 p.2).1 = none) (hevicted : (c.put p.1 p.2).2.1 = evicted?) :
    c.scan (p :: ps) =
      ((none, evicted?) :: ((c.put p.1 p.2).2.2.scan ps).1, ((c.put p.1 p.2).2.2.scan ps).2) := by
  subst hevicted
  rw [← hold]
  rfl

/-- A full cache, whose entries of frequency 1 are these and whose other entries are those. -/
structure Parted (c : FrequencyCache κ υ) (front back : List (Entry κ υ)) : Prop where
  holds : ∃ L, c.Holds L
  full : c.length = c.capacity.size
  toList : c.toList = front ++ back
  front : ∀ e ∈ front, e.frequency = 1
  back : ∀ e ∈ back, 1 < e.frequency

omit [BEq κ] [Hashable κ] in
/-- A list is split in one way into entries of frequency 1 and entries of a higher one. -/
private theorem parts_unique {front' back' : List (Entry κ υ)} (heq : front ++ back = front' ++ back')
    (hfront : ∀ e ∈ front, e.frequency ≤ 1) (hback : ∀ e ∈ back, 1 < e.frequency)
    (hfront' : ∀ e ∈ front', e.frequency ≤ 1) (hback' : ∀ e ∈ back', 1 < e.frequency) :
    front = front' ∧ back = back' := by
  have hfilter : ∀ {l r : List (Entry κ υ)}, (∀ e ∈ l, e.frequency ≤ 1) → (∀ e ∈ r, 1 < e.frequency) →
      (l ++ r).filter (fun e => e.frequency ≤ 1) = l := by
    intro l r hl hr
    have hnone : r.filter (fun e => e.frequency ≤ 1) = [] := by
      rw [List.filter_eq_nil_iff]
      intro e he
      simpa using hr e he
    rw [List.filter_append, hnone, List.append_nil, List.filter_eq_self]
    intro e he
    exact decide_eq_true (hl e he)
  have hparts : front = front' := by
    rw [← hfilter hfront hback, heq, hfilter hfront' hback']
  subst hparts
  exact ⟨rfl, List.append_cancel_left heq⟩

omit [BEq κ] [Hashable κ] in
/-- An entry of frequency 1 is placed between those of frequency 1 and the others. -/
private theorem placedIn_parted {z : Handle × Entry κ υ} {l l' : List (Handle × Entry κ υ)}
    (hp : PlacedIn z l l') (hz : z.2.frequency = 1) (hl : l.map (·.2) = front ++ back)
    (hfront : ∀ e ∈ front, e.frequency = 1) (hback : ∀ e ∈ back, 1 < e.frequency) :
    l'.map (·.2) = front ++ z.2 :: back := by
  obtain ⟨l₁, l₂, rfl, rfl, h₁, h₂⟩ := hp
  rw [hz] at h₁ h₂
  rw [List.map_append] at hl
  obtain ⟨hl₁, hl₂⟩ := parts_unique hl (List.forall_mem_map.2 h₁) (List.forall_mem_map.2 h₂)
    (fun e he => UInt64.le_of_eq (hfront e he)) hback
  rw [List.map_append, List.map_cons, hl₁, hl₂]

namespace Holds

/-- The entries of frequency 1 come first. -/
private theorem exists_parted (hc : c.Holds L) (hfull : c.length = c.capacity.size) :
    ∃ front back, c.Parted front back := by
  have hpos : ∀ y ∈ L, 1 ≤ y.frequency := fun y hy => (hc.tidy y hy).positive
  rcases Layer.head_or_above hc.laid.increasing hpos with ⟨z, L', rfl, hz, habove⟩ | habove
  · have htidy := hc.tidy
    rw [List.forall_mem_cons] at htidy
    refine ⟨z.entries.map (·.2), (flat L').map (·.2), ⟨_, hc⟩, hfull, ?_, ?_, ?_⟩
    · rw [hc.laid.toList, Layer.flat_cons, List.map_append]
    · rw [List.forall_mem_map]
      intro y hy
      rw [htidy.1.frequency y hy, hz]
    · rw [List.forall_mem_map]
      rw [hz] at habove
      exact Layer.forall_mem_flat htidy.2 habove
  · refine ⟨[], (flat L).map (·.2), ⟨_, hc⟩, hfull, ?_, by simp, ?_⟩
    · rw [hc.laid.toList, List.nil_append]
    · rw [List.forall_mem_map]
      exact Layer.forall_mem_flat hc.tidy habove

end Holds

namespace Parted

private theorem countP_toList (hc : c.Parted front back) :
    (c.toList.countP fun e => e.frequency == 1) = front.length := by
  have hfront : (front.countP fun e => e.frequency == 1) = front.length := by
    rw [List.countP_eq_length]
    intro e he
    rw [hc.front e he]
    rfl
  have hback : (back.countP fun e => e.frequency == 1) = 0 := by
    rw [List.countP_eq_zero]
    intro e he h1
    exact UInt64.ne_of_lt (hc.back e he) (eq_of_beq h1).symm
  rw [hc.toList, List.countP_append, hfront, hback, Nat.add_zero]

private theorem contains_iff [EquivBEq κ] [LawfulHashable κ] (hc : c.Parted front back) :
    c.contains k = true ↔ ∃ e ∈ front ++ back, (e.key == k) = true := by
  obtain ⟨L, hL⟩ := hc.holds
  rw [hL.contains_iff, FrequencyCache.keys, hc.toList]
  simp only [List.mem_map, exists_exists_and_eq_and]

variable [EquivBEq κ] [LawfulHashable κ]

/-- A new key costs the first entry and goes behind the other ones of frequency 1. -/
private theorem put_new {front' back' : List (Entry κ υ)} (hc : c.Parted front back) (hk : c.contains k = false)
    (v : υ) (hsplit : front ++ back = e :: (front' ++ back')) (hfront : ∀ e ∈ front', e.frequency = 1)
    (hback : ∀ e ∈ back', 1 < e.frequency) :
    (c.put k v).1 = none ∧ (c.put k v).2.1 = (costs (υ := υ) c.capacity e.frequency).2 ∧
      (c.put k v).2.2.Parted (front' ++ [.fresh (k, v)]) back' := by
  obtain ⟨L, hL⟩ := hc.holds
  have hnone : c.index[k]? = none := by
    rw [FrequencyCache.contains, Std.HashMap.contains_eq_isSome_getElem?] at hk
    exact Option.isNone_iff_eq_none.1 (Option.isSome_eq_false_iff.1 hk)
  have hfull : (flat L).length = c.capacity.size := by
    rw [← hL.length]
    exact hc.full
  have htoList : (flat L).map (·.2) = e :: (front' ++ back') := by
    rw [← hL.laid.toList, hc.toList, hsplit]
  obtain ⟨z, l, hflat, rfl, hl⟩ := List.map_eq_cons_iff.1 htoList
  obtain ⟨hold, hevicted, h, L', hL', hplaced⟩ := hL.put_new hnone v
  rw [if_pos hfull] at hevicted hplaced
  rw [hflat, List.head?_cons, Option.map_some] at hevicted
  rw [hflat, List.tail_cons] at hplaced
  refine ⟨hold, hevicted, ⟨L', hL'⟩, ?_, ?_, ?_, hback⟩
  · rw [hL'.length, hplaced.perm.length_eq, c.capacity_put, ← hfull, hflat]
    rfl
  · rw [hL'.laid.toList, List.append_assoc]
    exact placedIn_parted hplaced rfl hl hfront hback
  · rw [List.forall_mem_append, List.forall_mem_singleton]
    exact ⟨hfront, rfl⟩

theorem put_front (hc : c.Parted (e :: front) back) (hk : c.contains k = false) (v : υ) :
    (c.put k v).1 = none ∧ (c.put k v).2.1 = (costs (υ := υ) c.capacity 1).2 ∧
      (c.put k v).2.2.Parted (front ++ [.fresh (k, v)]) back := by
  obtain ⟨he, hfront⟩ := List.forall_mem_cons.1 hc.front
  have hput := hc.put_new hk v (List.cons_append ..) hfront hc.back
  rwa [he] at hput

/-- Without an entry of frequency 1 the first of the others goes. -/
theorem put_back (hc : c.Parted [] (e :: back)) (hk : c.contains k = false) (v : υ) :
    (c.put k v).1 = none ∧ (c.put k v).2.1 = (costs (υ := υ) c.capacity e.frequency).2 ∧
      (c.put k v).2.2.Parted [.fresh (k, v)] back :=
  hc.put_new hk v (show [] ++ e :: back = e :: ([] ++ back) from rfl) (by simp) (List.forall_mem_cons.1 hc.back).2

/-- The keys that a scan has still to store are new after each of its puts. -/
private theorem absent_rest {c' : FrequencyCache κ υ} {front' back' : List (Entry κ υ)}
    {p : κ × υ} {ps : List (κ × υ)} (hc : c.Parted front back) (hc' : c'.Parted front' back')
    (hsub : front' ++ back' ⊆ .fresh p :: (front ++ back)) (hps : Keyed (·.1) (p :: ps))
    (hnew : ∀ q ∈ p :: ps, c.contains q.1 = false) : ∀ q ∈ ps, c'.contains q.1 = false := by
  intro q hq
  rw [← Bool.not_eq_true, hc'.contains_iff]
  rintro ⟨e, he, hek⟩
  rcases List.mem_cons.1 (hsub he) with rfl | he
  · have hpq : (p.1 == q.1) = false := (List.pairwise_cons.1 hps).1 q hq
    exact Bool.false_ne_true (hpq.symm.trans hek)
  · have hq' := hnew q (List.mem_cons_of_mem _ hq)
    rw [← Bool.not_eq_true, hc.contains_iff] at hq'
    exact hq' ⟨e, he, hek⟩

/-- A scan gives up the entries of frequency 1 from the first on, and then its own. -/
theorem scan {ps : List (κ × υ)} (hc : c.Parted front back) (hne : front ≠ []) (hps : Keyed (·.1) ps)
    (hnew : ∀ p ∈ ps, c.contains p.1 = false) :
    (c.scan ps).1 = List.replicate ps.length (costs c.capacity 1) ∧
      (c.scan ps).2.Parted ((front ++ ps.map Entry.fresh).drop ps.length) back := by
  induction ps generalizing c front with
  | nil =>
    refine ⟨rfl, ?_⟩
    rw [List.map_nil, List.append_nil, List.length_nil, List.drop_zero]
    exact hc
  | cons p ps ih =>
    obtain ⟨e, front, rfl⟩ := List.exists_cons_of_ne_nil hne
    obtain ⟨hold, hevicted, hc'⟩ := hc.put_front (hnew p (List.mem_cons_self ..)) p.2
    have hrest : ∀ q ∈ ps, (c.put p.1 p.2).2.2.contains q.1 = false := by
      refine hc.absent_rest hc' ?_ hps hnew
      intro x hx
      simp only [List.mem_append, List.mem_cons, List.not_mem_nil, or_false] at hx ⊢
      tauto
    obtain ⟨hans, hend⟩ := ih hc' (by simp) (List.pairwise_cons.1 hps).2 hrest
    rw [scan_cons hold hevicted]
    constructor
    · rw [List.length_cons, List.replicate_succ, hans, c.capacity_put]
      rfl
    · rw [List.append_assoc, List.singleton_append] at hend
      exact hend

/-- What a scan leaves: the entries that were there without the first ones, and between them some of its own. -/
private theorem scan_leaves {ps : List (κ × υ)} (hc : c.Parted front back) (hps : Keyed (·.1) ps)
    (hnew : ∀ p ∈ ps, c.contains p.1 = false) :
    (∀ a ∈ (c.scan ps).1, ∃ f, a = costs c.capacity f ∧ (1 ≤ front.length → f = 1)) ∧
      ∃ kept own back', (c.scan ps).2.Parted (kept ++ own) back' ∧
        kept ++ back' = (front ++ back).drop (min ps.length (max 1 front.length)) ∧ own ⊆ ps.map Entry.fresh := by
  cases front with
  | cons e front =>
    obtain ⟨hans, hend⟩ := hc.scan (by simp) hps hnew
    rw [List.drop_append] at hend
    refine ⟨?_, _, _, back, hend, ?_, List.drop_subset _ _⟩
    · intro a ha
      rw [hans] at ha
      exact ⟨1, List.eq_of_mem_replicate ha, fun _ => rfl⟩
    · have hmax : max 1 (e :: front).length = (e :: front).length := by simp
      rw [hmax, List.drop_append, Nat.sub_eq_zero_of_le (Nat.min_le_right _ _), List.drop_zero,
        ← List.drop_eq_drop_min]
  | nil =>
    cases ps with
    | nil =>
      refine ⟨by simp [FrequencyCache.scan, answers], [], [], back, hc, ?_, List.Subset.refl _⟩
      rw [List.length_nil, Nat.zero_min, List.drop_zero]
    | cons p ps =>
      -- a full cache has an entry to give up
      have hne : back ≠ [] := by
        rintro rfl
        obtain ⟨L, hL⟩ := hc.holds
        have hlen := congrArg List.length hc.toList
        rw [hL.laid.toList, List.length_map, ← hL.length, hc.full] at hlen
        exact absurd hlen (Nat.ne_of_gt c.capacity.size_pos)
      obtain ⟨e, back, rfl⟩ := List.exists_cons_of_ne_nil hne
      obtain ⟨hold, hevicted, hc'⟩ := hc.put_back (hnew p (List.mem_cons_self ..)) p.2
      have hrest : ∀ q ∈ ps, (c.put p.1 p.2).2.2.contains q.1 = false := by
        refine hc.absent_rest hc' ?_ hps hnew
        intro x hx
        simp only [List.singleton_append, List.nil_append, List.mem_cons] at hx ⊢
        tauto
      obtain ⟨hans, hend⟩ := hc'.scan (by simp) (List.pairwise_cons.1 hps).2 hrest
      rw [scan_cons hold hevicted]
      refine ⟨?_, [], _, back, hend, by simp, List.drop_subset _ _⟩
      intro a ha
      rcases List.mem_cons.1 ha with rfl | ha
      · exact ⟨e.frequency, rfl, fun h => absurd h (by simp)⟩
      · rw [hans, c.capacity_put] at ha
        exact ⟨1, List.eq_of_mem_replicate ha, fun _ => rfl⟩

/-- The entries that were there are those whose keys were. -/
private theorem filter_toList {kept own back' : List (Entry κ υ)} {c' : FrequencyCache κ υ} {n : Nat}
    (hc : c.Parted front back) (hc' : c'.Parted (kept ++ own) back') (hleft : kept ++ back' = c.toList.drop n)
    (hown : ∀ e ∈ own, c.contains e.key = false) :
    (c'.toList.filter fun e => c.contains e.key) = c.toList.drop n := by
  have hthere : ∀ e ∈ kept ++ back', c.contains e.key = true := by
    intro e he
    rw [hc.contains_iff, ← hc.toList]
    exact ⟨e, List.mem_of_mem_drop (hleft ▸ he), BEq.rfl⟩
  rw [List.forall_mem_append] at hthere
  have hnone : (own.filter fun e => c.contains e.key) = [] := by
    rw [List.filter_eq_nil_iff]
    intro e he
    rw [hown e he]
    exact Bool.false_ne_true
  rw [hc'.toList, List.filter_append, List.filter_append, hnone, List.append_nil, List.filter_eq_self.2 hthere.1,
    List.filter_eq_self.2 hthere.2, hleft]

/-- The keys of the entries that went are not there any more. -/
private theorem contains_eq_false {kept own back' : List (Entry κ υ)} {c' : FrequencyCache κ υ} {n : Nat}
    (hc : c.Parted front back) (hc' : c'.Parted (kept ++ own) back') (hleft : kept ++ back' = c.toList.drop n)
    (hown : ∀ e ∈ own, c.contains e.key = false) : ∀ k ∈ c.keys.take n, c'.contains k = false := by
  intro k hk
  rw [FrequencyCache.keys, ← List.map_take] at hk
  obtain ⟨x, hx, rfl⟩ := List.mem_map.1 hk
  rw [← Bool.not_eq_true, hc'.contains_iff]
  rintro ⟨y, hy, hyx⟩
  simp only [List.mem_append] at hy
  by_cases hmem : y ∈ kept ++ back'
  · -- no two entries have one key
    obtain ⟨L, hL⟩ := hc.holds
    have hkeyed := hL.index.keyed
    rw [← hL.laid.toList, ← List.take_append_drop n c.toList, Keyed, List.pairwise_append] at hkeyed
    have hxy := hkeyed.2.2 x hx y (hleft ▸ hmem)
    rw [BEq.comm, hyx] at hxy
    exact Bool.false_ne_true hxy.symm
  · have hyo : y ∈ own := by
      rw [List.mem_append] at hmem
      tauto
    have hy' := hown y hyo
    rw [← Bool.not_eq_true, hc.contains_iff, ← hc.toList] at hy'
    exact hy' ⟨x, List.mem_of_mem_take hx, by rwa [BEq.comm]⟩

end Parted

/-! ### Scans after a run -/

variable [EquivBEq κ] [LawfulHashable κ]

/-- Storing keys that are pairwise different and new in a full cache, one after another, evicts an entry each time.
Of the entries that were there, as many go as there are puts, but no more than there are entries of frequency 1, or
just one if there is none of these.  They are the first ones; the others stay as they are and in their order.  If
there was an entry of frequency 1, no entry of a higher frequency is evicted. -/
theorem cacheInOrderOfFrequency_resists_scans (capacity : Capacity) (rs : List (CountedRequest κ υ))
    (hrs : rs.length < 2 ^ 64 - 1) (ps : List (κ × υ)) (hps : Keyed (·.1) ps) :
    let c := (answers FrequencyCache.answer (FrequencyCache.empty capacity) rs).2
    let once := c.toList.countP fun e => e.frequency == 1
    let gone := min ps.length (max 1 once)
    c.length = capacity.size → (∀ p ∈ ps, c.contains p.1 = false) →
      ((c.scan ps).1.length = ps.length ∧
        ∀ a ∈ (c.scan ps).1, ∃ f, a = costs capacity f ∧ (1 ≤ once → f = 1)) ∧
      gone ≤ c.length ∧
      (∀ k ∈ c.keys.take gone, (c.scan ps).2.contains k = false) ∧
      ((c.scan ps).2.toList.filter fun e => c.contains e.key) = c.toList.drop gone ∧
      (1 ≤ once → ∀ e ∈ c.toList, e.frequency ≠ 1 → e ∈ (c.scan ps).2.toList) := by
  intro c once gone hfull hnew
  obtain ⟨-, ⟨L, T, hcm⟩, hcap⟩ := answers_agree capacity hrs
  change c.capacity = capacity at hcap
  obtain ⟨front, back, hc⟩ := hcm.holds.exists_parted (by rw [hcap]; exact hfull)
  have honce : once = front.length := hc.countP_toList
  obtain ⟨hans, kept, own, back', hend, hleft, hown⟩ := hc.scan_leaves hps hnew
  rw [← honce, hcap] at hans
  rw [← honce, ← hc.toList] at hleft
  have hownNew : ∀ e ∈ own, c.contains e.key = false := by
    intro e he
    obtain ⟨p, hp, rfl⟩ := List.mem_map.1 (hown he)
    exact hnew p hp
  have hfilter := hc.filter_toList hend hleft hownNew
  have hlen : c.toList.length = c.length := by
    rw [hcm.holds.length, hcm.holds.laid.toList, List.length_map]
  refine ⟨⟨length_answers .., hans⟩, ?_, hc.contains_eq_false hend hleft hownNew, hfilter, ?_⟩
  · have hle : once ≤ c.toList.length := List.countP_le_length
    have hpos := capacity.size_pos
    omega
  · intro hone e he hne
    have hback : e ∈ back := by
      rw [hc.toList, List.mem_append] at he
      exact he.resolve_left fun hf => hne (hc.front e hf)
    have hdrop : e ∈ c.toList.drop gone := by
      rw [hc.toList, List.drop_append, Nat.sub_eq_zero_of_le (by omega)]
      exact List.mem_append_right _ hback
    rw [← hfilter] at hdrop
    exact List.mem_of_mem_filter hdrop

/-- Two new keys pass by a key that was looked up. -/
theorem scan_leaves_key_looked_up :
    let rs : List (CountedRequest Nat Nat) := [.plain (.put 1 10), .plain (.put 2 20), .plain (.get 1)]
    let ps : List (Nat × Nat) := [(3, 30), (4, 40)]
    let c := (answers FrequencyCache.answer (FrequencyCache.empty { size := 2 }) rs).2
    rs.length < 2 ^ 64 - 1 ∧ Keyed (·.1) ps ∧ c.length = 2 ∧ (∀ p ∈ ps, c.contains p.1 = false) ∧
      (c.scan ps).1.length = 2 ∧ (c.scan ps).2.contains 2 = false ∧
      ((c.scan ps).2.toList.filter fun e => c.contains e.key) = [{ key := 1, value := 10, frequency := 2 }] := by
  intro rs ps c
  have hrs : rs.length < 2 ^ 64 - 1 := by decide
  have hps : Keyed (·.1) ps := by simp [Keyed, ps]
  obtain ⟨-, ⟨L, T, hcm⟩, -⟩ := answers_agree { size := 2 } hrs
  have hfull : c.length = 2 := hcm.length
  have hnew : ∀ p ∈ ps, c.contains p.1 = false := by
    intro p hp
    rw [hcm.contains]
    simp only [ps, List.mem_cons, List.not_mem_nil, or_false] at hp
    rcases hp with rfl | rfl <;> rfl
  have htoList : c.toList = [{ key := 2, value := 20, frequency := 1 }, { key := 1, value := 10, frequency := 2 }] :=
    Entry.shown_injective.list_map hcm.toList_shown
  obtain ⟨⟨hlen, -⟩, -, hgone, hkept, -⟩ :=
    cacheInOrderOfFrequency_resists_scans { size := 2 } rs hrs ps hps hfull hnew
  have honce : (c.toList.countP fun e => e.frequency == 1) = 1 := by
    rw [htoList]
    rfl
  rw [honce] at hgone hkept
  refine ⟨hrs, hps, hfull, hnew, hlen, ?_, ?_⟩
  · apply hgone
    rw [FrequencyCache.keys, htoList]
    exact List.mem_cons_self ..
  · rw [hkept, htoList]
    rfl

end FrequencyCache

end Caching
