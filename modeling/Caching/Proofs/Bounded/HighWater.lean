import Caching.Proofs.Bounded.Accounts

/-!
# The mark of the highest frequency

A cache in order of frequency keeps a mark, which is raised as an entry is used and put back to 0 as the cache is
cleared.  An insertion gives an entry the frequency 1 and leaves the mark alone.  So the mark is the highest frequency
that an entry has had since the cache was last cleared as soon as that is above 1, and 0 before
(`Marked`); the report shows it as it is.

A request changes the frequency of one entry at most, and nothing comes after that change that could take the entry
away, so the moments between requests are all that count.
-/

namespace Caching

open Linked
open Bounded (Request CountedRequest)

/-- The report has one measure of this name, and it is the count `n`. -/
def Report.Gives (r : Report) (name : String) (n : UInt64) : Prop := ∀ x, (name, x) ∈ r ↔ x = .count n

private theorem Report.mem_ofList {measures : Report} {m : String × Measure} :
    m ∈ Report.ofList measures ↔ m ∈ measures :=
  List.mem_mergeSort

private theorem FrequencyCounters.report_gives (n : FrequencyCounters) (lowest distinct : UInt64) :
    (n.report lowest distinct).Gives "max_frequency" n.highest ∧
      (n.report lowest distinct).Gives "min_frequency" lowest := by
  constructor <;> intro x <;>
    simp [FrequencyCounters.report, Report.mem_ofList, Counters.measures]

/-! Words are ordered, but have no lattice of their own. -/

private theorem max_word_choice (a b : UInt64) : max a b = a ∨ max a b = b := by
  show (if a ≤ b then b else a) = a ∨ (if a ≤ b then b else a) = b
  split <;> simp

private theorem toNat_max_word (a b : UInt64) : (max a b).toNat = max a.toNat b.toNat := by
  show (if a ≤ b then b else a).toNat = _
  split
  · next h => exact (Nat.max_eq_right (UInt64.le_iff_toNat_le.1 h)).symm
  · next h => exact (Nat.max_eq_left (Nat.le_of_not_le fun hle => h (UInt64.le_iff_toNat_le.2 hle))).symm

private theorem le_max_word_left (a b : UInt64) : a ≤ max a b := by
  rw [UInt64.le_iff_toNat_le, toNat_max_word]
  exact Nat.le_max_left ..

private theorem le_max_word_right (a b : UInt64) : b ≤ max a b := by
  rw [UInt64.le_iff_toNat_le, toNat_max_word]
  exact Nat.le_max_right ..

namespace FrequencyCache

open Layer (flat)

variable {κ υ : Type} [BEq κ] [Hashable κ] {c c' : FrequencyCache κ υ} {L : List (Layer κ υ)} {k : κ} {h : Handle}
  {e : Entry κ υ} {f : UInt64} {l r : List (Handle × Entry κ υ)}

private theorem report_gives (c : FrequencyCache κ υ) :
    c.report.Gives "max_frequency" c.counters.highest ∧
      c.report.Gives "min_frequency" (c.lowestFrequency?.getD 0) :=
  c.counters.report_gives _ _

/-! ### What a request does to the frequencies and to the mark -/

/-- From `c` to `c'` either no frequency appears but that of a new entry, and the mark stays, or one entry comes to a
frequency above 1, and the mark with it. -/
inductive Records (c c' : FrequencyCache κ υ) : Prop
  | kept (mark : c'.counters.highest = c.counters.highest)
      (frequencies : ∀ g ∈ c'.frequencies, g ∈ c.frequencies ∨ g = 1)
  | raised (f : UInt64) (two_le : 2 ≤ f) (reached : f ∈ c'.frequencies)
      (mark : c'.counters.highest = max c.counters.highest f)
      (frequencies : ∀ g ∈ c'.frequencies, g ∈ c.frequencies ∨ g = f)

theorem Records.refl (c : FrequencyCache κ υ) : c.Records c := .kept rfl fun _ => Or.inl

namespace Holds

private theorem highest_promote (hc : c.Holds L) (hflat : flat L = l ++ (h, e) :: r) :
    (c.promote h).counters.highest = max c.counters.highest e.used.frequency := by
  have hget := (hc.laid.entries.get? h e).2 (by simp [hflat])
  obtain ⟨A, x, B, l, r, -, -, -, -, -, hb⟩ := hc.laid.split hc.tidy hflat
  rw [counters_promote hget hb]
  rfl

private theorem one_le (hc : c.Holds L) {z : Handle × Entry κ υ} (hz : z ∈ flat L) : 1 ≤ z.2.frequency :=
  Layer.forall_mem_flat hc.tidy (p := (1 ≤ ·)) (fun x hx => (hc.tidy x hx).positive) z hz

private theorem two_le_used (hc : c.Holds L) (hz : (h, e) ∈ flat L) (hf : e.frequency.toNat + 1 < 2 ^ 64) :
    2 ≤ e.used.frequency := by
  have hone := UInt64.le_iff_toNat_le.1 (hc.one_le hz)
  rw [UInt64.le_iff_toNat_le, Entry.used, toNat_frequencyAfter hf]
  exact Nat.succ_le_succ hone

variable [EquivBEq κ]

/-- The frequencies of entries that were there before are none that appear. -/
private theorem frequencies_among {L' : List (Layer κ υ)} (hc : c.Holds L) (hc' : c'.Holds L')
    (hmem : ∀ y ∈ flat L', y ∈ flat L ∨ y.2.frequency = f) : ∀ g ∈ c'.frequencies, g ∈ c.frequencies ∨ g = f := by
  intro g hg
  obtain ⟨y, hy, rfl⟩ := hc'.mem_frequencies.1 hg
  exact (hmem y hy).imp (fun hy => hc.mem_frequencies.2 ⟨y, hy, rfl⟩) id

/-- An entry was used: `z` took the place of `e` beside the others, and the mark was raised. -/
private theorem records_use {L' : List (Layer κ υ)} {z : Handle × Entry κ υ} (hc : c.Holds L)
    (hflat : flat L = l ++ (h, e) :: r) (hf : e.frequency.toNat + 1 < 2 ^ 64) (hc' : c'.Holds L')
    (hp : PlacedIn z (l ++ r) (flat L')) (hz : z.2.frequency = e.used.frequency)
    (hmark : c'.counters.highest = max c.counters.highest e.used.frequency) : c.Records c' := by
  have hmem : (h, e) ∈ flat L := by simp [hflat]
  refine .raised e.used.frequency (hc.two_le_used hmem hf) ?_ hmark ?_
  · exact hc'.mem_frequencies.2 ⟨z, hp.perm.mem_iff.2 (List.mem_cons_self ..), hz⟩
  · refine hc.frequencies_among hc' ?_
    intro y hy
    rcases List.mem_cons.1 (hp.perm.mem_iff.1 hy) with rfl | hy
    · exact Or.inr hz
    · rw [hflat, List.perm_middle.mem_iff]
      exact Or.inl (List.mem_cons_of_mem _ hy)

private theorem records_get (hc : c.Holds L) (hlt : ∀ z ∈ flat L, z.2.frequency.toNat + 1 < 2 ^ 64) (k : κ) :
    c.Records (c.get k).2 := by
  cases hk : c.index[k]? with
  | none =>
    simp only [FrequencyCache.get, hk]
    exact .kept rfl fun _ => Or.inl
  | some h =>
    obtain ⟨e, l, r, hflat, -⟩ := hc.lookup hk
    have hf := hlt (h, e) (by simp [hflat])
    obtain ⟨-, L', hc', hp⟩ := hc.get_hit hk hflat (Or.inl hf)
    refine hc.records_use hflat hf hc' hp rfl ?_
    simp only [FrequencyCache.get, hk]
    exact (hc.setCounters (c.count .hit).counters).highest_promote hflat

variable [LawfulHashable κ]

private theorem highest_put_new (hc : c.Holds L) (hk : c.index[k]? = none) (v : υ) :
    (c.put k v).2.2.counters.highest = c.counters.highest := by
  rw [put_of_absent hk]
  by_cases hfull : c.capacity.size ≤ c.length
  · obtain ⟨h, e, r, -, hevict, -⟩ := hc.evict (hc.ne_nil_of_full hfull)
    rw [if_pos hfull, counters_insertNew, count, counters_evict hevict]
    rfl
  · rw [if_neg hfull, counters_insertNew]
    rfl

private theorem records_put_new (hc : c.Holds L) (hk : c.index[k]? = none) (v : υ) : c.Records (c.put k v).2.2 := by
  obtain ⟨-, -, h, L', hc', hp⟩ := hc.put_new hk v
  refine .kept (hc.highest_put_new hk v) (hc.frequencies_among hc' ?_)
  intro y hy
  rcases List.mem_cons.1 (hp.perm.mem_iff.1 hy) with rfl | hy
  · exact Or.inr rfl
  · split at hy
    · exact Or.inl (List.mem_of_mem_tail hy)
    · exact Or.inl hy

private theorem records_put (hc : c.Holds L) (hlt : ∀ z ∈ flat L, z.2.frequency.toNat + 1 < 2 ^ 64) (k : κ) (v : υ) :
    c.Records (c.put k v).2.2 := by
  cases hk : c.index[k]? with
  | none => exact hc.records_put_new hk v
  | some h =>
    obtain ⟨e, l, r, hflat, -⟩ := hc.lookup hk
    have hf := hlt (h, e) (by simp [hflat])
    obtain ⟨-, -, L', hc', hp⟩ := hc.put_hit hk hflat (Or.inl hf) v
    obtain ⟨L₁, hflat₁, hc₁⟩ := hc.setValue hflat v
    have hmark := (hc₁.setCounters (c.count .update).counters).highest_promote hflat₁
    refine hc.records_use hflat hf hc' hp rfl ?_
    simp only [FrequencyCache.put, hk]
    exact hmark

private theorem records_putIfAbsent (hc : c.Holds L) (hlt : ∀ z ∈ flat L, z.2.frequency.toNat + 1 < 2 ^ 64) (k : κ)
    (v : υ) : c.Records (c.putIfAbsent k v).2.2 := by
  cases hk : c.index[k]? with
  | none =>
    have hput := (hc.setCounters (c.count .miss).counters).records_put_new (c := c.count .miss) hk v
    rw [putIfAbsent_of_absent hk]
    -- the miss is counted apart from the mark
    cases hput with
    | kept mark frequencies => exact .kept mark frequencies
    | raised f two_le reached mark frequencies => exact .raised f two_le reached mark frequencies
  | some h =>
    obtain ⟨e, l, r, hflat, -⟩ := hc.lookup hk
    rw [putIfAbsent_of_get (hc.get_fst hk hflat)]
    exact hc.records_get hlt k

private theorem records_remove (hc : c.Holds L) (k : κ) : c.Records (c.remove k).2 := by
  cases hk : c.index[k]? with
  | none =>
    simp only [FrequencyCache.remove, hk]
    exact .refl c
  | some h =>
    obtain ⟨e, l, r, hflat, hek, -⟩ := hc.lookup hk
    obtain ⟨hvalue, L', hc', hflat'⟩ := hc.remove_hit hk hflat hek
    refine .kept ?_ (hc.frequencies_among hc' ?_)
    · rw [counters_remove hvalue]
      rfl
    · intro y hy
      rw [hflat'] at hy
      rw [hflat, List.perm_middle.mem_iff]
      exact Or.inl (List.mem_cons_of_mem _ hy)

/-- As long as no entry is near the largest frequency, every request but clearing records what it does. -/
private theorem records_answer (hc : c.Holds L) (hlt : ∀ z ∈ flat L, z.2.frequency.toNat + 1 < 2 ^ 64)
    {r : CountedRequest κ υ} (hr : r ≠ .plain .clear) : c.Records (c.answer r).2 := by
  cases r with
  | frequencyOf k => exact .refl c
  | plain r =>
    cases r with
    | get k => exact hc.records_get hlt k
    | getWith k f => exact hc.records_get hlt k
    | put k v => exact hc.records_put hlt k v
    | putIfAbsent k v => exact hc.records_putIfAbsent hlt k v
    | remove k => exact hc.records_remove k
    | clear => exact absurd rfl hr
    | contains k => exact .refl c
    | length => exact .refl c
    | keys => exact .refl c

end Holds

/-! ### What a run does -/

/-- The frequencies that entries had at any time of a run since the cache was last cleared, or made. -/
def heldSinceClear (capacity : Capacity) (rs : List (CountedRequest κ υ)) : Set UInt64 :=
  {f | ∃ before since, rs = before ++ since ∧ .plain .clear ∉ since ∧
    f ∈ (answers answer (empty capacity) before).2.frequencies}

variable {capacity : Capacity} {rs : List (CountedRequest κ υ)} {q : CountedRequest κ υ}

private theorem heldSinceClear_nil : heldSinceClear capacity ([] : List (CountedRequest κ υ)) =
    (empty capacity : FrequencyCache κ υ).frequencies := by
  ext f
  constructor
  · rintro ⟨before, since, heq, -, hf⟩
    obtain ⟨rfl, rfl⟩ := List.append_eq_nil_iff.1 heq.symm
    exact hf
  · exact fun hf => ⟨[], [], rfl, List.not_mem_nil, hf⟩

/-- The last request adds the frequencies that it leaves, and clearing makes the earlier ones be forgotten. -/
private theorem mem_heldSinceClear_append : f ∈ heldSinceClear capacity (rs ++ [q]) ↔
    f ∈ (answers answer (empty capacity) (rs ++ [q])).2.frequencies ∨
      q ≠ .plain .clear ∧ f ∈ heldSinceClear capacity rs := by
  constructor
  · rintro ⟨before, since, heq, hsince, hf⟩
    rcases List.eq_nil_or_concat since with rfl | ⟨since, r, rfl⟩
    · rw [List.append_nil] at heq
      exact Or.inl (heq ▸ hf)
    · rw [List.concat_eq_append, ← List.append_assoc] at heq
      obtain ⟨rfl, hr⟩ := List.append_inj' heq rfl
      obtain rfl : q = r := List.singleton_inj.1 hr
      rw [List.concat_eq_append, List.mem_append, List.mem_singleton, not_or] at hsince
      exact Or.inr ⟨Ne.symm hsince.2, before, since, rfl, hsince.1, hf⟩
  · rintro (hf | ⟨hq, before, since, rfl, hsince, hf⟩)
    · exact ⟨rs ++ [q], [], (List.append_nil _).symm, List.not_mem_nil, hf⟩
    · refine ⟨before, since ++ [q], List.append_assoc .., ?_, hf⟩
      rw [List.mem_append, List.mem_singleton, not_or]
      exact ⟨hsince, Ne.symm hq⟩

/-- The mark is the highest of these frequencies, or it is 0 and none of them is above 1. -/
structure Marked (highest : UInt64) (held : Set UInt64) : Prop where
  one_le : ∀ f ∈ held, 1 ≤ f
  le_mark : ∀ f ∈ held, f = 1 ∨ f ≤ highest
  reached : highest = 0 ∨ 2 ≤ highest ∧ highest ∈ held

namespace Marked

variable {highest : UInt64} {held : Set UInt64}

private theorem eq_zero_iff (hm : Marked highest held) : highest = 0 ↔ ∀ f ∈ held, f = 1 := by
  constructor
  · rintro rfl f hf
    rcases hm.le_mark f hf with h1 | h0
    · exact h1
    · exact absurd (UInt64.le_trans (hm.one_le f hf) h0) (by decide)
  · intro hone
    rcases hm.reached with h0 | ⟨h2, hmem⟩
    · exact h0
    · exact absurd (hone highest hmem ▸ h2) (by decide)

theorem isGreatest (hm : Marked highest held) (h0 : highest ≠ 0) : IsGreatest held highest := by
  obtain ⟨h2, hmem⟩ := hm.reached.resolve_left h0
  refine ⟨hmem, ?_⟩
  intro f hf
  rcases hm.le_mark f hf with rfl | hle
  · exact UInt64.le_trans (by decide) h2
  · exact hle

end Marked

private theorem Records.marked {held : Set UInt64} (hr : c.Records c') (hone : ∀ f ∈ c'.frequencies, 1 ≤ f)
    (hm : Marked c.counters.highest held) (hheld : c.frequencies ⊆ held) :
    Marked c'.counters.highest (c'.frequencies ∪ held) := by
  have hone' : ∀ f ∈ c'.frequencies ∪ held, 1 ≤ f := by
    rintro f (hf | hf)
    · exact hone f hf
    · exact hm.one_le f hf
  cases hr with
  | kept mark frequencies =>
    rw [mark]
    refine ⟨hone', ?_, ?_⟩
    · rintro f (hf | hf)
      · rcases frequencies f hf with hf | rfl
        · exact hm.le_mark f (hheld hf)
        · exact Or.inl rfl
      · exact hm.le_mark f hf
    · exact hm.reached.imp id fun ⟨h2, hmem⟩ => ⟨h2, Or.inr hmem⟩
  | raised g two_le reached mark frequencies =>
    -- the new frequency is at the mark or below it
    have hg : g ≤ c'.counters.highest := mark ▸ le_max_word_right _ _
    have hraised : c.counters.highest ≤ c'.counters.highest := mark ▸ le_max_word_left _ _
    refine ⟨hone', ?_, Or.inr ⟨UInt64.le_trans two_le hg, ?_⟩⟩
    · rintro f (hf | hf)
      · rcases frequencies f hf with hf | rfl
        · exact (hm.le_mark f (hheld hf)).imp id fun hle => UInt64.le_trans hle hraised
        · exact Or.inr hg
      · exact (hm.le_mark f hf).imp id fun hle => UInt64.le_trans hle hraised
    · rcases hm.reached with h0 | ⟨-, hmem⟩
      · rw [h0] at mark
        exact mark ▸ Or.inl reached
      · rcases max_word_choice c.counters.highest g with hmax | hmax
        · exact (mark.trans hmax) ▸ Or.inr hmem
        · exact (mark.trans hmax) ▸ Or.inl reached

variable [EquivBEq κ] [LawfulHashable κ]

/-- A run leaves the mark where it belongs, and the entries that are there are among those it speaks of. -/
private theorem marked_answers (capacity : Capacity) (rs : List (CountedRequest κ υ)) (hrs : rs.length < 2 ^ 64 - 1) :
    let c := (answers answer (empty capacity) rs).2
    Marked c.counters.highest (heldSinceClear capacity rs) ∧ c.frequencies ⊆ heldSinceClear capacity rs := by
  induction rs using List.reverseRecOn with
  | nil =>
    have hnone : ∀ f, f ∉ (empty capacity : FrequencyCache κ υ).frequencies := by
      intro f hf
      obtain ⟨z, hz, -⟩ := (Holds.empty capacity).mem_frequencies.1 hf
      cases hz
    rw [heldSinceClear_nil]
    exact ⟨⟨fun f hf => absurd hf (hnone f), fun f hf => absurd hf (hnone f), Or.inl rfl⟩, subset_rfl⟩
  | append_singleton rs q ih =>
    rw [List.length_append, List.length_singleton] at hrs
    have hrs' : rs.length < 2 ^ 64 - 1 := by omega
    obtain ⟨hm, hheld⟩ := ih hrs'
    intro c'
    have hsub : c'.frequencies ⊆ heldSinceClear capacity (rs ++ [q]) := fun f hf =>
      mem_heldSinceClear_append.2 (Or.inl hf)
    refine ⟨?_, hsub⟩
    have hc' : c' = ((answers answer (empty capacity) rs).2.answer q).2 :=
      congrArg Prod.snd (answers_append answer (empty capacity) rs [q])
    have hone : ∀ f ∈ c'.frequencies, 1 ≤ f := by
      have hlength : (rs ++ [q]).length < 2 ^ 64 - 1 := by simpa using hrs
      obtain ⟨-, m, ⟨L, T, hcm⟩, -⟩ := lasts_answers capacity hlength
      intro f hf
      obtain ⟨z, hz, rfl⟩ := hcm.holds.mem_frequencies.1 hf
      exact hcm.holds.one_le hz
    by_cases hq : q = .plain .clear
    · subst hq
      have hnone : heldSinceClear capacity (rs ++ [.plain .clear]) = c'.frequencies :=
        Set.ext fun f => mem_heldSinceClear_append.trans (or_iff_left fun h => h.1 rfl)
      have hempty : ∀ f, f ∉ c'.frequencies := by
        intro f hf
        rw [hc'] at hf
        obtain ⟨z, hz, -⟩ := (holds_clear _).mem_frequencies.1 hf
        cases hz
      rw [hnone, hc']
      exact ⟨fun f hf => absurd hf (hc' ▸ hempty f), fun f hf => absurd hf (hc' ▸ hempty f), Or.inl rfl⟩
    · have hunion : heldSinceClear capacity (rs ++ [q]) = c'.frequencies ∪ heldSinceClear capacity rs :=
        Set.ext fun f => mem_heldSinceClear_append.trans (or_congr_right (and_iff_right hq))
      obtain ⟨-, m, ⟨L, T, hcm⟩, hm'⟩ := lasts_answers capacity hrs'
      have hlt : ∀ z ∈ flat L, z.2.frequency.toNat + 1 < 2 ^ 64 := fun z hz => hcm.frequency_lt (by omega) hz
      have hrecords := hcm.holds.records_answer hlt hq
      rw [← hc'] at hrecords
      rw [hunion]
      exact hrecords.marked hone hm hheld

/-- After every run of fewer than `2 ^ 64 - 1` requests the report shows the mark as the highest frequency and the
lowest frequency of an entry, or 0, as the lowest.  The mark is 0 as long as no entry has come above the frequency 1
since the cache was last cleared.  From then on it is the highest frequency that an entry has had since, so no entry
has a higher one, and the lowest frequency is not above it. -/
theorem mark_is_highest_above_one (capacity : Capacity) (rs : List (CountedRequest κ υ))
    (hrs : rs.length < 2 ^ 64 - 1) :
    let c := (answers answer (empty capacity) rs).2
    let held := heldSinceClear capacity rs
    let lowest := c.lowestFrequency?.getD 0
    (c.report.Gives "max_frequency" c.counters.highest ∧ c.report.Gives "min_frequency" lowest) ∧
      (c.counters.highest = 0 ↔ ∀ f ∈ held, f = 1) ∧
      (c.counters.highest ≠ 0 →
        IsGreatest held c.counters.highest ∧
        (∀ k f, c.frequencyOf? k = some f → f ≤ c.counters.highest) ∧ lowest ≤ c.counters.highest) := by
  intro c held lowest
  obtain ⟨hmarked, hheld⟩ := marked_answers capacity rs hrs
  obtain ⟨-, m, ⟨L, T, hcm⟩, -⟩ := lasts_answers capacity hrs
  refine ⟨c.report_gives, hmarked.eq_zero_iff, ?_⟩
  intro h0
  have hgreatest : IsGreatest held c.counters.highest := hmarked.isGreatest h0
  have hle : ∀ k f, c.frequencyOf? k = some f → f ≤ c.counters.highest := fun k f hk =>
    hgreatest.2 (hheld ⟨k, hk⟩)
  refine ⟨hgreatest, hle, ?_⟩
  cases hlow : c.lowestFrequency? with
  | none =>
    have hlowest : lowest = 0 := congrArg (Option.getD · 0) hlow
    rw [hlowest]
    exact UInt64.zero_le
  | some f =>
    have hlowest : lowest = f := congrArg (Option.getD · 0) hlow
    obtain ⟨⟨k, hk⟩, -⟩ := hcm.holds.lowestFrequency?_eq_some hlow
    rw [hlowest]
    exact hle k f hk

/-- One entry that was stored and then used four times. -/
theorem mark_after_four_uses :
    let rs : List (CountedRequest Nat Nat) := .plain (.put 1 10) :: List.replicate 4 (.plain (.get 1))
    let c := (answers answer (empty ⟨2, Nat.two_pos⟩) rs).2
    rs.length < 2 ^ 64 - 1 ∧ c.counters.highest ≠ 0 ∧ 5 ≤ c.counters.highest ∧
      IsGreatest (heldSinceClear ⟨2, Nat.two_pos⟩ rs) c.counters.highest := by
  intro rs c
  have hrs : rs.length < 2 ^ 64 - 1 := by decide
  obtain ⟨-, hzero, hgreatest⟩ := mark_is_highest_above_one ⟨2, Nat.two_pos⟩ rs hrs
  obtain ⟨L, h, e, hc, -, hflat, -, hek, hf⟩ :=
    holds_lookedUp (υ := Nat) ⟨2, Nat.two_pos⟩ 1 10 (n := 4) (by norm_num)
  have hfive : e.frequency = 5 := UInt64.toNat_inj.1 hf
  have hfreq : c.frequencyOf? 1 = some 5 :=
    hc.frequencyOf?_eq_some.2 ⟨(h, e), by rw [hflat]; exact List.mem_cons_self .., hek, hfive⟩
  have hne : c.counters.highest ≠ 0 := fun h0 =>
    absurd (hzero.1 h0 5 ⟨rs, [], (List.append_nil _).symm, List.not_mem_nil, 1, hfreq⟩) (by decide)
  exact ⟨hrs, hne, (hgreatest hne).2.1 1 5 hfreq, (hgreatest hne).1⟩

/-- An entry that was stored and not used has the frequency 1.  The mark is 0 then, below the lowest frequency. -/
theorem stored_entry_is_above_mark :
    let rs : List (CountedRequest Nat Nat) := [.plain (.put 1 10)]
    let c := (answers answer (empty ⟨2, Nat.two_pos⟩) rs).2
    rs.length < 2 ^ 64 - 1 ∧ c.frequencyOf? 1 = some 1 ∧ 1 ∈ heldSinceClear ⟨2, Nat.two_pos⟩ rs ∧
      c.report.Gives "max_frequency" 0 ∧ c.report.Gives "min_frequency" 1 := by
  intro rs c
  obtain ⟨L, h, e, hc, -, hflat, -, hek, hf⟩ :=
    holds_lookedUp (υ := Nat) ⟨2, Nat.two_pos⟩ 1 10 (n := 0) (by norm_num)
  have hone : e.frequency = 1 := UInt64.toNat_inj.1 hf
  have hfreq : c.frequencyOf? 1 = some 1 :=
    hc.frequencyOf?_eq_some.2 ⟨(h, e), by rw [hflat]; exact List.mem_cons_self .., hek, hone⟩
  have hmark : c.counters.highest = 0 := (Holds.empty ⟨2, Nat.two_pos⟩).highest_put_new Std.HashMap.getElem?_empty 10
  have hlowest : c.lowestFrequency? = some 1 := by
    cases hlow : c.lowestFrequency? with
    | none =>
      have hlength := hc.lowestFrequency?_eq_none.1 hlow
      rw [hc.length, hflat] at hlength
      cases hlength
    | some f =>
      obtain ⟨⟨k, hk⟩, -⟩ := hc.lowestFrequency?_eq_some hlow
      obtain ⟨z, hz, -, rfl⟩ := hc.frequencyOf?_eq_some.1 hk
      rw [hflat, List.mem_singleton] at hz
      rw [hz, hone]
  obtain ⟨hmax, hmin⟩ := c.report_gives
  rw [hmark] at hmax
  rw [hlowest] at hmin
  exact ⟨by decide, hfreq, ⟨rs, [], (List.append_nil _).symm, List.not_mem_nil, 1, hfreq⟩, hmax, hmin⟩

end FrequencyCache

end Caching
