import Caching.Proofs.Bounded.Layers
import Caching.Proofs.Bounded.Request

/-!
# The invariant of a cache in order of frequency

Between two operations no entry is loose, no bucket is empty and every entry carries the frequency of its bucket
(`Layer.Tidy`); the index leads to the entries, which are no more than the capacity (`FrequencyCache.Holds`).

Read from layer to layer the entries form one list in increasing frequency.  A use takes an entry out of this list
and puts it back behind the entries of its new frequency (`Laid.promote`); an insertion does the latter
(`Laid.add`), an eviction or a removal the former (`Laid.takeOut`).
-/

namespace Caching

open Linked

/-- The layer has entries, and they carry its frequency, which is not 0. -/
structure Layer.Tidy {κ υ : Type} (x : Layer κ υ) : Prop where
  filled : x.entries ≠ []
  frequency : ∀ z ∈ x.entries, z.2.frequency = x.frequency
  positive : 1 ≤ x.frequency

/-- What holds of the frequencies of tidy layers holds of those of the entries. -/
theorem Layer.forall_mem_flat {κ υ : Type} {L : List (Layer κ υ)} (ht : ∀ x ∈ L, x.Tidy) {p : UInt64 → Prop}
    (hp : ∀ x ∈ L, p x.frequency) : ∀ z ∈ flat L, p z.2.frequency := by
  intro z hz
  obtain ⟨x, hx, hzx⟩ := mem_flat.1 hz
  rw [(ht x hx).frequency z hzx]
  exact hp x hx

/-- The entry after one more use. -/
def Entry.used {κ υ : Type} (e : Entry κ υ) : Entry κ υ := { e with frequency := frequencyAfter e.frequency }

theorem toNat_frequencyAfter {f : UInt64} (hf : f.toNat + 1 < 2 ^ 64) :
    (frequencyAfter f).toNat = f.toNat + 1 := by
  have hsucc : (f + 1).toNat = f.toNat + 1 := by
    rw [UInt64.toNat_add]
    exact Nat.mod_eq_of_lt hf
  have hne : f + 1 ≠ 0 := by
    intro h0
    rw [h0] at hsucc
    exact absurd hsucc (by simp)
  rw [frequencyAfter, if_neg hne, hsucc]

theorem frequencyAfter_of_largest {f : UInt64} (hf : ¬ f.toNat + 1 < 2 ^ 64) : frequencyAfter f = f := by
  have hlt := f.toNat_lt
  rw [frequencyAfter, if_pos]
  rw [← UInt64.toNat_inj, UInt64.toNat_add, show f.toNat = 2 ^ 64 - 1 by omega]
  rfl

/-- A use finds a bucket to move the entry to: that of a higher frequency, or its own if others stay there. -/
def Entry.Movable {κ υ : Type} (e : Entry κ υ) (others : List (Handle × Entry κ υ)) : Prop :=
  e.frequency.toNat + 1 < 2 ^ 64 ∨ ∃ z ∈ others, z.2.frequency = e.frequency

/-- An entry put into a list behind all entries up to its frequency and before all of a higher one. -/
def PlacedIn {κ υ : Type} (z : Handle × Entry κ υ) (l l' : List (Handle × Entry κ υ)) : Prop :=
  ∃ l₁ l₂, l = l₁ ++ l₂ ∧ l' = l₁ ++ z :: l₂ ∧
    (∀ y ∈ l₁, y.2.frequency ≤ z.2.frequency) ∧ ∀ y ∈ l₂, z.2.frequency < y.2.frequency

theorem PlacedIn.perm {κ υ : Type} {z : Handle × Entry κ υ} {l l' : List (Handle × Entry κ υ)}
    (hp : PlacedIn z l l') : l'.Perm (z :: l) := by
  obtain ⟨l₁, l₂, rfl, rfl, -⟩ := hp
  exact List.perm_middle

namespace Layer.Opens

variable {κ υ : Type} {f : UInt64} {L L' : List (Layer κ υ)} {z : Layer κ υ} {h : Handle} {e : Entry κ υ}

private theorem entries_frequency (ho : Opens f L z L') (ht : ∀ y ∈ L, y.Tidy) :
    ∀ w ∈ z.entries, w.2.frequency = f := by
  intro w hw
  rcases ho.found with hz | hz
  · rw [(ht z hz).frequency w hw, ho.frequency]
  · rw [hz] at hw
    cases hw

/-- The layer stays tidy, or becomes it, when an entry of its frequency joins it. -/
private theorem tidy_joined (ho : Opens f L z L') (ht : ∀ y ∈ L, y.Tidy) (hf : 1 ≤ f) (he : e.frequency = f)
    {bucket : Bucket} (hb : bucket.frequency = z.frequency) :
    ∀ y ∈ (⟨z.handle, bucket, z.entries ++ [(h, e)]⟩ : Layer κ υ) :: L', y.Tidy := by
  have hfreq : bucket.frequency = f := hb.trans ho.frequency
  rw [List.forall_mem_cons]
  refine ⟨⟨by simp, ?_, ?_⟩, fun y hy => ht y (ho.rest hy)⟩
  · show ∀ w ∈ z.entries ++ [(h, e)], w.2.frequency = bucket.frequency
    rw [hfreq, List.forall_mem_append, List.forall_mem_singleton]
    exact ⟨ho.entries_frequency ht, he⟩
  · show 1 ≤ bucket.frequency
    rw [hfreq]
    exact hf

/-- The entry that joins it stands behind all of its frequency. -/
private theorem placedIn (ho : Opens f L z L') (ht : ∀ y ∈ L, y.Tidy) (he : e.frequency = f)
    {l : List (Handle × Entry κ υ)} (hl : ∀ w ∈ l, w.2.frequency ≤ f) :
    PlacedIn (h, e) (l ++ Layer.flat L) (l ++ (z.entries ++ [(h, e)] ++ Layer.flat L')) := by
  refine ⟨l ++ z.entries, Layer.flat L', ?_, by simp, ?_, ?_⟩
  · rw [List.append_assoc, ho.flat]
  · rw [he, List.forall_mem_append]
    refine ⟨hl, ?_⟩
    intro w hw
    rw [ho.entries_frequency ht w hw]
    exact UInt64.le_refl _
  · rw [he]
    exact Layer.forall_mem_flat (p := (f < ·)) (fun y hy => ht y (ho.rest hy)) ho.above

end Layer.Opens

namespace FrequencyCache

open Layer (flat Tidy)

variable {κ υ : Type} [BEq κ] [Hashable κ] {c : FrequencyCache κ υ} {A B L : List (Layer κ υ)} {x : Layer κ υ}
  {h : Handle} {e : Entry κ υ} {k : κ} {l r : List (Handle × Entry κ υ)}

/-! ### The three changes of the list -/

/-- At the largest frequency the bucket that the entry leaves is the one that it joins. -/
theorem promote_of_largest {b : Handle} (hget : c.entries.get? h = some e)
    (hb : c.byFrequency[e.frequency]? = some b) (hf : frequencyAfter e.frequency = e.frequency) :
    c.promote h =
      let c₁ := (c.leaveBucket b h).joinBucket b h
      { c₁ with
        entries := c₁.entries.modifyValue h fun e' => { e' with frequency := frequencyAfter e.frequency }
        counters := c₁.counters.increment (frequencyAfter e.frequency) } := by
  simp only [promote, bucketAfter, hget, hb, hf]

namespace Laid

/-- The layers before and after a layer. -/
private theorem below_above (hc : c.Laid (A ++ x :: B) []) :
    (∀ y ∈ A, y.frequency < x.frequency) ∧ ∀ y ∈ B, x.frequency < y.frequency := by
  have hinc := hc.increasing
  simp only [List.map_append, List.map_cons, List.pairwise_append, List.pairwise_cons, List.mem_map,
    List.mem_cons, forall_exists_index, and_imp, forall_apply_eq_imp_iff₂, forall_eq_or_imp] at hinc
  exact ⟨fun y hy => (hinc.2.2 y hy).1, hinc.2.1.1⟩

/-- No layer lies between that of an entry and that of its next frequency. -/
theorem next_between (hc : c.Laid (A ++ x :: B) []) (hx : x.frequency = e.frequency)
    (hf : e.frequency.toNat + 1 < 2 ^ 64) :
    x.frequency < frequencyAfter e.frequency ∧ ∀ y ∈ B, frequencyAfter e.frequency ≤ y.frequency := by
  have hnext : (frequencyAfter e.frequency).toNat = e.frequency.toNat + 1 := toNat_frequencyAfter hf
  constructor
  · rw [hx, UInt64.lt_iff_toNat_lt, hnext]
    omega
  · intro y hy
    have hxy := hc.below_above.2 y hy
    rw [hx, UInt64.lt_iff_toNat_lt] at hxy
    rw [UInt64.le_iff_toNat_le, hnext]
    exact hxy

/-- The layer of an entry, with what comes before and after the entry. -/
theorem split (hc : c.Laid L []) (ht : ∀ x ∈ L, x.Tidy) (hflat : flat L = l ++ (h, e) :: r) :
    ∃ A x B l' r', L = A ++ x :: B ∧ x.entries = l' ++ (h, e) :: r' ∧ l = flat A ++ l' ∧ r = r' ++ flat B ∧
      x.frequency = e.frequency ∧ c.byFrequency[e.frequency]? = some x.handle := by
  have hz : (h, e) ∈ flat L := by simp [hflat]
  obtain ⟨x, hx, hzx⟩ := Layer.mem_flat.1 hz
  obtain ⟨A, B, rfl⟩ := List.append_of_mem hx
  obtain ⟨l', r', hxe⟩ := List.append_of_mem hzx
  have hf : x.frequency = e.frequency := ((ht x hx).frequency _ hzx).symm
  -- the entry stands in one place only
  have hnd := hc.entries.nodup.of_map
  rw [List.nil_append, hflat, List.nodup_middle, List.nodup_cons, List.mem_append, not_or] at hnd
  have heq : l ++ (h, e) :: r = (flat A ++ l') ++ (h, e) :: (r' ++ flat B) := by
    rw [← hflat]
    simp [hxe]
  obtain ⟨rfl, -, rfl⟩ := (List.append_cons_inj_of_notMem hnd.1.1 hnd.1.2).1 heq
  exact ⟨A, x, B, l', r', rfl, hxe, rfl, rfl, hf, hf ▸ hc.byFrequency? hx⟩

omit [BEq κ] [Hashable κ] in
/-- What stays of a tidy layer when an entry leaves it. -/
private theorem tidy_rest {X : List (Layer κ υ)} (hx : x.Tidy) (hxe : x.entries = l ++ (h, e) :: r)
    (hflat : flat X = l ++ r) (hX : ∀ y ∈ X, y.frequency = x.frequency ∧ y.entries ≠ []) :
    ∀ y ∈ X, y.Tidy := by
  intro y hy
  obtain ⟨hf, hne⟩ := hX y hy
  refine ⟨hne, ?_, hf ▸ hx.positive⟩
  intro z hz
  have hzx : z ∈ l ++ r := hflat ▸ Layer.mem_flat.2 ⟨y, hy, hz⟩
  rw [hf]
  apply hx.frequency
  rw [hxe]
  simp only [List.mem_append, List.mem_cons] at hzx ⊢
  tauto

/-- An entry leaves its bucket and then the pool. -/
theorem takeOut (hc : c.Laid (A ++ x :: B) []) (ht : ∀ y ∈ A ++ x :: B, y.Tidy)
    (hx : x.entries = l ++ (h, e) :: r) :
    let c' := c.leaveBucket x.handle h
    (c'.entries.erase h).1 = some e ∧ ∃ L', Laid { c' with entries := (c'.entries.erase h).2 } L' [] ∧
      (∀ y ∈ L', y.Tidy) ∧ flat L' = flat A ++ l ++ (r ++ flat B) := by
  intro c'
  obtain ⟨X, hlaid, hflat, hX⟩ := hc.leaveBucket hx
  obtain ⟨herase, hlaid'⟩ := hlaid.eraseEntry
  rw [List.forall_mem_append, List.forall_mem_cons] at ht
  refine ⟨herase, _, hlaid', ?_, ?_⟩
  · rw [List.forall_mem_append, List.forall_mem_append]
    exact ⟨⟨ht.1, tidy_rest ht.2.1 hx hflat hX⟩, ht.2.2⟩
  · simp only [Layer.flat_append, hflat, List.append_assoc]

/-- An entry whose frequency rises goes to the next layer, found or new. -/
private theorem promote_up (hc : c.Laid L []) (ht : ∀ x ∈ L, x.Tidy) (hflatL : flat L = l ++ (h, e) :: r)
    (hf : e.frequency.toNat + 1 < 2 ^ 64) :
    ∃ L', (c.promote h).Laid L' [] ∧ (∀ x ∈ L', x.Tidy) ∧ PlacedIn (h, e.used) (l ++ r) (flat L') := by
  have hget := (hc.entries.get? h e).2 (by simp [hflatL])
  obtain ⟨A, x, B, l, r, rfl, hxe, rfl, rfl, hxf, hb⟩ := hc.split ht hflatL
  obtain ⟨hbelow, -⟩ := hc.below_above
  obtain ⟨hlt, hB⟩ := hc.next_between hxf hf
  -- the next bucket is there before the old one can go
  obtain ⟨z, B', hopens, hfst, hc₁⟩ := hc.bucketAfter hlt hB
  have hres : c.promote h =
      let c₃ := ((c.bucketAfter x.handle (frequencyAfter e.frequency)).2.leaveBucket x.handle h).joinBucket
        z.handle h
      { c₃ with
        entries := c₃.entries.modifyValue h fun e' => { e' with frequency := frequencyAfter e.frequency }
        counters := c₃.counters.increment (frequencyAfter e.frequency) } := by
    simp only [FrequencyCache.promote, hget, hb, hfst]
  obtain ⟨X, hc₂, hX, hXf⟩ := hc₁.leaveBucket hxe
  obtain ⟨bucket, hbucket, hc₃⟩ := hc₂.joinBucket
  have hc₄ := (hc₃.setEntry (r := []) fun e' => { e' with frequency := frequencyAfter e.frequency }).front
  rw [List.forall_mem_append, List.forall_mem_cons] at ht
  obtain ⟨htA, htx, htB⟩ := ht
  refine ⟨A ++ X ++ ⟨z.handle, bucket, z.entries ++ [(h, e.used)]⟩ :: B', ?_, ?_, ?_⟩
  · rw [hres]
    exact hc₄ _ _ _
  · have hpos : 1 ≤ frequencyAfter e.frequency := by
      rw [UInt64.le_iff_toNat_le, toNat_frequencyAfter hf]
      exact Nat.succ_le_succ (Nat.zero_le _)
    rw [List.forall_mem_append, List.forall_mem_append]
    exact ⟨⟨htA, tidy_rest htx hxe hX hXf⟩, hopens.tidy_joined htB hpos rfl hbucket⟩
  · -- all that comes before the layer of the new frequency has a lower one
    have hle : ∀ y ∈ A ++ [x], y.frequency ≤ frequencyAfter e.frequency := by
      rw [List.forall_mem_append, List.forall_mem_singleton]
      exact ⟨fun y hy => UInt64.le_of_lt (UInt64.lt_trans (hbelow y hy) hlt), UInt64.le_of_lt hlt⟩
    have hAx := Layer.forall_mem_flat (p := (· ≤ frequencyAfter e.frequency))
      (List.forall_mem_append.2 ⟨htA, List.forall_mem_singleton.2 htx⟩) hle
    have hplaced := hopens.placedIn (h := h) (e := e.used) htB rfl (l := flat A ++ l ++ r) (by
      simp only [Layer.flat_append, Layer.flat_cons, Layer.flat_nil, hxe, List.append_nil,
        List.forall_mem_append, List.forall_mem_cons] at hAx ⊢
      exact ⟨⟨hAx.1, hAx.2.1⟩, hAx.2.2.2⟩)
    simpa [hX] using hplaced

/-- An entry of the largest frequency goes to the end of its own layer, if others keep the layer there. -/
private theorem promote_within (hc : c.Laid L []) (ht : ∀ x ∈ L, x.Tidy) (hflatL : flat L = l ++ (h, e) :: r)
    (hf : frequencyAfter e.frequency = e.frequency) (hothers : ∃ z ∈ l ++ r, z.2.frequency = e.frequency) :
    ∃ L', (c.promote h).Laid L' [] ∧ (∀ x ∈ L', x.Tidy) ∧ PlacedIn (h, e.used) (l ++ r) (flat L') := by
  have hget := (hc.entries.get? h e).2 (by simp [hflatL])
  obtain ⟨A, x, B, l, r, rfl, hxe, rfl, rfl, hxf, hb⟩ := hc.split ht hflatL
  obtain ⟨hbelow, habove⟩ := hc.below_above
  rw [List.forall_mem_append, List.forall_mem_cons] at ht
  obtain ⟨htA, htx, htB⟩ := ht
  have hA := Layer.forall_mem_flat (p := (· < x.frequency)) htA hbelow
  have hB := Layer.forall_mem_flat (p := (x.frequency < ·)) htB habove
  have hx : ∀ z ∈ l ++ r, z.2.frequency = x.frequency := by
    intro z hz
    apply htx.frequency
    rw [hxe]
    exact List.perm_middle.mem_iff.2 (List.mem_cons_of_mem _ hz)
  -- the others of its frequency are of its layer
  have hne : l ++ r ≠ [] := by
    rintro hnil
    obtain ⟨rfl, rfl⟩ := List.append_eq_nil_iff.1 hnil
    obtain ⟨z, hz, hzf⟩ := hothers
    rw [List.append_nil, List.nil_append, ← hxf] at *
    rcases List.mem_append.1 hz with hz | hz
    · exact UInt64.ne_of_lt (hA z hz) hzf
    · exact UInt64.ne_of_lt (hB z hz) hzf.symm
  obtain ⟨b₁, hb₁, hc₁⟩ := hc.leaveBucket_shared hxe hne
  obtain ⟨b₂, hb₂, hc₂⟩ := hc₁.joinBucket
  have hc₃ := (hc₂.setEntry (r := []) fun e' => { e' with frequency := frequencyAfter e.frequency }).front
  have hbx : b₂.frequency = x.frequency := hb₂.trans hb₁
  refine ⟨A ++ ⟨x.handle, b₂, l ++ r ++ [(h, e.used)]⟩ :: B, ?_, ?_, ?_⟩
  · rw [promote_of_largest hget hb hf]
    exact hc₃ _ _ _
  · rw [List.forall_mem_append, List.forall_mem_cons]
    refine ⟨htA, ⟨by simp, ?_, ?_⟩, htB⟩
    · show ∀ w ∈ l ++ r ++ [(h, e.used)], w.2.frequency = b₂.frequency
      rw [hbx, List.forall_mem_append, List.forall_mem_singleton]
      exact ⟨hx, hf.trans hxf.symm⟩
    · show 1 ≤ b₂.frequency
      rw [hbx]
      exact htx.positive
  · have hused : e.used.frequency = x.frequency := hf.trans hxf.symm
    refine ⟨flat A ++ (l ++ r), flat B, by simp, by simp, ?_, ?_⟩
    · rw [hused, List.forall_mem_append]
      exact ⟨fun w hw => UInt64.le_of_lt (hA w hw), fun w hw => UInt64.le_of_eq (hx w hw)⟩
    · rw [hused]
      exact hB

/-- A use takes an entry out of the list and puts it back behind those of its new frequency. -/
theorem promote (hc : c.Laid L []) (ht : ∀ x ∈ L, x.Tidy) (hflatL : flat L = l ++ (h, e) :: r)
    (hf : e.Movable (l ++ r)) :
    ∃ L', (c.promote h).Laid L' [] ∧ (∀ x ∈ L', x.Tidy) ∧ PlacedIn (h, e.used) (l ++ r) (flat L') := by
  by_cases hlt : e.frequency.toNat + 1 < 2 ^ 64
  · exact hc.promote_up ht hflatL hlt
  · exact hc.promote_within ht hflatL (frequencyAfter_of_largest hlt) (hf.resolve_left hlt)

/-- A new entry of frequency 1 is put in behind those of frequency 1. -/
theorem add (hc : c.Laid L []) (ht : ∀ x ∈ L, x.Tidy) (he : e.frequency = 1) :
    let c₁ := c.firstBucket.2
    ∃ L', ({ c₁ with entries := (c₁.entries.insert e).2 }.joinBucket c.firstBucket.1
        (c₁.entries.insert e).1).Laid L' [] ∧
      (∀ x ∈ L', x.Tidy) ∧ PlacedIn ((c₁.entries.insert e).1, e) (flat L) (flat L') := by
  intro c₁
  obtain ⟨z, L', hopens, hfst, hc₁⟩ := hc.firstBucket fun y hy => (ht y hy).positive
  obtain ⟨hfresh, hc₂⟩ := hc₁.insertEntry e
  rw [← hfresh] at hc₂
  obtain ⟨bucket, hbucket, hc₃⟩ := hc₂.joinBucket (A := [])
  refine ⟨⟨z.handle, bucket, z.entries ++ [((c₁.entries.insert e).1, e)]⟩ :: L', ?_,
    hopens.tidy_joined ht (UInt64.le_refl _) he hbucket, hopens.placedIn ht he (l := []) (by simp)⟩
  rw [hfst]
  exact hc₃

end Laid

/-! ### The invariant -/

/-- The cache is made of these tidy layers, and the index leads to their entries. -/
structure Holds (c : FrequencyCache κ υ) (L : List (Layer κ υ)) : Prop where
  laid : c.Laid L []
  tidy : ∀ x ∈ L, x.Tidy
  index : Indexes c.index Entry.key (flat L)
  length_le : (flat L).length ≤ c.capacity.size

theorem index_promote (c : FrequencyCache κ υ) (h : Handle) :
    (c.promote h).index = c.index ∧ (c.promote h).capacity = c.capacity := by
  unfold promote
  split
  · exact ⟨rfl, rfl⟩
  · next frequency _ =>
    split
    · exact ⟨rfl, rfl⟩
    · next current _ =>
      have hfront := ((c.sameFront_bucketAfter current (frequencyAfter frequency)).trans
        (sameFront_leaveBucket _ current h)).trans
          (sameFront_joinBucket _ (c.bucketAfter current (frequencyAfter frequency)).1 h)
      exact ⟨hfront.index, hfront.capacity⟩

/-- What an insertion does once there is room. -/
def insertNew (c : FrequencyCache κ υ) (k : κ) (v : υ) : FrequencyCache κ υ :=
  let (b, c) := c.firstBucket
  let (h, entries) := c.entries.insert { key := k, value := v, frequency := 1 }
  let c := { c with entries }.joinBucket b h
  { c with index := c.index.insert k h }.count .insertion

theorem put_of_absent (hk : c.index[k]? = none) (v : υ) :
    c.put k v = if c.capacity.size ≤ c.length then (none, c.evict.1, c.evict.2.insertNew k v)
      else (none, none, c.insertNew k v) := by
  simp only [put, hk]
  split <;> rfl

theorem putIfAbsent_of_absent (hk : c.index[k]? = none) (v : υ) :
    c.putIfAbsent k v = (c.count .miss).put k v := by
  simp only [putIfAbsent, get, hk]

theorem putIfAbsent_of_get {w : υ} (hw : (c.get k).1 = some w) (v : υ) :
    c.putIfAbsent k v = (some w, none, (c.get k).2) := by
  unfold putIfAbsent
  generalize c.get k = x at hw
  obtain ⟨w?, c'⟩ := x
  obtain rfl : w? = some w := hw
  rfl

/-! Nothing changes the capacity. -/

private theorem capacity_evict (c : FrequencyCache κ υ) : c.evict.2.capacity = c.capacity := by
  unfold evict
  split
  · rfl
  · next b _ =>
    split
    · rfl
    · next h _ =>
      dsimp only
      split <;> exact (sameFront_leaveBucket c b h).capacity

theorem capacity_get (c : FrequencyCache κ υ) (k : κ) : (c.get k).2.capacity = c.capacity := by
  unfold FrequencyCache.get
  split
  · rfl
  · exact (index_promote _ _).2

private theorem capacity_insertNew (c : FrequencyCache κ υ) (k : κ) (v : υ) :
    (c.insertNew k v).capacity = c.capacity :=
  (c.sameFront_firstBucket.trans ((sameFront_setEntries _ _).trans (sameFront_joinBucket _ _ _))).capacity

theorem capacity_put (c : FrequencyCache κ υ) (k : κ) (v : υ) : (c.put k v).2.2.capacity = c.capacity := by
  cases hk : c.index[k]? with
  | some h =>
    simp only [put, hk]
    exact (index_promote _ _).2
  | none =>
    rw [put_of_absent hk]
    split
    · exact (capacity_insertNew _ k v).trans c.capacity_evict
    · exact c.capacity_insertNew k v

theorem capacity_putIfAbsent (c : FrequencyCache κ υ) (k : κ) (v : υ) :
    (c.putIfAbsent k v).2.2.capacity = c.capacity := by
  have hget := c.capacity_get k
  unfold putIfAbsent
  generalize c.get k = x at hget
  obtain ⟨_ | w, c'⟩ := x
  · exact (c'.capacity_put k v).trans hget
  · exact hget

theorem capacity_remove (c : FrequencyCache κ υ) (k : κ) : (c.remove k).2.capacity = c.capacity := by
  cases hk : c.index[k]? with
  | none => simp only [remove, hk]
  | some h =>
    cases he : c.entries.get? h with
    | none => simp only [remove, hk, he]
    | some e =>
      cases hb : c.byFrequency[e.frequency]? with
      | none =>
        simp only [remove, hk, he, hb]
        split <;> rfl
      | some b =>
        have hcap := (sameFront_leaveBucket { c with index := c.index.erase k } b h).capacity
        simp only [remove, hk, he, hb]
        split <;> exact hcap

namespace Holds

theorem empty (capacity : Capacity) : (FrequencyCache.empty capacity : FrequencyCache κ υ).Holds [] where
  laid := .empty capacity
  tidy x hx := by cases hx
  index := .empty _
  length_le := Nat.zero_le _

theorem setCounters (hc : c.Holds L) (counters : FrequencyCounters) : Holds { c with counters } L :=
  ⟨hc.laid.front _ _ _, hc.tidy, hc.index, hc.length_le⟩

theorem length (hc : c.Holds L) : c.length = (flat L).length := hc.index.size

theorem ne_nil_of_full (hc : c.Holds L) (hfull : c.capacity.size ≤ c.length) : flat L ≠ [] := by
  have hpos := c.capacity.size_pos
  rw [hc.length] at hfull
  exact List.ne_nil_of_length_pos (by omega)

theorem keys (hc : c.Holds L) : c.keys = (flat L).map fun z => z.2.key := by
  rw [FrequencyCache.keys, hc.laid.toList, List.map_map]
  rfl

theorem contains_iff [EquivBEq κ] [LawfulHashable κ] (hc : c.Holds L) :
    c.contains k = true ↔ ∃ i ∈ c.keys, (i == k) = true := by
  rw [hc.keys, FrequencyCache.contains, hc.index.contains_iff]
  simp only [List.mem_map, exists_exists_and_eq_and]

/-- The entry that a key leads to. -/
theorem lookup (hc : c.Holds L) (hk : c.index[k]? = some h) :
    ∃ e l r, flat L = l ++ (h, e) :: r ∧ (e.key == k) = true ∧ c.entries.get? h = some e := by
  obtain ⟨e, l, r, hflat, hek⟩ := hc.index.split hk
  exact ⟨e, l, r, hflat, hek, (hc.laid.entries.get? h e).2 (by simp [hflat])⟩

/-- The entry of a handle after a use. -/
private theorem get?_placed {L' : List (Layer κ υ)} (hc : c.Holds L') (hp : PlacedIn (h, e) l (flat L')) :
    c.entries.get? h = some e := by
  rw [hc.laid.entries.get?, List.nil_append, hp.perm.mem_iff]
  exact List.mem_cons_self ..

variable [EquivBEq κ]

/-- A value changes where it lies. -/
theorem setValue (hc : c.Holds L) (hflat : flat L = l ++ (h, e) :: r) (v : υ) :
    ∃ L', flat L' = l ++ (h, { e with value := v }) :: r ∧
      Holds { c with entries := c.entries.modifyValue h fun e => { e with value := v } } L' := by
  obtain ⟨A, ⟨b, bucket, entries⟩, B, l, r, rfl, hxe, rfl, rfl, -⟩ := hc.laid.split hc.tidy hflat
  obtain rfl : entries = l ++ (h, e) :: r := hxe
  have hflat' : flat (A ++ ⟨b, bucket, l ++ (h, { e with value := v }) :: r⟩ :: B) =
      flat A ++ l ++ (h, { e with value := v }) :: (r ++ flat B) := by simp
  have htidy := hc.tidy
  refine ⟨_, hflat', hc.laid.setEntry _, ?_, ?_, ?_⟩
  · rw [List.forall_mem_append, List.forall_mem_cons] at htidy ⊢
    refine ⟨htidy.1, ⟨by simp, ?_, htidy.2.1.positive⟩, htidy.2.2⟩
    have hf := htidy.2.1.frequency
    simp only [List.forall_mem_append, List.forall_mem_cons] at hf ⊢
    exact hf
  · have hi := hc.index
    rw [hflat] at hi
    rw [hflat']
    exact hi.set_middle rfl
  · have hle := hc.length_le
    rw [hflat] at hle
    rw [hflat']
    simpa using hle

theorem promote (hc : c.Holds L) (hflat : flat L = l ++ (h, e) :: r) (hf : e.Movable (l ++ r)) :
    ∃ L', (c.promote h).Holds L' ∧ PlacedIn (h, e.used) (l ++ r) (flat L') := by
  obtain ⟨L', hlaid, htidy, hplaced⟩ := hc.laid.promote hc.tidy hflat hf
  obtain ⟨hindex, hcap⟩ := c.index_promote h
  have hi := hc.index
  have hle := hc.length_le
  rw [hflat] at hi hle
  have hset : Indexes c.index Entry.key ((h, e.used) :: (l ++ r)) := (hi.perm List.perm_middle).set rfl
  refine ⟨L', ⟨hlaid, htidy, ?_, ?_⟩, hplaced⟩
  · rw [hindex]
    exact hset.perm hplaced.perm.symm
  · rw [hcap, hplaced.perm.length_eq]
    rwa [List.perm_middle.length_eq] at hle

/-! ### The operations -/

theorem get_hit (hc : c.Holds L) (hk : c.index[k]? = some h) (hflat : flat L = l ++ (h, e) :: r)
    (hf : e.Movable (l ++ r)) :
    (c.get k).1 = some e.value ∧ ∃ L', (c.get k).2.Holds L' ∧ PlacedIn (h, e.used) (l ++ r) (flat L') := by
  have hcount : (c.count .hit).Holds L := hc.setCounters _
  obtain ⟨L', hc', hplaced⟩ := hcount.promote hflat hf
  simp only [FrequencyCache.get, hk]
  refine ⟨?_, L', hc', hplaced⟩
  rw [hc'.get?_placed hplaced]
  rfl

theorem put_hit (hc : c.Holds L) (hk : c.index[k]? = some h) (hflat : flat L = l ++ (h, e) :: r)
    (hf : e.Movable (l ++ r)) (v : υ) :
    (c.put k v).1 = some e.value ∧ (c.put k v).2.1 = none ∧
      ∃ L', (c.put k v).2.2.Holds L' ∧ PlacedIn (h, { e with value := v }.used) (l ++ r) (flat L') := by
  have hget : c.entries.get? h = some e := (hc.laid.entries.get? h e).2 (by simp [hflat])
  obtain ⟨L₁, hflat₁, hc₁⟩ := hc.setValue hflat v
  obtain ⟨L', hc', hplaced⟩ := (hc₁.setCounters (c.count .update).counters).promote hflat₁ hf
  simp only [FrequencyCache.put, hk, hget]
  exact ⟨rfl, trivial, L', hc', hplaced⟩

variable [LawfulHashable κ]

/-- An entry leaves its bucket, the pool and the index. -/
private theorem takeOut (hc : c.Holds L) (hflat : flat L = l ++ (h, e) :: r) (hk : (e.key == k) = true)
    (index : Std.HashMap κ Handle) (counters : FrequencyCounters) :
    ∃ b, c.byFrequency[e.frequency]? = some b ∧
      let c' := { c with index }.leaveBucket b h
      (c'.entries.erase h).1 = some e ∧ ∃ L', flat L' = l ++ r ∧
        Holds { c' with entries := (c'.entries.erase h).2, index := c.index.erase k, counters } L' := by
  obtain ⟨A, x, B, l, r, rfl, hxe, rfl, rfl, -, hb⟩ := hc.laid.split hc.tidy hflat
  have hlaid := hc.laid.front c.capacity index c.counters
  obtain ⟨herase, L', hlaid', htidy, hflat'⟩ := hlaid.takeOut hc.tidy hxe
  have hi := hc.index
  have hle := hc.length_le
  rw [hflat] at hi hle
  refine ⟨x.handle, hb, herase, L', hflat', hlaid'.front _ _ _, htidy, ?_, ?_⟩
  · rw [hflat']
    exact (hi.perm List.perm_middle).erase hk
  · rw [hflat', (sameFront_leaveBucket { c with index } x.handle h).capacity]
    rw [List.perm_middle.length_eq] at hle
    exact Nat.le_of_succ_le hle

theorem remove_hit (hc : c.Holds L) (hk : c.index[k]? = some h) (hflat : flat L = l ++ (h, e) :: r)
    (hek : (e.key == k) = true) :
    (c.remove k).1 = some e.value ∧ ∃ L', (c.remove k).2.Holds L' ∧ flat L' = l ++ r := by
  have hget : c.entries.get? h = some e := (hc.laid.entries.get? h e).2 (by simp [hflat])
  obtain ⟨b, hb, herase, L', hflat', hc'⟩ := hc.takeOut hflat hek (c.index.erase k) (c.count .removal).counters
  have hfront := sameFront_leaveBucket { c with index := c.index.erase k } b h
  simp only [FrequencyCache.remove, hk, hget, hb]
  generalize FrequencyCache.leaveBucket { c with index := c.index.erase k } b h = c₁ at herase hc' hfront
  obtain ⟨hcap, hindex, hcounters⟩ := hfront
  generalize c₁.entries.erase h = x at herase hc'
  obtain ⟨e?, entries⟩ := x
  obtain rfl : e? = some e := herase
  refine ⟨rfl, L', ?_, hflat'⟩
  dsimp only [FrequencyCache.count]
  rw [hcounters, hindex]
  exact hc'

/-- An eviction takes the first entry, and of the index what leads to it. -/
theorem evict (hc : c.Holds L) (hL : flat L ≠ []) :
    ∃ h e r, flat L = (h, e) :: r ∧
      c.evict.1 = some { policy := .lfu, frequency? := some e.frequency, remaining := r.length } ∧
      c.evict.2.capacity = c.capacity ∧ c.evict.2.index = c.index.erase e.key ∧
      ∃ L', c.evict.2.Holds L' ∧ flat L' = r := by
  cases L with
  | nil => exact absurd rfl hL
  | cons x B =>
    obtain ⟨⟨h, e⟩, r, hxe⟩ := List.exists_cons_of_ne_nil (hc.tidy x (List.mem_cons_self ..)).filled
    have hflat : flat (x :: B) = [] ++ (h, e) :: (r ++ flat B) := by simp [hxe]
    obtain ⟨b, hb, herase, L', hflat', hc'⟩ := hc.takeOut hflat BEq.rfl c.index (c.count .eviction).counters
    -- the first bucket is the one that the frequency of its first entry leads to
    have hxb : b = x.handle := by
      have hx := hc.laid.byFrequency? (List.mem_cons_self ..)
      rw [← (hc.tidy x (List.mem_cons_self ..)).frequency (h, e) (by simp [hxe]), hb] at hx
      exact Option.some_inj.1 hx
    subst hxb
    have hfirst : c.chain.first? = some x.handle := hc.laid.buckets.lists.first
    have hentry : x.bucket.entries.first? = some h := by
      rw [(hc.laid.lists x (List.mem_cons_self ..)).first, hxe]
      rfl
    have hfront := sameFront_leaveBucket c x.handle h
    have hsize : (c.index.erase e.key).size = (r ++ flat B).length := by
      rw [← List.nil_append (r ++ flat B), ← hflat']
      exact hc'.index.size
    refine ⟨h, e, r ++ flat B, hflat, ?_⟩
    simp only [FrequencyCache.evict, hfirst, hc.laid.bucket? (List.mem_cons_self ..), Option.bind_some, hentry]
    generalize FrequencyCache.leaveBucket c x.handle h = c₁ at herase hc' hfront
    obtain ⟨hcap, hindex, hcounters⟩ := hfront
    generalize c₁.entries.erase h = y at herase hc'
    obtain ⟨e?, entries⟩ := y
    obtain rfl : e? = some e := herase
    dsimp only [FrequencyCache.count]
    rw [hindex, hcounters, hsize]
    exact ⟨rfl, hcap, rfl, L', hc', hflat'⟩

/-- A new entry, for which there is room. -/
private theorem insertNew (hc : c.Holds L) (hk : c.index[k]? = none) (hlen : (flat L).length < c.capacity.size)
    (v : υ) :
    ∃ h L', (c.insertNew k v).Holds L' ∧
      PlacedIn (h, { key := k, value := v, frequency := 1 }) (flat L) (flat L') := by
  obtain ⟨L', hlaid, htidy, hplaced⟩ := hc.laid.add hc.tidy (e := { key := k, value := v, frequency := 1 }) rfl
  have hfront : c.SameFront ({ c.firstBucket.2 with
      entries := (c.firstBucket.2.entries.insert { key := k, value := v, frequency := 1 }).2 }.joinBucket
        c.firstBucket.1 (c.firstBucket.2.entries.insert { key := k, value := v, frequency := 1 }).1) :=
    c.sameFront_firstBucket.trans ((sameFront_setEntries _ _).trans (sameFront_joinBucket _ _ _))
  refine ⟨_, L', ⟨hlaid.front _ _ _, htidy, ?_, ?_⟩, hplaced⟩
  · have hi := hc.index.insert (e := { key := k, value := v, frequency := 1 }) hk
      (c.firstBucket.2.entries.insert { key := k, value := v, frequency := 1 }).1 rfl
    rw [← hfront.index] at hi
    exact hi.perm hplaced.perm.symm
  · have hcap : (c.insertNew k v).capacity = c.capacity := hfront.capacity
    rw [hplaced.perm.length_eq, hcap]
    exact hlen

/-- A new key costs a full cache its first entry. -/
theorem put_new (hc : c.Holds L) (hk : c.index[k]? = none) (v : υ) :
    (c.put k v).1 = none ∧
      (c.put k v).2.1 = (if (flat L).length = c.capacity.size then
        (flat L).head?.map fun z =>
          { policy := .lfu, frequency? := some z.2.frequency, remaining := c.capacity.size - 1 } else none) ∧
      ∃ h L', (c.put k v).2.2.Holds L' ∧
        PlacedIn (h, { key := k, value := v, frequency := 1 })
          (if (flat L).length = c.capacity.size then (flat L).tail else flat L) (flat L') := by
  have hle := hc.length_le
  rw [put_of_absent hk, hc.length]
  by_cases hfull : (flat L).length = c.capacity.size
  · have hne : flat L ≠ [] := hc.ne_nil_of_full (by rw [hc.length, hfull])
    obtain ⟨h, e, r, hflat, hevict, hcap, hindex, L₁, hc₁, hflat₁⟩ := hc.evict hne
    have hk₁ : c.evict.2.index[k]? = none := by
      rw [hindex]
      exact getElem?_erase_of_absent hk _
    have hlen : (flat L).length = r.length + 1 := by rw [hflat, List.length_cons]
    have hroom : (flat L₁).length < c.evict.2.capacity.size := by
      rw [hflat₁, hcap]
      omega
    obtain ⟨h', L', hc', hplaced⟩ := hc₁.insertNew hk₁ hroom v
    rw [if_pos hfull.ge, if_pos hfull, if_pos hfull, hevict]
    refine ⟨rfl, ?_, h', L', hc', ?_⟩
    · have hr : r.length = c.capacity.size - 1 := by omega
      rw [hflat, hr]
      rfl
    · rw [hflat, List.tail_cons, ← hflat₁]
      exact hplaced
  · obtain ⟨h, L', hc', hplaced⟩ := hc.insertNew hk (by omega) v
    rw [if_neg (by omega), if_neg hfull, if_neg hfull]
    exact ⟨rfl, rfl, h, L', hc', hplaced⟩

end Holds

theorem holds_clear (c : FrequencyCache κ υ) : c.clear.Holds [] where
  laid := (Laid.empty c.capacity).front _ _ _
  tidy x hx := by cases hx
  index := .empty _
  length_le := Nat.zero_le _

/-! ### What can be seen of the layers -/

/-- The frequencies of the entries. -/
def frequencies (c : FrequencyCache κ υ) : Set UInt64 := {f | ∃ k, c.frequencyOf? k = some f}

namespace Holds

theorem frequencyOf?_eq_some (hc : c.Holds L) {f : UInt64} :
    c.frequencyOf? k = some f ↔ ∃ z ∈ flat L, (z.2.key == k) = true ∧ z.2.frequency = f := by
  simp only [frequencyOf?, Option.bind_eq_some_iff, Option.map_eq_some_iff, hc.index.getElem?]
  constructor
  · rintro ⟨h, ⟨e, he, hk⟩, e', he', rfl⟩
    rw [(hc.laid.entries.get? h e).2 he, Option.some_inj] at he'
    subst he'
    exact ⟨(h, e), he, hk, rfl⟩
  · rintro ⟨z, hz, hk, rfl⟩
    exact ⟨z.1, ⟨z.2, hz, hk⟩, z.2, (hc.laid.entries.get? z.1 z.2).2 hz, rfl⟩

/-- The frequencies of the entries are those of the layers. -/
private theorem exists_frequencyOf? [EquivBEq κ] (hc : c.Holds L) {f : UInt64} :
    (∃ k, c.frequencyOf? k = some f) ↔ ∃ x ∈ L, x.frequency = f := by
  constructor
  · rintro ⟨k, hk⟩
    obtain ⟨z, hz, -, rfl⟩ := hc.frequencyOf?_eq_some.1 hk
    obtain ⟨x, hx, hzx⟩ := Layer.mem_flat.1 hz
    exact ⟨x, hx, ((hc.tidy x hx).frequency z hzx).symm⟩
  · rintro ⟨x, hx, rfl⟩
    obtain ⟨z, hzx⟩ := List.exists_mem_of_ne_nil _ (hc.tidy x hx).filled
    exact ⟨z.2.key, hc.frequencyOf?_eq_some.2
      ⟨z, Layer.mem_flat.2 ⟨x, hx, hzx⟩, BEq.rfl, (hc.tidy x hx).frequency z hzx⟩⟩

theorem mem_frequencies [EquivBEq κ] (hc : c.Holds L) {f : UInt64} :
    f ∈ c.frequencies ↔ ∃ z ∈ flat L, z.2.frequency = f := by
  constructor
  · rintro ⟨k, hk⟩
    obtain ⟨z, hz, -, hzf⟩ := hc.frequencyOf?_eq_some.1 hk
    exact ⟨z, hz, hzf⟩
  · rintro ⟨z, hz, hzf⟩
    exact ⟨z.2.key, hc.frequencyOf?_eq_some.2 ⟨z, hz, BEq.rfl, hzf⟩⟩

private theorem lowestFrequency?_eq (hc : c.Holds L) : c.lowestFrequency? = L.head?.map Layer.frequency := by
  rw [lowestFrequency?, show c.chain.first? = _ from hc.laid.buckets.lists.first]
  cases L with
  | nil => rfl
  | cons x L =>
    show (c.buckets.get? x.handle).map (·.frequency) = some x.frequency
    rw [hc.laid.bucket? (List.mem_cons_self ..)]
    rfl

/-- The lowest frequency is that of an entry, and no entry has a lower one. -/
theorem lowestFrequency?_eq_some [EquivBEq κ] (hc : c.Holds L) {f : UInt64} (hf : c.lowestFrequency? = some f) :
    (∃ k, c.frequencyOf? k = some f) ∧ ∀ k g, c.frequencyOf? k = some g → f ≤ g := by
  rw [hc.lowestFrequency?_eq] at hf
  cases L with
  | nil => cases hf
  | cons x L =>
    obtain rfl : x.frequency = f := Option.some_inj.1 hf
    refine ⟨hc.exists_frequencyOf?.2 ⟨x, List.mem_cons_self .., rfl⟩, ?_⟩
    intro k g hg
    obtain ⟨y, hy, rfl⟩ := hc.exists_frequencyOf?.1 ⟨k, hg⟩
    rcases List.mem_cons.1 hy with rfl | hy
    · exact UInt64.le_refl _
    · exact UInt64.le_of_lt ((List.pairwise_cons.1 hc.laid.increasing).1 _ (List.mem_map.2 ⟨y, hy, rfl⟩))

theorem isLeast_frequencies [EquivBEq κ] (hc : c.Holds L) {f : UInt64} (hf : c.lowestFrequency? = some f) :
    IsLeast c.frequencies f :=
  ⟨(hc.lowestFrequency?_eq_some hf).1, fun g ⟨k, hk⟩ => (hc.lowestFrequency?_eq_some hf).2 k g hk⟩

/-- The lowest frequency is that of the entry that is the next to go. -/
theorem lowestFrequency?_eq_head? (hc : c.Holds L) :
    c.lowestFrequency? = (flat L).head?.map fun z => z.2.frequency := by
  rw [hc.lowestFrequency?_eq]
  cases L with
  | nil => rfl
  | cons x L =>
    have hx := hc.tidy x (List.mem_cons_self ..)
    obtain ⟨z, r, hxe⟩ := List.exists_cons_of_ne_nil hx.filled
    have hz : z.2.frequency = x.frequency := hx.frequency z (by simp [hxe])
    simp [hxe, hz]

theorem lowestFrequency?_eq_none (hc : c.Holds L) : c.lowestFrequency? = none ↔ c.length = 0 := by
  rw [hc.lowestFrequency?_eq, hc.length]
  cases L with
  | nil => simp
  | cons x L =>
    have hne := (hc.tidy x (List.mem_cons_self ..)).filled
    simp [hne]

private theorem bucketCount_eq (hc : c.Holds L) : c.bucketCount = L.length := by
  rw [bucketCount, hc.laid.buckets.lists.length, List.length_map, List.length_map]

/-- There are as many buckets as there are different frequencies. -/
theorem bucketCount_eq_ncard [EquivBEq κ] (hc : c.Holds L) :
    c.bucketCount = {f | ∃ k, c.frequencyOf? k = some f}.ncard := by
  have hnd : (L.map Layer.frequency).Nodup := hc.laid.increasing.imp UInt64.ne_of_lt
  have hset : {f | ∃ k, c.frequencyOf? k = some f} = ((L.map Layer.frequency).toFinset : Set UInt64) := by
    ext f
    simp only [Set.mem_ofPred_eq, hc.exists_frequencyOf?, List.coe_toFinset, List.mem_map]
  rw [hset, Set.ncard_coe_finset, List.toFinset_card_of_nodup hnd, List.length_map, hc.bucketCount_eq]

/-- What is counted apart from the lists agrees with them. -/
theorem sizes (hc : c.Holds L) :
    c.byFrequency.size = c.chain.length ∧ c.buckets.size = c.chain.length ∧ c.index.size = c.entries.size ∧
      c.entries.size = (L.map fun x => x.bucket.entries.length).sum := by
  have hchain : c.chain.length = (L.map Layer.named).length := hc.laid.buckets.length
  have hbuckets : c.buckets.size = (L.map Layer.named).length :=
    hc.laid.buckets.stores.size_eq_length
  have hentries : c.entries.size = (flat L).length :=
    hc.laid.entries.size_eq_length
  refine ⟨?_, ?_, ?_, ?_⟩
  · rw [hc.laid.byFrequency.size, hchain]
  · rw [hbuckets, hchain]
  · rw [hc.index.size, hentries]
  · rw [hentries, flat, List.length_flatMap]
    refine congrArg List.sum (List.map_congr_left ?_)
    intro x hx
    rw [(hc.laid.lists x hx).length, List.length_map]

end Holds

end FrequencyCache

end Caching
