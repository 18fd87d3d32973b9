import Caching.Bounded.Frequency
import Caching.Proofs.Bounded.Keyed
import Caching.Proofs.Linked.Sequence

/-!
# Layers of a cache in order of frequency

The buckets of a cache in order of frequency form a sequence; each of them is the header of a chain of entries, and
all these chains lie over one pool.  A layer is a bucket with its entries.  While an entry passes from one bucket to
another it lies in none: it is loose.  `FrequencyCache.Laid` says that the cache is made of the given layers and
loose entries.

Every operation on buckets takes layers to layers:
* a bucket that is linked in is an empty layer (`Laid.bucketAfter`, `Laid.firstBucket`);
* an entry leaves its bucket and is loose then, and a layer that this leaves empty goes (`Laid.leaveBucket`);
* a loose entry joins a bucket at the end (`Laid.joinBucket`);
* an entry comes loose into the pool and goes loose out of it (`Laid.insertEntry`, `Laid.eraseEntry`).
-/

namespace Caching

open Linked

/-- A bucket with the entries that it links. -/
structure Layer (κ υ : Type) where
  handle : Handle
  bucket : Bucket
  entries : List (Handle × Entry κ υ)

namespace Layer

variable {κ υ : Type}

def frequency (x : Layer κ υ) : UInt64 := x.bucket.frequency

def named (x : Layer κ υ) : Handle × Bucket := (x.handle, x.bucket)

/-- The entries of all layers in their order. -/
def flat (L : List (Layer κ υ)) : List (Handle × Entry κ υ) := L.flatMap entries

@[simp] theorem flat_nil : flat ([] : List (Layer κ υ)) = [] := rfl

@[simp] theorem flat_cons (x : Layer κ υ) (L : List (Layer κ υ)) : flat (x :: L) = x.entries ++ flat L :=
  List.flatMap_cons

@[simp] theorem flat_append (A B : List (Layer κ υ)) : flat (A ++ B) = flat A ++ flat B := List.flatMap_append

theorem mem_flat {L : List (Layer κ υ)} {z : Handle × Entry κ υ} : z ∈ flat L ↔ ∃ x ∈ L, z ∈ x.entries :=
  List.mem_flatMap

/-- The entries of one layer may be counted first. -/
private theorem flat_middle_perm (loose : List (Handle × Entry κ υ)) (A B : List (Layer κ υ)) (x : Layer κ υ) :
    (loose ++ flat (A ++ x :: B)).Perm (loose ++ x.entries ++ flat (A ++ B)) := by
  simp only [flat_append, flat_cons, List.append_assoc]
  refine List.Perm.append_left _ ?_
  rw [← List.append_assoc, ← List.append_assoc]
  exact List.Perm.append_right _ List.perm_append_comm

/-- The layer `z` of a frequency, found at the head of the layers or new and empty, and the layers above it. -/
structure Opens (f : UInt64) (L : List (Layer κ υ)) (z : Layer κ υ) (L' : List (Layer κ υ)) : Prop where
  frequency : z.frequency = f
  flat : z.entries ++ Layer.flat L' = Layer.flat L
  found : z ∈ L ∨ z.entries = []
  rest : L' ⊆ L
  above : ∀ y ∈ L', f < y.frequency

private theorem Opens.head {z : Layer κ υ} {L : List (Layer κ υ)} (habove : ∀ y ∈ L, z.frequency < y.frequency) :
    Opens z.frequency (z :: L) z L :=
  ⟨rfl, (flat_cons z L).symm, Or.inl (List.mem_cons_self ..), List.subset_cons_self _ _, habove⟩

private theorem Opens.new {f : UInt64} {L : List (Layer κ υ)} (habove : ∀ y ∈ L, f < y.frequency) (b : Handle) :
    Opens f L ⟨b, { frequency := f }, []⟩ L :=
  ⟨rfl, rfl, Or.inr rfl, List.Subset.refl _, habove⟩

/-- Layers from a frequency on begin with the layer of that frequency, or have none of it. -/
theorem head_or_above {f : UInt64} {L : List (Layer κ υ)} (hinc : (L.map frequency).Pairwise (· < ·))
    (hL : ∀ y ∈ L, f ≤ y.frequency) :
    (∃ z L', L = z :: L' ∧ z.frequency = f ∧ ∀ y ∈ L', z.frequency < y.frequency) ∨
      ∀ y ∈ L, f < y.frequency := by
  cases L with
  | nil =>
    right
    intro y hy
    cases hy
  | cons z L =>
    have habove : ∀ y ∈ L, z.frequency < y.frequency := fun y hy =>
      (List.pairwise_cons.1 hinc).1 _ (List.mem_map.2 ⟨y, hy, rfl⟩)
    by_cases hz : z.frequency = f
    · exact Or.inl ⟨z, L, rfl, hz, habove⟩
    · have hlt : f < z.frequency := UInt64.lt_of_le_of_ne (hL z (by simp)) (Ne.symm hz)
      right
      intro y hy
      rcases List.mem_cons.1 hy with rfl | hy
      · exact hlt
      · exact UInt64.lt_trans hlt (habove y hy)

end Layer

namespace FrequencyCache

open Layer (flat Opens)

variable {κ υ : Type} [BEq κ] [Hashable κ] {c : FrequencyCache κ υ} {A B L : List (Layer κ υ)} {x : Layer κ υ}
  {loose : List (Handle × Entry κ υ)} {h : Handle} {e : Entry κ υ}

/-- The cache is made of these layers in increasing frequency, and of these loose entries. -/
structure Laid (c : FrequencyCache κ υ) (L : List (Layer κ υ)) (loose : List (Handle × Entry κ υ)) : Prop where
  /-- Every bucket is in the chain of buckets. -/
  buckets : (Sequence.mk c.buckets c.chain).Holds (L.map Layer.named)
  byFrequency : Indexes c.byFrequency Bucket.frequency (L.map Layer.named)
  increasing : (L.map Layer.frequency).Pairwise (· < ·)
  /-- No entry lies in two layers, or twice in one, and there are no others. -/
  entries : c.entries.Stores (loose ++ flat L)
  lists : ∀ x ∈ L, x.bucket.entries.Lists c.entries (x.entries.map (·.1))

/-- The handles of the entries that are linked, bucket after bucket. -/
def linked (c : FrequencyCache κ υ) : List Handle :=
  ((c.chain.handles c.buckets).filterMap c.buckets.get?).flatMap fun b => b.entries.handles c.entries

/-- Two caches that differ in entries and buckets only. -/
structure SameFront (c c' : FrequencyCache κ υ) : Prop where
  capacity : c'.capacity = c.capacity
  index : c'.index = c.index
  counters : c'.counters = c.counters

theorem SameFront.trans {c' c'' : FrequencyCache κ υ} (h₁ : c.SameFront c') (h₂ : c'.SameFront c'') :
    c.SameFront c'' :=
  ⟨h₂.capacity.trans h₁.capacity, h₂.index.trans h₁.index, h₂.counters.trans h₁.counters⟩

theorem sameFront_setEntries (c : FrequencyCache κ υ) (entries : Pool (Entry κ υ)) :
    c.SameFront { c with entries } := ⟨rfl, rfl, rfl⟩

theorem sameFront_bucketAfter (c : FrequencyCache κ υ) (b : Handle) (f : UInt64) :
    c.SameFront (c.bucketAfter b f).2 := by
  unfold bucketAfter
  split <;> exact ⟨rfl, rfl, rfl⟩

theorem sameFront_firstBucket (c : FrequencyCache κ υ) : c.SameFront c.firstBucket.2 := by
  unfold firstBucket
  split <;> exact ⟨rfl, rfl, rfl⟩

theorem sameFront_joinBucket (c : FrequencyCache κ υ) (b h : Handle) : c.SameFront (c.joinBucket b h) := by
  unfold joinBucket
  split <;> exact ⟨rfl, rfl, rfl⟩

theorem sameFront_leaveBucket (c : FrequencyCache κ υ) (b h : Handle) : c.SameFront (c.leaveBucket b h) := by
  unfold leaveBucket
  split
  · exact ⟨rfl, rfl, rfl⟩
  · dsimp only
    split <;> exact ⟨rfl, rfl, rfl⟩

namespace Laid

theorem empty (capacity : Capacity) : (FrequencyCache.empty capacity : FrequencyCache κ υ).Laid [] [] where
  buckets := .empty
  byFrequency := .empty _
  increasing := List.Pairwise.nil
  entries := .empty
  lists x hx := by cases hx

/-- The layers do not depend on the index, the counters and the capacity. -/
theorem front (hc : c.Laid L loose) (capacity : Capacity) (index : Std.HashMap κ Handle)
    (counters : FrequencyCounters) : Laid { c with capacity, index, counters } L loose :=
  ⟨hc.buckets, hc.byFrequency, hc.increasing, hc.entries, hc.lists⟩

/-! ### Reading -/

theorem bucket? (hc : c.Laid L loose) (hx : x ∈ L) : c.buckets.get? x.handle = some x.bucket :=
  (hc.buckets.stores.get? _ _).2 (List.mem_map.2 ⟨x, hx, rfl⟩)

theorem byFrequency? (hc : c.Laid L loose) (hx : x ∈ L) : c.byFrequency[x.frequency]? = some x.handle :=
  (hc.byFrequency.getElem? _ _).2 ⟨x.bucket, List.mem_map.2 ⟨x, hx, rfl⟩, BEq.rfl⟩

/-- Two layers have different handles. -/
theorem handle_ne (hc : c.Laid (A ++ x :: B) loose) : ∀ y ∈ A ++ B, y.handle ≠ x.handle := by
  have hperm : ((A ++ x :: B).map Layer.named).Perm (x.named :: (A ++ B).map Layer.named) :=
    List.perm_middle.map Layer.named
  intro y hy
  exact (hc.buckets.stores.perm hperm).ne_of_mem (x := y.named) (List.mem_map.2 ⟨y, hy, rfl⟩)

/-- A frequency without a layer leads to no bucket. -/
private theorem byFrequency?_none (hc : c.Laid L loose) {f : UInt64} (hf : ∀ x ∈ L, x.frequency ≠ f) :
    c.byFrequency[f]? = none := by
  rw [Option.eq_none_iff_forall_ne_some]
  intro b hb
  obtain ⟨B, hm, he⟩ := (hc.byFrequency.getElem? f b).1 hb
  obtain ⟨x, hx, hxB⟩ := List.mem_map.1 hm
  obtain rfl : x.bucket = B := congrArg Prod.snd hxB
  exact hf x hx (eq_of_beq he)

private theorem byFrequency?_ne (hc : c.Laid (A ++ B) loose) {f : UInt64} (hA : ∀ y ∈ A, y.frequency < f)
    (hB : ∀ y ∈ B, f < y.frequency) : c.byFrequency[f]? = none := by
  apply hc.byFrequency?_none
  intro y hy
  rcases List.mem_append.1 hy with hy | hy
  · exact UInt64.ne_of_lt (hA y hy)
  · exact (UInt64.ne_of_lt (hB y hy)).symm

/-- A loose entry is not linked. -/
theorem handles_eq (hc : c.Laid L loose) :
    ((L.map Layer.bucket).flatMap fun b => b.entries.handles c.entries) = (flat L).map (·.1) := by
  rw [List.flatMap_map, flat, List.map_flatMap]
  exact List.flatMap_congr fun x hx => (hc.lists x hx).handles_eq

theorem linked (hc : c.Laid L loose) : c.linked = (flat L).map (·.1) := by
  have hbuckets : (c.chain.handles c.buckets).filterMap c.buckets.get? = L.map Layer.bucket := by
    have htoList := hc.buckets.toList
    rw [List.map_map] at htoList
    exact htoList
  rw [FrequencyCache.linked, hbuckets, hc.handles_eq]

theorem toList (hc : c.Laid L loose) : c.toList = (flat L).map (·.2) := by
  have hget : ∀ z ∈ flat L, (c.entries.get? ∘ fun z : Handle × Entry κ υ => z.1) z = some z.2 :=
    fun z hz => (hc.entries.get? _ _).2 (List.mem_append_right _ hz)
  have htoList : c.toList = c.linked.filterMap c.entries.get? := rfl
  rw [htoList, hc.linked, List.filterMap_map, List.filterMap_congr hget, ← List.filterMap_eq_map]
  rfl

/-- The entries of two layers have different handles. -/
private theorem disjoint (hc : c.Laid (A ++ x :: B) loose) {y : Layer κ υ} (hy : y ∈ A ++ B) :
    (y.entries.map (·.1)).Disjoint ((loose ++ x.entries).map (·.1)) := by
  have hnd := (hc.entries.perm (Layer.flat_middle_perm loose A B x)).nodup
  rw [List.map_append] at hnd
  intro k hk hkx
  refine (List.nodup_append'.1 hnd).2.2 hkx ?_
  obtain ⟨z, hz, rfl⟩ := List.mem_map.1 hk
  exact List.mem_map.2 ⟨z, Layer.mem_flat.2 ⟨y, hy, hz⟩, rfl⟩

/-! ### Buckets that come and go -/

/-- A bucket of a new frequency is an empty layer. -/
private theorem addLayer (hc : c.Laid (A ++ B) loose) {b : Handle} {f : UInt64} {buckets : Pool Bucket}
    {chain : Chain} (hA : ∀ y ∈ A, y.frequency < f) (hB : ∀ y ∈ B, f < y.frequency)
    (hs : (Sequence.mk buckets chain).Holds (A.map Layer.named ++ (b, { frequency := f }) :: B.map Layer.named)) :
    Laid { c with buckets, chain, byFrequency := c.byFrequency.insert f b }
      (A ++ ⟨b, { frequency := f }, []⟩ :: B) loose := by
  have hnone := hc.byFrequency?_ne hA hB
  refine ⟨?_, ?_, ?_, by simpa using hc.entries, ?_⟩
  · rw [List.map_append, List.map_cons]
    exact hs
  · have hi := hc.byFrequency.insert (e := { frequency := f }) hnone b rfl
    rw [List.map_append] at hi
    rw [List.map_append, List.map_cons]
    exact hi.perm List.perm_middle.symm
  · have hinc := hc.increasing
    rw [List.map_append, List.pairwise_append] at hinc
    rw [List.map_append, List.map_cons, List.pairwise_append, List.pairwise_cons]
    simp only [List.mem_map, List.mem_cons, forall_exists_index, and_imp, forall_apply_eq_imp_iff₂] at hinc ⊢
    refine ⟨hinc.1, ⟨hB, hinc.2.1⟩, ?_⟩
    rintro y hy g (rfl | ⟨z, hz, rfl⟩)
    · exact hA y hy
    · exact hinc.2.2 y hy z hz
  · intro y hy
    simp only [List.mem_append, List.mem_cons] at hy
    rcases hy with hy | rfl | hy
    · exact hc.lists y (List.mem_append_left _ hy)
    · exact .empty _
    · exact hc.lists y (List.mem_append_right _ hy)

/-- The bucket of a higher frequency, if no other layer comes between. -/
theorem bucketAfter (hc : c.Laid (A ++ x :: B) loose) {f : UInt64} (hx : x.frequency < f)
    (hB : ∀ y ∈ B, f ≤ y.frequency) :
    ∃ z B', Opens f B z B' ∧ (c.bucketAfter x.handle f).1 = z.handle ∧
      (c.bucketAfter x.handle f).2.Laid (A ++ x :: z :: B') loose := by
  have hinc := hc.increasing
  rw [List.map_append, List.map_cons, List.pairwise_append, List.pairwise_cons] at hinc
  rcases Layer.head_or_above hinc.2.1.2 hB with ⟨z, B', rfl, rfl, habove⟩ | habove
  · have hb : c.byFrequency[z.frequency]? = some z.handle := hc.byFrequency? (by simp)
    have hres : c.bucketAfter x.handle z.frequency = (z.handle, c) := by
      simp only [FrequencyCache.bucketAfter, hb]
    rw [hres]
    exact ⟨z, B', .head habove, rfl, hc⟩
  · have hbelow : ∀ y ∈ A ++ [x], y.frequency < f := by
      intro y hy
      rcases List.mem_append.1 hy with hy | hy
      · exact UInt64.lt_trans (hinc.2.2 _ (List.mem_map.2 ⟨y, hy, rfl⟩) _ (List.mem_cons_self ..)) hx
      · rw [List.mem_singleton.1 hy]
        exact hx
    have hsplit : A ++ x :: B = (A ++ [x]) ++ B := by simp
    have hnone := (hsplit ▸ hc).byFrequency?_ne hbelow habove
    have hbuckets := hc.buckets
    rw [List.map_append, List.map_cons] at hbuckets
    obtain ⟨hfst, hs⟩ := hbuckets.insertAfter { frequency := f }
    have hlaid := (hsplit ▸ hc).addLayer hbelow habove (by simpa [Layer.named] using hs)
    have hres : c.bucketAfter x.handle f =
        let y := c.chain.attachAfter (c.buckets.insert { frequency := f }).2 x.handle
          (c.buckets.insert { frequency := f }).1
        ((c.buckets.insert { frequency := f }).1,
          { c with
            buckets := y.2, chain := y.1
            byFrequency := c.byFrequency.insert f (c.buckets.insert { frequency := f }).1 }) := by
      simp only [FrequencyCache.bucketAfter, hnone]
    rw [hres]
    refine ⟨⟨c.buckets.fresh, { frequency := f }, []⟩, B, .new habove _, hfst, ?_⟩
    simp only [List.append_assoc, List.singleton_append, ← hfst] at hlaid ⊢
    exact hlaid

/-- The bucket of frequency 1, if no layer has a lower one. -/
theorem firstBucket (hc : c.Laid L loose) (hL : ∀ y ∈ L, 1 ≤ y.frequency) :
    ∃ z L', Opens 1 L z L' ∧ c.firstBucket.1 = z.handle ∧ c.firstBucket.2.Laid (z :: L') loose := by
  rcases Layer.head_or_above hc.increasing hL with ⟨z, L', rfl, hz, habove⟩ | habove
  · have hb : c.byFrequency[(1 : UInt64)]? = some z.handle := by
      rw [← hz]
      exact hc.byFrequency? (by simp)
    have hres : c.firstBucket = (z.handle, c) := by
      simp only [FrequencyCache.firstBucket, hb]
    rw [hres]
    exact ⟨z, L', hz ▸ .head habove, rfl, hc⟩
  · have hnone := byFrequency?_ne (A := []) hc (by simp) habove
    obtain ⟨hfst, hs⟩ := hc.buckets.pushFirst { frequency := 1 }
    have hlaid := addLayer (A := []) hc (by simp) habove hs
    have hres : c.firstBucket =
        let y := (Sequence.mk c.buckets c.chain).pushFirst { frequency := 1 }
        (y.1, { c with
          buckets := y.2.pool, chain := y.2.chain, byFrequency := c.byFrequency.insert 1 y.1 }) := by
      simp only [FrequencyCache.firstBucket, hnone]
      rfl
    rw [hres]
    refine ⟨⟨c.buckets.fresh, { frequency := 1 }, []⟩, L, .new habove _, hfst, ?_⟩
    dsimp only
    rw [hfst]
    exact hlaid

/-- An empty layer goes. -/
private theorem dropLayer (hc : c.Laid (A ++ x :: B) loose) (hx : x.entries = []) :
    Laid { c with
        buckets := ((c.chain.detach c.buckets x.handle).2.2.erase x.handle).2
        chain := (c.chain.detach c.buckets x.handle).2.1
        byFrequency := c.byFrequency.erase x.frequency } (A ++ B) loose := by
  have hbuckets := hc.buckets
  rw [List.map_append, List.map_cons] at hbuckets
  have hi := hc.byFrequency
  rw [List.map_append, List.map_cons] at hi
  have hflat : flat (A ++ x :: B) = flat (A ++ B) := by simp [hx]
  refine ⟨?_, ?_, ?_, hflat ▸ hc.entries, ?_⟩
  · rw [List.map_append]
    exact hbuckets.detach_erase.2
  · rw [List.map_append]
    exact (hi.perm List.perm_middle).erase BEq.rfl
  · refine hc.increasing.sublist (List.Sublist.map _ ?_)
    exact List.Sublist.append_left (List.sublist_cons_self x B) A
  · intro y hy
    apply hc.lists
    rcases List.mem_append.1 hy with hy | hy
    · exact List.mem_append_left _ hy
    · exact List.mem_append_right _ (List.mem_cons_of_mem _ hy)

/-! ### Entries on the move -/

/-- The chain of one bucket changes, and with it which entries of the bucket are loose. -/
private theorem relink (hc : c.Laid (A ++ x :: B) loose) {chain : Chain} {entries : Pool (Entry κ υ)}
    {hs : List Handle} {zs loose' : List (Handle × Entry κ υ)} (hl : chain.Lists entries (zs.map (·.1)))
    (hr : c.entries.Relinked hs entries) (hsub : hs ⊆ (loose ++ x.entries).map (·.1))
    (hp : (loose ++ x.entries).Perm (loose' ++ zs)) :
    Laid { c with
        entries, buckets := c.buckets.modifyValue x.handle fun bucket => { bucket with entries := chain } }
      (A ++ ⟨x.handle, { x.bucket with entries := chain }, zs⟩ :: B) loose' := by
  have hflat : (loose ++ flat (A ++ x :: B)).Perm
      (loose' ++ flat (A ++ ⟨x.handle, { x.bucket with entries := chain }, zs⟩ :: B)) :=
    (Layer.flat_middle_perm loose A B x).trans
      ((hp.append_right _).trans
        (Layer.flat_middle_perm loose' A B ⟨x.handle, { x.bucket with entries := chain }, zs⟩).symm)
  have hbuckets := hc.buckets
  have hi := hc.byFrequency
  have hinc := hc.increasing
  rw [List.map_append, List.map_cons] at hbuckets hi hinc
  refine ⟨?_, ?_, ?_, (hc.entries.relinked hr).perm hflat, ?_⟩
  · rw [List.map_append, List.map_cons]
    exact hbuckets.modifyValue fun bucket => { bucket with entries := chain }
  · rw [List.map_append, List.map_cons]
    exact hi.set_middle rfl
  · rw [List.map_append, List.map_cons]
    exact hinc
  · intro y hy
    -- the other layers have none of the nodes that were relinked
    have hother : ∀ y ∈ A ++ B, y.bucket.entries.Lists entries (y.entries.map (·.1)) := by
      intro y hy
      have hyl : y ∈ A ++ x :: B := by
        simp only [List.mem_append, List.mem_cons] at hy ⊢
        tauto
      exact (hc.lists y hyl).frame hr (List.disjoint_of_subset_right hsub (hc.disjoint hy))
    rw [List.mem_append, List.mem_cons] at hy
    rcases hy with hy | rfl | hy
    · exact hother y (List.mem_append_left _ hy)
    · exact hl
    · exact hother y (List.mem_append_right _ hy)

/-- A loose entry becomes the last one of a layer. -/
theorem joinBucket (hc : c.Laid (A ++ x :: B) ((h, e) :: loose)) :
    ∃ bucket, bucket.frequency = x.frequency ∧
      (c.joinBucket x.handle h).Laid (A ++ ⟨x.handle, bucket, x.entries ++ [(h, e)]⟩ :: B) loose := by
  have hx : x ∈ A ++ x :: B := by simp
  have hlive : c.entries.contains h = true := hc.entries.contains_iff.2 (by simp)
  have hnot : h ∉ x.entries.map (·.1) := by
    intro hm
    obtain ⟨z, hz, hzh⟩ := List.mem_map.1 hm
    exact hc.entries.ne_of_mem (List.mem_append_right _ (Layer.mem_flat.2 ⟨x, hx, hz⟩)) hzh
  obtain ⟨hl, hr⟩ := (hc.lists x hx).attachLast hlive hnot
  refine ⟨{ x.bucket with entries := (x.bucket.entries.attachLast c.entries h).1 }, rfl, ?_⟩
  have hjoined : (x.bucket.entries.attachLast c.entries h).1.Lists (x.bucket.entries.attachLast c.entries h).2
      ((x.entries ++ [(h, e)]).map (·.1)) := by simpa using hl
  have hperm : ((h, e) :: loose ++ x.entries).Perm (loose ++ (x.entries ++ [(h, e)])) := by
    rw [List.cons_append, ← List.append_assoc]
    exact (List.perm_append_singleton _ _).symm
  have hlaid := hc.relink hjoined hr (by intro k hk; simp at hk ⊢; tauto) hperm
  have hres : c.joinBucket x.handle h =
      { c with
        entries := (x.bucket.entries.attachLast c.entries h).2
        buckets := c.buckets.modifyValue x.handle fun bucket =>
          { bucket with entries := (x.bucket.entries.attachLast c.entries h).1 } } := by
    simp only [FrequencyCache.joinBucket, hc.bucket? hx]
  rw [hres]
  exact hlaid

/-- An entry is unlinked from its layer. -/
private theorem detachEntry (hc : c.Laid (A ++ x :: B) loose) {l r : List (Handle × Entry κ υ)}
    (hx : x.entries = l ++ (h, e) :: r) :
    let d := (x.bucket.entries.detach c.entries h).2
    d.1.Lists d.2 ((l ++ r).map (·.1)) ∧
      Laid { c with
          entries := d.2
          buckets := c.buckets.modifyValue x.handle fun bucket => { bucket with entries := d.1 } }
        (A ++ ⟨x.handle, { x.bucket with entries := d.1 }, l ++ r⟩ :: B) ((h, e) :: loose) := by
  have hlists := hc.lists x (by simp)
  rw [hx, List.map_append, List.map_cons] at hlists
  obtain ⟨-, hl, hr⟩ := hlists.detach
  rw [← List.map_append] at hl
  have hperm : (loose ++ x.entries).Perm ((h, e) :: loose ++ (l ++ r)) := by
    rw [hx, ← List.append_assoc, List.cons_append, ← List.append_assoc]
    exact List.perm_middle
  exact ⟨hl, hc.relink hl hr (by intro k hk; rw [hx]; simp at hk ⊢; tauto) hperm⟩

/-- An entry leaves the other entries of its layer. -/
theorem leaveBucket_shared (hc : c.Laid (A ++ x :: B) loose) {l r : List (Handle × Entry κ υ)}
    (hx : x.entries = l ++ (h, e) :: r) (hne : l ++ r ≠ []) :
    ∃ bucket, bucket.frequency = x.frequency ∧
      (c.leaveBucket x.handle h).Laid (A ++ ⟨x.handle, bucket, l ++ r⟩ :: B) ((h, e) :: loose) := by
  obtain ⟨hl, hlaid⟩ := hc.detachEntry hx
  have hfull : ¬ (x.bucket.entries.detach c.entries h).2.1.isEmpty = true := by
    rw [hl.isEmpty_iff]
    simpa using hne
  refine ⟨{ x.bucket with entries := (x.bucket.entries.detach c.entries h).2.1 }, rfl, ?_⟩
  simp only [FrequencyCache.leaveBucket, hc.bucket? (x := x) (by simp), if_neg hfull]
  exact hlaid

/-- The last entry of a layer leaves, and the layer goes. -/
theorem leaveBucket_alone (hc : c.Laid (A ++ x :: B) loose) (hx : x.entries = [(h, e)]) :
    (c.leaveBucket x.handle h).Laid (A ++ B) ((h, e) :: loose) := by
  obtain ⟨hl, hlaid⟩ := hc.detachEntry (l := []) (r := []) hx
  have hempty : (x.bucket.entries.detach c.entries h).2.1.isEmpty = true := hl.isEmpty_iff.2 rfl
  simp only [FrequencyCache.leaveBucket, hc.bucket? (x := x) (by simp), if_pos hempty]
  exact hlaid.dropLayer rfl

/-- An entry leaves its layer, which goes if that leaves it empty. -/
theorem leaveBucket (hc : c.Laid (A ++ x :: B) loose) {l r : List (Handle × Entry κ υ)}
    (hx : x.entries = l ++ (h, e) :: r) :
    ∃ X, (c.leaveBucket x.handle h).Laid (A ++ X ++ B) ((h, e) :: loose) ∧ flat X = l ++ r ∧
      ∀ y ∈ X, y.frequency = x.frequency ∧ y.entries ≠ [] := by
  by_cases hempty : l ++ r = []
  · obtain ⟨rfl, rfl⟩ := List.append_eq_nil_iff.1 hempty
    refine ⟨[], ?_, rfl, by simp⟩
    rw [List.append_nil]
    exact hc.leaveBucket_alone hx
  · obtain ⟨bucket, hbucket, hlaid⟩ := hc.leaveBucket_shared hx hempty
    refine ⟨[⟨x.handle, bucket, l ++ r⟩], ?_, List.append_nil _, ?_⟩
    · rw [List.append_assoc, List.singleton_append]
      exact hlaid
    · intro y hy
      rw [List.mem_singleton.1 hy]
      exact ⟨hbucket, hempty⟩

/-- A new entry is loose. -/
theorem insertEntry (hc : c.Laid L loose) (e : Entry κ υ) :
    (c.entries.insert e).1 = c.entries.fresh ∧
      Laid { c with entries := (c.entries.insert e).2 } L ((c.entries.fresh, e) :: loose) :=
  ⟨Pool.insert_fst _ _, hc.buckets, hc.byFrequency, hc.increasing, hc.entries.insert e,
    fun x hx => (hc.lists x hx).insert hc.entries.sound e⟩

/-- A loose entry may be freed. -/
theorem eraseEntry (hc : c.Laid L ((h, e) :: loose)) :
    (c.entries.erase h).1 = some e ∧ Laid { c with entries := (c.entries.erase h).2 } L loose := by
  obtain ⟨herase, hentries⟩ := hc.entries.erase
  refine ⟨herase, hc.buckets, hc.byFrequency, hc.increasing, hentries, ?_⟩
  intro x hx
  apply (hc.lists x hx).erase
  intro hm
  obtain ⟨z, hz, hzh⟩ := List.mem_map.1 hm
  exact hc.entries.ne_of_mem (List.mem_append_right _ (Layer.mem_flat.2 ⟨x, hx, hz⟩)) hzh

/-- A loose entry changes. -/
theorem setLoose (hc : c.Laid L ((h, e) :: loose)) (f : Entry κ υ → Entry κ υ) :
    Laid { c with entries := c.entries.modifyValue h f } L ((h, f e) :: loose) :=
  ⟨hc.buckets, hc.byFrequency, hc.increasing, hc.entries.modifyValue f,
    fun x hx => (hc.lists x hx).modifyValue h f⟩

/-- An entry changes where it lies. -/
theorem setEntry {l r : List (Handle × Entry κ υ)} {bucket : Bucket} {b : Handle}
    (hc : c.Laid (A ++ ⟨b, bucket, l ++ (h, e) :: r⟩ :: B) loose) (f : Entry κ υ → Entry κ υ) :
    Laid { c with entries := c.entries.modifyValue h f }
      (A ++ ⟨b, bucket, l ++ (h, f e) :: r⟩ :: B) loose := by
  have hperm : ∀ e, (loose ++ flat (A ++ ⟨b, bucket, l ++ (h, e) :: r⟩ :: B)).Perm
      ((h, e) :: (loose ++ flat A ++ l ++ (r ++ flat B))) := by
    intro e
    have hmiddle : (loose ++ flat A ++ l ++ (h, e) :: (r ++ flat B)).Perm
        ((h, e) :: (loose ++ flat A ++ l ++ (r ++ flat B))) := List.perm_middle
    simpa using hmiddle
  have hbuckets := hc.buckets
  have hi := hc.byFrequency
  have hinc := hc.increasing
  rw [List.map_append, List.map_cons] at hbuckets hi hinc
  refine ⟨?_, ?_, ?_, ((hc.entries.perm (hperm e)).modifyValue f).perm (hperm (f e)).symm, ?_⟩
  · rw [List.map_append, List.map_cons]
    exact hbuckets
  · rw [List.map_append, List.map_cons]
    exact hi
  · rw [List.map_append, List.map_cons]
    exact hinc
  · intro y hy
    have hold : ∀ y ∈ A ++ ⟨b, bucket, l ++ (h, e) :: r⟩ :: B,
        y.bucket.entries.Lists (c.entries.modifyValue h f) (y.entries.map (·.1)) :=
      fun y hy => (hc.lists y hy).modifyValue h f
    rw [List.mem_append, List.mem_cons] at hy
    rcases hy with hy | rfl | hy
    · exact hold y (by simp [hy])
    · have hl := hold _ (List.mem_append_right A (List.mem_cons_self ..))
      simpa using hl
    · exact hold y (by simp [hy])

end Laid

end FrequencyCache

end Caching
