import Caching.Proofs.Bounded.FrequencyRuns
import Caching.Proofs.Linked.Checked

/-!
# Caches in order of frequency that insist on their handles

An operation of a cache in order of frequency returns early, or goes on without a value, where a key, a frequency, a
bucket or an entry is not found.  The operations of this module fail there.  As long as no use can take a frequency
beyond the largest word they do what the operations do, so these never leave anything half done.

Inside an operation the entry on its way from one bucket to another is loose, so what the helpers find is shown on
`FrequencyCache.Laid`; what the operations find is shown on `FrequencyCache.Holds`.
-/

namespace Caching

open Linked
open Bounded (Request CountedRequest Answer)

/-- A use of any of the entries takes it to a higher frequency. -/
def Layer.BelowLargest {κ υ : Type} (L : List (Layer κ υ)) : Prop :=
  ∀ z ∈ flat L, z.2.frequency.toNat + 1 < 2 ^ 64

namespace FrequencyCache

open Layer (flat)

variable {κ υ : Type} [BEq κ] [Hashable κ]

/-! ### Buckets -/

def bucketAfter? (c : FrequencyCache κ υ) (current : Handle) (frequency : UInt64) :
    Option (Handle × FrequencyCache κ υ) :=
  match c.byFrequency[frequency]? with
  | some b => some (b, c)
  | none => do
    let (b, buckets) := c.buckets.insert { frequency }
    let (chain, buckets) ← c.chain.attachAfter? buckets current b
    return (b, { c with buckets, chain, byFrequency := c.byFrequency.insert frequency b })

def firstBucket? (c : FrequencyCache κ υ) : Option (Handle × FrequencyCache κ υ) :=
  match c.byFrequency[(1 : UInt64)]? with
  | some b => some (b, c)
  | none => do
    let (b, buckets) := c.buckets.insert { frequency := 1 }
    let (chain, buckets) ← c.chain.attachFirst? buckets b
    return (b, { c with buckets, chain, byFrequency := c.byFrequency.insert 1 b })

def joinBucket? (c : FrequencyCache κ υ) (b h : Handle) : Option (FrequencyCache κ υ) := do
  let bucket ← c.buckets.get? b
  let (chain, entries) ← bucket.entries.attachLast? c.entries h
  return { c with entries, buckets := c.buckets.modifyValue b fun bucket => { bucket with entries := chain } }

/-- Drops an empty bucket, which is linked and is the one of its frequency. -/
def dropBucket? (c : FrequencyCache κ υ) (b : Handle) (frequency : UInt64) : Option (FrequencyCache κ υ) := do
  let (chain, buckets) ← c.chain.detach? c.buckets b
  let (_, buckets) ← buckets.erase? b
  if c.byFrequency[frequency]? = some b then
    some { c with buckets, chain, byFrequency := c.byFrequency.erase frequency }
  else none

def leaveBucket? (c : FrequencyCache κ υ) (b h : Handle) : Option (FrequencyCache κ υ) := do
  let bucket ← c.buckets.get? b
  let (chain, entries) ← bucket.entries.detach? c.entries h
  let buckets := c.buckets.modifyValue b fun bucket => { bucket with entries := chain }
  if chain.isEmpty then dropBucket? { c with entries, buckets } b bucket.frequency
  else some { c with entries, buckets }

def promote? (c : FrequencyCache κ υ) (h : Handle) : Option (FrequencyCache κ υ) := do
  let e ← c.entries.get? h
  let current ← c.byFrequency[e.frequency]?
  let next := frequencyAfter e.frequency
  let (target, c) ← c.bucketAfter? current next
  let c ← c.leaveBucket? current h
  let c ← c.joinBucket? target h
  let entries ← c.entries.modifyValue? h fun e => { e with frequency := next }
  return { c with entries, counters := c.counters.increment next }

/-! ### Operations -/

def get? (c : FrequencyCache κ υ) (k : κ) : Option (Option υ × FrequencyCache κ υ) :=
  match c.index[k]? with
  | none => some (none, c.count .miss)
  | some h => do
    let c ← (c.count .hit).promote? h
    let e ← c.entries.get? h
    return (some e.value, c)

/-- Gives up one entry, which is there and in the index. -/
def evict? (c : FrequencyCache κ υ) : Option (Eviction × FrequencyCache κ υ) := do
  let b ← c.chain.first?
  let bucket ← c.buckets.get? b
  let h ← bucket.entries.first?
  let c ← c.leaveBucket? b h
  let (e, entries) ← c.entries.erase? h
  if c.index.contains e.key then
    let index := c.index.erase e.key
    some ({ policy := .lfu, frequency? := some e.frequency, remaining := index.size },
      { c with entries, index }.count .eviction)
  else none

/-- Makes room for a new key. -/
def makeRoom? (c : FrequencyCache κ υ) : Option (Option Eviction × FrequencyCache κ υ) :=
  if c.capacity.size ≤ c.length then do
    let (eviction, c) ← c.evict?
    return (some eviction, c)
  else some (none, c)

def insertNew? (c : FrequencyCache κ υ) (k : κ) (v : υ) : Option (FrequencyCache κ υ) := do
  let (b, c) ← c.firstBucket?
  let (h, entries) := c.entries.insert { key := k, value := v, frequency := 1 }
  let c ← { c with entries }.joinBucket? b h
  return { c with index := c.index.insert k h }.count .insertion

def put? (c : FrequencyCache κ υ) (k : κ) (v : υ) : Option (Option υ × Option Eviction × FrequencyCache κ υ) :=
  match c.index[k]? with
  | some h => do
    let e ← c.entries.get? h
    let entries ← c.entries.modifyValue? h fun e => { e with value := v }
    let c ← { c.count .update with entries }.promote? h
    return (some e.value, none, c)
  | none => do
    let (evicted?, c) ← c.makeRoom?
    let c ← c.insertNew? k v
    return (none, evicted?, c)

def putIfAbsent? (c : FrequencyCache κ υ) (k : κ) (v : υ) :
    Option (Option υ × Option Eviction × FrequencyCache κ υ) := do
  let (current?, c) ← c.get? k
  if current?.isSome then return (current?, none, c) else c.put? k v

def remove? (c : FrequencyCache κ υ) (k : κ) : Option (Option υ × FrequencyCache κ υ) :=
  match c.index[k]? with
  | none => some (none, c)
  | some h => do
    let c := { c with index := c.index.erase k }
    let e ← c.entries.get? h
    let b ← c.byFrequency[e.frequency]?
    let c ← c.leaveBucket? b h
    let (e, entries) ← c.entries.erase? h
    return (some e.value, { c with entries }.count .removal)

def toList? (c : FrequencyCache κ υ) : Option (List (Entry κ υ)) := do
  let buckets ← (c.chain.handles c.buckets).mapM c.buckets.get?
  (buckets.flatMap fun b => b.entries.handles c.entries).mapM c.entries.get?

/-- The frequency of a key, if it has one. -/
def foundFrequency? (c : FrequencyCache κ υ) (k : κ) : Option (Option UInt64) :=
  match c.index[k]? with
  | none => some none
  | some h => (c.entries.get? h).map fun e => some e.frequency

def answer? (c : FrequencyCache κ υ) : CountedRequest κ υ → Option (Answer κ × FrequencyCache κ υ)
  | .plain (.get k) => (c.get? k).map fun x => (.value? x.1, x.2)
  | .plain (.getWith k f) => (c.get? k).map fun x => (.value? (x.1.map f), x.2)
  | .plain (.put k v) => (c.put? k v).map fun x => (.value? x.1, x.2.2)
  | .plain (.putIfAbsent k v) => (c.putIfAbsent? k v).map fun x => (.value? x.1, x.2.2)
  | .plain (.contains k) => some (.flag (c.contains k), c)
  | .plain (.remove k) => (c.remove? k).map fun x => (.value? x.1, x.2)
  | .plain .length => some (.number c.length, c)
  | .plain .keys => c.toList?.map fun es => (.keys (es.map (·.key)), c)
  | .plain .clear => some (.done, c.clear)
  | .frequencyOf k => (c.foundFrequency? k).map fun f? => (.frequency? (f?.map (·.toNat)), c)

variable {c : FrequencyCache κ υ} {A B L : List (Layer κ υ)} {x : Layer κ υ}
  {loose l r : List (Handle × Entry κ υ)} {h : Handle} {e : Entry κ υ} {k : κ}

namespace Laid

private theorem bucketAfter? (hc : c.Laid (A ++ x :: B) loose) (f : UInt64) :
    c.bucketAfter? x.handle f = some (c.bucketAfter x.handle f) := by
  unfold FrequencyCache.bucketAfter? FrequencyCache.bucketAfter
  cases c.byFrequency[f]? with
  | some b => rfl
  | none =>
    have hbuckets := hc.buckets
    rw [List.map_append, List.map_cons] at hbuckets
    have hattach := hbuckets.attachAfter? { frequency := f }
    simp only [hattach, Option.bind_eq_bind, Option.bind_some]
    rfl

private theorem firstBucket? (hc : c.Laid L loose) : c.firstBucket? = some c.firstBucket := by
  unfold FrequencyCache.firstBucket? FrequencyCache.firstBucket
  cases c.byFrequency[(1 : UInt64)]? with
  | some b => rfl
  | none =>
    have hattach := hc.buckets.attachFirst? { frequency := 1 }
    simp only [hattach, Option.bind_eq_bind, Option.bind_some]
    rfl

private theorem joinBucket? (hc : c.Laid (A ++ x :: B) ((h, e) :: loose)) :
    c.joinBucket? x.handle h = some (c.joinBucket x.handle h) := by
  have hx : x ∈ A ++ x :: B := by simp
  have hattach := (hc.lists x hx).attachLast? (hc.entries.contains_iff.2 (by simp) : c.entries.contains h = true)
  unfold FrequencyCache.joinBucket? FrequencyCache.joinBucket
  simp only [hc.bucket? hx, hattach, Option.bind_eq_bind, Option.bind_some]
  rfl

/-- The bucket that an entry leaves is dropped if it is empty then, whatever the chain of its entries is. -/
private theorem dropBucket? (hc : c.Laid (A ++ x :: B) loose) (chain : Chain) (entries : Pool (Entry κ υ)) :
    let c' := { c with
      entries, buckets := c.buckets.modifyValue x.handle fun bucket => { bucket with entries := chain } }
    c'.dropBucket? x.handle x.frequency = some { c' with
      buckets := ((c'.chain.detach c'.buckets x.handle).2.2.erase x.handle).2
      chain := (c'.chain.detach c'.buckets x.handle).2.1
      byFrequency := c.byFrequency.erase x.frequency } := by
  intro c'
  have hbuckets := hc.buckets
  rw [List.map_append, List.map_cons] at hbuckets
  have hset : (Sequence.mk c'.buckets c'.chain).Holds
      (A.map Layer.named ++ (x.handle, { x.bucket with entries := chain }) :: B.map Layer.named) :=
    hbuckets.modifyValue fun bucket => { bucket with entries := chain }
  have hdetach : c'.chain.detach? c'.buckets x.handle = some (c'.chain.detach c'.buckets x.handle).2 := hset.detach?
  have hfreq : c'.byFrequency[x.frequency]? = some x.handle := hc.byFrequency? (by simp)
  simp only [FrequencyCache.dropBucket?, hdetach, Pool.erase?_eq hset.detach_erase.1, hfreq, Option.bind_eq_bind,
    Option.bind_some, if_true]
  rfl

private theorem leaveBucket? (hc : c.Laid (A ++ x :: B) loose) (hx : x.entries = l ++ (h, e) :: r) :
    c.leaveBucket? x.handle h = some (c.leaveBucket x.handle h) := by
  have hlists := hc.lists x (by simp)
  rw [hx, List.map_append, List.map_cons] at hlists
  unfold FrequencyCache.leaveBucket? FrequencyCache.leaveBucket
  simp only [hc.bucket? (x := x) (by simp), hlists.detach?, Option.bind_eq_bind, Option.bind_some]
  generalize x.bucket.entries.detach c.entries h = y
  obtain ⟨b, chain, entries⟩ := y
  dsimp only
  split
  · exact hc.dropBucket? chain entries
  · rfl

/-- A use finds the bucket of the entry and that of its next frequency. -/
private theorem promote? (hc : c.Laid L []) (ht : ∀ x ∈ L, x.Tidy) (hflat : flat L = l ++ (h, e) :: r)
    (hf : e.frequency.toNat + 1 < 2 ^ 64) : c.promote? h = some (c.promote h) := by
  have hget := (hc.entries.get? h e).2 (by simp [hflat])
  obtain ⟨A, x, B, l, r, rfl, hxe, rfl, rfl, hxf, hb⟩ := hc.split ht hflat
  obtain ⟨hlt, hB⟩ := hc.next_between hxf hf
  obtain ⟨z, B', -, hfst, hc₁⟩ := hc.bucketAfter hlt hB
  obtain ⟨X, hc₂, -, -⟩ := hc₁.leaveBucket hxe
  obtain ⟨bucket, -, hc₃⟩ := hc₂.joinBucket
  have hafter := hc.bucketAfter? (frequencyAfter e.frequency)
  have hleave := hc₁.leaveBucket? hxe
  have hjoin := hc₂.joinBucket?
  have hlive := hc₃.entries.contains_iff.2 (show h ∈ _ by simp)
  unfold FrequencyCache.promote? FrequencyCache.promote
  simp only [hget, hb, Option.bind_eq_bind, Option.bind_some, hafter]
  generalize c.bucketAfter x.handle (frequencyAfter e.frequency) = y at hfst hleave hjoin hlive ⊢
  obtain ⟨target, c₁⟩ := y
  obtain rfl : target = z.handle := hfst
  simp only [hleave, hjoin, Pool.modifyValue?_eq hlive, Option.bind_some]
  rfl

private theorem toList? (hc : c.Laid L []) : c.toList? = some c.toList := by
  have hbuckets : (c.chain.handles c.buckets).mapM c.buckets.get? = some (L.map Layer.bucket) := by
    have hget := Pool.mapM_get? hc.buckets.stores (List.Subset.refl _)
    rw [← hc.buckets.lists.handles_eq, List.map_map] at hget
    exact hget
  have hentries := Pool.mapM_get? hc.entries (List.Subset.refl _)
  rw [List.nil_append, ← hc.toList, ← hc.handles_eq] at hentries
  rw [FrequencyCache.toList?, hbuckets]
  exact hentries

/-- A new entry finds the bucket of frequency 1. -/
private theorem insertNew? (hc : c.Laid L []) (ht : ∀ x ∈ L, x.Tidy) (k : κ) (v : υ) :
    c.insertNew? k v = some (c.insertNew k v) := by
  obtain ⟨z, L', -, hfst, hc₁⟩ := hc.firstBucket fun y hy => (ht y hy).positive
  obtain ⟨hfresh, hc₂⟩ := hc₁.insertEntry { key := k, value := v, frequency := 1 }
  rw [← hfresh] at hc₂
  have hjoin := hc₂.joinBucket? (A := [])
  unfold FrequencyCache.insertNew? FrequencyCache.insertNew
  simp only [hc.firstBucket?, Option.bind_eq_bind, Option.bind_some]
  generalize c.firstBucket = y at hfst hjoin ⊢
  obtain ⟨b, c₁⟩ := y
  obtain rfl : b = z.handle := hfst
  simp only [hjoin, Option.bind_some]
  rfl

end Laid

namespace Holds

private theorem foundFrequency? (hc : c.Holds L) (k : κ) : c.foundFrequency? k = some (c.frequencyOf? k) := by
  unfold FrequencyCache.foundFrequency? frequencyOf?
  cases hk : c.index[k]? with
  | none => rfl
  | some h =>
    obtain ⟨e, l, r, -, -, hget⟩ := hc.lookup hk
    simp only [hget, Option.map_some, Option.bind_some]

private theorem remove? (hc : c.Holds L) (k : κ) : c.remove? k = some (c.remove k) := by
  cases hk : c.index[k]? with
  | none => simp only [FrequencyCache.remove?, FrequencyCache.remove, hk]
  | some h =>
    obtain ⟨e, l, r, hflat, -, hget⟩ := hc.lookup hk
    obtain ⟨A, x, B, l, r, rfl, hxe, rfl, rfl, -, hb⟩ := hc.laid.split hc.tidy hflat
    have hlaid := hc.laid.front c.capacity (c.index.erase k) c.counters
    have hleave := hlaid.leaveBucket? hxe
    have herase := (hlaid.takeOut hc.tidy hxe).1
    simp only [FrequencyCache.remove?, FrequencyCache.remove, hk, hget, hb, hleave, Option.bind_eq_bind,
      Option.bind_some]
    generalize FrequencyCache.leaveBucket { c with index := c.index.erase k } x.handle h = c₁ at herase ⊢
    simp only [Pool.erase?_eq herase, Option.bind_some]
    generalize c₁.entries.erase h = y at herase ⊢
    obtain ⟨e?, entries⟩ := y
    obtain rfl : e? = some e := herase
    rfl

variable [EquivBEq κ]

theorem get? (hc : c.Holds L) (hL : Layer.BelowLargest L) (k : κ) : c.get? k = some (c.get k) := by
  unfold FrequencyCache.get? FrequencyCache.get
  cases hk : c.index[k]? with
  | none => rfl
  | some h =>
    obtain ⟨e, l, r, hflat, -, -⟩ := hc.lookup hk
    have hf := hL (h, e) (by simp [hflat])
    have hcount : (c.count .hit).Holds L := hc.setCounters _
    obtain ⟨L', hc', hplaced⟩ := hcount.promote hflat (Or.inl hf)
    have hget : ((c.count .hit).promote h).entries.get? h = some e.used :=
      (hc'.laid.entries.get? _ _).2 (hplaced.perm.mem_iff.2 (List.mem_cons_self ..))
    simp only [hcount.laid.promote? hcount.tidy hflat hf, hget, Option.bind_eq_bind, Option.bind_some]
    rfl

variable [LawfulHashable κ]

theorem evict? (hc : c.Holds L) (hne : flat L ≠ []) :
    ∃ eviction, c.evict.1 = some eviction ∧ c.evict? = some (eviction, c.evict.2) := by
  cases L with
  | nil => exact absurd rfl hne
  | cons x B =>
    have hx : x ∈ x :: B := List.mem_cons_self ..
    obtain ⟨⟨h, e⟩, r, hxe⟩ := List.exists_cons_of_ne_nil (hc.tidy x hx).filled
    have hfirst : c.chain.first? = some x.handle := hc.laid.buckets.lists.first
    have hentry : x.bucket.entries.first? = some h := by
      rw [(hc.laid.lists x hx).first, hxe]
      rfl
    have hleave := hc.laid.leaveBucket? (A := []) (l := []) hxe
    have herase := (hc.laid.takeOut (A := []) (l := []) hc.tidy hxe).1
    have hindexed : c.index.contains e.key = true :=
      hc.index.contains_iff.2 ⟨(h, e), by simp [hxe], BEq.rfl⟩
    have hindex := (sameFront_leaveBucket c x.handle h).index
    unfold FrequencyCache.evict? FrequencyCache.evict
    simp only [hfirst, hc.laid.bucket? hx, hentry, hleave, Option.bind_eq_bind, Option.bind_some]
    generalize c.leaveBucket x.handle h = c₁ at herase hindex ⊢
    rw [← hindex] at hindexed
    simp only [Pool.erase?_eq herase, Option.bind_some, hindexed, if_true]
    generalize c₁.entries.erase h = y at herase ⊢
    obtain ⟨e?, entries⟩ := y
    obtain rfl : e? = some e := herase
    exact ⟨_, rfl, rfl⟩

private theorem put? (hc : c.Holds L) (hL : Layer.BelowLargest L) (k : κ) (v : υ) : c.put? k v = some (c.put k v) := by
  cases hk : c.index[k]? with
  | some h =>
    obtain ⟨e, l, r, hflat, -, hget⟩ := hc.lookup hk
    have hf := hL (h, e) (by simp [hflat])
    obtain ⟨L₁, hflat₁, hc₁⟩ := hc.setValue hflat v
    have hcount := hc₁.setCounters (c.count .update).counters
    have hlive : c.entries.contains h = true := Pool.contains_of_get? hget
    have hpromote : promote? { c.count .update with
        entries := c.entries.modifyValue h fun e => { e with value := v } } h = some _ :=
      hcount.laid.promote? hcount.tidy hflat₁ hf
    simp only [FrequencyCache.put?, FrequencyCache.put, hk, hget, Pool.modifyValue?_eq hlive, hpromote,
      Option.bind_eq_bind, Option.bind_some]
    rfl
  | none =>
    rw [put_of_absent hk]
    simp only [FrequencyCache.put?, FrequencyCache.makeRoom?, hk]
    split
    · next hfull =>
      have hne := hc.ne_nil_of_full hfull
      obtain ⟨eviction, hfst, hevict⟩ := hc.evict? hne
      obtain ⟨-, -, -, -, -, -, -, L', hc', -⟩ := hc.evict hne
      simp only [hevict, hfst, hc'.laid.insertNew? hc'.tidy, Option.bind_eq_bind, Option.bind_some,
        Option.pure_def]
    · simp only [hc.laid.insertNew? hc.tidy, Option.bind_eq_bind, Option.bind_some, Option.pure_def]

private theorem putIfAbsent? (hc : c.Holds L) (hL : Layer.BelowLargest L) (k : κ) (v : υ) :
    c.putIfAbsent? k v = some (c.putIfAbsent k v) := by
  unfold FrequencyCache.putIfAbsent? FrequencyCache.putIfAbsent
  rw [hc.get? hL k]
  cases hk : c.index[k]? with
  | none =>
    have hmiss : c.get k = (none, c.count .miss) := by simp only [FrequencyCache.get, hk]
    rw [hmiss]
    exact (hc.setCounters _).put? hL k v
  | some h =>
    obtain ⟨e, l, r, hflat, -, -⟩ := hc.lookup hk
    have hvalue := (hc.get_hit hk hflat (Or.inl (hL (h, e) (by simp [hflat])))).1
    generalize c.get k = x at hvalue ⊢
    obtain ⟨current?, c'⟩ := x
    obtain rfl : current? = some e.value := hvalue
    rfl

/-- No request meets a key, a frequency, a bucket or an entry that is not found. -/
theorem answer? (hc : c.Holds L) (hL : Layer.BelowLargest L) (r : CountedRequest κ υ) :
    c.answer? r = some (c.answer r) := by
  cases r with
  | frequencyOf k => exact congrArg (Option.map _) (hc.foundFrequency? k)
  | plain r =>
    cases r with
    | get k => exact congrArg (Option.map _) (hc.get? hL k)
    | getWith k f => exact congrArg (Option.map _) (hc.get? hL k)
    | put k v => exact congrArg (Option.map _) (hc.put? hL k v)
    | putIfAbsent k v => exact congrArg (Option.map _) (hc.putIfAbsent? hL k v)
    | contains k => rfl
    | remove k => exact congrArg (Option.map _) (hc.remove? k)
    | length => rfl
    | keys => exact congrArg (Option.map _) hc.laid.toList?
    | clear => rfl

end Holds

end FrequencyCache

end Caching
