import Std.Data.HashMap
import Caching.Bounded.Policy
import Caching.Counters
import Caching.Linked.Sequence

/-!
# Caches in order of frequency

A bounded cache that counts the uses of each entry and gives up one of the least used. Entries of one
frequency form a bucket, in the order in which they reached it; the buckets form a chain in increasing
frequency, and an empty bucket is dropped. The entry given up is the first of the first bucket. All entries
lie in one pool, so that a use moves an entry from its bucket to the end of the next one without a search.
-/

namespace Caching

open Linked Text

structure Entry (κ υ : Type) where
  key : κ
  value : υ
  frequency : UInt64

/-- The entries that have been used equally often. -/
structure Bucket where
  frequency : UInt64
  entries : Chain := .empty

structure FrequencyCache (κ υ : Type) [BEq κ] [Hashable κ] where
  capacity : Capacity
  entries : Pool (Entry κ υ) := .empty
  buckets : Pool Bucket := .empty
  /-- The buckets in increasing frequency. -/
  chain : Chain := .empty
  byFrequency : Std.HashMap UInt64 Handle := {}
  index : Std.HashMap κ Handle := {}
  counters : FrequencyCounters := {}

/-- The frequency after one more use. It stops at the largest word. -/
def frequencyAfter (frequency : UInt64) : UInt64 :=
  if frequency + 1 = 0 then frequency else frequency + 1

namespace FrequencyCache

variable {κ υ : Type} [BEq κ] [Hashable κ]

def empty (capacity : Capacity) : FrequencyCache κ υ := { capacity }

def length (c : FrequencyCache κ υ) : Nat := c.index.size

def contains (c : FrequencyCache κ υ) (k : κ) : Bool := c.index.contains k

def frequencyOf? (c : FrequencyCache κ υ) (k : κ) : Option UInt64 :=
  c.index[k]?.bind fun h => (c.entries.get? h).map (·.frequency)

def lowestFrequency? (c : FrequencyCache κ υ) : Option UInt64 :=
  c.chain.first?.bind fun b => (c.buckets.get? b).map (·.frequency)

def bucketCount (c : FrequencyCache κ υ) : Nat := c.chain.length

/-- The entries by increasing frequency, and in the order of arrival at it. -/
def toList (c : FrequencyCache κ υ) : List (Entry κ υ) :=
  let buckets := (c.chain.handles c.buckets).filterMap c.buckets.get?
  (buckets.flatMap fun b => b.entries.handles c.entries).filterMap c.entries.get?

/-- The keys, the next one to go first. -/
def keys (c : FrequencyCache κ υ) : List κ := c.toList.map (·.key)

/-! ### Buckets -/

/-- The bucket of a frequency, which is linked in after the bucket `current` if it is new. -/
def bucketAfter (c : FrequencyCache κ υ) (current : Handle) (frequency : UInt64) :
    Handle × FrequencyCache κ υ :=
  match c.byFrequency[frequency]? with
  | some b => (b, c)
  | none =>
    let (b, buckets) := c.buckets.insert { frequency }
    let (chain, buckets) := c.chain.attachAfter buckets current b
    (b, { c with buckets, chain, byFrequency := c.byFrequency.insert frequency b })

/-- The bucket of new entries, which is linked in before all others if it is new. -/
def firstBucket (c : FrequencyCache κ υ) : Handle × FrequencyCache κ υ :=
  match c.byFrequency[(1 : UInt64)]? with
  | some b => (b, c)
  | none =>
    let (b, buckets) := c.buckets.insert { frequency := 1 }
    let (chain, buckets) := c.chain.attachFirst buckets b
    (b, { c with buckets, chain, byFrequency := c.byFrequency.insert 1 b })

/-- Links an unlinked entry in at the end of a bucket. -/
def joinBucket (c : FrequencyCache κ υ) (b h : Handle) : FrequencyCache κ υ :=
  match c.buckets.get? b with
  | none => c
  | some bucket =>
    let (chain, entries) := bucket.entries.attachLast c.entries h
    { c with entries, buckets := c.buckets.modifyValue b fun bucket => { bucket with entries := chain } }

/-- Unlinks an entry from its bucket and drops the bucket if that leaves it empty. -/
def leaveBucket (c : FrequencyCache κ υ) (b h : Handle) : FrequencyCache κ υ :=
  match c.buckets.get? b with
  | none => c
  | some bucket =>
    let (_, chain, entries) := bucket.entries.detach c.entries h
    let buckets := c.buckets.modifyValue b fun bucket => { bucket with entries := chain }
    if chain.isEmpty then
      let (_, outer, buckets) := c.chain.detach buckets b
      let (_, buckets) := buckets.erase b
      { c with entries, buckets, chain := outer, byFrequency := c.byFrequency.erase bucket.frequency }
    else { c with entries, buckets }

/-- Counts one use of an entry and moves it to the end of the next bucket. The next bucket is linked in while
the old one still stands, which keeps the chain in order. -/
def promote (c : FrequencyCache κ υ) (h : Handle) : FrequencyCache κ υ :=
  match c.entries.get? h with
  | none => c
  | some { frequency, .. } =>
    match c.byFrequency[frequency]? with
    | none => c
    | some current =>
      let next := frequencyAfter frequency
      let (target, c) := c.bucketAfter current next
      let c := (c.leaveBucket current h).joinBucket target h
      { c with
        entries := c.entries.modifyValue h fun e => { e with frequency := next }
        counters := c.counters.increment next }

/-! ### Operations -/

def count (c : FrequencyCache κ υ) (f : Counters → Counters) : FrequencyCache κ υ :=
  { c with counters := { c.counters with core := f c.counters.core } }

def get (c : FrequencyCache κ υ) (k : κ) : Option υ × FrequencyCache κ υ :=
  match c.index[k]? with
  | none => (none, c.count .miss)
  | some h =>
    let c := (c.count .hit).promote h
    ((c.entries.get? h).map (·.value), c)

/-- A look-up whose value passes through a function. -/
def getWith {β : Type} (c : FrequencyCache κ υ) (k : κ) (f : υ → β) : Option β × FrequencyCache κ υ :=
  let (v?, c) := c.get k
  (v?.map f, c)

/-- Gives up one entry. -/
def evict (c : FrequencyCache κ υ) : Option Eviction × FrequencyCache κ υ :=
  match c.chain.first? with
  | none => (none, c)
  | some b =>
    match (c.buckets.get? b).bind (·.entries.first?) with
    | none => (none, c)
    | some h =>
      let c := c.leaveBucket b h
      match c.entries.erase h with
      | (none, entries) => (none, { c with entries })
      | (some entry, entries) =>
        let index := c.index.erase entry.key
        (some { policy := .lfu, frequency? := some entry.frequency, remaining := index.size },
          { c with entries, index }.count .eviction)

/-- Stores a value and returns the one it replaces. An overwrite is a use; a new key that meets a full cache
costs one other entry. -/
def put (c : FrequencyCache κ υ) (k : κ) (v : υ) : Option υ × Option Eviction × FrequencyCache κ υ :=
  match c.index[k]? with
  | some h =>
    let old? := (c.entries.get? h).map (·.value)
    let c := { c.count .update with entries := c.entries.modifyValue h fun e => { e with value := v } }
    (old?, none, c.promote h)
  | none =>
    let (evicted?, c) := if c.capacity.size ≤ c.length then c.evict else (none, c)
    let (b, c) := c.firstBucket
    let (h, entries) := c.entries.insert { key := k, value := v, frequency := 1 }
    let c := { c with entries }.joinBucket b h
    (none, evicted?, { c with index := c.index.insert k h }.count .insertion)

/-- Stores a value under a new key; a key that is there counts as used, and its value is returned. -/
def putIfAbsent (c : FrequencyCache κ υ) (k : κ) (v : υ) : Option υ × Option Eviction × FrequencyCache κ υ :=
  match c.get k with
  | (some current, c) => (some current, none, c)
  | (none, c) => c.put k v

def remove (c : FrequencyCache κ υ) (k : κ) : Option υ × FrequencyCache κ υ :=
  match c.index[k]? with
  | none => (none, c)
  | some h =>
    let c := { c with index := c.index.erase k }
    match c.entries.get? h with
    | none => (none, c)
    | some { frequency, .. } =>
      let c := match c.byFrequency[frequency]? with
        | some b => c.leaveBucket b h
        | none => c
      match c.entries.erase h with
      | (none, entries) => (none, { c with entries })
      | (some entry, entries) => (some entry.value, { c with entries }.count .removal)

/-- Removes every entry and forgets the highest frequency. The other counters go on. -/
def clear (c : FrequencyCache κ υ) : FrequencyCache κ υ :=
  { c with
    entries := c.entries.clear
    buckets := c.buckets.clear
    chain := .empty
    byFrequency := {}
    index := {}
    counters := c.counters.resetHighest }

def report (c : FrequencyCache κ υ) : Report :=
  c.counters.report (c.lowestFrequency?.getD 0) (UInt64.ofNat c.bucketCount)

def describe (c : FrequencyCache κ υ) : Description :=
  Policy.lfu.describeCache c.capacity c.entries.size [("buckets", .number c.bucketCount)]

end FrequencyCache

end Caching
