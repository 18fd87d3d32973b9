import Caching.Text.Description

/-!
# Counters

What a bounded cache counts of its use, and the report made of it. Counters are words of 64 bits. A report is
a list of named measures in the order of their names; a measure is a count or a share of a count, which
becomes a floating-point number only when it is read.
-/

namespace Caching

open Text (Description)

inductive Measure where
  | count (n : UInt64)
  /-- The share `part / whole`, which is 0 of nothing. -/
  | share (part whole : UInt64)
  deriving DecidableEq

def Measure.toFloat : Measure → Float
  | .count n => n.toFloat
  | .share part whole => if whole = 0 then 0 else part.toFloat / whole.toFloat

abbrev Report := List (String × Measure)

/-- The measures in the order of their names. -/
def Report.ofList (measures : List (String × Measure)) : Report :=
  measures.mergeSort fun a b => a.1 ≤ b.1

structure Counters where
  /-- The look-ups that count as use of an entry. -/
  requests : UInt64 := 0
  hits : UInt64 := 0
  insertions : UInt64 := 0
  updates : UInt64 := 0
  evictions : UInt64 := 0
  removals : UInt64 := 0
  deriving DecidableEq

namespace Counters

def hit (c : Counters) : Counters := { c with requests := c.requests + 1, hits := c.hits + 1 }

def miss (c : Counters) : Counters := { c with requests := c.requests + 1 }

def insertion (c : Counters) : Counters := { c with insertions := c.insertions + 1 }

def update (c : Counters) : Counters := { c with updates := c.updates + 1 }

def eviction (c : Counters) : Counters := { c with evictions := c.evictions + 1 }

def removal (c : Counters) : Counters := { c with removals := c.removals + 1 }

def misses (c : Counters) : UInt64 := c.requests - c.hits

def hitRate (c : Counters) : Measure := .share c.hits c.requests

def missRate (c : Counters) : Measure := .share c.misses c.requests

def measures (c : Counters) : List (String × Measure) :=
  [("cache_hits", .count c.hits), ("cache_misses", .count c.misses), ("evictions", .count c.evictions),
    ("hit_rate", c.hitRate), ("insertions", .count c.insertions), ("miss_rate", c.missRate),
    ("removals", .count c.removals), ("requests", .count c.requests), ("updates", .count c.updates)]

def report (c : Counters) : Report := .ofList c.measures

def describe (c : Counters) : Description :=
  .record "CoreCacheMetrics"
    [("requests", .number c.requests.toNat), ("cache_hits", .number c.hits.toNat),
      ("insertions", .number c.insertions.toNat), ("updates", .number c.updates.toNat),
      ("evictions", .number c.evictions.toNat), ("removals", .number c.removals.toNat)]

end Counters

/-- The counters of a cache that also counts how often each entry was used. -/
structure FrequencyCounters where
  core : Counters := {}
  increments : UInt64 := 0
  /-- The highest frequency that an increment has reached since the last reset. -/
  highest : UInt64 := 0
  deriving DecidableEq

namespace FrequencyCounters

def increment (c : FrequencyCounters) (frequency : UInt64) : FrequencyCounters :=
  { c with increments := c.increments + 1, highest := max c.highest frequency }

def resetHighest (c : FrequencyCounters) : FrequencyCounters := { c with highest := 0 }

/-- The report, for a cache with the given lowest frequency and number of different frequencies. -/
def report (c : FrequencyCounters) (lowest : UInt64) (distinct : UInt64) : Report :=
  .ofList <| c.core.measures ++
    [("frequency_buckets", .count distinct), ("max_frequency", .count c.highest),
      ("min_frequency", .count lowest), ("total_frequency_increments", .count c.increments)]

def describe (c : FrequencyCounters) : Description :=
  .record "LfuCacheMetrics"
    [("core", c.core.describe), ("total_frequency_increments", .number c.increments.toNat),
      ("max_frequency", .number c.highest.toNat)]

end FrequencyCounters

end Caching
