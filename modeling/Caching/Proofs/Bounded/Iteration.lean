import Caching.Proofs.Bounded.FrequencyRuns
import Caching.Proofs.Bounded.Ordered
import Caching.Proofs.Linked.Walk

/-!
# Iteration over a bounded cache

The keys of a bounded cache are listed by following links: those of one chain, or those of the chain of buckets and
then of the chain of each bucket in turn.  `Yields` does so without a bound on any of these walks.  After every run of
requests all of them end, and they give what `keys` gives, one key for each entry that is counted (`iteration_ends`).
That nodes are used again, moved to the front and passed from bucket to bucket does not matter: between requests each
chain lists its nodes, and two chains over one pool share none.
-/

namespace Caching

open Linked
open Bounded (Request CountedRequest)

variable {o : Order} {κ υ : Type} [BEq κ] [Hashable κ]

/-! ### Order of arrival or of use -/

namespace OrderedCache

variable {c : OrderedCache o κ υ} {l : List (Handle × κ × υ)}

/-- The iteration ends and gives these keys. -/
def Yields (c : OrderedCache o κ υ) (ks : List κ) : Prop :=
  ∃ hs, c.entries.pool.Walks c.entries.chain.first? hs ∧ ks = (hs.filterMap c.entries.pool.get?).map (·.1)

/-- Whoever iterates over the cache comes to an end. -/
structure IterationEnds (c : OrderedCache o κ υ) : Prop where
  chain : c.entries.chain.Ends c.entries.pool
  keys : c.Yields c.keys
  length : c.keys.length = c.length

private theorem Holds.iterationEnds (hc : c.Holds l) : c.IterationEnds where
  chain := hc.entries.lists.ends
  keys := ⟨_, hc.entries.lists.ends.walks, rfl⟩
  length := by rw [hc.keys, hc.length, List.length_map, List.length_map]

end OrderedCache

/-! ### Order of frequency -/

namespace FrequencyCache

variable {c : FrequencyCache κ υ} {L : List (Layer κ υ)} {loose : List (Handle × Entry κ υ)}

/-- The iteration ends, with the buckets and in each of them, and gives these keys. -/
def Yields (c : FrequencyCache κ υ) (ks : List κ) : Prop :=
  ∃ bs hss, c.buckets.Walks c.chain.first? bs ∧
    List.Forall₂ (fun bucket hs => c.entries.Walks bucket.entries.first? hs) (bs.filterMap c.buckets.get?) hss ∧
    ks = (hss.flatten.filterMap c.entries.get?).map (·.key)

/-- Whoever iterates over the cache comes to an end. -/
structure IterationEnds (c : FrequencyCache κ υ) : Prop where
  chain : c.chain.Ends c.buckets
  buckets : ∀ b bucket, c.buckets.get? b = some bucket → bucket.entries.Ends c.entries
  keys : c.Yields c.keys
  length : c.keys.length = c.length

/-- Every bucket of the pool is that of a layer. -/
private theorem Laid.ends_bucket (hc : c.Laid L loose) {b : Handle} {bucket : Bucket}
    (hb : c.buckets.get? b = some bucket) : bucket.entries.Ends c.entries := by
  obtain ⟨x, hx, hxb⟩ := List.mem_map.1 ((hc.buckets.stores.get? b bucket).1 hb)
  obtain rfl : x.bucket = bucket := congrArg Prod.snd hxb
  exact (hc.lists x hx).ends

private theorem Laid.yields (hc : c.Laid L loose) : c.Yields c.keys := by
  let buckets := (c.chain.handles c.buckets).filterMap c.buckets.get?
  have hwalks : List.Forall₂ (fun bucket hs => c.entries.Walks bucket.entries.first? hs) buckets
      (buckets.map fun bucket => bucket.entries.handles c.entries) := by
    rw [List.forall₂_map_right_iff, List.forall₂_same]
    intro bucket hbucket
    obtain ⟨b, -, hb⟩ := List.mem_filterMap.1 hbucket
    exact (hc.ends_bucket hb).walks
  refine ⟨_, _, hc.buckets.lists.ends.walks, hwalks, ?_⟩
  rw [← List.flatMap_def]
  rfl

private theorem Holds.iterationEnds (hc : c.Holds L) : c.IterationEnds where
  chain := hc.laid.buckets.lists.ends
  buckets _ _ hb := hc.laid.ends_bucket hb
  keys := hc.laid.yields
  length := by rw [hc.keys, hc.length, List.length_map]

end FrequencyCache

/-! ### After every run -/

variable [EquivBEq κ] [LawfulHashable κ]

/-- After every run of requests whoever iterates over a bounded cache comes to an end.  No cycle can be reached from
the beginning of its chain, of the chain of buckets or of the chain of a bucket; each of these walks meets as many
nodes as its chain counts, and together they give as many keys as the cache has.  In a cache in order of frequency
this is shown of runs of fewer than `2 ^ 64 - 1` requests. -/
theorem iteration_ends (capacity : Capacity) :
    (∀ (o : Order) (rs : List (Request κ υ)),
      (answers OrderedCache.answer (.empty capacity : OrderedCache o κ υ) rs).2.IterationEnds) ∧
    ∀ rs : List (CountedRequest κ υ), rs.length < 2 ^ 64 - 1 →
      (answers FrequencyCache.answer (.empty capacity : FrequencyCache κ υ) rs).2.IterationEnds := by
  constructor
  · intro o rs
    obtain ⟨-, ⟨-, l, hc, -⟩, -⟩ := OrderedCache.answers_agree (o := o) capacity rs
    exact hc.iterationEnds
  · intro rs hrs
    obtain ⟨-, ⟨L, T, hcm⟩, -⟩ := FrequencyCache.answers_agree capacity hrs
    exact hcm.holds.iterationEnds

/-- An eviction frees the node that the next insertion takes. -/
theorem keys_yielded_after_eviction :
    let rs : List (Request Nat Nat) := [.put 1 10, .put 2 20, .get 1, .put 3 30]
    rs.length < 2 ^ 64 - 1 ∧
      (answers OrderedCache.answer (.empty { size := 2 } : OrderedCache .use Nat Nat) rs).2.Yields [3, 1] ∧
      (answers FrequencyCache.answer (.empty { size := 2 } : FrequencyCache Nat Nat)
        (rs.map CountedRequest.plain)).2.Yields [3, 1] := by
  intro rs
  have hrs : rs.length < 2 ^ 64 - 1 := by decide
  have hcounted : (rs.map CountedRequest.plain).length < 2 ^ 64 - 1 := hrs
  obtain ⟨hordered, hfrequency⟩ := iteration_ends (κ := Nat) (υ := Nat) { size := 2 }
  refine ⟨hrs, ?_, ?_⟩
  · obtain ⟨-, hagrees, -⟩ := OrderedCache.answers_agree (o := .use) { size := 2 } rs
    have hyields := (hordered .use rs).keys
    rw [hagrees.keys] at hyields
    exact hyields
  · obtain ⟨-, ⟨L, T, hcm⟩, -⟩ := FrequencyCache.answers_agree { size := 2 } hcounted
    have hyields := (hfrequency _ hcounted).keys
    rw [hcm.keys] at hyields
    exact hyields

end Caching
