import Caching.Proofs.Linked.Chain

/-!
# Walks along a chain

Whoever iterates over a chain goes from node to node as the `next?` links say, and nothing but the end of the links
stops it.  `Pool.Walks` is the loop without a bound: it relates where the walk begins to the handles that it has met
when it ends, and relates nothing to it if the links lead into a cycle (`Pool.not_walks_of_cycle`).

A chain that lists its nodes is walked to its end, whatever else the pool holds: the walk meets as many nodes as the
chain counts, and no cycle can be reached from its beginning (`Chain.Lists.ends`).  So the bound of `Chain.handles`
cuts nothing off.
-/

namespace Caching.Linked

open Relation (ReflTransGen TransGen)

variable {α : Type} {p : Pool α} {c : Chain} {h i : Handle} {hs ks : List Handle} {h? prev? : Option Handle}

namespace Pool

/-- The walk along the `next?` links meets these handles and ends.  A stale handle is met and ends the walk. -/
inductive Walks (p : Pool α) : Option Handle → List Handle → Prop
  | done : Walks p none []
  | step {h : Handle} {hs : List Handle} (rest : Walks p ((p.node? h).bind (·.next?)) hs) : Walks p (some h) (h :: hs)

/-- The `next?` link of `h` leads to `i`. -/
def Follows (p : Pool α) (h i : Handle) : Prop := (p.node? h).bind (·.next?) = some i

/-- A walk has one end. -/
private theorem Walks.unique (hw : p.Walks h? hs) (hw' : p.Walks h? ks) : hs = ks := by
  induction hw generalizing ks with
  | done =>
    cases hw'
    rfl
  | step rest ih =>
    cases hw' with
    | step rest' => rw [ih rest']

/-! ### Walks and cycles -/

theorem Walks.next (hw : p.Walks (some h) hs) (hf : p.Follows h i) : ∃ ks, p.Walks (some i) ks ∧ hs = h :: ks := by
  cases hw with
  | @step _ ks rest =>
    rw [hf] at rest
    exact ⟨ks, rest, rfl⟩

/-- From every node that can be reached the rest of the walk ends, too. -/
private theorem Walks.rest (hw : p.Walks (some h) hs) (hr : ReflTransGen p.Follows h i) :
    ∃ ks, p.Walks (some i) ks ∧ ks.length ≤ hs.length := by
  induction hr with
  | refl => exact ⟨hs, hw, Nat.le_refl _⟩
  | tail _ hf ih =>
    obtain ⟨ks, hks, hle⟩ := ih
    obtain ⟨ls, hls, rfl⟩ := hks.next hf
    rw [List.length_cons] at hle
    exact ⟨ls, hls, by omega⟩

/-- A walk that leads into a cycle does not end. -/
theorem not_walks_of_cycle (hr : ReflTransGen p.Follows h i) (hcycle : TransGen p.Follows i i) :
    ¬ p.Walks (some h) hs := by
  intro hw
  obtain ⟨ks, hks, -⟩ := hw.rest hr
  -- once around the cycle the walk is the same one, and shorter
  obtain ⟨j, hf, hback⟩ := TransGen.head'_iff.1 hcycle
  obtain ⟨ls, hls, rfl⟩ := hks.next hf
  obtain ⟨ks', hks', hle⟩ := hls.rest hback
  obtain rfl : i :: ls = ks' := hks.unique hks'
  rw [List.length_cons] at hle
  omega

/-- Linked nodes that lead nowhere further are walked to the end. -/
private theorem Leads.walks (hl : p.Leads prev? hs none) : p.Walks hs.head? hs := by
  induction hs generalizing prev? with
  | nil => exact .done
  | cons h hs ih =>
    obtain ⟨n, hn, hx⟩ := Option.map_eq_some_iff.1 hl.1
    have hnext : (p.node? h).bind (·.next?) = hs.head? := by
      rw [hn, Option.bind_some]
      simpa using congrArg Prod.snd hx
    apply Walks.step
    rw [hnext]
    exact ih hl.2

end Pool

namespace Chain

/-- The walk along a chain ends. -/
structure Ends (c : Chain) (p : Pool α) : Prop where
  walks : p.Walks c.first? (c.handles p)
  length : (c.handles p).length = c.length
  acyclic : ∀ h i, c.first? = some h → ReflTransGen p.Follows h i → ¬ TransGen p.Follows i i

theorem Lists.ends (hc : c.Lists p hs) : c.Ends p := by
  have hwalks : p.Walks c.first? hs := by
    rw [hc.first]
    exact hc.leads.walks
  refine ⟨?_, ?_, ?_⟩
  · rw [hc.handles_eq]
    exact hwalks
  · rw [hc.handles_eq, hc.length]
  · intro h i hfirst hr hcycle
    rw [hfirst] at hwalks
    exact Pool.not_walks_of_cycle hr hcycle hwalks

end Chain

end Caching.Linked
