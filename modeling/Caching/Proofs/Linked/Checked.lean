import Caching.Proofs.Linked.Sequence

/-!
# Operations that insist on their handles

An operation on a pool, a chain or a sequence does nothing where a handle has no node.  The operations of this module
fail there instead: each looks up the handles that the operation of the same name looks up, and gives nothing if one
of them has no node.  On a chain that lists its nodes, and on a sequence that holds its values, they do what the
operations do.
-/

namespace Caching.Linked

variable {α : Type}

namespace Pool

def erase? (p : Pool α) (h : Handle) : Option (α × Pool α) :=
  (p.get? h).map fun v => (v, (p.erase h).2)

def modifyValue? (p : Pool α) (h : Handle) (f : α → α) : Option (Pool α) :=
  if p.contains h then some (p.modifyValue h f) else none

/-- Whether the handle that is kept for a neighbour has a node, if one is kept. -/
def live (p : Pool α) (h? : Option Handle) : Bool := h?.all p.contains

variable {p : Pool α} {h : Handle} {l : List (Handle × α)} {v : α}

theorem erase?_eq (hv : (p.erase h).1 = some v) : p.erase? h = some (v, (p.erase h).2) := by
  rw [erase_fst] at hv
  rw [erase?, hv, Option.map_some]

/-- Every handle of the list has its value. -/
theorem mapM_get? (hp : p.Stores l) {l' : List (Handle × α)} (hl : l' ⊆ l) :
    (l'.map (·.1)).mapM p.get? = some (l'.map (·.2)) := by
  induction l' with
  | nil => rfl
  | cons x l' ih =>
    obtain ⟨hx, hl⟩ := List.cons_subset.1 hl
    rw [List.map_cons, List.mapM_cons, (hp.get? _ _).2 hx, ih hl]
    rfl

theorem modifyValue?_eq (hh : p.contains h = true) (f : α → α) : p.modifyValue? h f = some (p.modifyValue h f) :=
  if_pos hh

end Pool

namespace Chain

def attachFirst? (c : Chain) (p : Pool α) (h : Handle) : Option (Chain × Pool α) :=
  if p.contains h && p.live c.first? then some (c.attachFirst p h) else none

def attachLast? (c : Chain) (p : Pool α) (h : Handle) : Option (Chain × Pool α) :=
  if p.contains h && p.live c.last? then some (c.attachLast p h) else none

def attachAfter? (c : Chain) (p : Pool α) (anchor h : Handle) : Option (Chain × Pool α) := do
  let node ← p.node? anchor
  if p.contains h && p.live node.next? then some (c.attachAfter p anchor h) else none

def detach? (c : Chain) (p : Pool α) (h : Handle) : Option (Chain × Pool α) := do
  let node ← p.node? h
  if p.live node.prev? && p.live node.next? then some (c.detach p h).2 else none

def moveToFirst? (c : Chain) (p : Pool α) (h : Handle) : Option (Chain × Pool α) :=
  if c.first? = some h then some (c, p)
  else do
    let (c, p) ← c.detach? p h
    c.attachFirst? p h

namespace Lists

open Pool

variable {p : Pool α} {c : Chain} {h a : Handle} {hs l r : List Handle}

private theorem live_of_subset (hc : c.Lists p hs) {h? : Option Handle} (hh : ∀ h, h? = some h → h ∈ hs) :
    p.live h? = true := by
  rw [live, Option.all_eq_true]
  exact fun h he => hc.contains (hh h he)

/-- The node of a handle and its neighbours. -/
private theorem node?_middle (hc : c.Lists p (l ++ h :: r)) :
    ∃ n, p.node? h = some n ∧ p.live n.prev? = true ∧ p.live n.next? = true := by
  obtain ⟨hlinks, -⟩ := (leads_append.1 hc.leads).2
  obtain ⟨n, hn, hx⟩ := Option.map_eq_some_iff.1 hlinks
  have hprev : n.prev? = l.getLast? := by simpa using congrArg Prod.fst hx
  have hnext : n.next? = r.head? := by simpa using congrArg Prod.snd hx
  refine ⟨n, hn, ?_, ?_⟩
  · rw [hprev]
    exact hc.live_of_subset fun i hi => List.mem_append_left _ (List.mem_of_getLast? hi)
  · rw [hnext]
    exact hc.live_of_subset fun i hi => by simp [List.mem_of_head? hi]

theorem attachFirst? (hc : c.Lists p hs) (hp : p.contains h = true) :
    c.attachFirst? p h = some (c.attachFirst p h) := by
  have hlive : p.live c.first? = true := by
    rw [hc.first]
    exact hc.live_of_subset fun i hi => List.mem_of_head? hi
  rw [Chain.attachFirst?, hp, hlive]
  rfl

theorem attachLast? (hc : c.Lists p hs) (hp : p.contains h = true) :
    c.attachLast? p h = some (c.attachLast p h) := by
  have hlive : p.live c.last? = true := by
    rw [hc.last]
    exact hc.live_of_subset fun i hi => List.mem_of_getLast? hi
  rw [Chain.attachLast?, hp, hlive]
  rfl

theorem attachAfter? (hc : c.Lists p (l ++ a :: r)) (hp : p.contains h = true) :
    c.attachAfter? p a h = some (c.attachAfter p a h) := by
  obtain ⟨n, hn, -, hnext⟩ := hc.node?_middle
  rw [Chain.attachAfter?, hn]
  simp only [Option.bind_eq_bind, Option.bind_some, hp, hnext, Bool.and_self, if_true]

theorem detach? (hc : c.Lists p (l ++ h :: r)) : c.detach? p h = some (c.detach p h).2 := by
  obtain ⟨n, hn, hprev, hnext⟩ := hc.node?_middle
  rw [Chain.detach?, hn]
  simp only [Option.bind_eq_bind, Option.bind_some, hprev, hnext, Bool.and_self, if_true]

theorem moveToFirst? (hc : c.Lists p (l ++ h :: r)) : c.moveToFirst? p h = some (c.moveToFirst p h) := by
  obtain ⟨htrue, hl, hr⟩ := hc.detach
  unfold Chain.moveToFirst? Chain.moveToFirst
  split
  · rfl
  · rw [hc.detach?]
    have hattach : (c.detach p h).2.1.attachFirst? (c.detach p h).2.2 h = _ :=
      hl.attachFirst? ((hr.contains h).trans (hc.contains (by simp)))
    generalize c.detach p h = x at htrue hattach ⊢
    obtain ⟨b, c', p'⟩ := x
    obtain rfl : b = true := htrue
    exact hattach

end Lists

end Chain

namespace Sequence

def pushFirst? (s : Sequence α) (v : α) : Option (Handle × Sequence α) := do
  let (h, pool) := s.pool.insert v
  let (chain, pool) ← s.chain.attachFirst? pool h
  return (h, { pool, chain })

def pushLast? (s : Sequence α) (v : α) : Option (Handle × Sequence α) := do
  let (h, pool) := s.pool.insert v
  let (chain, pool) ← s.chain.attachLast? pool h
  return (h, { pool, chain })

def erase? (s : Sequence α) (h : Handle) : Option (α × Sequence α) := do
  let (chain, pool) ← s.chain.detach? s.pool h
  let (v, pool) ← pool.erase? h
  return (v, { pool, chain })

def popFirst? (s : Sequence α) : Option (α × Sequence α) := do
  s.erase? (← s.chain.first?)

def popLast? (s : Sequence α) : Option (α × Sequence α) := do
  s.erase? (← s.chain.last?)

def moveToFirst? (s : Sequence α) (h : Handle) : Option (Sequence α) := do
  let (chain, pool) ← s.chain.moveToFirst? s.pool h
  return { pool, chain }

def modifyValue? (s : Sequence α) (h : Handle) (f : α → α) : Option (Sequence α) := do
  return { s with pool := ← s.pool.modifyValue? h f }

def toList? (s : Sequence α) : Option (List α) := (s.chain.handles s.pool).mapM s.pool.get?

namespace Holds

open Pool

variable {s : Sequence α} {l r : List (Handle × α)} {h : Handle} {v : α}

private theorem contains_new (hs : s.Holds l) (v : α) :
    (s.pool.insert v).2.contains (s.pool.insert v).1 = true := by
  rw [insert_fst]
  exact contains_of_get? (((hs.stores.insert v).get? _ v).2 (List.mem_cons_self ..))

/-! The node of a new value is linked in. -/

theorem attachFirst? (hs : s.Holds l) (v : α) :
    s.chain.attachFirst? (s.pool.insert v).2 (s.pool.insert v).1 =
      some (s.chain.attachFirst (s.pool.insert v).2 (s.pool.insert v).1) :=
  (hs.lists.insert hs.stores.sound v).attachFirst? (hs.contains_new v)

theorem attachLast? (hs : s.Holds l) (v : α) :
    s.chain.attachLast? (s.pool.insert v).2 (s.pool.insert v).1 =
      some (s.chain.attachLast (s.pool.insert v).2 (s.pool.insert v).1) :=
  (hs.lists.insert hs.stores.sound v).attachLast? (hs.contains_new v)

theorem attachAfter? (hs : s.Holds (l ++ (h, v) :: r)) (w : α) :
    s.chain.attachAfter? (s.pool.insert w).2 h (s.pool.insert w).1 =
      some (s.chain.attachAfter (s.pool.insert w).2 h (s.pool.insert w).1) := by
  have hlists := hs.lists.insert hs.stores.sound w
  rw [List.map_append, List.map_cons] at hlists
  exact hlists.attachAfter? (hs.contains_new w)

theorem pushFirst? (hs : s.Holds l) (v : α) : s.pushFirst? v = some (s.pushFirst v) := by
  simp only [Sequence.pushFirst?, hs.attachFirst? v, Option.bind_eq_bind, Option.bind_some]
  rfl

theorem pushLast? (hs : s.Holds l) (v : α) : s.pushLast? v = some (s.pushLast v) := by
  simp only [Sequence.pushLast?, hs.attachLast? v, Option.bind_eq_bind, Option.bind_some]
  rfl

/-- The node of a value is unlinked. -/
theorem detach? (hs : s.Holds (l ++ (h, v) :: r)) :
    s.chain.detach? s.pool h = some (s.chain.detach s.pool h).2 := by
  have hlists := hs.lists
  rw [List.map_append, List.map_cons] at hlists
  exact hlists.detach?

theorem erase? (hs : s.Holds (l ++ (h, v) :: r)) : s.erase? h = some (v, (s.erase h).2) := by
  have hlists := hs.lists
  rw [List.map_append, List.map_cons] at hlists
  have htrue := hlists.detach.1
  simp only [Sequence.erase?, hs.detach?, erase?_eq hs.detach_erase.1, Option.bind_eq_bind, Option.bind_some]
  unfold Sequence.erase
  generalize s.chain.detach s.pool h = x at htrue ⊢
  obtain ⟨b, c, p⟩ := x
  obtain rfl : b = true := htrue
  rfl

/-- The value under an end of the chain is given up as any other one. -/
private theorem pop_eq_erase (hs : s.Holds (l ++ (h, v) :: r)) :
    (s.chain.first? = some h → s.popFirst = s.erase h) ∧ (s.chain.last? = some h → s.popLast = s.erase h) := by
  have hlists := hs.lists
  rw [List.map_append, List.map_cons] at hlists
  have hdetach : s.chain.detach s.pool h = (true, (s.chain.detach s.pool h).2) := Prod.ext hlists.detach.1 rfl
  have herase : s.erase h = (((s.chain.detach s.pool h).2.2.erase h).1,
      { pool := ((s.chain.detach s.pool h).2.2.erase h).2, chain := (s.chain.detach s.pool h).2.1 }) := by
    rw [Sequence.erase, hdetach]
  rw [herase]
  constructor
  · intro hfirst
    simp only [Sequence.popFirst, Chain.detachFirst, hfirst]
  · intro hlast
    simp only [Sequence.popLast, Chain.detachLast, hlast]

theorem popFirst? (hs : s.Holds ((h, v) :: l)) : s.popFirst? = some (v, s.popFirst.2) := by
  have hfirst : s.chain.first? = some h := hs.lists.first
  have hmiddle : s.Holds ([] ++ (h, v) :: l) := hs
  rw [Sequence.popFirst?, hfirst, hmiddle.pop_eq_erase.1 hfirst]
  exact hmiddle.erase?

theorem popLast? (hs : s.Holds (l ++ [(h, v)])) : s.popLast? = some (v, s.popLast.2) := by
  have hlast : s.chain.last? = some h := by
    rw [hs.lists.last]
    simp
  rw [Sequence.popLast?, hlast, hs.pop_eq_erase.2 hlast]
  exact hs.erase?

theorem moveToFirst? (hs : s.Holds (l ++ (h, v) :: r)) : s.moveToFirst? h = some (s.moveToFirst h) := by
  have hlists := hs.lists
  rw [List.map_append, List.map_cons] at hlists
  simp only [Sequence.moveToFirst?, hlists.moveToFirst?, Option.bind_eq_bind, Option.bind_some]
  rfl

theorem modifyValue? (hs : s.Holds (l ++ (h, v) :: r)) (f : α → α) :
    s.modifyValue? h f = some (s.modifyValue h f) := by
  have hlive : s.pool.contains h = true := contains_of_get? hs.get?_middle
  simp only [Sequence.modifyValue?, modifyValue?_eq hlive, Option.bind_eq_bind, Option.bind_some]
  rfl

theorem toList? (hs : s.Holds l) : s.toList? = some s.toList := by
  rw [Sequence.toList?, hs.toList, hs.lists.handles_eq, mapM_get? hs.stores (List.Subset.refl l)]

end Holds

end Sequence

end Caching.Linked
