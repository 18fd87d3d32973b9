import Caching.Linked.Chain
import Caching.Proofs.Linked.Pool

/-!
# Chains as lists of handles

A chain lists the handles `hs` in a pool (`Chain.Lists`) if its ends and its length are those of `hs` and the
nodes lead along `hs` in both directions.  Each operation on a chain is the same operation on the list, and
relinks no nodes but those of the chain and the one it is given; so every chain that shares no node with it
lists what it listed before (`Lists.frame`).

The work is done by two changes of one link each, `linkForth` and `linkBack`: every operation is made of them
and of changes of the node it is given.
-/

namespace Caching.Linked

variable {α : Type} {p q : Pool α} {c : Chain} {h a : Handle} {hs ks l r : List Handle} {prev? next? : Option Handle}

/-! ### Where nodes lead -/

/-- The nodes `hs` lead one to the next and back, the first one back to `prev?` and the last one on to
`next?`. -/
def Pool.Leads (p : Pool α) : (prev? : Option Handle) → List Handle → (next? : Option Handle) → Prop
  | _, [], _ => True
  | prev?, h :: hs, next? => p.links? h = some (prev?, hs.head?.or next?) ∧ p.Leads (some h) hs next?

namespace Pool

theorem leads_append : p.Leads prev? (l ++ r) next? ↔
    p.Leads prev? l (r.head?.or next?) ∧ p.Leads (l.getLast?.or prev?) r next? := by
  induction l generalizing prev? with
  | nil => simp [Leads]
  | cons h l ih =>
    have hlast : (h :: l).getLast?.or prev? = l.getLast?.or (some h) := by
      cases hl : l.getLast? <;> simp [List.getLast?_cons, hl]
    simp only [List.cons_append, Leads, ih, List.head?_append, Option.or_assoc, hlast, and_assoc]

theorem Leads.congr (hl : p.Leads prev? hs next?) (hq : ∀ h ∈ hs, q.links? h = p.links? h) :
    q.Leads prev? hs next? := by
  induction hs generalizing prev? with
  | nil => trivial
  | cons h hs ih =>
    refine ⟨?_, ih hl.2 fun i hi => hq i (List.mem_cons_of_mem _ hi)⟩
    rw [hq h (List.mem_cons_self ..)]
    exact hl.1

theorem Leads.relinked (hl : p.Leads prev? hs next?) (hr : Relinked ks p q) (hd : hs.Disjoint ks) :
    q.Leads prev? hs next? :=
  hl.congr fun _ hi => hr.links? _ (hd hi)

theorem Leads.contains (hl : p.Leads prev? hs next?) (hh : h ∈ hs) : p.contains h = true := by
  induction hs generalizing prev? with
  | nil => cases hh
  | cons i hs ih =>
    rcases List.mem_cons.1 hh with rfl | hh
    · exact contains_of_links? hl.1
    · exact ih hl.2 hh

/-- Following linked nodes that lead nowhere further meets all of them, and no more. -/
theorem Leads.follow (hl : p.Leads prev? hs none) {fuel : Nat} (hf : hs.length ≤ fuel) :
    p.follow fuel hs.head? = hs := by
  induction hs generalizing prev? fuel with
  | nil => cases fuel <;> rfl
  | cons h hs ih =>
    obtain ⟨fuel, rfl⟩ : ∃ n, fuel = n + 1 := ⟨fuel - 1, by simp at hf; omega⟩
    obtain ⟨n, hn, hx⟩ := Option.map_eq_some_iff.1 hl.1
    have hnext : n.next? = hs.head? := by simpa using congrArg Prod.snd hx
    simp only [List.head?_cons, Pool.follow, hn, Option.bind_some, hnext]
    rw [ih hl.2 (by simpa using hf)]

/-- The handles met by following `prev?` links, at most `fuel` of them. -/
def followBack (p : Pool α) : (fuel : Nat) → Option Handle → List Handle
  | 0, _ => []
  | _, none => []
  | fuel + 1, some h => h :: p.followBack fuel ((p.node? h).bind (·.prev?))

theorem Leads.followBack (hl : p.Leads none hs next?) {fuel : Nat} (hf : hs.length ≤ fuel) :
    p.followBack fuel hs.getLast? = hs.reverse := by
  induction hs using List.reverseRecOn generalizing next? fuel with
  | nil => cases fuel <;> rfl
  | append_singleton hs h ih =>
    obtain ⟨fuel, rfl⟩ : ∃ n, fuel = n + 1 := ⟨fuel - 1, by simp at hf; omega⟩
    obtain ⟨hl, hh⟩ := leads_append.1 hl
    obtain ⟨n, hn, hx⟩ := Option.map_eq_some_iff.1 hh.1
    have hprev : n.prev? = hs.getLast? := by simpa using congrArg Prod.fst hx
    simp only [List.getLast?_append, List.getLast?_singleton, Option.some_or, Pool.followBack, hn,
      Option.bind_some, hprev, List.reverse_append, List.reverse_singleton, List.singleton_append]
    rw [ih hl (by simpa using hf)]

end Pool

namespace Chain

open Pool

/-! ### Changes of one link -/

/-- Lets the node `prev?` lead on to `next?`; without such a node, the chain begins there. -/
def linkForth (c : Chain) (p : Pool α) (prev? next? : Option Handle) : Chain × Pool α :=
  match neighbour? p prev? with
  | some prev => (c, p.modify prev fun n => { n with next? })
  | none => ({ c with first? := next? }, p)

/-- Lets the node `next?` lead back to `prev?`; without such a node, the chain ends there. -/
def linkBack (c : Chain) (p : Pool α) (prev? next? : Option Handle) : Chain × Pool α :=
  match neighbour? p next? with
  | some next => (c, p.modify next fun n => { n with prev? })
  | none => ({ c with last? := prev? }, p)

private theorem neighbour?_some (hh : p.contains h = true) : neighbour? p (some h) = some h := by
  simp [neighbour?, hh]

private theorem linkForth_spec (hl : p.Leads prev? l next?) (hnd : l.Nodup) {x y : Option Handle}
    (hf : c.first? = l.head?.or y) :
    (c.linkForth p l.getLast? x).2.Leads prev? l x ∧ Relinked l p (c.linkForth p l.getLast? x).2 ∧
      (c.linkForth p l.getLast? x).1 = { c with first? := l.head?.or x } := by
  rcases List.eq_nil_or_concat l with rfl | ⟨l, z, rfl⟩
  · exact ⟨trivial, Relinked.refl _ _, rfl⟩
  · rw [List.concat_eq_append] at *
    obtain ⟨hl, hz⟩ := leads_append.1 hl
    have hzl : z ∉ l := fun hm => (List.nodup_append.1 hnd).2.2 z hm z (by simp) rfl
    have hres : c.linkForth p (l ++ [z]).getLast? x = (c, p.modify z fun n => { n with next? := x }) := by
      simp [linkForth, neighbour?_some (contains_of_links? hz.1)]
    have hr : Relinked [z] p (p.modify z fun n => { n with next? := x }) :=
      Relinked.modify (List.mem_singleton_self z)
    rw [hres]
    refine ⟨leads_append.2 ⟨?_, ?_, trivial⟩, hr.mono (by simp), ?_⟩
    · exact hl.relinked hr (by simpa using hzl)
    · obtain ⟨n, hn, hx⟩ := Option.map_eq_some_iff.1 hz.1
      rw [links?_modify, if_pos rfl, hn]
      simpa using congrArg Prod.fst hx
    · have hhead : (l ++ [z]).head?.or x = (l ++ [z]).head?.or y := by cases l <;> rfl
      rw [hhead, ← hf]

private theorem linkBack_spec (hr : p.Leads prev? r next?) (hnd : r.Nodup) {x y : Option Handle}
    (hf : c.last? = r.getLast?.or y) :
    (c.linkBack p x r.head?).2.Leads x r next? ∧ Relinked r p (c.linkBack p x r.head?).2 ∧
      (c.linkBack p x r.head?).1 = { c with last? := r.getLast?.or x } := by
  cases r with
  | nil => exact ⟨trivial, Relinked.refl _ _, rfl⟩
  | cons z r =>
    obtain ⟨hz, hr⟩ := hr
    have hzr : z ∉ r := (List.nodup_cons.1 hnd).1
    have hres : c.linkBack p x (z :: r).head? = (c, p.modify z fun n => { n with prev? := x }) := by
      simp [linkBack, neighbour?_some (contains_of_links? hz)]
    have hrel : Relinked [z] p (p.modify z fun n => { n with prev? := x }) :=
      Relinked.modify (List.mem_singleton_self z)
    rw [hres]
    refine ⟨⟨?_, ?_⟩, hrel.mono (by simp), ?_⟩
    · obtain ⟨n, hn, hx⟩ := Option.map_eq_some_iff.1 hz
      rw [links?_modify, if_pos rfl, hn]
      simpa using congrArg Prod.snd hx
    · exact hr.relinked hrel (by simpa using hzr)
    · have hlast : (z :: r).getLast?.or x = (z :: r).getLast?.or y := by simp [List.getLast?_cons]
      rw [hlast, ← hf]

private theorem attachFirst_eq (c : Chain) (hh : p.contains h = true) :
    c.attachFirst p h =
      let p₁ := p.modify h fun n => { n with prev? := none, next? := c.first? }
      let (c₂, p₂) := c.linkBack p₁ (some h) c.first?
      ({ c₂ with first? := some h, length := c.length + 1 }, p₂) := by
  simp only [attachFirst, if_pos hh, linkBack]
  cases neighbour? (p.modify h fun n => { n with prev? := none, next? := c.first? }) c.first? <;> rfl

private theorem attachLast_eq (c : Chain) (hh : p.contains h = true) :
    c.attachLast p h =
      let p₁ := p.modify h fun n => { n with prev? := c.last?, next? := none }
      let (c₂, p₂) := c.linkForth p₁ c.last? (some h)
      ({ c₂ with last? := some h, length := c.length + 1 }, p₂) := by
  simp only [attachLast, if_pos hh, linkForth]
  cases neighbour? (p.modify h fun n => { n with prev? := c.last?, next? := none }) c.last? <;> rfl

private theorem attachAfter_eq (c : Chain) (hh : p.contains h = true) {n : Node α} (hn : p.node? a = some n) :
    c.attachAfter p a h =
      let p₁ := p.modify h fun m => { m with prev? := some a, next? := n.next? }
      let p₂ := p₁.modify a fun m => { m with next? := some h }
      let (c₃, p₃) := c.linkBack p₂ (some h) n.next?
      ({ c₃ with length := c.length + 1 }, p₃) := by
  simp only [attachAfter, hn, if_pos hh, linkBack]
  cases neighbour? ((p.modify h fun m => { m with prev? := some a, next? := n.next? }).modify a
    fun m => { m with next? := some h }) n.next? <;> rfl

private theorem detach_eq (c : Chain) {n : Node α} (hn : p.node? h = some n) :
    c.detach p h =
      let (c₁, p₁) := c.linkForth p n.prev? n.next?
      let (c₂, p₂) := c₁.linkBack p₁ n.prev? n.next?
      (true, { c₂ with length := c.length - 1 }, p₂.modify h fun m => { m with prev? := none, next? := none }) := by
  simp only [detach, hn, linkForth, linkBack]
  cases neighbour? p n.prev? with
  | none =>
    dsimp only
    cases neighbour? p n.next? <;> rfl
  | some prev =>
    dsimp only
    cases neighbour? (p.modify prev fun m => { m with next? := n.next? }) n.next? <;> rfl

/-! ### Listing -/

/-- A chain lists `hs` in a pool: it begins and ends where `hs` does, is as long, and its nodes lead along
`hs` in both directions. -/
structure Lists (c : Chain) (p : Pool α) (hs : List Handle) : Prop where
  nodup : hs.Nodup
  first : c.first? = hs.head?
  last : c.last? = hs.getLast?
  length : c.length = hs.length
  leads : p.Leads none hs none

namespace Lists

theorem empty (p : Pool α) : Chain.empty.Lists p [] := ⟨List.nodup_nil, rfl, rfl, rfl, trivial⟩

theorem contains (hc : c.Lists p hs) (hh : h ∈ hs) : p.contains h = true := hc.leads.contains hh

theorem congr (hc : c.Lists p hs) (hq : ∀ h ∈ hs, q.links? h = p.links? h) : c.Lists q hs :=
  { hc with leads := hc.leads.congr hq }

/-- A chain lists what it listed when only nodes of others are relinked. -/
theorem frame (hc : c.Lists p hs) (hr : Relinked ks p q) (hd : hs.Disjoint ks) : c.Lists q hs :=
  { hc with leads := hc.leads.relinked hr hd }

/-- The handle of the next insertion is not in a chain. -/
theorem fresh_not_mem (hc : c.Lists p hs) (hp : p.Sound) : p.fresh ∉ hs := by
  intro hm
  have hlive := hc.contains hm
  rw [hp.contains_fresh] at hlive
  exact Bool.noConfusion hlive

theorem insert (hc : c.Lists p hs) (hp : p.Sound) (v : α) : c.Lists (p.insert v).2 hs := by
  apply hc.congr
  intro h hh
  rw [hp.links?_insert, if_neg]
  rintro rfl
  exact hc.fresh_not_mem hp hh

theorem erase (hc : c.Lists p hs) (hh : h ∉ hs) : c.Lists (p.erase h).2 hs := by
  apply hc.congr
  intro k hk
  rw [links?_erase, if_neg]
  rintro rfl
  exact hh hk

theorem modifyValue (hc : c.Lists p hs) (h : Handle) (f : α → α) : c.Lists (p.modifyValue h f) hs :=
  hc.congr fun k _ => links?_modifyValue f h k

theorem isEmpty_iff (hc : c.Lists p hs) : c.isEmpty = true ↔ hs = [] := by
  rw [Chain.isEmpty, hc.length, beq_iff_eq, List.length_eq_zero_iff]

theorem handles_eq (hc : c.Lists p hs) : c.handles p = hs := by
  have hlen := length_le_slots hc.nodup fun _ hh => hc.contains hh
  rw [Chain.handles, hc.first]
  exact hc.leads.follow (by omega)

theorem attachFirst (hc : c.Lists p hs) (hp : p.contains h = true) (hh : h ∉ hs) :
    (c.attachFirst p h).1.Lists (c.attachFirst p h).2 (h :: hs) ∧
      Relinked (h :: hs) p (c.attachFirst p h).2 := by
  rw [attachFirst_eq c hp]
  -- the node leads to the old first one before that leads back to it
  have hr₁ : Relinked [h] p (p.modify h fun n => { n with prev? := none, next? := c.first? }) :=
    Relinked.modify (List.mem_singleton_self h)
  have hl₁ : (p.modify h fun n => { n with prev? := none, next? := c.first? }).links? h =
      some (none, hs.head?) := by
    obtain ⟨n, hn⟩ := Option.isSome_iff_exists.1 hp
    rw [links?_modify, if_pos rfl, hn, hc.first]; rfl
  generalize p.modify h (fun n => { n with prev? := none, next? := c.first? }) = p₁ at hr₁ hl₁ ⊢
  have hlast : c.last? = hs.getLast?.or none := by rw [hc.last, Option.or_none]
  have hleads := hc.leads.relinked hr₁ (by simpa using hh)
  obtain ⟨hl₂, hr₂, hc₂⟩ := linkBack_spec (x := some h) hleads hc.nodup hlast
  rw [hc.first]
  dsimp only
  refine ⟨⟨List.nodup_cons.2 ⟨hh, hc.nodup⟩, rfl, ?_, ?_, ?_, hl₂⟩, ?_⟩
  · simp only [hc₂]
    cases hg : hs.getLast? <;> simp [List.getLast?_cons, hg]
  · simp [hc.length]
  · rw [hr₂.links? h hh, hl₁, Option.or_none]
  · exact (hr₁.mono (by simp)).trans (hr₂.mono (by simp))

theorem attachLast (hc : c.Lists p hs) (hp : p.contains h = true) (hh : h ∉ hs) :
    (c.attachLast p h).1.Lists (c.attachLast p h).2 (hs ++ [h]) ∧
      Relinked (h :: hs) p (c.attachLast p h).2 := by
  rw [attachLast_eq c hp]
  have hr₁ : Relinked [h] p (p.modify h fun n => { n with prev? := c.last?, next? := none }) :=
    Relinked.modify (List.mem_singleton_self h)
  have hl₁ : (p.modify h fun n => { n with prev? := c.last?, next? := none }).links? h =
      some (hs.getLast?, none) := by
    obtain ⟨n, hn⟩ := Option.isSome_iff_exists.1 hp
    rw [links?_modify, if_pos rfl, hn, hc.last]; rfl
  generalize p.modify h (fun n => { n with prev? := c.last?, next? := none }) = p₁ at hr₁ hl₁ ⊢
  have hfirst : c.first? = hs.head?.or none := by rw [hc.first, Option.or_none]
  have hleads := hc.leads.relinked hr₁ (by simpa using hh)
  obtain ⟨hl₂, hr₂, hc₂⟩ := linkForth_spec (x := some h) hleads hc.nodup hfirst
  rw [hc.last]
  dsimp only
  refine ⟨⟨?_, ?_, ?_, ?_, leads_append.2 ⟨hl₂, ?_, trivial⟩⟩, ?_⟩
  · exact List.nodup_append'.2 ⟨hc.nodup, List.nodup_singleton h, by simpa using hh⟩
  · simp only [hc₂, List.head?_append, List.head?_cons]
  · simp
  · simp [hc.length]
  · rw [hr₂.links? h hh, hl₁, Option.or_none]; rfl
  · exact (hr₁.mono (by simp)).trans (hr₂.mono (by simp))

theorem attachAfter (hc : c.Lists p (l ++ a :: r)) (hp : p.contains h = true) (hh : h ∉ l ++ a :: r) :
    (c.attachAfter p a h).1.Lists (c.attachAfter p a h).2 (l ++ a :: h :: r) ∧
      Relinked (h :: (l ++ a :: r)) p (c.attachAfter p a h).2 := by
  obtain ⟨hl, ha, hr⟩ := leads_append.1 hc.leads
  obtain ⟨n, hn, hx⟩ := Option.map_eq_some_iff.1 ha
  have hprev : n.prev? = l.getLast? := by simpa using congrArg Prod.fst hx
  have hnext : n.next? = r.head? := by simpa using congrArg Prod.snd hx
  simp only [List.mem_append, List.mem_cons, not_or] at hh
  obtain ⟨hhl, hha, hhr⟩ := hh
  obtain ⟨hnl, hnr, hd⟩ := List.nodup_append'.1 hc.nodup
  have hal : a ∉ l := fun hm => hd hm (List.mem_cons_self ..)
  rw [List.nodup_cons] at hnr
  rw [attachAfter_eq c hp hn, hnext]
  dsimp only
  -- the new node and its predecessor are linked to each other first
  have hr₂ : Relinked [h, a] p ((p.modify h fun m => { m with prev? := some a, next? := r.head? }).modify a
      fun m => { m with next? := some h }) :=
    (Relinked.modify (List.mem_cons_self ..)).trans
      (Relinked.modify (List.mem_cons_of_mem _ (List.mem_singleton_self a)))
  have hl₂ : ((p.modify h fun m => { m with prev? := some a, next? := r.head? }).modify a
      fun m => { m with next? := some h }).links? h = some (some a, r.head?) := by
    obtain ⟨m, hm⟩ := Option.isSome_iff_exists.1 hp
    rw [links?_modify, if_neg (Ne.symm hha), links?_modify, if_pos rfl, hm]; rfl
  have ha₂ : ((p.modify h fun m => { m with prev? := some a, next? := r.head? }).modify a
      fun m => { m with next? := some h }).links? a = some (l.getLast?, some h) := by
    rw [links?_modify, if_pos rfl, node?_modify, if_neg hha, hn, ← hprev]; rfl
  generalize (p.modify h fun m => { m with prev? := some a, next? := r.head? }).modify a
    (fun m => { m with next? := some h }) = p₂ at hr₂ hl₂ ha₂ ⊢
  have hlast : c.last? = r.getLast?.or (some a) := by
    rw [hc.last, List.getLast?_append]
    cases hg : r.getLast? <;> simp [List.getLast?_cons, hg]
  have hleads := hr.relinked hr₂ (by simp [hhr, hnr.1])
  obtain ⟨hl₃, hr₃, hc₃⟩ := linkBack_spec (x := some h) hleads hnr.2 hlast
  refine ⟨⟨?_, ?_, ?_, ?_, leads_append.2 ⟨?_, ?_, ?_, hl₃⟩⟩, ?_⟩
  · have hnd := hc.nodup
    simp only [List.nodup_append', List.nodup_cons, List.mem_cons, List.disjoint_cons_right] at hnd ⊢
    tauto
  · simp only [hc₃, hc.first, List.head?_append, List.head?_cons]
  · simp only [hc₃, List.getLast?_append]
    cases hg : r.getLast? <;> simp [List.getLast?_cons, hg]
  · simp [hc.length]; omega
  · exact (hl.relinked hr₂ (by simp [hhl, hal])).relinked hr₃ fun i hi hi' =>
      hd hi (List.mem_cons_of_mem _ hi')
  · rw [hr₃.links? a hnr.1, ha₂, Option.or_none]; rfl
  · rw [hr₃.links? h hhr, hl₂, Option.or_none]
  · exact (hr₂.mono (by simp)).trans (hr₃.mono fun i hi => by simp [hi])

theorem detach (hc : c.Lists p (l ++ h :: r)) :
    (c.detach p h).1 = true ∧ (c.detach p h).2.1.Lists (c.detach p h).2.2 (l ++ r) ∧
      Relinked (l ++ h :: r) p (c.detach p h).2.2 := by
  obtain ⟨hl, hh, hr⟩ := leads_append.1 hc.leads
  obtain ⟨n, hn, hx⟩ := Option.map_eq_some_iff.1 hh
  have hprev : n.prev? = l.getLast? := by simpa using congrArg Prod.fst hx
  have hnext : n.next? = r.head? := by simpa using congrArg Prod.snd hx
  obtain ⟨hnl, hnr, hd⟩ := List.nodup_append'.1 hc.nodup
  rw [List.disjoint_cons_right] at hd
  rw [List.nodup_cons] at hnr
  have hfirst : c.first? = l.head?.or (some h) := by rw [hc.first, List.head?_append, List.head?_cons]
  -- the nodes before the detached one lead past it, then those behind it lead back past it
  obtain ⟨hl₁, hr₁, hc₁⟩ := linkForth_spec (x := r.head?) hl hnl hfirst
  rw [detach_eq c hn, hprev, hnext]
  generalize c.linkForth p l.getLast? r.head? = x₁ at hl₁ hr₁ hc₁ ⊢
  obtain ⟨c₁, p₁⟩ := x₁
  dsimp only at hl₁ hr₁ hc₁
  have hlast : c₁.last? = r.getLast?.or (some h) := by
    rw [hc₁, hc.last, List.getLast?_append]
    cases hg : r.getLast? <;> simp [List.getLast?_cons, hg]
  obtain ⟨hl₂, hr₂, hc₂⟩ :=
    linkBack_spec (x := l.getLast?) (hr.relinked hr₁ hd.2.symm) hnr.2 hlast
  dsimp only at hl₂ hr₂ hc₂ ⊢
  generalize c₁.linkBack p₁ l.getLast? r.head? = x₂ at hl₂ hr₂ hc₂ ⊢
  obtain ⟨c₂, p₂⟩ := x₂
  dsimp only at hl₂ hr₂ hc₂ ⊢
  have hr₃ : Relinked [h] p₂ (p₂.modify h fun m => { m with prev? := none, next? := none }) :=
    Relinked.modify (List.mem_singleton_self h)
  refine ⟨rfl, ⟨?_, ?_, ?_, ?_, leads_append.2 ⟨?_, ?_⟩⟩, ?_⟩
  · exact List.nodup_append'.2 ⟨hnl, hnr.2, hd.2⟩
  · simp [hc₂, hc₁]
  · simp [hc₂, List.getLast?_append]
  · simp [hc.length]
  · rw [Option.or_none]
    exact (hl₁.relinked hr₂ hd.2).relinked hr₃ (by simpa using hd.1)
  · rw [Option.or_none]
    exact hl₂.relinked hr₃ (by simpa using hnr.1)
  · refine (hr₁.mono ?_).trans ((hr₂.mono ?_).trans (hr₃.mono ?_)) <;> intro i hi <;> simp_all

theorem detachFirst (hc : c.Lists p hs) :
    (c.detachFirst p).1 = hs.head? ∧ (c.detachFirst p).2.1.Lists (c.detachFirst p).2.2 hs.tail ∧
      Relinked hs p (c.detachFirst p).2.2 := by
  cases hs with
  | nil =>
    have hres : c.detachFirst p = (none, c, p) := by
      simp only [Chain.detachFirst, hc.first, List.head?_nil]
    rw [hres]
    exact ⟨rfl, hc, Relinked.refl _ _⟩
  | cons h hs =>
    have hres : c.detachFirst p = (some h, (c.detach p h).2) := by
      simp only [Chain.detachFirst, hc.first, List.head?_cons]
    obtain ⟨-, hl, hr⟩ := hc.detach (l := [])
    rw [hres]
    exact ⟨rfl, hl, hr⟩

theorem detachLast (hc : c.Lists p hs) :
    (c.detachLast p).1 = hs.getLast? ∧ (c.detachLast p).2.1.Lists (c.detachLast p).2.2 hs.dropLast ∧
      Relinked hs p (c.detachLast p).2.2 := by
  rcases List.eq_nil_or_concat hs with rfl | ⟨hs, h, rfl⟩
  · have hres : c.detachLast p = (none, c, p) := by
      simp only [Chain.detachLast, hc.last, List.getLast?_nil]
    rw [hres]
    exact ⟨rfl, hc, Relinked.refl _ _⟩
  · rw [List.concat_eq_append] at hc ⊢
    have hres : c.detachLast p = (some h, (c.detach p h).2) := by
      simp only [Chain.detachLast, hc.last, List.getLast?_append, List.getLast?_singleton, Option.some_or]
    obtain ⟨-, hl, hr⟩ := hc.detach
    rw [hres]
    refine ⟨by simp, ?_, hr⟩
    simpa using hl

theorem moveToFirst (hc : c.Lists p (l ++ h :: r)) :
    (c.moveToFirst p h).1.Lists (c.moveToFirst p h).2 (h :: (l ++ r)) ∧
      Relinked (l ++ h :: r) p (c.moveToFirst p h).2 := by
  unfold Chain.moveToFirst
  split
  · next hfirst =>
    -- the node is the first one already
    cases l with
    | nil => exact ⟨hc, Relinked.refl _ _⟩
    | cons i l =>
      rw [hc.first] at hfirst
      obtain rfl : i = h := by simpa using hfirst
      exact absurd hc.nodup (by simp)
  · obtain ⟨htrue, hl, hr⟩ := hc.detach
    have hp : (c.detach p h).2.2.contains h = true := by
      rw [hr.contains]
      exact hc.contains (by simp)
    have hh : h ∉ l ++ r := by
      have hnd := hc.nodup
      rw [List.nodup_middle, List.nodup_cons] at hnd
      exact hnd.1
    generalize c.detach p h = x at htrue hl hr hp ⊢
    obtain ⟨b, c', p'⟩ := x
    obtain rfl : b = true := htrue
    obtain ⟨hl', hr'⟩ := hl.attachFirst hp hh
    refine ⟨hl', hr.trans (hr'.mono ?_)⟩
    intro i hi
    simpa [or_left_comm] using hi

end Lists

/-! ### Stale handles -/

theorem attachFirst_of_not_contains (c : Chain) (hh : p.contains h = false) : c.attachFirst p h = (c, p) := by
  simp [attachFirst, hh]

theorem attachLast_of_not_contains (c : Chain) (hh : p.contains h = false) : c.attachLast p h = (c, p) := by
  simp [attachLast, hh]

theorem attachAfter_of_not_contains (c : Chain) (hh : p.contains a = false ∨ p.contains h = false) :
    c.attachAfter p a h = (c, p) := by
  unfold attachAfter
  rcases hh with ha | hh
  · rw [Pool.contains, Option.isSome_eq_false_iff, Option.isNone_iff_eq_none] at ha
    rw [ha]
  · cases p.node? a <;> simp [hh]

theorem detach_of_not_contains (c : Chain) (hh : p.contains h = false) : c.detach p h = (false, c, p) := by
  rw [Pool.contains, Option.isSome_eq_false_iff, Option.isNone_iff_eq_none] at hh
  simp [detach, hh]

theorem moveToFirst_of_not_contains (c : Chain) (hh : p.contains h = false) : c.moveToFirst p h = (c, p) := by
  simp [moveToFirst, detach_of_not_contains c hh]

end Chain

end Caching.Linked
