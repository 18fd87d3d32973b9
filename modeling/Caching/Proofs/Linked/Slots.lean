import Caching.Proofs.Linked.Chain
import Caching.Proofs.Linked.Sequence
import Caching.Proofs.Run

/-!
# Slots in use

How many slots a pool comes to have.  Chains only relink nodes and leave the slots as they are
(`Chain.sameSlots_attachFirst` and the lemmas after it), so a pool changes its slots by one insertion or one erasure
at a time (`Pool.Change`).  An insertion takes a new slot only if none is free.  Hence a change of a sound pool leaves
it with as many slots as before or with one for each of its nodes, whichever is more (`Pool.Change.slots_eq`), and
along a run of such changes the slots are as many as the most nodes that were held at once (`slots_eq_peak`).
-/

namespace Caching.Linked

variable {α : Type} {p q : Pool α} {c : Chain} {h : Handle}

/-! ### What a chain leaves alone -/

namespace Chain

open Pool

theorem sameSlots_attachFirst (c : Chain) (p : Pool α) (h : Handle) : p.SameSlots (c.attachFirst p h).2 := by
  unfold attachFirst
  split
  · dsimp only
    split
    · exact (sameSlots_modify _ h).modify _ _
    · exact sameSlots_modify _ h
  · exact .refl p

theorem sameSlots_attachLast (c : Chain) (p : Pool α) (h : Handle) : p.SameSlots (c.attachLast p h).2 := by
  unfold attachLast
  split
  · dsimp only
    split
    · exact (sameSlots_modify _ h).modify _ _
    · exact sameSlots_modify _ h
  · exact .refl p

theorem sameSlots_attachAfter (c : Chain) (p : Pool α) (a h : Handle) :
    p.SameSlots (c.attachAfter p a h).2 := by
  unfold attachAfter
  split
  · exact .refl p
  · split
    · dsimp only
      split
      · exact ((sameSlots_modify _ h).modify _ a).modify _ _
      · exact (sameSlots_modify _ h).modify _ a
    · exact .refl p

/-- The neighbours are relinked, then the node itself. -/
theorem sameSlots_detach (c : Chain) (p : Pool α) (h : Handle) : p.SameSlots (c.detach p h).2.2 := by
  unfold detach
  split
  · exact .refl p
  · dsimp only
    split
    · split
      · exact ((sameSlots_modify _ _).modify _ _).modify _ h
      · exact (sameSlots_modify _ _).modify _ h
    · split
      · exact (sameSlots_modify _ _).modify _ h
      · exact sameSlots_modify _ h

/-- A node is detached if there is one. -/
private theorem detach_fst (c : Chain) (p : Pool α) (h : Handle) : (c.detach p h).1 = p.contains h := by
  unfold detach Pool.contains
  cases p.node? h <;> rfl

private theorem sameSlots_moveToFirst (c : Chain) (p : Pool α) (h : Handle) :
    p.SameSlots (c.moveToFirst p h).2 := by
  have hdetach := c.sameSlots_detach p h
  unfold moveToFirst
  split
  · exact .refl p
  · generalize c.detach p h = x at hdetach
    obtain ⟨_ | _, c', p'⟩ := x
    · exact hdetach
    · exact hdetach.trans (c'.sameSlots_attachFirst p' h)

end Chain

/-! ### Changes of a pool -/

namespace Pool

private theorem size_insert (p : Pool α) (v : α) : (p.insert v).2.size = p.size + 1 := by
  unfold insert
  split <;> rfl

private theorem size_erase (p : Pool α) (h : Handle) :
    (p.erase h).2.size = if p.contains h then p.size - 1 else p.size := by
  unfold erase
  rw [contains_eq_isSome_get?]
  cases p.get? h <;> rfl

private theorem contains_erase (p : Pool α) (h i : Handle) :
    (p.erase h).2.contains i = if h = i then false else p.contains i := by
  rw [contains_eq_isSome_get?, contains_eq_isSome_get?, get?_erase]
  split <;> rfl

private theorem SameSlots.erase (hs : p.SameSlots q) (h : Handle) : (p.erase h).2.SameSlots (q.erase h).2 where
  contains i := by rw [contains_erase, contains_erase, hs.contains]
  free := by rw [free_erase, free_erase, hs.contains, hs.free]
  size := by rw [size_erase, size_erase, hs.contains, hs.size]
  slots := by rw [size_slots_erase, size_slots_erase, hs.slots]

private theorem Sound.size_le_slots (hp : p.Sound) : p.size ≤ p.slots.size := by
  have := hp.size_add_free
  omega

private theorem toList_slots (p : Pool α) : p.slots.toList = (List.range p.slots.size).map p.node? := by
  apply List.ext_getElem?
  intro i
  rw [List.getElem?_map, Array.getElem?_toList]
  by_cases hi : i < p.slots.size
  · rw [List.getElem?_range hi, Option.map_some, node?, Array.getElem?_eq_getElem hi]
    rfl
  · rw [Array.getElem?_eq_none (Nat.le_of_not_lt hi), List.getElem?_eq_none (by simpa using hi)]
    rfl

/-- The size of a sound pool is the number of its occupied slots. -/
theorem Sound.size_eq_countP (hp : p.Sound) : p.size = p.slots.toList.countP Option.isSome := by
  have hsize : p.size = ((List.range p.slots.size).filter p.contains).length := by
    apply hp.size_eq_length (List.nodup_range.filter _)
    intro h
    rw [List.mem_filter, List.mem_range]
    exact ⟨fun hc => ⟨lt_size_of_contains hc, hc⟩, And.right⟩
  rw [hsize, toList_slots, List.countP_map, List.countP_eq_length_filter]
  rfl

/-- One insertion, one erasure or none, besides changes of values and links. -/
inductive Change (p q : Pool α) : Prop where
  | none (hs : p.SameSlots q)
  | insertion (v : α) (hs : (p.insert v).2.SameSlots q)
  | erasure (h : Handle) (hs : (p.erase h).2.SameSlots q)

/-- Erasing a node after changes of values and links. -/
theorem SameSlots.erasure (hs : p.SameSlots q) (h : Handle) : p.Change (q.erase h).2 := .erasure h (hs.erase h)

namespace Change

theorem sameSlots {r : Pool α} (hc : p.Change q) (hs : q.SameSlots r) : p.Change r := by
  cases hc with
  | none hpq => exact .none (hpq.trans hs)
  | insertion v hpq => exact .insertion v (hpq.trans hs)
  | erasure h hpq => exact .erasure h (hpq.trans hs)

theorem size_le (hc : p.Change q) : q.size ≤ p.size + 1 := by
  cases hc with
  | none hs =>
    rw [hs.size]
    exact Nat.le_succ _
  | insertion v hs =>
    rw [hs.size, size_insert]
  | erasure h hs =>
    rw [hs.size, size_erase]
    split <;> omega

private theorem sound (hc : p.Change q) (hp : p.Sound) : q.Sound := by
  cases hc with
  | none hs => exact hp.sameSlots hs
  | insertion v hs => exact (hp.insert v).sameSlots hs
  | erasure h hs => exact (hp.erase h).sameSlots hs

/-- A pool grows only as far as its nodes need. -/
theorem slots_eq (hc : p.Change q) (hp : p.Sound) : q.slots.size = max p.slots.size q.size := by
  have hle := hp.size_le_slots
  cases hc with
  | none hs =>
    rw [hs.slots, hs.size]
    omega
  | insertion v hs =>
    have hadd := hp.size_add_free
    rw [hs.slots, hs.size, size_slots_insert, size_insert]
    -- without a free slot every slot is taken
    cases hf : p.free with
    | nil =>
      rw [hf, List.length_nil] at hadd
      rw [List.isEmpty_nil, if_pos rfl]
      omega
    | cons i free =>
      rw [hf, List.length_cons] at hadd
      rw [List.isEmpty_cons, if_neg Bool.false_ne_true]
      omega
  | erasure h hs =>
    rw [hs.slots, hs.size, size_slots_erase, size_erase]
    split <;> omega

end Change

end Pool

/-! ### Sequences -/

namespace Sequence

variable {s : Sequence α}

theorem sameSlots_pushFirst (s : Sequence α) (v : α) : (s.pool.insert v).2.SameSlots (s.pushFirst v).2.pool :=
  s.chain.sameSlots_attachFirst _ _

theorem sameSlots_pushLast (s : Sequence α) (v : α) : (s.pool.insert v).2.SameSlots (s.pushLast v).2.pool :=
  s.chain.sameSlots_attachLast _ _

theorem sameSlots_erase (s : Sequence α) (h : Handle) : (s.pool.erase h).2.SameSlots (s.erase h).2.pool := by
  have hdetach := s.chain.sameSlots_detach s.pool h
  have hfst := s.chain.detach_fst s.pool h
  unfold erase
  generalize s.chain.detach s.pool h = x at hdetach hfst
  obtain ⟨_ | _, c, p⟩ := x
  · rw [Pool.erase_of_not_contains hfst.symm]
    exact hdetach
  · exact hdetach.erase h

theorem sameSlots_popFirst (hf : s.chain.first? = some h) : (s.pool.erase h).2.SameSlots s.popFirst.2.pool := by
  simp only [popFirst, Chain.detachFirst, hf]
  exact (s.chain.sameSlots_detach s.pool h).erase h

theorem sameSlots_popLast (hl : s.chain.last? = some h) : (s.pool.erase h).2.SameSlots s.popLast.2.pool := by
  simp only [popLast, Chain.detachLast, hl]
  exact (s.chain.sameSlots_detach s.pool h).erase h

theorem sameSlots_moveToFirst (s : Sequence α) (h : Handle) : s.pool.SameSlots (s.moveToFirst h).pool :=
  s.chain.sameSlots_moveToFirst s.pool h

end Sequence

/-! ### Runs -/

universe u v w

variable {σ : Type u} {ι : Type v} {ρ : Type w} {step : σ → ι → ρ × σ} {between : σ → ι → List σ}
  {afresh : ι → Bool} {size : σ → Nat} {pool : σ → Pool α} {n b : Nat}

/-- The largest of `n` and the sizes of some states. -/
def largest (size : σ → Nat) : (n : Nat) → List σ → Nat
  | n, [] => n
  | n, s :: ss => largest size (max n (size s)) ss

/-- The largest size at any moment of a run since the last request that starts afresh, if it was `n` before the run.
The states after the requests do not show every moment: `between s i` are the states that the request `i` passes
through when it is made in `s`. -/
def peak (size : σ → Nat) (step : σ → ι → ρ × σ) (between : σ → ι → List σ) (afresh : ι → Bool) :
    (n : Nat) → σ → List ι → Nat
  | n, _, [] => n
  | n, s, i :: is =>
    let s' := (step s i).2
    peak size step between afresh (if afresh i then 0 else largest size n (between s i ++ [s'])) s' is

private theorem largest_le {ss : List σ} (hn : n ≤ b) (hss : ∀ s ∈ ss, size s ≤ b) : largest size n ss ≤ b := by
  induction ss generalizing n with
  | nil => exact hn
  | cons s ss ih =>
    rw [List.forall_mem_cons] at hss
    exact ih (max_le hn hss.1) hss.2

/-- The peak stays below a bound that no moment of a request exceeds. -/
theorem peak_le {I : List ι → σ → Prop}
    (hstep : ∀ i is s, I (i :: is) s →
      I is (step s i).2 ∧ ∀ t ∈ between s i ++ [(step s i).2], size t ≤ b)
    {is : List ι} {s : σ} (hn : n ≤ b) (hs : I is s) : peak size step between afresh n s is ≤ b := by
  induction is generalizing n s with
  | nil => exact hn
  | cons i is ih =>
    obtain ⟨hnext, hb⟩ := hstep i is s hs
    refine ih ?_ hnext
    split
    · exact Nat.zero_le b
    · exact largest_le hn hb

/-- A row of changes ends with as many slots as before, or as the most nodes on the way. -/
private theorem slots_eq_largest {ss : List σ} {s t : σ} (hp : (pool s).Sound)
    (hc : (s :: (ss ++ [t])).IsChain fun s t => (pool s).Change (pool t)) :
    (pool t).Sound ∧
      (pool t).slots.size = largest (fun s => (pool s).size) (pool s).slots.size (ss ++ [t]) := by
  induction ss generalizing s with
  | nil =>
    have hst := (List.isChain_cons_cons.1 hc).1
    exact ⟨hst.sound hp, hst.slots_eq hp⟩
  | cons m ss ih =>
    obtain ⟨hsm, hc⟩ := List.isChain_cons_cons.1 hc
    have hrest := ih (hsm.sound hp) hc
    rw [hsm.slots_eq hp] at hrest
    exact hrest

/-- A pool that starts empty, or as large as it is, and is changed step by step has as many slots as the most nodes
that it held at once since it was last empty. -/
theorem slots_eq_peak (pool : σ → Pool α)
    (hfresh : ∀ s i, afresh i = true → pool (step s i).2 = .empty)
    (hchange : ∀ s i, afresh i = false →
      (s :: (between s i ++ [(step s i).2])).IsChain fun s t => (pool s).Change (pool t))
    {s : σ} (hs : (pool s).Sound) (is : List ι) :
    (pool (answers step s is).2).Sound ∧
      (pool (answers step s is).2).slots.size =
        peak (fun s => (pool s).size) step between afresh (pool s).slots.size s is := by
  induction is generalizing s with
  | nil => exact ⟨hs, rfl⟩
  | cons i is ih =>
    rw [answers_cons]
    unfold peak
    cases hi : afresh i with
    | true =>
      have hempty := hfresh s i hi
      have hrest := ih (s := (step s i).2) (by rw [hempty]; exact .empty)
      rw [hempty] at hrest
      exact hrest
    | false =>
      obtain ⟨hsound, hslots⟩ := slots_eq_largest hs (hchange s i hi)
      have hrest := ih hsound
      rw [hslots] at hrest
      exact hrest

end Caching.Linked
