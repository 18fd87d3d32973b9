import Caching.Proofs.Linked.Chain
import Caching.Proofs.Run

/-!
# Several chains over one pool

A pool with any number of chains over it, and requests to them in any order.  Beside it stand rows: lists of
handles that share no storage at all.  The callers of chains keep a discipline, which is stated on the rows
(`Rows.Permits`): only a node of no chain is attached or erased, and only a node of the chain is detached, moved
or used as an anchor; a stale handle is permitted everywhere, and so is dropping all of a chain, which leaves its
nodes with links to each other.

Under the discipline the chains answer every run of requests as the rows do and show the rows in both directions,
a request to one chain leaves the others as they are, a stale handle changes nothing, and no count is lowered
below zero (`sharedPool_answers_as_rows`).
-/

namespace Caching.Linked

/-- A pool and the chains over it. -/
structure SharedPool (ι α : Type) where
  pool : Pool α
  chain : ι → Chain

/-- What a shared pool stands for: the values of the nodes, the order in which handles are given out, and one
list of handles for each chain. -/
structure Rows (ι α : Type) where
  value? : Handle → Option α
  /-- The handles that were given back, the last one first. -/
  free : List Handle
  /-- The first handle that was never given out. -/
  next : Handle
  row : ι → List Handle

namespace SharedPool

inductive Request (ι α : Type) where
  | insert (v : α)
  | erase (h : Handle)
  | get (h : Handle)
  /-- Changes the value of a node. -/
  | edit (h : Handle) (f : α → α)
  /-- Puts another value into a node and tells the old one. -/
  | replace (h : Handle) (v : α)
  | attachFirst (i : ι) (h : Handle)
  | attachLast (i : ι) (h : Handle)
  | attachAfter (i : ι) (anchor h : Handle)
  | detach (i : ι) (h : Handle)
  | detachFirst (i : ι)
  | detachLast (i : ι)
  | moveToFirst (i : ι) (h : Handle)
  /-- Drops all nodes of a chain, which stay in the pool. -/
  | reset (i : ι)
  | walk (i : ι)

inductive Answer (α : Type) where
  | done
  | flag (b : Bool)
  | handle? (h? : Option Handle)
  | value? (v? : Option α)
  | handles (hs : List Handle)

namespace Request

variable {ι α : Type}

/-- The chain that a request is made to. -/
def chain? : Request ι α → Option ι
  | .insert _ | .erase _ | .get _ | .edit _ _ | .replace _ _ => none
  | .attachFirst i _ | .attachLast i _ | .attachAfter i _ _ | .detach i _ | .detachFirst i | .detachLast i
  | .moveToFirst i _ | .reset i | .walk i => some i

/-- The handles that a request names. -/
def handles : Request ι α → List Handle
  | .erase h | .get h | .edit h _ | .replace h _ | .attachFirst _ h | .attachLast _ h | .detach _ h
  | .moveToFirst _ h => [h]
  | .attachAfter _ anchor h => [anchor, h]
  | .insert _ | .detachFirst _ | .detachLast _ | .reset _ | .walk _ => []

/-- The answer to a request that names a stale handle. -/
def refusal : Request ι α → Answer α
  | .erase _ | .get _ | .edit _ _ | .replace _ _ => .value? none
  | .detach _ _ => .flag false
  | _ => .done

end Request

variable {ι α : Type}

/-- A pool over which no chain has a node. -/
def ofPool (p : Pool α) : SharedPool ι α := { pool := p, chain := fun _ => .empty }

variable [DecidableEq ι]

/-- Carries out an operation on one of the chains. -/
def onChain (s : SharedPool ι α) (i : ι) (f : Chain → Pool α → Answer α × Chain × Pool α) :
    Answer α × SharedPool ι α :=
  let (a, c, pool) := f (s.chain i) s.pool
  (a, { pool, chain := Function.update s.chain i c })

def answer (s : SharedPool ι α) : Request ι α → Answer α × SharedPool ι α
  | .insert v => let (h, pool) := s.pool.insert v; (.handle? (some h), { s with pool })
  | .erase h => let (v?, pool) := s.pool.erase h; (.value? v?, { s with pool })
  | .get h => (.value? (s.pool.get? h), s)
  | .edit h f => (.value? (s.pool.get? h), { s with pool := s.pool.modifyValue h f })
  | .replace h v => let (old?, pool) := s.pool.replace h v; (.value? old?, { s with pool })
  | .attachFirst i h => s.onChain i fun c p => (.done, c.attachFirst p h)
  | .attachLast i h => s.onChain i fun c p => (.done, c.attachLast p h)
  | .attachAfter i anchor h => s.onChain i fun c p => (.done, c.attachAfter p anchor h)
  | .detach i h => s.onChain i fun c p => let (b, c, p) := c.detach p h; (.flag b, c, p)
  | .detachFirst i => s.onChain i fun c p => let (h?, c, p) := c.detachFirst p; (.handle? h?, c, p)
  | .detachLast i => s.onChain i fun c p => let (h?, c, p) := c.detachLast p; (.handle? h?, c, p)
  | .moveToFirst i h => s.onChain i fun c p => (.done, c.moveToFirst p h)
  | .reset i => s.onChain i fun _ p => (.done, .empty, p)
  | .walk i => (.handles ((s.chain i).handles s.pool), s)

/-- Whatever count a request lowers, it is not zero. -/
def CountsDown (s : SharedPool ι α) : Request ι α → Prop
  | .erase h => s.pool.contains h = true → 0 < s.pool.size
  | .detach i h | .moveToFirst i h => s.pool.contains h = true → 0 < (s.chain i).length
  | .detachFirst i => (s.chain i).first? ≠ none → 0 < (s.chain i).length
  | .detachLast i => (s.chain i).last? ≠ none → 0 < (s.chain i).length
  | _ => True

end SharedPool

namespace Rows

open SharedPool (Request Answer)

variable {ι α : Type}

/-- The rows over a pool when no chain has a node. -/
def ofPool (p : Pool α) : Rows ι α :=
  { value? := p.get?, free := p.free, next := p.slots.size, row := fun _ => [] }

/-- Puts `h` directly after `anchor`. -/
def insertAfter (anchor h : Handle) : List Handle → List Handle
  | [] => []
  | i :: hs => if i = anchor then i :: h :: hs else i :: insertAfter anchor h hs

private theorem insertAfter_append {anchor h : Handle} {l r : List Handle} (hl : anchor ∉ l) :
    insertAfter anchor h (l ++ anchor :: r) = l ++ anchor :: h :: r := by
  induction l with
  | nil => simp [insertAfter]
  | cons i l ih =>
    rw [List.mem_cons, not_or] at hl
    simp only [List.cons_append, insertAfter, if_neg (Ne.symm hl.1), ih hl.2]

def live (m : Rows ι α) (h : Handle) : Bool := (m.value? h).isSome

def setValue (m : Rows ι α) (h : Handle) (v? : Option α) : Rows ι α :=
  { m with value? := Function.update m.value? h v? }

private theorem value?_setValue (m : Rows ι α) (h j : Handle) (v? : Option α) :
    (m.setValue h v?).value? j = if h = j then v? else m.value? j := by
  show Function.update m.value? h v? j = _
  rw [Function.update_apply]
  simp only [eq_comm]

variable [DecidableEq ι]

def setRow (m : Rows ι α) (i : ι) (hs : List Handle) : Rows ι α :=
  { m with row := Function.update m.row i hs }

def answer (m : Rows ι α) : Request ι α → Answer α × Rows ι α
  | .insert v =>
    let h := m.free.headD m.next
    (.handle? (some h), { m.setValue h (some v) with
      free := m.free.tail, next := if m.free.isEmpty then m.next + 1 else m.next })
  | .erase h =>
    (.value? (m.value? h), if m.live h then { m.setValue h none with free := h :: m.free } else m)
  | .get h => (.value? (m.value? h), m)
  | .edit h f => (.value? (m.value? h), m.setValue h ((m.value? h).map f))
  | .replace h v => (.value? (m.value? h), m.setValue h ((m.value? h).map fun _ => v))
  | .attachFirst i h => (.done, if m.live h then m.setRow i (h :: m.row i) else m)
  | .attachLast i h => (.done, if m.live h then m.setRow i (m.row i ++ [h]) else m)
  | .attachAfter i anchor h =>
    (.done, if m.live anchor && m.live h then m.setRow i (insertAfter anchor h (m.row i)) else m)
  | .detach i h => (.flag (m.live h), if m.live h then m.setRow i ((m.row i).erase h) else m)
  | .detachFirst i => (.handle? (m.row i).head?, m.setRow i (m.row i).tail)
  | .detachLast i => (.handle? (m.row i).getLast?, m.setRow i (m.row i).dropLast)
  | .moveToFirst i h => (.done, if m.live h then m.setRow i (h :: (m.row i).erase h) else m)
  | .reset i => (.done, m.setRow i [])
  | .walk i => (.handles (m.row i), m)

/-- The discipline of the callers. -/
def Permits (m : Rows ι α) : Request ι α → Prop
  | .erase h | .attachFirst _ h | .attachLast _ h => m.live h = true → ∀ j, h ∉ m.row j
  | .attachAfter i anchor h =>
    m.live anchor = true → m.live h = true → anchor ∈ m.row i ∧ ∀ j, h ∉ m.row j
  | .detach i h | .moveToFirst i h => m.live h = true → h ∈ m.row i
  | _ => True

/-- Every request of a run is permitted when its turn comes. -/
def PermitsAll (m : Rows ι α) : List (Request ι α) → Prop
  | [] => True
  | r :: rs => m.Permits r ∧ (m.answer r).2.PermitsAll rs

instance [Fintype ι] (m : Rows ι α) : DecidablePred m.Permits
  | .erase h | .attachFirst _ h | .attachLast _ h => inferInstanceAs (Decidable (m.live h = true → ∀ j, h ∉ m.row j))
  | .attachAfter i anchor h => inferInstanceAs
      (Decidable (m.live anchor = true → m.live h = true → anchor ∈ m.row i ∧ ∀ j, h ∉ m.row j))
  | .detach i h | .moveToFirst i h => inferInstanceAs (Decidable (m.live h = true → h ∈ m.row i))
  | .insert _ | .get _ | .edit _ _ | .replace _ _ | .detachFirst _ | .detachLast _ | .reset _ | .walk _ =>
    .isTrue trivial

instance decidablePermitsAll [Fintype ι] (m : Rows ι α) : (rs : List (Request ι α)) → Decidable (m.PermitsAll rs)
  | [] => .isTrue trivial
  | r :: rs => @instDecidableAnd _ _ _ (decidablePermitsAll (m.answer r).2 rs)

/-- A request to one chain leaves the rows of the others. -/
private theorem row_answer (m : Rows ι α) {r : Request ι α} {j : ι} (hj : r.chain? ≠ some j) :
    (m.answer r).2.row j = m.row j := by
  have hset : ∀ i hs, i ≠ j → (m.setRow i hs).row j = m.row j := fun i hs hi =>
    Function.update_of_ne (Ne.symm hi) ..
  -- every other chain keeps its row whatever the request does to its own
  have hne : ∀ i, r.chain? = some i → i ≠ j := by
    rintro i hi rfl
    exact hj hi
  cases r with
  | insert _ | get _ | edit _ _ | replace _ _ | walk _ => rfl
  | erase h =>
    simp only [answer]
    split <;> rfl
  | attachFirst i _ | attachLast i _ | attachAfter i _ _ | detach i _ | moveToFirst i _ =>
    simp only [answer]
    split
    · exact hset i _ (hne i rfl)
    · rfl
  | detachFirst i | detachLast i | reset i => exact hset i _ (hne i rfl)

end Rows

namespace SharedPool

variable {ι α : Type} {s : SharedPool ι α} {m : Rows ι α}

/-! ### Agreement -/

/-- A shared pool stands for rows: the pool is sound and has the values and the free handles of the rows, and
each chain lists its row. -/
structure Agrees (s : SharedPool ι α) (m : Rows ι α) : Prop where
  sound : s.pool.Sound
  value : ∀ h, s.pool.get? h = m.value? h
  free : s.pool.free = m.free
  next : s.pool.slots.size = m.next
  lists : ∀ i, (s.chain i).Lists s.pool (m.row i)
  disjoint : ∀ i j, i ≠ j → (m.row i).Disjoint (m.row j)

namespace Agrees

variable {h : Handle} {i : ι}

private theorem live (hs : s.Agrees m) (h : Handle) : m.live h = s.pool.contains h := by
  rw [Pool.contains_eq_isSome_get?, hs.value, Rows.live]

private theorem not_contains (hs : s.Agrees m) (hl : m.live h = false) : s.pool.contains h = false := by
  rw [← hs.live, hl]

private theorem contains (hs : s.Agrees m) (hl : m.live h = true) : s.pool.contains h = true := by
  rw [← hs.live, hl]

/-- A row with a node in it, split there. -/
private theorem split_row (hs : s.Agrees m) (hh : h ∈ m.row i) :
    ∃ l r, m.row i = l ++ h :: r ∧ h ∉ l ∧ (m.row i).erase h = l ++ r := by
  obtain ⟨l, r, hrow⟩ := List.append_of_mem hh
  have hnd := (hs.lists i).nodup
  rw [hrow] at hnd
  have hl : h ∉ l := fun hm => (List.nodup_append.1 hnd).2.2 h hm h (by simp) rfl
  refine ⟨l, r, hrow, hl, ?_⟩
  rw [hrow, List.erase_append_right _ hl, List.erase_cons_head]

private theorem ofPool {p : Pool α} (hp : p.Sound) : (SharedPool.ofPool p : SharedPool ι α).Agrees (Rows.ofPool p) where
  sound := hp
  value _ := rfl
  free := rfl
  next := rfl
  lists _ := .empty p
  disjoint _ _ _ := List.disjoint_nil_left _

variable [DecidableEq ι]

/-- An operation on the chain `i` that relinks no node of another chain keeps the agreement. -/
private theorem onChain (hs : s.Agrees m) {c : Chain} {q : Pool α} {hs' ks : List Handle} (hc : c.Lists q hs')
    (hr : s.pool.Relinked ks q) (hk : ∀ j, j ≠ i → (m.row j).Disjoint ks)
    (hd : ∀ j, j ≠ i → (m.row j).Disjoint hs') :
    (SharedPool.mk q (Function.update s.chain i c)).Agrees (m.setRow i hs') where
  sound := hs.sound.relinked hr
  value h := (hr.get? h).trans (hs.value h)
  free := hr.free.trans hs.free
  next := hr.slots.trans hs.next
  lists j := by
    by_cases e : j = i
    · subst e
      simpa [Rows.setRow] using hc
    · simpa [Rows.setRow, e] using (hs.lists j).frame hr (hk j e)
  disjoint j₁ j₂ hne := by
    by_cases e₁ : j₁ = i
    · have e₂ : j₂ ≠ i := fun e₂ => hne (e₁.trans e₂.symm)
      simpa [Rows.setRow, e₁, e₂] using (hd j₂ e₂).symm
    · by_cases e₂ : j₂ = i
      · simpa [Rows.setRow, e₁, e₂] using hd j₁ e₁
      · simpa [Rows.setRow, e₁, e₂] using hs.disjoint j₁ j₂ hne

/-- The same for an operation that stays within the nodes of the chain. -/
private theorem onChain_within (hs : s.Agrees m) {c : Chain} {q : Pool α} {hs' : List Handle} (hc : c.Lists q hs')
    (hr : s.pool.Relinked (m.row i) q) (hsub : hs' ⊆ m.row i) :
    (SharedPool.mk q (Function.update s.chain i c)).Agrees (m.setRow i hs') := by
  have hd : ∀ j, j ≠ i → (m.row j).Disjoint (m.row i) := fun j hj => hs.disjoint j i hj
  exact hs.onChain hc hr hd fun j hj => List.disjoint_of_subset_right hsub (hd j hj)

/-- The same for an operation that takes a node of no chain in. -/
private theorem onChain_attach (hs : s.Agrees m) (hh : ∀ j, h ∉ m.row j) {c : Chain} {q : Pool α} {hs' : List Handle}
    (hc : c.Lists q hs') (hr : s.pool.Relinked (h :: m.row i) q) (hsub : hs' ⊆ h :: m.row i) :
    (SharedPool.mk q (Function.update s.chain i c)).Agrees (m.setRow i hs') := by
  have hd : ∀ j, j ≠ i → (m.row j).Disjoint (h :: m.row i) := fun j hj =>
    List.disjoint_cons_right.2 ⟨hh j, hs.disjoint j i hj⟩
  exact hs.onChain hc hr hd fun j hj => List.disjoint_of_subset_right hsub (hd j hj)

private theorem onChain_id (s : SharedPool ι α) (i : ι) :
    SharedPool.mk s.pool (Function.update s.chain i (s.chain i)) = s := by
  rw [Function.update_eq_self]

/-! ### One request -/

private theorem insert (hs : s.Agrees m) (v : α) :
    (s.answer (.insert v)).1 = (m.answer (.insert v)).1 ∧
      (s.answer (.insert v)).2.Agrees (m.answer (.insert v)).2 := by
  have hfresh : s.pool.fresh = m.free.headD m.next := by rw [Pool.fresh, hs.free, hs.next]
  have hsound := hs.sound
  simp only [SharedPool.answer, Rows.answer, Pool.insert_fst, ← hfresh]
  refine ⟨trivial, hsound.insert v, ?_, ?_, ?_, ?_, hs.disjoint⟩
  · intro h
    show _ = (m.setValue s.pool.fresh (some v)).value? h
    rw [hsound.get?_insert, hs.value, Rows.value?_setValue]
  · rw [Pool.free_insert, hs.free]
  · rw [Pool.size_slots_insert, hs.free, hs.next]
  · exact fun j => (hs.lists j).insert hsound v

private theorem erase (hs : s.Agrees m) (hp : m.Permits (.erase h)) :
    (s.answer (.erase h)).1 = (m.answer (.erase h)).1 ∧
      (s.answer (.erase h)).2.Agrees (m.answer (.erase h)).2 := by
  simp only [SharedPool.answer, Rows.answer, Pool.erase_fst, hs.value, true_and]
  cases hl : m.live h with
  | false =>
    rw [Pool.erase_of_not_contains (hs.not_contains hl)]
    exact hs
  | true =>
    refine ⟨hs.sound.erase h, ?_, ?_, ?_, ?_, hs.disjoint⟩
    · intro j
      show _ = (m.setValue h none).value? j
      rw [Pool.get?_erase, hs.value, Rows.value?_setValue]
    · rw [Pool.free_erase, if_pos (hs.contains hl), hs.free, if_pos rfl]
    · rw [Pool.size_slots_erase, hs.next, if_pos rfl, Rows.setValue]
    · exact fun j => (hs.lists j).erase (hp hl j)

private theorem edit (hs : s.Agrees m) (h : Handle) (f : α → α) :
    (s.answer (.edit h f)).1 = (m.answer (.edit h f)).1 ∧
      (s.answer (.edit h f)).2.Agrees (m.answer (.edit h f)).2 := by
  simp only [SharedPool.answer, Rows.answer, hs.value, true_and]
  refine ⟨hs.sound.modifyValue h f, ?_, hs.free, ?_, ?_, hs.disjoint⟩
  · intro j
    rw [Pool.get?_modifyValue, hs.value, Rows.value?_setValue]
    by_cases e : h = j
    · subst e; rfl
    · rw [if_neg e, if_neg e]
  · rw [Pool.modifyValue, Pool.size_slots_modify, hs.next, Rows.setValue]
  · exact fun j => (hs.lists j).modifyValue h f

private theorem attachFirst (hs : s.Agrees m) (hp : m.Permits (.attachFirst i h)) :
    (s.answer (.attachFirst i h)).2.Agrees (m.answer (.attachFirst i h)).2 := by
  simp only [SharedPool.answer, SharedPool.onChain, Rows.answer]
  cases hl : m.live h with
  | false =>
    rw [Chain.attachFirst_of_not_contains _ (hs.not_contains hl), onChain_id]
    exact hs
  | true =>
    obtain ⟨hc, hr⟩ := (hs.lists i).attachFirst (hs.contains hl) (hp hl i)
    exact hs.onChain_attach (hp hl) hc hr (List.Subset.refl _)

private theorem attachLast (hs : s.Agrees m) (hp : m.Permits (.attachLast i h)) :
    (s.answer (.attachLast i h)).2.Agrees (m.answer (.attachLast i h)).2 := by
  simp only [SharedPool.answer, SharedPool.onChain, Rows.answer]
  cases hl : m.live h with
  | false =>
    rw [Chain.attachLast_of_not_contains _ (hs.not_contains hl), onChain_id]
    exact hs
  | true =>
    obtain ⟨hc, hr⟩ := (hs.lists i).attachLast (hs.contains hl) (hp hl i)
    exact hs.onChain_attach (hp hl) hc hr (by simp)

private theorem attachAfter (hs : s.Agrees m) {a : Handle} (hp : m.Permits (.attachAfter i a h)) :
    (s.answer (.attachAfter i a h)).2.Agrees (m.answer (.attachAfter i a h)).2 := by
  simp only [SharedPool.answer, SharedPool.onChain, Rows.answer]
  cases hl : m.live a && m.live h with
  | false =>
    have hstale : s.pool.contains a = false ∨ s.pool.contains h = false := by
      rw [← hs.live, ← hs.live, ← Bool.and_eq_false_iff, hl]
    rw [Chain.attachAfter_of_not_contains _ hstale, onChain_id]
    exact hs
  | true =>
    obtain ⟨hla, hlh⟩ := Bool.and_eq_true_iff.1 hl
    obtain ⟨ha, hh⟩ := hp hla hlh
    obtain ⟨l, r, hrow, hal, -⟩ := hs.split_row ha
    have hlists := hs.lists i
    have hnot := hh i
    rw [hrow] at hlists hnot
    obtain ⟨hc, hr⟩ := hlists.attachAfter (hs.contains hlh) hnot
    rw [← hrow] at hr
    rw [if_pos rfl, hrow, Rows.insertAfter_append hal]
    refine hs.onChain_attach hh hc hr ?_
    rw [hrow]
    intro k hk
    simp only [List.mem_append, List.mem_cons] at hk ⊢
    tauto

private theorem detach (hs : s.Agrees m) (hp : m.Permits (.detach i h)) :
    (s.answer (.detach i h)).1 = (m.answer (.detach i h)).1 ∧
      (s.answer (.detach i h)).2.Agrees (m.answer (.detach i h)).2 := by
  simp only [SharedPool.answer, SharedPool.onChain, Rows.answer]
  cases hl : m.live h with
  | false =>
    rw [Chain.detach_of_not_contains _ (hs.not_contains hl), onChain_id]
    exact ⟨rfl, hs⟩
  | true =>
    obtain ⟨l, r, hrow, -, herase⟩ := hs.split_row (hp hl)
    have hlists := hs.lists i
    rw [hrow] at hlists
    obtain ⟨htrue, hc, hr⟩ := hlists.detach
    rw [← hrow] at hr
    rw [herase]
    refine ⟨congrArg Answer.flag htrue, hs.onChain_within hc hr ?_⟩
    rw [hrow]
    intro k hk
    simp only [List.mem_append, List.mem_cons] at hk ⊢
    tauto

private theorem detachFirst (hs : s.Agrees m) (i : ι) :
    (s.answer (.detachFirst i)).1 = (m.answer (.detachFirst i)).1 ∧
      (s.answer (.detachFirst i)).2.Agrees (m.answer (.detachFirst i)).2 := by
  obtain ⟨hhead, hc, hr⟩ := (hs.lists i).detachFirst
  exact ⟨congrArg Answer.handle? hhead, hs.onChain_within hc hr (List.tail_subset _)⟩

private theorem detachLast (hs : s.Agrees m) (i : ι) :
    (s.answer (.detachLast i)).1 = (m.answer (.detachLast i)).1 ∧
      (s.answer (.detachLast i)).2.Agrees (m.answer (.detachLast i)).2 := by
  obtain ⟨hlast, hc, hr⟩ := (hs.lists i).detachLast
  exact ⟨congrArg Answer.handle? hlast, hs.onChain_within hc hr (List.dropLast_subset _)⟩

private theorem moveToFirst (hs : s.Agrees m) (hp : m.Permits (.moveToFirst i h)) :
    (s.answer (.moveToFirst i h)).2.Agrees (m.answer (.moveToFirst i h)).2 := by
  simp only [SharedPool.answer, SharedPool.onChain, Rows.answer]
  cases hl : m.live h with
  | false =>
    rw [Chain.moveToFirst_of_not_contains _ (hs.not_contains hl), onChain_id]
    exact hs
  | true =>
    obtain ⟨l, r, hrow, -, herase⟩ := hs.split_row (hp hl)
    have hlists := hs.lists i
    rw [hrow] at hlists
    obtain ⟨hc, hr⟩ := hlists.moveToFirst
    rw [← hrow] at hr
    rw [herase]
    refine hs.onChain_within hc hr ?_
    rw [hrow]
    intro k hk
    simp only [List.mem_append, List.mem_cons] at hk ⊢
    tauto

/-- A permitted request is answered as the rows answer it. -/
private theorem answer (hs : s.Agrees m) {r : Request ι α} (hp : m.Permits r) :
    (s.answer r).1 = (m.answer r).1 ∧ (s.answer r).2.Agrees (m.answer r).2 := by
  cases r with
  | insert v => exact hs.insert v
  | erase h => exact hs.erase hp
  | get h => exact ⟨congrArg Answer.value? (hs.value h), hs⟩
  | edit h f => exact hs.edit h f
  | replace h v => exact hs.edit h fun _ => v
  | attachFirst i h => exact ⟨rfl, hs.attachFirst hp⟩
  | attachLast i h => exact ⟨rfl, hs.attachLast hp⟩
  | attachAfter i a h => exact ⟨rfl, hs.attachAfter hp⟩
  | detach i h => exact hs.detach hp
  | detachFirst i => exact hs.detachFirst i
  | detachLast i => exact hs.detachLast i
  | moveToFirst i h => exact ⟨rfl, hs.moveToFirst hp⟩
  | reset i =>
    exact ⟨rfl, hs.onChain_within (.empty _) (Pool.Relinked.refl _ _) (List.nil_subset _)⟩
  | walk i => exact ⟨congrArg Answer.handles (hs.lists i).handles_eq, hs⟩

/-- A permitted request to one chain leaves the others as they are. -/
private theorem handles_answer (hs : s.Agrees m) {r : Request ι α} (hp : m.Permits r) {j : ι} (hj : r.chain? ≠ some j) :
    ((s.answer r).2.chain j).handles (s.answer r).2.pool = (s.chain j).handles s.pool := by
  rw [((hs.answer hp).2.lists j).handles_eq, (hs.lists j).handles_eq, m.row_answer hj]

omit [DecidableEq ι] in
private theorem countsDown (hs : s.Agrees m) {r : Request ι α} (hp : m.Permits r) : s.CountsDown r := by
  have hpos : ∀ i, m.row i ≠ [] → 0 < (s.chain i).length := by
    intro i hi
    rw [(hs.lists i).length]
    exact List.length_pos_iff.2 hi
  have hmem : ∀ i h, (m.live h = true → h ∈ m.row i) → s.pool.contains h = true → 0 < (s.chain i).length := by
    intro i h hh hc
    rw [← hs.live] at hc
    exact hpos i (List.ne_nil_of_mem (hh hc))
  cases r with
  | erase h => exact hs.sound.size_pos
  | detach i h => exact hmem i h hp
  | moveToFirst i h => exact hmem i h hp
  | detachFirst i =>
    intro hne
    rw [(hs.lists i).first] at hne
    exact hpos i fun e => hne (by rw [e]; rfl)
  | detachLast i =>
    intro hne
    rw [(hs.lists i).last] at hne
    exact hpos i fun e => hne (by rw [e]; rfl)
  | _ => trivial

end Agrees

/-- A request that names a stale handle changes nothing. -/
private theorem answer_of_stale [DecidableEq ι] (s : SharedPool ι α) {r : Request ι α} {h : Handle} (hh : h ∈ r.handles)
    (hc : s.pool.contains h = false) : s.answer r = (r.refusal, s) := by
  have hget := Pool.contains_eq_false_iff.1 hc
  -- only an anchor makes a request name two handles
  cases r with
  | attachAfter i a k =>
    have hak : s.pool.contains a = false ∨ s.pool.contains k = false := by
      simp only [Request.handles, List.mem_cons, List.not_mem_nil, or_false] at hh
      rcases hh with rfl | rfl
      · exact Or.inl hc
      · exact Or.inr hc
    simp only [answer, onChain, Chain.attachAfter_of_not_contains _ hak, Function.update_eq_self]
    rfl
  | insert v => cases hh
  | detachFirst i => cases hh
  | detachLast i => cases hh
  | reset i => cases hh
  | walk i => cases hh
  | erase k =>
    obtain rfl := List.mem_singleton.1 hh
    simp only [answer, Pool.erase_of_not_contains hc]
    rfl
  | get k =>
    obtain rfl := List.mem_singleton.1 hh
    simp only [answer, hget]
    rfl
  | edit k f =>
    obtain rfl := List.mem_singleton.1 hh
    simp only [answer, hget, Pool.modifyValue, Pool.modify_of_not_contains _ hc]
    rfl
  | replace k v =>
    obtain rfl := List.mem_singleton.1 hh
    simp only [answer, Pool.replace, hget, Pool.modifyValue, Pool.modify_of_not_contains _ hc]
    rfl
  | attachFirst i k =>
    obtain rfl := List.mem_singleton.1 hh
    simp only [answer, onChain, Chain.attachFirst_of_not_contains _ hc, Function.update_eq_self]
    rfl
  | attachLast i k =>
    obtain rfl := List.mem_singleton.1 hh
    simp only [answer, onChain, Chain.attachLast_of_not_contains _ hc, Function.update_eq_self]
    rfl
  | detach i k =>
    obtain rfl := List.mem_singleton.1 hh
    simp only [answer, onChain, Chain.detach_of_not_contains _ hc, Function.update_eq_self]
    rfl
  | moveToFirst i k =>
    obtain rfl := List.mem_singleton.1 hh
    simp only [answer, onChain, Chain.moveToFirst_of_not_contains _ hc, Function.update_eq_self]
    rfl

/-! ### What the links show -/

/-- The rows as they are read off the links: followed in either direction from the ends, with nothing left
over however long one goes on. -/
structure Shows (s : SharedPool ι α) (m : Rows ι α) : Prop where
  forth : ∀ i fuel, (m.row i).length ≤ fuel → s.pool.follow fuel (s.chain i).first? = m.row i
  back : ∀ i fuel, (m.row i).length ≤ fuel → s.pool.followBack fuel (s.chain i).last? = (m.row i).reverse
  first : ∀ i, (s.chain i).first? = (m.row i).head?
  last : ∀ i, (s.chain i).last? = (m.row i).getLast?
  length : ∀ i, (s.chain i).length = (m.row i).length
  disjoint : ∀ i j, i ≠ j → (m.row i).Disjoint (m.row j)

private theorem Agrees.shows (hs : s.Agrees m) : s.Shows m where
  forth i fuel hf := by
    rw [(hs.lists i).first]
    exact (hs.lists i).leads.follow hf
  back i fuel hf := by
    rw [(hs.lists i).last]
    exact (hs.lists i).leads.followBack hf
  first i := (hs.lists i).first
  last i := (hs.lists i).last
  length i := (hs.lists i).length
  disjoint := hs.disjoint

/-- In every run of permitted requests over a sound pool the chains answer as the rows do and show the rows.  At
each point of the run a permitted request leaves the chains it is not made to, is refused without effect if it
names a stale handle, and lowers no count below zero. -/
theorem sharedPool_answers_as_rows [DecidableEq ι] {p : Pool α} (hp : p.Sound) (rs : List (Request ι α))
    (hrs : (Rows.ofPool p).PermitsAll rs) :
    let chains := answers SharedPool.answer (SharedPool.ofPool p) rs
    let rows := answers Rows.answer (Rows.ofPool p) rs
    chains.1 = rows.1 ∧ chains.2.Shows rows.2 ∧
      ∀ r, rows.2.Permits r →
        (∀ j, r.chain? ≠ some j →
          ((chains.2.answer r).2.chain j).handles (chains.2.answer r).2.pool =
            (chains.2.chain j).handles chains.2.pool) ∧
        ((∃ h ∈ r.handles, chains.2.pool.contains h = false) → chains.2.answer r = (r.refusal, chains.2)) ∧
        chains.2.CountsDown r := by
  intro chains rows
  obtain ⟨heq, -, hagrees⟩ := answers_simulates
    (R := fun rs (s : SharedPool ι α) (m : Rows ι α) => m.PermitsAll rs ∧ s.Agrees m)
    (fun r rs s m ⟨hr, hs⟩ => ⟨(hs.answer hr.1).1, hr.2, (hs.answer hr.1).2⟩)
    ⟨hrs, Agrees.ofPool hp⟩
  refine ⟨heq, hagrees.shows, fun r hr => ⟨fun j hj => hagrees.handles_answer hr hj, ?_, hagrees.countsDown hr⟩⟩
  rintro ⟨h, hh, hc⟩
  exact answer_of_stale _ hh hc

/-- Two chains over a pool that holds an unlinked node before: nodes pass from one to the other after a reset,
and a handle that was given back is given out again. -/
theorem two_chains_answer_as_rows :
    let p : Pool Nat := (Pool.empty.insert 7).2
    let rs : List (Request Bool Nat) :=
      [.insert 10, .insert 20, .attachLast true 1, .attachFirst true 0, .attachAfter true 0 2, .detach true 9,
        .reset true, .attachLast false 2, .attachFirst true 0, .erase 1, .insert 30, .attachAfter false 2 1,
        .replace 1 40, .replace 9 50, .moveToFirst false 1, .detachLast false, .attachAfter true 0 2, .walk false,
        .walk true]
    p.Sound ∧ (Rows.ofPool p).PermitsAll rs ∧
      (answers SharedPool.answer (SharedPool.ofPool p) rs).1 = (answers Rows.answer (Rows.ofPool p) rs).1 ∧
      (answers SharedPool.answer (SharedPool.ofPool p) rs).2.Shows (answers Rows.answer (Rows.ofPool p) rs).2 := by
  intro p rs
  have hp : p.Sound := Pool.Sound.empty.insert 7
  have hrs : (Rows.ofPool p).PermitsAll rs := by decide
  have h := sharedPool_answers_as_rows hp rs hrs
  exact ⟨hp, hrs, h.1, h.2.1⟩

end SharedPool

end Caching.Linked
