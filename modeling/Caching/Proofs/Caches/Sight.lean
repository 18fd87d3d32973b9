import Mathlib
import Caching.Caches.Request

/-!
# Instances as a thread sees them

What work of a thread does at an instance depends on the kind of the instance and, at a per-thread cache, on the
thread's own instance alone: this is what the thread sees of it (`Sight`).  Here is what the changes of the caches do
to what the threads see: another content or binding, a call of a factory (`make_makes`), and an instance made for a
thread (`ownInstance_of_running`, `ownInstance_of_not_running`).
-/

namespace Caching

/-! ### Factories -/

namespace Factory

variable {κ : Type}

/-- The factories of the per-thread caches that a call of the factory makes. -/
def parts : Factory κ → List (Factory κ)
  | .bounded .. | .striped .. | .existing _ => []
  | .perThread make _ => [make]
  | .forwarding inner => inner.parts
  | .counted _ make => make.parts

/-- The names under which calls of the factory, and of its parts, are counted. -/
def counters : Factory κ → List String
  | .bounded .. | .striped .. | .existing _ => []
  | .perThread make _ => make.counters
  | .forwarding inner => inner.counters
  | .counted counter make => counter :: make.counters

theorem counters_of_mem_parts {f g : Factory κ} (hg : g ∈ f.parts) : g.counters ⊆ f.counters := by
  induction f with
  | bounded | striped | existing => cases hg
  | perThread make =>
    obtain rfl := List.mem_singleton.1 hg
    exact fun _ hx => hx
  | forwarding inner ih => exact ih hg
  | counted _ make ih => exact fun _ hx => List.mem_cons_of_mem _ (ih hg hx)

end Factory

namespace Caches

variable {κ υ : Type} [BEq κ] [Hashable κ]

/-- An instance as a thread sees it. -/
inductive Sight (κ υ : Type) [BEq κ] [Hashable κ] where
  | store (contents : Store κ υ)
  /-- A per-thread cache, with the thread's own instance. -/
  | perThread (make : Factory κ) (capacity? : Option Nat) (own? : Option CacheId)
  | forwarding (inner : CacheId)

namespace Sight

/-- The instances that a request of the thread can go on to, or that can be handed to it. -/
def references : Sight κ υ → List CacheId
  | .store _ => []
  | .perThread make _ own? => make.references ++ own?.toList
  | .forwarding inner => [inner]

def own? : Sight κ υ → Option CacheId
  | .perThread _ _ own? => own?
  | _ => none

/-- The same with another instance for the thread. -/
def setOwn (own? : Option CacheId) : Sight κ υ → Sight κ υ
  | .perThread make capacity? _ => .perThread make capacity? own?
  | s => s

/-- The same kind of instance, made alike: what no work changes. -/
def SameKind : Sight κ υ → Sight κ υ → Prop
  | .store _, .store _ => True
  | .perThread make capacity? _, .perThread make' capacity?' _ => make = make' ∧ capacity? = capacity?'
  | .forwarding i, .forwarding i' => i = i'
  | _, _ => False

theorem SameKind.refl (s : Sight κ υ) : s.SameKind s := by cases s <;> simp [SameKind]

theorem SameKind.trans {a b c : Sight κ υ} (hab : a.SameKind b) (hbc : b.SameKind c) : a.SameKind c := by
  cases a <;> cases b <;> cases c <;> simp_all [SameKind]

private theorem setOwn_sameKind (s : Sight κ υ) (own? : Option CacheId) : s.SameKind (s.setOwn own?) := by
  cases s <;> simp [SameKind, setOwn]

theorem own?_setOwn {s : Sight κ υ} {own? : Option CacheId} {x : CacheId} (h : (s.setOwn own?).own? = some x) :
    own? = some x := by
  cases s with
  | perThread => exact h
  | store | forwarding => cases h

/-- Another instance for one thread, as every thread sees it. -/
def rebound (t : ThreadId) (own? : Option CacheId) (t' : ThreadId) (s : Sight κ υ) : Sight κ υ :=
  if t = t' then s.setOwn own? else s

@[simp] theorem rebound_self (t : ThreadId) (own? : Option CacheId) (s : Sight κ υ) :
    s.rebound t own? t = s.setOwn own? := if_pos rfl

theorem rebound_of_ne {t t' : ThreadId} (h : t' ≠ t) (own? : Option CacheId) (s : Sight κ υ) :
    s.rebound t own? t' = s := if_neg h.symm

/-- What is referred to differs in the thread's own instance at most. -/
theorem SameKind.references {s s' : Sight κ υ} (h : s.SameKind s') {x : CacheId} (hx : x ∈ s'.references) :
    x ∈ s.references ∨ s'.own? = some x := by
  cases s <;> cases s' <;> simp_all [SameKind, Sight.references, Sight.own?]
  exact hx.imp_left Or.inl

/-- A kind and an own instance are all there is to an instance that is no store. -/
theorem SameKind.eq_of_own? {s s' : Sight κ υ} (h : s.SameKind s') (hown : s'.own? = s.own?)
    (hs : ∀ contents, s ≠ .store contents) : s = s' := by
  cases s <;> cases s' <;> simp_all [SameKind, Sight.own?]

theorem mem_references_of_own? {s : Sight κ υ} {x : CacheId} (h : s.own? = some x) : x ∈ s.references := by
  cases s with
  | perThread => exact List.mem_append_right _ (Option.mem_toList.2 h)
  | store | forwarding => cases h

theorem rebound_sameKind (t : ThreadId) (own? : Option CacheId) (t' : ThreadId) (s : Sight κ υ) :
    s.SameKind (s.rebound t own? t') := by
  by_cases h : t' = t
  · rw [h, rebound_self]
    exact s.setOwn_sameKind own?
  · rw [rebound_of_ne h]
    exact .refl s

end Sight

end Caches

def Body.sight {κ υ : Type} [BEq κ] [Hashable κ] (t : ThreadId) : Body κ υ → Caches.Sight κ υ
  | .store s => .store s
  | .perThread make capacity? bindings => .perThread make capacity? bindings[t]?
  | .forwarding inner => .forwarding inner

namespace Caches

variable {κ υ : Type} [BEq κ] [Hashable κ]

/-- What a thread sees of an instance, if it exists. -/
def sight? (w : Caches κ υ) (t : ThreadId) (i : CacheId) : Option (Sight κ υ) := (w.body? i).map (·.sight t)

variable {w : Caches κ υ} {t t' : ThreadId} {i j inner : CacheId} {s : Store κ υ} {make : Factory κ}
  {capacity? : Option Nat} {own? : Option CacheId}

theorem sight?_of_body? {b : Body κ υ} (h : w.body? i = some b) (t : ThreadId) : w.sight? t i = some (b.sight t) := by
  rw [sight?, h, Option.map_some]

theorem body?_of_sight?_store (h : w.sight? t i = some (.store s)) : w.body? i = some (.store s) := by
  obtain ⟨b, hb, hs⟩ := Option.map_eq_some_iff.1 h
  cases b <;> cases hs
  exact hb

theorem body?_of_sight?_perThread (h : w.sight? t i = some (.perThread make capacity? own?)) :
    ∃ bindings : Std.HashMap ThreadId CacheId,
      w.body? i = some (.perThread make capacity? bindings) ∧ bindings[t]? = own? := by
  obtain ⟨b, hb, hs⟩ := Option.map_eq_some_iff.1 h
  cases b <;> cases hs
  exact ⟨_, hb, rfl⟩

theorem body?_of_sight?_forwarding (h : w.sight? t i = some (.forwarding inner)) :
    w.body? i = some (.forwarding inner) := by
  obtain ⟨b, hb, hs⟩ := Option.map_eq_some_iff.1 h
  cases b <;> cases hs
  exact hb

theorem bound?_eq (w : Caches κ υ) (t : ThreadId) (i : CacheId) : w.bound? t i = (w.sight? t i).bind (·.own?) := by
  rw [bound?, bindings, sight?]
  cases w.body? i with
  | none => exact Std.HashMap.getElem?_empty
  | some b =>
    cases b with
    | perThread => rfl
    | store | forwarding => exact Std.HashMap.getElem?_empty

theorem bound?_of_sight? (h : w.sight? t i = some (.perThread make capacity? own?)) : w.bound? t i = own? := by
  rw [bound?_eq, h]
  rfl

theorem sight?_of_body?_perThread {bindings : Std.HashMap ThreadId CacheId}
    (h : w.body? i = some (.perThread make capacity? bindings)) (t : ThreadId) :
    w.sight? t i = some (.perThread make capacity? (w.bound? t i)) := by
  rw [sight?, bound?, Caches.bindings, h]
  rfl

theorem lt_size_of_instance? {x : Instance κ υ} (h : w.instance? i = some x) : i < w.instances.size := by
  by_contra hlt
  rw [instance?, Array.getElem?_eq_none (Nat.le_of_not_lt hlt)] at h
  cases h

theorem lt_size_of_sight? {x : Sight κ υ} (h : w.sight? t i = some x) : i < w.instances.size := by
  obtain ⟨b, hb, -⟩ := Option.map_eq_some_iff.1 h
  obtain ⟨x, hx, -⟩ := Option.map_eq_some_iff.1 hb
  exact lt_size_of_instance? hx

theorem lt_size_of_bound? (h : w.bound? t i = some inner) : i < w.instances.size := by
  rw [bound?_eq] at h
  obtain ⟨s, hs, -⟩ := Option.bind_eq_some_iff.1 h
  exact lt_size_of_sight? hs

/-- What is seen depends on the instance alone. -/
theorem sight?_congr {w' : Caches κ υ} (h : w'.instance? i = w.instance? i) (t : ThreadId) :
    w'.sight? t i = w.sight? t i := by
  rw [sight?, sight?, body?, body?, h]

theorem rank_congr {w' : Caches κ υ} (h : w'.instance? i = w.instance? i) : w'.rank i = w.rank i := by
  rw [rank, rank, h]

/-! ### Changes of an instance -/

theorem instance?_setBody (w : Caches κ υ) (i : CacheId) (b : Body κ υ) (j : CacheId) :
    (w.setBody i b).instance? j =
      if i = j then (w.instance? j).map fun x => { x with body := b } else w.instance? j := by
  simp only [instance?, setBody, Array.getElem?_modify]
  split
  · cases w.instances[j]? <;> rfl
  · rfl

@[simp] theorem size_setBody (w : Caches κ υ) (i : CacheId) (b : Body κ υ) :
    (w.setBody i b).instances.size = w.instances.size := Array.size_modify

@[simp] theorem rank_setBody (w : Caches κ υ) (i : CacheId) (b : Body κ υ) (j : CacheId) :
    (w.setBody i b).rank j = w.rank j := by
  rw [rank, rank, instance?_setBody]
  split
  · cases w.instance? j <;> rfl
  · rfl

theorem sight?_setBody (w : Caches κ υ) (i : CacheId) (b : Body κ υ) (t : ThreadId) (j : CacheId) :
    (w.setBody i b).sight? t j = if i = j then (w.sight? t j).map fun _ => b.sight t else w.sight? t j := by
  simp only [sight?, body?, instance?_setBody]
  split
  · cases w.instance? j <;> rfl
  · rfl

@[simp] theorem sight?_emit (w : Caches κ υ) (e : Event) (t : ThreadId) (i : CacheId) :
    (w.emit e).sight? t i = w.sight? t i := rfl

@[simp] theorem sight?_emitEviction (w : Caches κ υ) (e? : Option Eviction) (t : ThreadId) (i : CacheId) :
    (w.emitEviction e?).sight? t i = w.sight? t i := by
  cases e? <;> rfl

@[simp] theorem rank_emitEviction (w : Caches κ υ) (e? : Option Eviction) (i : CacheId) :
    (w.emitEviction e?).rank i = w.rank i := by
  cases e? <;> rfl

@[simp] theorem size_emitEviction (w : Caches κ υ) (e? : Option Eviction) :
    (w.emitEviction e?).instances.size = w.instances.size := by
  cases e? <;> rfl

@[simp] theorem thread_emitEviction (w : Caches κ υ) (e? : Option Eviction) (t : ThreadId) :
    (w.emitEviction e?).thread t = w.thread t := by
  cases e? <;> rfl

@[simp] theorem builtCount_emitEviction (w : Caches κ υ) (e? : Option Eviction) (counter : String) :
    (w.emitEviction e?).builtCount counter = w.builtCount counter := by
  cases e? <;> rfl

theorem updateStore_of_sight? (h : w.sight? t i = some (.store s))
    (f : Store κ υ → Option υ × Option Eviction × Store κ υ) :
    w.updateStore i f = ((f s).1, (w.setBody i (.store (f s).2.2)).emitEviction (f s).2.1) :=
  updateStore_eq_setBody (body?_of_sight?_store h) f

/-- Nothing is seen differently but one instance. -/
structure Reshapes (w w' : Caches κ υ) (i : CacheId) (f : ThreadId → Sight κ υ → Sight κ υ) : Prop where
  size_eq : w'.instances.size = w.instances.size
  rank : ∀ j, w'.rank j = w.rank j
  sight? : ∀ t j, w'.sight? t j = if i = j then (w.sight? t j).map (f t) else w.sight? t j

theorem Reshapes.refl (w : Caches κ υ) (i : CacheId) : w.Reshapes w i fun _ s => s where
  size_eq := rfl
  rank _ := rfl
  sight? t j := by rw [Option.map_id', ite_self]

theorem reshapes_setBody (w : Caches κ υ) (i : CacheId) (b : Body κ υ) :
    w.Reshapes (w.setBody i b) i fun t _ => b.sight t :=
  ⟨size_setBody w i b, rank_setBody w i b, sight?_setBody w i b⟩

theorem reshapes_store (w : Caches κ υ) (i : CacheId) (s : Store κ υ) (evicted? : Option Eviction) :
    w.Reshapes ((w.setBody i (.store s)).emitEviction evicted?) i fun _ _ => .store s where
  size_eq := by simp
  rank := by simp
  sight? t j := by
    rw [sight?_emitEviction]
    exact (reshapes_setBody ..).sight? t j

/-- A change of the binding of one thread. -/
private theorem reshapes_setBindings {bindings bindings' : Std.HashMap ThreadId CacheId}
    (h : w.body? i = some (.perThread make capacity? bindings))
    (h' : ∀ t', bindings'[t']? = if t == t' then own? else bindings[t']?) :
    w.Reshapes (w.setBody i (.perThread make capacity? bindings')) i (Sight.rebound t own?) where
  size_eq := size_setBody ..
  rank := rank_setBody w i _
  sight? t' j := by
    rw [sight?_setBody]
    split
    · next hij =>
      subst hij
      rw [Caches.sight?, h]
      simp only [Option.map_some, Body.sight, h', beq_iff_eq, Sight.rebound]
      split <;> rfl
    · rfl

/-- Only a per-thread cache can have another instance for a thread. -/
private theorem reshapes_self
    (h : ∀ make capacity? bindings, w.body? i ≠ some (.perThread make capacity? bindings)) (t : ThreadId)
    (own? : Option CacheId) : w.Reshapes w i (Sight.rebound t own?) where
  size_eq := rfl
  rank _ := rfl
  sight? t' j := by
    split
    · next hij =>
      subst hij
      rw [Caches.sight?]
      cases hb : w.body? i with
      | none => rfl
      | some b =>
        cases b with
        | perThread make capacity? bindings => exact absurd hb (h make capacity? bindings)
        | store | forwarding => simp [Sight.rebound, Sight.setOwn, Body.sight]
    · rfl

theorem reshapes_bind (w : Caches κ υ) (t : ThreadId) (i inner : CacheId) :
    w.Reshapes (w.bind t i inner) i (Sight.rebound t (some inner)) := by
  rw [bind]
  split
  · next hb => exact reshapes_setBindings hb fun _ => Std.HashMap.getElem?_insert
  · next hb => exact reshapes_self hb t _

theorem reshapes_unbind (w : Caches κ υ) (t : ThreadId) (i : CacheId) :
    w.Reshapes (w.unbind t i) i (Sight.rebound t none) := by
  rw [unbind]
  split
  · next hb => exact reshapes_setBindings hb fun _ => Std.HashMap.getElem?_erase
  · next hb => exact reshapes_self hb t _

@[simp] theorem threads_bind (w : Caches κ υ) (t : ThreadId) (i inner : CacheId) :
    (w.bind t i inner).threads = w.threads := by
  rw [bind]
  split <;> rfl

@[simp] theorem threads_unbind (w : Caches κ υ) (t : ThreadId) (i : CacheId) :
    (w.unbind t i).threads = w.threads := by
  rw [unbind]
  split <;> rfl

/-! ### Threads -/

theorem thread_congr {w' : Caches κ υ} (h : w'.threads = w.threads) (t : ThreadId) : w'.thread t = w.thread t := by
  rw [thread, thread, h]

theorem thread_setThread (w : Caches κ υ) (t : ThreadId) (x : Thread) (t' : ThreadId) :
    (w.setThread t x).thread t' = if t = t' then x else w.thread t' := by
  rw [thread, setThread, Std.HashMap.getD_insert]
  simp only [beq_iff_eq]
  rfl

/-- A thread that still runs has the cache among its releases afterwards; nothing else is changed. -/
private theorem registerRelease?_of_running {releases : List CacheId} (h : w.thread t = .running releases)
    (i : CacheId) : ∃ w', w.registerRelease? t i = some w' ∧ w'.instances = w.instances ∧ w'.built = w.built ∧
      (∀ t', w'.thread t' =
        if t = t' then .running (if i ∈ releases then releases else i :: releases) else w.thread t') := by
  simp only [registerRelease?, h]
  split
  · refine ⟨w, rfl, rfl, rfl, ?_⟩
    intro t'
    split
    · next ht => rw [← ht, h]
    · rfl
  · exact ⟨_, rfl, rfl, rfl, thread_setThread w t _⟩

private theorem registerRelease?_of_not_running (h : ∀ releases, w.thread t ≠ .running releases) (i : CacheId) :
    w.registerRelease? t i = none := by
  rw [registerRelease?]
  split
  · next releases hr => exact absurd hr (h releases)
  all_goals rfl

/-! ### New instances -/

/-- The instances are those there were, and perhaps more. -/
structure Extends (w' w : Caches κ υ) : Prop where
  size_le : w.instances.size ≤ w'.instances.size
  instance? : ∀ i < w.instances.size, w'.instance? i = w.instance? i
  threads : w'.threads = w.threads

theorem Extends.refl (w : Caches κ υ) : w.Extends w := ⟨Nat.le_refl _, fun _ _ => rfl, rfl⟩

theorem Extends.trans {a b c : Caches κ υ} (hab : a.Extends b) (hbc : b.Extends c) : a.Extends c where
  size_le := Nat.le_trans hbc.size_le hab.size_le
  instance? i hi := (hab.instance? i (Nat.lt_of_lt_of_le hi hbc.size_le)).trans (hbc.instance? i hi)
  threads := hab.threads.trans hbc.threads

theorem instance?_add (w : Caches κ υ) (rank : Nat) (b : Body κ υ) (i : CacheId) :
    (w.add rank b).2.instance? i = if i = w.instances.size then some { rank, body := b } else w.instance? i := by
  rw [instance?, add, Array.getElem?_push]
  split <;> rfl

theorem size_add (w : Caches κ υ) (rank : Nat) (b : Body κ υ) :
    (w.add rank b).2.instances.size = w.instances.size + 1 := Array.size_push ..

theorem extends_add (w : Caches κ υ) (rank : Nat) (b : Body κ υ) : (w.add rank b).2.Extends w where
  size_le := by
    rw [size_add]
    omega
  instance? i hi := by rw [instance?_add, if_neg (Nat.ne_of_lt hi)]
  threads := rfl

theorem sight?_add (w : Caches κ υ) (rank : Nat) (b : Body κ υ) (t : ThreadId) (i : CacheId) :
    (w.add rank b).2.sight? t i = if i = w.instances.size then some (b.sight t) else w.sight? t i := by
  rw [sight?, body?, instance?_add]
  split <;> rfl

theorem rank_add (w : Caches κ υ) (rank : Nat) (b : Body κ υ) :
    (w.add rank b).2.rank (w.add rank b).1 = rank := by
  rw [Caches.rank, instance?_add]
  exact congrArg (fun x => (Option.map Instance.rank x).getD 0) (if_pos rfl)

/-- A call of a factory: what it adds are instances that lead to nothing but each other and to what the factory hands
out, and that no thread has an instance in. -/
structure Makes (w : Caches κ υ) (f : Factory κ) (i : CacheId) (w' : Caches κ υ) : Prop where
  extends_old : w'.Extends w
  result : i ∈ f.references ∨ w.instances.size ≤ i ∧ i < w'.instances.size
  own? : ∀ t j s, w.instances.size ≤ j → w'.sight? t j = some s → s.own? = none
  references : ∀ t j s, w.instances.size ≤ j → w'.sight? t j = some s →
    ∀ x ∈ s.references, x ∈ f.references ∨ w.instances.size ≤ x ∧ x < w'.instances.size
  parts : ∀ t j make capacity? own?, w.instances.size ≤ j →
    w'.sight? t j = some (.perThread make capacity? own?) → make ∈ f.parts

/-- One more instance, at the end of what a factory makes. -/
private theorem Makes.add {f : Factory κ} {w₁ : Caches κ υ} (hw : w₁.Extends w) (rank : Nat) {b : Body κ υ}
    (hrest : ∀ t j s, w.instances.size ≤ j → w₁.sight? t j = some s →
      s.own? = none ∧ (∀ x ∈ s.references, x ∈ f.references ∨ w.instances.size ≤ x ∧ x < w₁.instances.size) ∧
        ∀ make capacity? own?, s = .perThread make capacity? own? → make ∈ f.parts)
    (hb : ∀ t, (b.sight t).own? = none ∧
      (∀ x ∈ (b.sight t).references, x ∈ f.references ∨ w.instances.size ≤ x ∧ x < w₁.instances.size) ∧
        ∀ make capacity? own?, b.sight t = .perThread make capacity? own? → make ∈ f.parts) :
    w.Makes f (w₁.add rank b).1 (w₁.add rank b).2 := by
  have hsize := size_add w₁ rank b
  have hle := hw.size_le
  -- what holds of the instances before and of the last one holds of all of them
  have hall : ∀ t j s, w.instances.size ≤ j → (w₁.add rank b).2.sight? t j = some s →
      s.own? = none ∧ (∀ x ∈ s.references, x ∈ f.references ∨ w.instances.size ≤ x ∧ x < w₁.instances.size) ∧
        ∀ make capacity? own?, s = .perThread make capacity? own? → make ∈ f.parts := by
    intro t j s hj hs
    rw [sight?_add] at hs
    split at hs
    · rw [← Option.some.inj hs]
      exact hb t
    · exact hrest t j s hj hs
  refine ⟨(extends_add ..).trans hw, Or.inr ⟨hle, ?_⟩, fun t j s hj hs => (hall t j s hj hs).1, ?_,
    fun t j make capacity? own? hj hs => (hall t j _ hj hs).2.2 make capacity? own? rfl⟩
  · rw [hsize]
    exact Nat.lt_succ_self _
  · intro t j s hj hs x hx
    refine ((hall t j s hj hs).2.1 x hx).imp_right fun h => ⟨h.1, ?_⟩
    rw [hsize]
    exact Nat.lt_succ_of_lt h.2

theorem sight?_of_size_le (w : Caches κ υ) (t : ThreadId) {i : CacheId} (hi : w.instances.size ≤ i) :
    w.sight? t i = none := by
  rw [← Option.not_isSome_iff_eq_none, Option.isSome_iff_exists]
  rintro ⟨s, hs⟩
  exact absurd (lt_size_of_sight? hs) (Nat.not_lt.2 hi)

private theorem makes_store (w : Caches κ υ) (f : Factory κ) (s : Store κ υ) :
    w.Makes f (w.add 0 (.store s)).1 (w.add 0 (.store s)).2 := by
  refine Makes.add (.refl w) 0 ?_ fun t => ⟨rfl, fun x hx => absurd hx List.not_mem_nil, fun _ _ _ h => nomatch h⟩
  intro t j s hj hs
  cases (sight?_of_size_le w t hj).symm.trans hs

theorem make_makes (w : Caches κ υ) (f : Factory κ) : w.Makes f (w.make f).1 (w.make f).2 := by
  induction f generalizing w with
  | bounded policy capacity => cases policy <;> exact makes_store ..
  | striped striping hash => exact makes_store ..
  | perThread make capacity? =>
    refine Makes.add (.refl w) _ ?_ fun t => ⟨Std.HashMap.getElem?_empty, ?_, ?_⟩
    · intro t j s hj hs
      cases (sight?_of_size_le w t hj).symm.trans hs
    · intro x hx
      simp only [Body.sight, Sight.references, Std.HashMap.getElem?_empty, Option.toList_none, List.append_nil] at hx
      exact Or.inl hx
    · rintro make' capacity?' own? h
      cases h
      exact List.mem_singleton.2 rfl
  | forwarding inner ih =>
    have h := ih w
    refine Makes.add h.extends_old _ ?_ fun t => ⟨rfl, ?_, ?_⟩
    · intro t j s hj hs
      refine ⟨h.own? t j s hj hs, h.references t j s hj hs, ?_⟩
      rintro make capacity? own? rfl
      exact h.parts t j make capacity? own? hj hs
    · intro x hx
      obtain rfl := List.mem_singleton.1 hx
      exact h.result
    · intro _ _ _ h
      cases h
  | existing i =>
    refine ⟨.refl w, Or.inl (List.mem_singleton.2 rfl), ?_, ?_, ?_⟩
    · intro t j s hj hs
      cases (sight?_of_size_le w t hj).symm.trans hs
    · intro t j s hj hs
      cases (sight?_of_size_le w t hj).symm.trans hs
    · intro t j make capacity? own? hj hs
      cases (sight?_of_size_le w t hj).symm.trans hs
  | counted counter make ih =>
    obtain ⟨⟨hsize, hinst, hthreads⟩, hres, hown, href, hparts⟩ :=
      ih { w with built := w.built.alter counter (some <| ·.getD 0 + 1) }
    exact ⟨⟨hsize, hinst, hthreads⟩, hres, hown, href, hparts⟩

/-- What a factory hands out is new if it can hand out nothing that exists. -/
theorem Makes.new {f : Factory κ} {w' : Caches κ υ} (hm : w.Makes f i w') (hf : f.references = []) :
    w.instances.size ≤ i ∧ i < w'.instances.size :=
  hm.result.resolve_left (by simp [hf])

theorem rank_make (w : Caches κ υ) (f : Factory κ) : (w.make f).2.rank (w.make f).1 = f.rank w.rank := by
  induction f generalizing w with
  | bounded policy capacity => cases policy <;> exact rank_add ..
  | striped striping hash => exact rank_add ..
  | perThread make capacity? => exact rank_add ..
  | forwarding inner ih => exact (rank_add ..).trans (congrArg (· + 1) (ih w))
  | existing i => rfl
  | counted counter make ih => exact ih _

theorem builtCount_counted (w : Caches κ υ) (counter counter' : String) :
    builtCount { w with built := w.built.alter counter' (some <| ·.getD 0 + 1) } counter =
      w.builtCount counter + if counter' = counter then 1 else 0 := by
  rw [builtCount, builtCount, Std.HashMap.getD_alter, Std.HashMap.getD_eq_getD_getElem?]
  by_cases h : counter' = counter
  · subst h
    simp
  · simp [h]

/-- Only the calls of factories that are counted under a name count for it. -/
theorem builtCount_make_of_not_mem {f : Factory κ} {counter : String} (h : counter ∉ f.counters) (w : Caches κ υ) :
    (w.make f).2.builtCount counter = w.builtCount counter := by
  induction f generalizing w with
  | bounded policy capacity => cases policy <;> rfl
  | striped striping hash => rfl
  | perThread make capacity? => rfl
  | forwarding inner ih => exact ih h w
  | existing i => rfl
  | counted counter' make ih =>
    rw [Factory.counters, List.mem_cons, not_or] at h
    exact (ih h.2 _).trans ((builtCount_counted w counter counter').trans (by rw [if_neg (Ne.symm h.1), Nat.add_zero]))

theorem builtCount_make_counted {make : Factory κ} {counter : String} (h : counter ∉ make.counters)
    (w : Caches κ υ) : (w.make (.counted counter make)).2.builtCount counter = w.builtCount counter + 1 :=
  (builtCount_make_of_not_mem h _).trans ((builtCount_counted w counter counter).trans (by rw [if_pos rfl]))

/-! ### A thread's own instance -/

theorem ownInstance_of_bound (h : w.bound? t i = some inner) (make : Factory κ) :
    w.ownInstance t i make = (inner, w) := by
  rw [ownInstance, h]

/-- What a thread that does not run any more has made is not kept. -/
theorem ownInstance_of_not_running (h : w.bound? t i = none) (ht : ∀ releases, w.thread t ≠ .running releases)
    (make : Factory κ) : w.ownInstance t i make = w.make make := by
  have ht' : ∀ releases, (w.make make).2.thread t ≠ .running releases := by
    rw [thread_congr (make_makes w make).extends_old.threads]
    exact ht
  simp only [ownInstance, h, registerRelease?_of_not_running ht']

/-- Kept or not, what the thread gets is what the constructor makes. -/
theorem ownInstance_fst (h : w.bound? t i = none) (make : Factory κ) :
    (w.ownInstance t i make).1 = (w.make make).1 := by
  simp only [ownInstance, h]
  split <;> rfl

/-- What a thread that runs has made is kept, and the cache enters itself among the releases. -/
theorem ownInstance_of_running {releases : List CacheId} (h : w.bound? t i = none)
    (ht : w.thread t = .running releases) (make : Factory κ) :
    ∃ w', w.ownInstance t i make = ((w.make make).1, w') ∧
      (w.make make).2.Reshapes w' i (Sight.rebound t (some (w.make make).1)) ∧
      (∀ t', w'.thread t' =
        if t = t' then .running (if i ∈ releases then releases else i :: releases) else w.thread t') ∧
      ∀ counter, w'.builtCount counter = (w.make make).2.builtCount counter := by
  have hold := thread_congr (make_makes w make).extends_old.threads
  obtain ⟨w₁, hw₁, hinst, hbuilt, hthread⟩ := registerRelease?_of_running ((hold t).trans ht) i
  have hinst' : ∀ j, w₁.instance? j = (w.make make).2.instance? j := fun j => by rw [instance?, instance?, hinst]
  have hre := reshapes_bind w₁ t i (w.make make).1
  refine ⟨(w₁.bind t i (w.make make).1).emit .bound, ?_, ⟨?_, ?_, ?_⟩, ?_, ?_⟩
  · simp only [ownInstance, h, hw₁]
  · exact hre.size_eq.trans (by rw [hinst])
  · exact fun j => (hre.rank j).trans (rank_congr (hinst' j))
  · intro t' j
    rw [sight?_emit, hre.sight?, sight?_congr (hinst' j)]
  · intro t'
    refine (thread_congr (threads_bind ..) t').trans ((hthread t').trans ?_)
    rw [hold]
  · intro counter
    have hb : (w₁.bind t i (w.make make).1).built = w₁.built := by
      rw [bind]
      split <;> rfl
    exact congrArg (·.getD counter 0) (hb.trans hbuilt)

end Caches

end Caching
