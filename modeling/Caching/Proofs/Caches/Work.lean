import Mathlib
import Caching.Proofs.Caches.Answer

/-!
# What a request changes

A thread comes from one instance to the next by what it sees, and on the way there are three kinds of change
(`Touch`): a store has other contents, an instance is made for the thread, or the thread gives its instance up.
Every request is a chain of such changes, at instances that can be seen from where it was addressed
(`answer_works`).  So what a single change leaves alone, every request leaves alone: instances elsewhere, ranks, kinds,
and the bindings of other threads.
-/

namespace Caching.Caches

variable {κ υ : Type} [BEq κ] [Hashable κ] {w w' : Caches κ υ} {t t' : ThreadId} {i j x : CacheId}
  {r : Request κ υ} {S : CacheId → Prop}

/-- One change, at one instance, on behalf of a thread. -/
inductive Touch (r : Request κ υ) (t : ThreadId) (i : CacheId) (w : Caches κ υ) : Caches κ υ → Prop
  | store {s : Store κ υ} (h : w.sight? t i = some (.store s)) (s' : Store κ υ) (evicted? : Option Eviction) :
      Touch r t i w ((w.setBody i (.store s')).emitEviction evicted?)
  | own {make : Factory κ} {capacity? : Option Nat} (hr : r.IsWrite)
      (h : w.sight? t i = some (.perThread make capacity? none)) : Touch r t i w (w.ownInstance t i make).2
  | detach {make : Factory κ} {capacity? : Option Nat} {inner : CacheId} (hr : ¬ r.IsWrite)
      (h : w.sight? t i = some (.perThread make capacity? (some inner))) : Touch r t i w (w.detach t i).2

/-! ### One change -/

/-- A change is perhaps a call of a factory, and then another shape of one instance. -/
theorem Touch.reshapes (h : Touch r t i w w') : ∃ w₁ f, w₁.Reshapes w' i f ∧
    (w₁ = w ∨ ∃ make capacity?, w.sight? t i = some (.perThread make capacity? none) ∧ w₁ = (w.make make).2) ∧
    (∀ t' s, w.sight? t' i = some s → s.SameKind (f t' s) ∧ (t' ≠ t → (f t' s).own? = s.own?)) ∧
    ∀ s y, (f t s).own? = some y → s.own? = some y ∨
      ∃ make capacity?, w.sight? t i = some (.perThread make capacity? none) ∧ y = (w.make make).1 ∧
        w₁ = (w.make make).2 ∧ ∃ releases, w.thread t = .running releases ∧
          w'.thread t = .running (if i ∈ releases then releases else i :: releases) := by
  cases h with
  | @store s hs s' evicted? =>
    have hb := body?_of_sight?_store hs
    refine ⟨w, _, reshapes_store w i s' evicted?, Or.inl rfl, ?_, fun s y hy => nomatch hy⟩
    intro t' s₁ hs₁
    rw [Caches.sight?, hb] at hs₁
    obtain rfl := Option.some.inj hs₁
    exact ⟨trivial, fun _ => rfl⟩
  | @own make capacity? hr hs =>
    have hbound := bound?_of_sight? hs
    by_cases hrun : ∃ releases, w.thread t = .running releases
    · obtain ⟨releases, hrel⟩ := hrun
      obtain ⟨w', hown, hre, hthread, -⟩ := ownInstance_of_running hbound hrel make
      rw [hown]
      refine ⟨_, _, hre, Or.inr ⟨make, capacity?, hs, rfl⟩, ?_, ?_⟩
      · exact fun t' s _ => ⟨s.rebound_sameKind .., fun hne => by rw [Sight.rebound_of_ne hne]⟩
      · intro s y hy
        rw [Sight.rebound_self] at hy
        refine Or.inr ⟨make, capacity?, hs, (Option.some.inj (Sight.own?_setOwn hy)).symm, rfl, releases, hrel, ?_⟩
        rw [hthread, if_pos rfl]
    · rw [ownInstance_of_not_running hbound (fun releases h => hrun ⟨releases, h⟩)]
      exact ⟨_, _, .refl _ i, Or.inr ⟨make, capacity?, hs, rfl⟩, fun _ s _ => ⟨.refl s, fun _ => rfl⟩,
        fun s y hy => Or.inl hy⟩
  | @detach make capacity? inner hr hs =>
    rw [detach_of_bound (bound?_of_sight? hs)]
    have hre := reshapes_unbind w t i
    refine ⟨w, _, ⟨hre.size_eq, hre.rank, hre.sight?⟩, Or.inl rfl, ?_, ?_⟩
    · exact fun t' s _ => ⟨s.rebound_sameKind .., fun hne => by rw [Sight.rebound_of_ne hne]⟩
    · intro s y hy
      rw [Sight.rebound_self] at hy
      cases Sight.own?_setOwn hy

theorem Touch.lt_size (h : Touch r t i w w') : i < w.instances.size := by
  cases h with
  | store hs | own _ hs | detach _ hs => exact lt_size_of_sight? hs

/-- The part of a change that is a call of a factory. -/
theorem extends_of_made {w₁ : Caches κ υ} (h : w₁ = w ∨ ∃ make capacity?,
    w.sight? t i = some (.perThread make capacity? none) ∧ w₁ = (w.make make).2) : w₁.Extends w := by
  obtain rfl | ⟨make, -, -, rfl⟩ := h
  · exact .refl _
  · exact (make_makes w make).extends_old

theorem Touch.size_le (h : Touch r t i w w') : w.instances.size ≤ w'.instances.size := by
  obtain ⟨w₁, f, hre, hmade, -⟩ := h.reshapes
  rw [hre.size_eq]
  exact (extends_of_made hmade).size_le

theorem Touch.rank (h : Touch r t i w w') (hj : j < w.instances.size) : w'.rank j = w.rank j := by
  obtain ⟨w₁, f, hre, hmade, -⟩ := h.reshapes
  rw [hre.rank]
  exact rank_congr ((extends_of_made hmade).instance? j hj)

/-- Elsewhere nothing is seen differently. -/
private theorem Touch.sight?_of_ne (h : Touch r t i w w') (hj : j < w.instances.size) (hij : i ≠ j) (t' : ThreadId) :
    w'.sight? t' j = w.sight? t' j := by
  obtain ⟨w₁, f, hre, hmade, -⟩ := h.reshapes
  rw [hre.sight?, if_neg hij]
  exact sight?_congr ((extends_of_made hmade).instance? j hj) t'

/-- What there was is of the same kind as before, and other threads have the same instances. -/
private theorem Touch.sight?_eq_map (h : Touch r t i w w') (t' : ThreadId) : ∃ f : Sight κ υ → Sight κ υ,
    (∀ j < w.instances.size, w'.sight? t' j = (w.sight? t' j).map (if i = j then f else id)) ∧
      ∀ s, w.sight? t' i = some s → s.SameKind (f s) ∧ (t' ≠ t → (f s).own? = s.own?) := by
  obtain ⟨w₁, f, hre, hmade, hkind, -⟩ := h.reshapes
  refine ⟨f t', fun j hj => ?_, hkind t'⟩
  rw [hre.sight?, sight?_congr ((extends_of_made hmade).instance? j hj) t']
  split
  · rfl
  · rw [Option.map_id, id]

/-- What there was is of the same kind as before, and other threads have the same instances. -/
private theorem Touch.kept (h : Touch r t i w w') {s : Sight κ υ} (hs : w.sight? t' j = some s) :
    ∃ s', w'.sight? t' j = some s' ∧ s.SameKind s' ∧ (t' ≠ t → s'.own? = s.own?) := by
  obtain ⟨f, hmap, hkind⟩ := h.sight?_eq_map t'
  rw [hmap j (lt_size_of_sight? hs), hs]
  refine ⟨_, rfl, ?_⟩
  split
  · next hij => exact hkind s (hij ▸ hs)
  · exact ⟨.refl s, fun _ => rfl⟩

theorem Touch.was (h : Touch r t i w w') (hj : j < w.instances.size) {s' : Sight κ υ}
    (hs' : w'.sight? t' j = some s') :
    ∃ s, w.sight? t' j = some s ∧ s.SameKind s' ∧ (t' ≠ t → s'.own? = s.own?) := by
  obtain ⟨f, hmap, hkind⟩ := h.sight?_eq_map t'
  cases hs : w.sight? t' j with
  | none =>
    rw [hmap j hj, hs] at hs'
    cases hs'
  | some s =>
    obtain ⟨s₁, hs₁, hk⟩ := h.kept hs
    obtain rfl := Option.some.inj (hs₁.symm.trans hs')
    exact ⟨s, rfl, hk⟩

/-- What is new was made by the factory at the changed instance. -/
theorem Touch.new (h : Touch r t i w w') (hj : w.instances.size ≤ j) {s : Sight κ υ} (hs : w'.sight? t' j = some s) :
    s.own? = none ∧ ∃ make capacity?, w.sight? t i = some (.perThread make capacity? none) ∧
      (∀ x ∈ s.references, x ∈ make.references ∨ w.instances.size ≤ x ∧ x < w'.instances.size) ∧
      ∀ make' capacity?' own?, s = .perThread make' capacity?' own? → make' ∈ make.parts := by
  obtain ⟨w₁, f, hre, hmade, -⟩ := h.reshapes
  rw [hre.sight?, if_neg (Nat.ne_of_lt (Nat.lt_of_lt_of_le h.lt_size hj))] at hs
  rw [hre.size_eq]
  obtain rfl | ⟨make, capacity?, hmake, rfl⟩ := hmade
  · cases (w₁.sight?_of_size_le t' hj).symm.trans hs
  · have hm := make_makes w make
    refine ⟨hm.own? t' j s hj hs, make, capacity?, hmake, hm.references t' j s hj hs, ?_⟩
    rintro make' capacity?' own? rfl
    exact hm.parts t' j make' capacity?' own? hj hs

/-- An own instance that was not there before was made just now, and kept because the thread runs. -/
private theorem Touch.own? (h : Touch r t i w w') {s s' : Sight κ υ} (hs : w.sight? t i = some s)
    (hs' : w'.sight? t i = some s') (hx : s'.own? = some x) : s.own? = some x ∨
      ((∃ make, make.references ⊆ s.references ∧ x = (w.make make).1 ∧
          w'.instances.size = (w.make make).2.instances.size) ∧
        ∃ releases, w.thread t = .running releases ∧
          w'.thread t = .running (if i ∈ releases then releases else i :: releases)) := by
  obtain ⟨w₁, f, hre, hmade, -, hown⟩ := h.reshapes
  rw [hre.sight?, if_pos rfl, sight?_congr ((extends_of_made hmade).instance? i h.lt_size), hs] at hs'
  obtain rfl := Option.some.inj hs'
  refine (hown s x hx).imp_right ?_
  rintro ⟨make, capacity?, hmake, rfl, rfl, hrun⟩
  rw [hs] at hmake
  obtain rfl := Option.some.inj hmake
  exact ⟨⟨make, List.subset_append_left .., rfl, hre.size_eq⟩, hrun⟩

/-- What is referred to afterwards was referred to before, there or at the changed instance, or is new. -/
theorem Touch.references (h : Touch r t i w w') {s' : Sight κ υ} (hs' : w'.sight? t' j = some s')
    (hx : x ∈ s'.references) :
    (∃ s, w.sight? t' j = some s ∧ x ∈ s.references) ∨
      (w.instances.size ≤ j ∨ j = i ∧ t' = t) ∧
        (w.instances.size ≤ x ∧ x < w'.instances.size ∨ ∃ s, w.sight? t i = some s ∧ x ∈ s.references) := by
  rcases Nat.lt_or_ge j w.instances.size with hj | hj
  · obtain ⟨s, hs, hkind, hothers⟩ := h.was hj hs'
    rcases hkind.references hx with hx | hx
    · exact Or.inl ⟨s, hs, hx⟩
    by_cases hchanged : i = j ∧ t' = t
    · obtain ⟨rfl, rfl⟩ := hchanged
      rcases h.own? hs hs' hx with hx | ⟨⟨make, hmake, rfl, hsize⟩, -⟩
      · exact Or.inl ⟨s, hs, Sight.mem_references_of_own? hx⟩
      · rw [hsize]
        exact Or.inr ⟨Or.inr ⟨rfl, rfl⟩, (make_makes w make).result.symm.imp_right fun hx => ⟨s, hs, hmake hx⟩⟩
    · refine Or.inl ⟨s, hs, Sight.mem_references_of_own? ?_⟩
      by_cases ht : t' = t
      · have hsame := h.sight?_of_ne hj (fun hij => hchanged ⟨hij, ht⟩) t'
        rw [hs', hs] at hsame
        rw [← Option.some.inj hsame, hx]
      · rw [← hothers ht, hx]
  · obtain ⟨-, make, capacity?, hmake, href, -⟩ := h.new hj hs'
    exact Or.inr ⟨Or.inl hj, (href x hx).symm.imp_right fun hx => ⟨_, hmake, List.mem_append_left _ hx⟩⟩

/-- Other threads keep their instances, and get none. -/
theorem Touch.bound?_of_ne (h : Touch r t i w w') (ht : t' ≠ t) (j : CacheId) : w'.bound? t' j = w.bound? t' j := by
  rw [bound?_eq, bound?_eq]
  cases hs' : w'.sight? t' j with
  | none =>
    cases hs : w.sight? t' j with
    | none => rfl
    | some s =>
      obtain ⟨s', hs'', -⟩ := h.kept hs
      cases hs'.symm.trans hs''
  | some s' =>
    rcases Nat.lt_or_ge j w.instances.size with hj | hj
    · obtain ⟨s, hs, -, hown⟩ := h.was hj hs'
      rw [hs]
      exact hown ht
    · rw [w.sight?_of_size_le t' hj]
      exact (h.new hj hs').1

/-- A thread gets an instance only while it runs, and then the cache is among its releases. -/
theorem Touch.bound? (h : Touch r t i w w') (hx : w'.bound? t j = some x) : w.bound? t j = some x ∨
    j = i ∧ ∃ releases, w.thread t = .running releases ∧
      w'.thread t = .running (if i ∈ releases then releases else i :: releases) := by
  rw [bound?_eq] at hx ⊢
  obtain ⟨s', hs', hown⟩ := Option.bind_eq_some_iff.1 hx
  rcases Nat.lt_or_ge j w.instances.size with hj | hj
  · obtain ⟨s, hs, -⟩ := h.was hj hs'
    rw [hs]
    by_cases hij : i = j
    · subst hij
      exact (h.own? hs hs' hown).imp id fun hnew => ⟨rfl, hnew.2⟩
    · have hsame := h.sight?_of_ne hj hij t
      rw [hs', hs] at hsame
      rw [← Option.some.inj hsame]
      exact Or.inl hown
  · cases (h.new hj hs').1.symm.trans hown

/-- The thread enters the changed instance among its releases at most, and only if it writes and keeps what is made
for it. -/
theorem Touch.thread (h : Touch r t i w w') (t' : ThreadId) : w'.thread t' = w.thread t' ∨
    t' = t ∧ r.IsWrite ∧ (∃ x, w'.bound? t i = some x) ∧ ∃ releases, w.thread t = .running releases ∧
      w'.thread t = .running (if i ∈ releases then releases else i :: releases) := by
  cases h with
  | store hs s' evicted? => exact Or.inl (thread_emitEviction ..)
  | @own make capacity? hr hs =>
    have hbound := bound?_of_sight? hs
    by_cases hrun : ∃ releases, w.thread t = .running releases
    · obtain ⟨releases, hrel⟩ := hrun
      obtain ⟨w', hown, hre, hthread, -⟩ := ownInstance_of_running hbound hrel make
      rw [hown, hthread, hthread]
      by_cases ht : t = t'
      · refine Or.inr ⟨ht.symm, hr, ⟨(w.make make).1, ?_⟩, releases, hrel, if_pos rfl⟩
        rw [bound?_eq, hre.sight?, if_pos rfl,
          sight?_congr ((make_makes w make).extends_old.instance? i (lt_size_of_sight? hs)), hs]
        exact congrArg Sight.own? (Sight.rebound_self ..)
      · exact Or.inl (if_neg ht)
    · rw [ownInstance_of_not_running hbound (fun releases h => hrun ⟨releases, h⟩)]
      exact Or.inl (thread_congr (make_makes w make).extends_old.threads t')
  | detach hr hs =>
    rw [detach_of_bound (bound?_of_sight? hs)]
    exact Or.inl (thread_congr (threads_unbind w t i) t')

/-- A write takes no instance away. -/
theorem Touch.bound?_of_isWrite (h : Touch r t i w w') (hr : r.IsWrite) (hx : w.bound? t j = some x) :
    w'.bound? t j = some x := by
  by_cases hij : i = j
  · subst hij
    cases h with
    | store hs s' evicted? =>
      rw [bound?_eq, hs] at hx
      cases hx
    | own _ hs => cases (bound?_of_sight? hs).symm.trans hx
    | detach hr' hs => exact absurd hr hr'
  · rw [bound?_eq] at hx ⊢
    rw [h.sight?_of_ne (lt_size_of_bound? ((bound?_eq ..).trans hx)) hij, hx]

/-! ### A request -/

/-- A set of instances that the thread does not leave by what it sees, and that has room for new ones. -/
structure Closed (w : Caches κ υ) (t : ThreadId) (S : CacheId → Prop) : Prop where
  new : ∀ i, w.instances.size ≤ i → S i
  seen : ∀ i s, S i → w.sight? t i = some s → ∀ x ∈ s.references, S x

private theorem Touch.closed (h : Touch r t i w w') (hi : S i) (hS : w.Closed t S) : w'.Closed t S where
  new j hj := hS.new j (Nat.le_trans h.size_le hj)
  seen j s' hj hs' x hx := by
    rcases h.references hs' hx with ⟨s, hs, hx⟩ | ⟨-, hx | ⟨s, hs, hx⟩⟩
    · exact hS.seen j s hj hs x hx
    · exact hS.new x hx.1
    · exact hS.seen i s hi hs x hx

/-- What work on a request does: changes at instances of a set. -/
def Works (r : Request κ υ) (t : ThreadId) (S : CacheId → Prop) : Caches κ υ → Caches κ υ → Prop :=
  Relation.ReflTransGen fun w w' => ∃ i, S i ∧ Touch r t i w w'

theorem Works.refl (w : Caches κ υ) : Works r t S w w := Relation.ReflTransGen.refl

theorem Touch.works (h : Touch r t i w w') (hi : S i) : Works r t S w w' := .single ⟨i, hi, h⟩

/-- What every change keeps is kept. -/
theorem Works.induct {P : Caches κ υ → Prop} (h : Works r t S w w')
    (hstep : ∀ w₁ w₂ i, S i → Touch r t i w₁ w₂ → P w₁ → P w₂) (hw : P w) : P w' := by
  induction h with
  | refl => exact hw
  | tail _ htouch ih =>
    obtain ⟨i, hi, htouch⟩ := htouch
    exact hstep _ _ i hi htouch ih

private theorem Works.closed (h : Works r t S w w') (hS : w.Closed t S) : w'.Closed t S :=
  h.induct (P := fun w => w.Closed t S) (fun _ _ _ hi htouch => htouch.closed hi) hS

theorem Works.size_le (h : Works r t S w w') : w.instances.size ≤ w'.instances.size :=
  h.induct (P := fun w' => w.instances.size ≤ w'.instances.size)
    (fun _ _ _ _ htouch hle => Nat.le_trans hle htouch.size_le) (Nat.le_refl _)

theorem Works.rank (h : Works r t S w w') (hj : j < w.instances.size) : w'.rank j = w.rank j :=
  (h.induct (P := fun w' => w.instances.size ≤ w'.instances.size ∧ w'.rank j = w.rank j)
    (fun _ _ _ _ htouch ⟨hle, hrank⟩ =>
      ⟨Nat.le_trans hle htouch.size_le, (htouch.rank (Nat.lt_of_lt_of_le hj hle)).trans hrank⟩)
    ⟨Nat.le_refl _, rfl⟩).2

/-- Outside the set nothing is seen differently. -/
theorem Works.sight?_of_not_mem (h : Works r t S w w') (hj : j < w.instances.size) (hjS : ¬ S j) (t' : ThreadId) :
    w'.sight? t' j = w.sight? t' j :=
  (h.induct (P := fun w' => w.instances.size ≤ w'.instances.size ∧ w'.sight? t' j = w.sight? t' j)
    (fun _ _ _ hi htouch ⟨hle, hsight⟩ =>
      ⟨Nat.le_trans hle htouch.size_le,
        (htouch.sight?_of_ne (Nat.lt_of_lt_of_le hj hle) (fun hij => hjS (hij ▸ hi)) t').trans hsight⟩)
    ⟨Nat.le_refl _, rfl⟩).2

theorem Works.bound?_of_ne (h : Works r t S w w') (ht : t' ≠ t) (j : CacheId) : w'.bound? t' j = w.bound? t' j :=
  h.induct (P := fun w' => w'.bound? t' j = w.bound? t' j)
    (fun _ _ _ _ htouch hbound => (htouch.bound?_of_ne ht j).trans hbound) rfl

theorem Works.bound?_of_isWrite (h : Works r t S w w') (hr : r.IsWrite) (hx : w.bound? t j = some x) :
    w'.bound? t j = some x :=
  h.induct (P := fun w' => w'.bound? t j = some x) (fun _ _ _ _ htouch => htouch.bound?_of_isWrite hr) hx

theorem Works.kept (h : Works r t S w w') {s : Sight κ υ} (hs : w.sight? t' j = some s) :
    ∃ s', w'.sight? t' j = some s' ∧ s.SameKind s' ∧ (t' ≠ t → s'.own? = s.own?) :=
  h.induct (P := fun w' => ∃ s', w'.sight? t' j = some s' ∧ s.SameKind s' ∧ (t' ≠ t → s'.own? = s.own?))
    (fun _ _ _ _ htouch ⟨_, hs', hkind, hown⟩ =>
      let ⟨s₂, hs₂, hkind₂, hown₂⟩ := htouch.kept hs'
      ⟨s₂, hs₂, hkind.trans hkind₂, fun ht => (hown₂ ht).trans (hown ht)⟩)
    ⟨s, hs, .refl s, fun _ => rfl⟩

theorem Works.thread_of_ne (h : Works r t S w w') (ht : t' ≠ t) : w'.thread t' = w.thread t' :=
  h.induct (P := fun w' => w'.thread t' = w.thread t')
    (fun _ _ _ _ htouch hthread =>
      ((htouch.thread t').resolve_right fun hself => ht hself.1).trans hthread) rfl

/-- Only a write enters anything among the releases, and only of a thread that runs. -/
theorem Works.thread_eq (h : Works r t S w w') (hno : ¬ r.IsWrite ∨ ∀ releases, w.thread t ≠ .running releases)
    (t' : ThreadId) : w'.thread t' = w.thread t' :=
  (h.induct (P := fun w' => ∀ t', w'.thread t' = w.thread t')
    (fun _ _ _ _ htouch hthread t' => by
      rcases htouch.thread t' with hsame | ⟨-, hr, -, releases, hrun, -⟩
      · exact hsame.trans (hthread t')
      · exact absurd ((hthread t).symm.trans hrun) (hno.resolve_left (not_not_intro hr) releases)) fun _ => rfl) t'

/-- A thread that runs goes on running, and keeps its releases. -/
theorem Works.running (h : Works r t S w w') {releases : List CacheId} (hrun : w.thread t = .running releases) :
    ∃ releases', w'.thread t = .running releases' ∧ releases ⊆ releases' :=
  h.induct (P := fun w' => ∃ releases', w'.thread t = .running releases' ∧ releases ⊆ releases')
    (fun _ _ i _ htouch ⟨releases', hrun', hsub⟩ => by
      rcases htouch.thread t with hsame | ⟨-, -, -, releases₁, hold, hnew⟩
      · exact ⟨releases', hsame.trans hrun', hsub⟩
      · obtain rfl : releases' = releases₁ := Thread.running.inj (hrun'.symm.trans hold)
        refine ⟨_, hnew, fun j hj => ?_⟩
        split
        · exact hsub hj
        · exact List.mem_cons_of_mem _ (hsub hj))
    ⟨releases, hrun, List.Subset.refl _⟩

/-- No thread stops or starts running. -/
theorem Works.running_iff (h : Works r t S w w') (u : ThreadId) :
    (∃ releases, w'.thread u = .running releases) ↔ ∃ releases, w.thread u = .running releases := by
  by_cases hu : u = t
  · subst hu
    by_cases hrun : ∃ releases, w.thread u = .running releases
    · obtain ⟨releases, hrel⟩ := hrun
      obtain ⟨releases', hrel', -⟩ := h.running hrel
      exact iff_of_true ⟨releases', hrel'⟩ ⟨releases, hrel⟩
    · rw [h.thread_eq (Or.inr fun releases hrel => hrun ⟨releases, hrel⟩)]
  · rw [h.thread_of_ne hu]

/-! ### Every request is such work -/

private theorem updateStore_works (hi : S i) {s : Store κ υ} (h : w.sight? t i = some (.store s))
    (f : Store κ υ → Option υ × Option Eviction × Store κ υ) : Works r t S w (w.updateStore i f).2 := by
  rw [updateStore_of_sight? h]
  exact (Touch.store h _ _).works hi

section

variable (hS : w.Closed t S) (hi : S i)
include hS hi

private theorem mem_of_targetWithin {fuel : Nat} {s : Store κ υ} (h : w.targetWithin t fuel i = .store j s) :
    S j ∧ w.sight? t j = some (.store s) := by
  induction fuel generalizing i with
  | zero => cases h
  | succ fuel ih =>
    rw [targetWithin] at h
    split at h
    · cases h
    · next hb =>
      cases h
      exact ⟨hi, sight?_of_body? hb t⟩
    · next hb =>
      have hsee := hS.seen i _ hi (sight?_of_body? hb t)
      split at h
      · cases h
      · next inner hown => exact ih (hsee inner (Sight.mem_references_of_own? hown)) h
    · next inner hb =>
      exact ih (hS.seen i _ hi (sight?_of_body? hb t) inner List.mem_cons_self) h

private theorem get_works (k : κ) : Works r t S w (w.get t i k).2 := by
  rw [get]
  split
  · next htarget =>
    have hj := mem_of_targetWithin hS hi htarget
    exact updateStore_works hj.1 hj.2 _
  · exact .refl w

private theorem remove_works (k : κ) : Works r t S w (w.remove t i k).2 := by
  rw [remove]
  split
  · next htarget =>
    have hj := mem_of_targetWithin hS hi htarget
    exact updateStore_works hj.1 hj.2 _
  · exact .refl w

/-- The own instance of a thread that writes is one it sees, or new. -/
private theorem ownInstance_works {make : Factory κ} {capacity? : Option Nat} {own? : Option CacheId} (hr : r.IsWrite)
    (h : w.sight? t i = some (.perThread make capacity? own?)) :
    Works r t S w (w.ownInstance t i make).2 ∧ S (w.ownInstance t i make).1 := by
  have hsee := hS.seen i _ hi h
  have hbound := bound?_of_sight? h
  cases own? with
  | some inner =>
    rw [ownInstance_of_bound hbound]
    exact ⟨.refl w, hsee inner (Sight.mem_references_of_own? rfl)⟩
  | none =>
    refine ⟨(Touch.own hr h).works hi, ?_⟩
    rw [ownInstance_fst hbound]
    rcases (make_makes w make).result with hx | hx
    · exact hsee _ (List.mem_append_left _ hx)
    · exact hS.new _ hx.1

private theorem settleWithin_works (hr : r.IsWrite) (fuel : Nat) :
    Works r t S w (w.settleWithin t fuel i).2 ∧ S (w.settleWithin t fuel i).1 := by
  induction fuel generalizing w i with
  | zero => exact ⟨.refl w, hi⟩
  | succ fuel ih =>
    rw [settleWithin]
    split
    · next make capacity? bindings hb =>
      have hown := ownInstance_works hS hi hr (sight?_of_body? hb t)
      have hrest := ih (hown.1.closed hS) hown.2
      exact ⟨hown.1.trans hrest.1, hrest.2⟩
    · next inner hb =>
      exact ih hS (hS.seen i _ hi (sight?_of_body? hb t) inner List.mem_cons_self)
    · exact ⟨.refl w, hi⟩

private theorem put_works (hr : r.IsWrite) (k : κ) (v : υ) : Works r t S w (w.put t i k v).2 := by
  have hsettle := settleWithin_works hS hi hr (w.rank i + 1)
  have hS' := hsettle.1.closed hS
  refine hsettle.1.trans ?_
  -- an instance other than a store is left as it is
  rw [put, settle]
  cases hs : (w.settleWithin t (w.rank i + 1) i).2.instance? (w.settleWithin t (w.rank i + 1) i).1 with
  | none =>
    simp only [updateStore, hs]
    exact Works.refl _
  | some x =>
    obtain ⟨rank, body⟩ := x
    cases body with
    | store s =>
      exact updateStore_works hsettle.2 (by rw [sight?, body?, hs]; rfl) _
    | perThread | forwarding =>
      simp only [updateStore, hs]
      exact Works.refl _

private theorem lookUpThenPut_works (hr : r.IsWrite) (k : κ) (v : υ) : Works r t S w (w.lookUpThenPut t i k v).2 := by
  have hget := get_works (r := r) hS hi k
  rw [lookUpThenPut]
  split
  · next heq =>
    rw [heq] at hget
    exact hget
  · next heq =>
    rw [heq] at hget
    exact hget.trans (put_works (hget.closed hS) hi hr k v)

private theorem putIfAbsentWithin_works (hr : r.IsWrite) (k : κ) (v : υ) (fuel : Nat) :
    Works r t S w (w.putIfAbsentWithin t k v fuel i).2 := by
  induction fuel generalizing w i with
  | zero => exact .refl w
  | succ fuel ih =>
    rw [putIfAbsentWithin]
    split
    · exact .refl w
    · next hb => exact updateStore_works hi (sight?_of_body? hb t) _
    · next make capacity? bindings hb =>
      have hown := ownInstance_works hS hi hr (sight?_of_body? hb t)
      exact hown.1.trans (ih (hown.1.closed hS) hown.2)
    · next inner hb =>
      exact lookUpThenPut_works hS (hS.seen i _ hi (sight?_of_body? hb t) inner List.mem_cons_self) hr k v

private theorem clearWithin_works (hr : ¬ r.IsWrite) (fuel : Nat) : Works r t S w (w.clearWithin t fuel i) := by
  induction fuel generalizing w i with
  | zero => exact .refl w
  | succ fuel ih =>
    rw [clearWithin]
    split
    · exact .refl w
    · next s hb => exact (Touch.store (sight?_of_body? hb t) s.clear none).works hi
    · next make capacity? bindings hb =>
      split
      · next heq =>
        rw [detach] at heq
        split at heq <;> cases heq
        exact .refl w
      · next inner w₁ heq =>
        have hbound : w.bound? t i = some inner := by
          rw [detach] at heq
          split at heq <;> cases heq
          assumption
        have hs : w.sight? t i = some (.perThread make capacity? (some inner)) := by
          have hs' : w.sight? t i = some (.perThread make capacity? bindings[t]?) := sight?_of_body? hb t
          rw [hs', (bound?_of_sight? hs').symm.trans hbound]
        have hw₁ : w₁ = (w.detach t i).2 := by rw [heq]
        have hdetach := (hw₁ ▸ Touch.detach (r := r) hr hs).works hi
        exact hdetach.trans (ih (hdetach.closed hS) (hS.seen i _ hi hs inner (Sight.mem_references_of_own? rfl)))
    · next inner hb =>
      exact ih hS (hS.seen i _ hi (sight?_of_body? hb t) inner List.mem_cons_self)

/-- A request is work at the instances that can be seen from where it is addressed. -/
theorem answer_works (r : Request κ υ) : Works r t S w (w.answer t i r).2 := by
  cases r with
  | get k => exact get_works hS hi k
  | put k v => exact put_works (r := .put k v) hS hi trivial k v
  | remove k => exact remove_works hS hi k
  | clear => exact clearWithin_works hS hi id _
  | putIfAbsent k v => exact putIfAbsentWithin_works (r := .putIfAbsent k v) hS hi trivial k v (w.rank i + 1)
  | contains | length | isEmpty | capacity => exact .refl w
  | putIf condition k v =>
    cases condition
    · exact .refl w
    · exact put_works (r := .putIf true k v) hS hi trivial k v
  | removeIf condition k =>
    cases condition
    · exact .refl w
    · exact remove_works hS hi k

end

/-- Every instance counts as seen. -/
private theorem closed_true (w : Caches κ υ) (t : ThreadId) : w.Closed t fun _ => True :=
  ⟨fun _ _ => trivial, fun _ _ _ _ _ _ => trivial⟩

theorem answer_works_true (w : Caches κ υ) (t : ThreadId) (i : CacheId) (r : Request κ υ) :
    Works r t (fun _ => True) w (w.answer t i r).2 := answer_works (w.closed_true t) trivial r

end Caching.Caches
