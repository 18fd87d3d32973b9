import Caching.Proofs.Caches.Run
import Caching.Proofs.Directory.Errand

/-!
# A directory among the caches

A run is a list of turns, each by some thread: requests to the directory, exits, and what threads do with caches past
the directory.  Whatever a directory is asked for after it was set up, its default factory and its default space keep
their names, the default factory stays registered, and nothing has the empty name (`WellNamed`).
-/

namespace Caching.Directory

variable {κ υ : Type} [BEq κ] [Hashable κ]

/-- What a thread does at its turn. -/
inductive Turn (κ υ : Type) where
  | request (r : DirectoryRequest κ υ)
  /-- The thread exits, and does nothing in the course of it. -/
  | exit
  | beside (action : Caches.Action κ υ)

/-- The instances that the directory refers to. -/
def references (d : Directory κ) : List CacheId :=
  d.spaces.toList.map (·.2) ++ d.factories.toList.flatMap (·.2.references)

/-- The turn of a thread. What is dropped is in use neither elsewhere nor by the directory. -/
def turn (s : Directory κ × Caches κ υ) : ThreadId × Turn κ υ →
    (Reply κ υ × Option (Product κ)) × (Directory κ × Caches κ υ)
  | (t, .request r) =>
    let (reply, product?, d, w) := s.1.answer s.2 t r
    ((reply, product?), (d, w))
  | (t, .exit) => ((.done, none), (s.1, (s.2.beginExit t).finishExit t))
  | (t, .beside (.drop roots)) => ((.done, none), (s.1, (s.2.act (t, .drop (s.1.references ++ roots))).2))
  | (t, .beside action) => ((.done, none), (s.1, (s.2.act (t, action)).2))

/-- The directory and the caches after a run. -/
def after (d : Directory κ) (w : Caches κ υ) (steps : List (ThreadId × Turn κ υ)) : Directory κ × Caches κ υ :=
  (answers turn (d, w) steps).2

/-- A directory is set up among the caches `w`, and leaves the caches `w'`. -/
inductive SetUp (w : Caches κ υ) : Directory κ → Caches κ υ → Prop
  | create {name : String} {make : Factory κ} {d : Directory κ} {w' : Caches κ υ}
    (h : create w name make = (.ok d, w')) : SetUp w d w'
  | builtin (sizing : Sizing) : SetUp w (builtin w sizing).1 (builtin w sizing).2

variable {d d' : Directory κ} {w w' w₀ : Caches κ υ} {t : ThreadId} {r : DirectoryRequest κ υ} {reply : Reply κ υ}
  {product? : Option (Product κ)}

theorem after_append (d : Directory κ) (w : Caches κ υ) (steps later : List (ThreadId × Turn κ υ)) :
    d.after w (steps ++ later) = (d.after w steps).1.after (d.after w steps).2 later := by
  rw [after, answers_append]
  rfl

/-! ### Tables with another entry -/

omit [BEq κ] [Hashable κ] in
theorem factory?_insert (d : Directory κ) (name : String) (make : Factory κ) (other : String) :
    { d with factories := d.factories.insert name make }.factory? other =
      if name = other then some make else d.factory? other := by
  rw [factory?, Std.HashMap.getElem?_insert]
  simp only [beq_iff_eq]
  rfl

omit [BEq κ] [Hashable κ] in
theorem factory?_erase (d : Directory κ) (name other : String) :
    { d with factories := d.factories.erase name }.factory? other =
      if name = other then none else d.factory? other := by
  rw [factory?, Std.HashMap.getElem?_erase]
  simp only [beq_iff_eq]
  rfl

omit [BEq κ] [Hashable κ] in
theorem space?_insert (d : Directory κ) (space : String) (i : CacheId) (other : String) :
    { d with spaces := d.spaces.insert space i }.space? other = if space = other then some i else d.space? other := by
  rw [space?, Std.HashMap.getElem?_insert]
  simp only [beq_iff_eq]
  rfl

omit [BEq κ] [Hashable κ] in
theorem space?_erase (d : Directory κ) (space other : String) :
    { d with spaces := d.spaces.erase space }.space? other = if space = other then none else d.space? other := by
  rw [space?, Std.HashMap.getElem?_erase]
  simp only [beq_iff_eq]
  rfl

omit [BEq κ] [Hashable κ] in
/-- The directory holds on to the instances of its spaces. -/
theorem mem_references_of_space? {space : String} {i : CacheId} (h : d.space? space = some i) : i ∈ d.references :=
  List.mem_append_left _ (List.mem_map.2 ⟨(space, i), Std.HashMap.mem_toList_iff_getElem?_eq_some.2 h, rfl⟩)

/-! ### Names -/

theorem defaultSpaceOf_ne_empty (factory : String) : defaultSpaceOf factory ≠ "" := by
  intro h
  have hlabel : defaultSpaceLabel = "" := (String.append_eq_empty_iff.1 h).1
  exact absurd hlabel (by decide)

structure WellNamed (d : Directory κ) : Prop where
  default : ∃ make, d.factory? d.defaultFactory = some make
  space : d.defaultSpace = defaultSpaceOf d.defaultFactory
  factories : d.factory? "" = none
  spaces : d.space? "" = none

theorem factory?_builtin (w : Caches κ υ) (sizing : Sizing) (name : String) (make : Factory κ) :
    (builtin w sizing).1.factory? name = some make ↔ (name, make) ∈ builtinFactories sizing := by
  have hdistinct : (builtinFactories (κ := κ) sizing).Pairwise fun a b => (a.1 == b.1) = false := by
    simp [builtinFactories]
  have hfound : ∀ make, (name, make) ∈ builtinFactories sizing → (builtin w sizing).1.factory? name = some make :=
    fun make => Std.HashMap.getElem?_ofList_of_mem (BEq.refl name) hdistinct
  refine ⟨fun h => ?_, hfound make⟩
  by_cases hname : ((builtinFactories (κ := κ) sizing).map Prod.fst).contains name
  · obtain ⟨⟨_, make'⟩, hmem, rfl⟩ := List.mem_map.1 (List.contains_iff_mem.1 hname)
    rwa [← Option.some.inj ((hfound make' hmem).symm.trans h)]
  · cases (Std.HashMap.getElem?_ofList_of_contains_eq_false (Bool.not_eq_true _ ▸ hname)).symm.trans h

/-- A directory that is created has a name for its default factory, and no other factory and no space. -/
theorem of_create {name : String} {make : Factory κ} (h : create w name make = (.ok d, w')) :
    name ≠ "" ∧ d.defaultFactory = name ∧ d.defaultSpace = defaultSpaceOf name ∧
      (∀ other, d.factory? other = if name = other then some make else none) ∧ ∀ space, d.space? space = none := by
  rw [Directory.create] at h
  split at h
  · cases h
  · next hname =>
    cases h
    refine ⟨by simpa using hname, rfl, rfl, fun other => ?_, fun _ => Std.HashMap.getElem?_empty⟩
    rw [factory?, Std.HashMap.ofList_singleton, Std.HashMap.getElem?_insert, Std.HashMap.getElem?_empty]
    simp only [beq_iff_eq]

theorem SetUp.space? (h : SetUp w d w') (space : String) : d.space? space = none := by
  cases h with
  | create h => exact (of_create h).2.2.2.2 space
  | builtin sizing => exact Std.HashMap.getElem?_empty

theorem SetUp.wellNamed (h : SetUp w d w') : d.WellNamed := by
  cases h with
  | @create name make _ _ h =>
    obtain ⟨hname, rfl, hspace, hfactory, hspaces⟩ := of_create h
    exact ⟨⟨make, by rw [hfactory, if_pos rfl]⟩, hspace, by rw [hfactory, if_neg hname], hspaces ""⟩
  | builtin sizing =>
    refine ⟨⟨_, (factory?_builtin ..).2 List.mem_cons_self⟩, rfl, ?_, Std.HashMap.getElem?_empty⟩
    rw [Option.eq_none_iff_forall_ne_some]
    intro make h
    simp [factory?_builtin, builtinFactories] at h

/-- The factories that are there were there, or came with the request. -/
theorem Answered.factory? {name : String} {make : Factory κ} (h : d.Answered w t r reply product? d' w')
    (hmake : d'.factory? name = some make) : d.factory? name = some make ∨ r.entered? = some make := by
  cases h with
  | registered | replaced =>
    rw [factory?_insert] at hmake
    split at hmake
    · exact Or.inr hmake
    · exact Or.inl hmake
  | removed =>
    rw [factory?_erase] at hmake
    split at hmake
    · cases hmake
    · exact Or.inl hmake
  | done | passedOver | made | refused | notRemoved | notReplaced | dropped | notDropped | inquiry => exact Or.inl hmake

/-- A space that is there stays the same, unless it is dropped. -/
private theorem Answered.space? {space : String} {i : CacheId} (h : d.Answered w t r reply product? d' w')
    (hr : r ≠ .dropSpace space) (hi : d.space? space = some i) : d'.space? space = some i := by
  cases h with
  | made he hs =>
    rw [space?_insert, if_neg, hi]
    rintro rfl
    cases hs.symm.trans hi
  | dropped =>
    rw [space?_erase, if_neg, hi]
    rintro rfl
    exact hr rfl
  | done | passedOver | refused | registered | removed | notRemoved | replaced | notReplaced | notDropped | inquiry =>
    exact hi

theorem Answered.default_eq (h : d.Answered w t r reply product? d' w') :
    d'.defaultFactory = d.defaultFactory ∧ d'.defaultSpace = d.defaultSpace := by
  cases h <;> exact ⟨rfl, rfl⟩

private theorem WellNamed.answered (hd : d.WellNamed) (h : d.Answered w t r reply product? d' w') : d'.WellNamed := by
  obtain ⟨⟨make, hmake⟩, hspace, hfactories, hspaces⟩ := hd
  cases h with
  | made he hs hf hname hmake' hi =>
    refine ⟨⟨make, hmake⟩, hspace, hfactories, ?_⟩
    rw [space?_insert, if_neg hname, hspaces]
  | dropped h =>
    refine ⟨⟨make, hmake⟩, hspace, hfactories, ?_⟩
    rw [space?_erase, hspaces, ite_self]
  | @registered name make' hname h =>
    refine ⟨?_, hspace, ?_, hspaces⟩
    · rw [factory?_insert]
      split
      · exact ⟨make', rfl⟩
      · exact ⟨make, hmake⟩
    · rw [factory?_insert, if_neg hname, hfactories]
  | @replaced name make' old h =>
    refine ⟨?_, hspace, ?_, hspaces⟩
    · rw [factory?_insert]
      split
      · exact ⟨make', rfl⟩
      · exact ⟨make, hmake⟩
    · rw [factory?_insert, if_neg, hfactories]
      rintro rfl
      cases h.symm.trans hfactories
  | removed hname h =>
    refine ⟨⟨make, ?_⟩, hspace, ?_, hspaces⟩
    · rw [factory?_erase, if_neg hname, hmake]
    · rw [factory?_erase, hfactories, ite_self]
  | done | passedOver | refused | notRemoved | notReplaced | notDropped | inquiry =>
    exact ⟨⟨make, hmake⟩, hspace, hfactories, hspaces⟩

/-! ### Runs -/

/-- Only a request changes the directory; what is done beside it is done to the caches. -/
theorem turn_beside (d : Directory κ) (w : Caches κ υ) (t : ThreadId) (action : Caches.Action κ υ) :
    ∃ action', (turn (d, w) (t, .beside action)).2 = (d, (w.act (t, action')).2) ∧
      ∀ f, action' = .make f → action = .make f := by
  cases action with
  | drop roots => exact ⟨.drop (d.references ++ roots), rfl, fun _ h => nomatch h⟩
  | make | request | isBound | detach | beginExit | finishExit => exact ⟨_, rfl, fun _ h => h⟩

/-- What every request of a run keeps of a directory is kept. -/
private theorem after_induct {P : Directory κ → Prop} (w : Caches κ υ) (steps : List (ThreadId × Turn κ υ))
    (h : ∀ d w t r reply product? d' w', (t, .request r) ∈ steps →
      d.Answered (υ := υ) w t r reply product? d' w' → P d → P d') (hd : P d) : P (d.after w steps).1 := by
  induction steps generalizing d w with
  | nil => exact hd
  | cons step steps ih =>
    obtain ⟨t, turn⟩ := step
    have hsteps := fun d w t r reply product? d' w' hmem =>
      h d w t r reply product? d' w' (List.mem_cons_of_mem _ hmem)
    cases turn with
    | request r => exact ih _ hsteps (h _ _ _ _ _ _ _ _ List.mem_cons_self (answer_answered d w t r) hd)
    | exit => exact ih _ hsteps hd
    | beside action =>
      obtain ⟨action', hturn, -⟩ := d.turn_beside w t action
      have hrest := ih (w.act (t, action')).2 hsteps hd
      rw [after, answers_cons, hturn]
      exact hrest

/-- A space stays the same until it is dropped. -/
theorem space?_after {space : String} {i : CacheId} (hi : d.space? space = some i) (w : Caches κ υ)
    {steps : List (ThreadId × Turn κ υ)} (h : ∀ t, (t, .request (.dropSpace space)) ∉ steps) :
    (d.after w steps).1.space? space = some i :=
  after_induct w steps (fun _ _ t _ _ _ _ _ hmem ha hi => ha.space? (fun hr => h t (hr ▸ hmem)) hi) hi

theorem WellNamed.after (hd : d.WellNamed) (w : Caches κ υ) (steps : List (ThreadId × Turn κ υ)) :
    (d.after w steps).1.WellNamed :=
  after_induct w steps (fun _ _ _ _ _ _ _ _ _ h hd => hd.answered h) hd

theorem default_after (d : Directory κ) (w : Caches κ υ) (steps : List (ThreadId × Turn κ υ)) :
    (d.after w steps).1.defaultFactory = d.defaultFactory ∧ (d.after w steps).1.defaultSpace = d.defaultSpace :=
  after_induct (P := fun d' => d'.defaultFactory = d.defaultFactory ∧ d'.defaultSpace = d.defaultSpace) w steps
    (fun _ _ _ _ _ _ _ _ _ h hd => ⟨h.default_eq.1.trans hd.1, h.default_eq.2.trans hd.2⟩) ⟨rfl, rfl⟩

end Caching.Directory
