import Caching.Proofs.Directory.Run

/-!
# What backs the default space

A space that exists was made by one request of the run, which named the factory, and was not dropped since
(`space_has_founder`).  The requests without the name of a space name the default factory.  Any other request may give
the name of the default space, too, with any factory: the default space is made by the factory that the request which
makes it names, and this is the default factory as long as nobody names another one for it.
-/

namespace Caching.Directory

variable {κ υ : Type} [BEq κ] [Hashable κ] {d d' : Directory κ} {w w' w₀ : Caches κ υ} {t : ThreadId}
  {r : DirectoryRequest κ υ} {reply : Reply κ υ} {product? : Option (Product κ)} {space : String} {i : CacheId}

/-! ### What a request does -/

/-- The request makes a space that does not exist, by a call of the factory that is registered under the name which it
gives. -/
structure Founds (s : Directory κ × Caches κ υ) (r : DirectoryRequest κ υ) (space name : String) (make : Factory κ)
    (i : CacheId) : Prop where
  errand : ∃ e, s.1.errand? r = some e ∧ e.space = space ∧ e.factory? = some name
  missing : s.1.space? space = none
  registered : s.1.factory? name = some make
  made : i = (s.2.make make).1

omit [BEq κ] [Hashable κ] in
/-- Which requests name a factory for a space. -/
private theorem errand_names {e : Errand κ υ} {name : String} (he : d.errand? r = some e)
    (hf : e.factory? = some name) :
    name = d.defaultFactory ∨ r = .ensureSpace e.space name ∨ (∃ k v, r = .put e.space name k v) ∨
      ∃ k v, r = .putIfAbsent e.space name k v := by
  cases r with
  | ensureSpace | put | putIfAbsent =>
    cases he
    cases hf
    simp
  | ensureDefault | putDefault | putDefaultIfAbsent =>
    cases he
    cases hf
    exact Or.inl rfl
  | cache | clear | clearDefault | get | getDefault | remove | removeDefault =>
    cases he
    cases hf
  | defaultFactory | defaultSpace | registerFactory | hasFactory | factoryNames | removeFactory | factory
  | replaceFactory | hasSpace | spaceNames | dropSpace => cases he

omit [BEq κ] [Hashable κ] in
private theorem errand?_ne_drop {e : Errand κ υ} (he : d.errand? r = some e) (space : String) :
    r ≠ .dropSpace space := by
  rintro rfl
  cases he

/-- A space that is there after a request was there before it and is not dropped by it, or is made by it. -/
private theorem Answered.founds (h : d.Answered w t r reply product? d' w') (hi : d'.space? space = some i) :
    (d.space? space = some i ∧ r ≠ .dropSpace space) ∨ ∃ name make, Founds (d, w) r space name make i := by
  cases h with
  | @made _ e name make i₁ w₁ he hs hf hname hmake hi₁ =>
    rw [space?_insert] at hi
    split at hi
    · next hspace =>
      subst hspace
      obtain rfl : i₁ = i := Option.some_inj.1 hi
      exact Or.inr ⟨name, make, ⟨e, he, rfl, hf⟩, hs, hmake, (congrArg Prod.fst hi₁).symm⟩
    · exact Or.inl ⟨hi, errand?_ne_drop he space⟩
  | done he | passedOver he => exact Or.inl ⟨hi, errand?_ne_drop he space⟩
  | refused h =>
    refine Or.inl ⟨hi, ?_⟩
    rintro rfl
    cases h with
    | unnamedSpace he | unknownFactory he => cases he
  | @dropped space' h =>
    rw [space?_erase] at hi
    split at hi
    · cases hi
    · next hne =>
      refine Or.inl ⟨hi, ?_⟩
      rintro ⟨rfl⟩
      exact hne rfl
  | @notDropped space' h =>
    refine Or.inl ⟨hi, ?_⟩
    rintro ⟨rfl⟩
    rw [hasSpace_eq, hi] at h
    exact h rfl
  | inquiry h =>
    refine Or.inl ⟨hi, ?_⟩
    rintro rfl
    cases h
  | registered | removed | notRemoved | replaced | notReplaced => exact Or.inl ⟨hi, by simp⟩

/-! ### What a run leaves -/

/-- A request of the run made the space, and no request after it dropped it. -/
def Founded (d : Directory κ) (w : Caches κ υ) (steps : List (ThreadId × Turn κ υ)) (space : String) (i : CacheId) :
    Prop :=
  ∃ before t r later name make, steps = before ++ (t, .request r) :: later ∧
    Founds (d.after w before) r space name make i ∧ ∀ u, (u, .request (.dropSpace space)) ∉ later

private theorem Founded.append {steps : List (ThreadId × Turn κ υ)} {x : ThreadId × Turn κ υ}
    (h : Founded d w steps space i) (hx : ∀ u, x ≠ (u, .request (.dropSpace space))) :
    Founded d w (steps ++ [x]) space i := by
  obtain ⟨before, t, r, later, name, make, rfl, hfounds, hlater⟩ := h
  refine ⟨before, t, r, later ++ [x], name, make, by simp, hfounds, ?_⟩
  intro u hu
  rcases List.mem_append.1 hu with hu | hu
  · exact hlater u hu
  · exact hx u (List.mem_singleton.1 hu).symm

/-- Who looks back from a space that exists finds the request that made it, and no drop since. -/
theorem space_has_founder (hd : SetUp w₀ d w) (steps : List (ThreadId × Turn κ υ))
    (hi : (d.after w steps).1.space? space = some i) : Founded d w steps space i := by
  induction steps using List.reverseRecOn with
  | nil => cases (hd.space? space).symm.trans hi
  | append_singleton steps x ih =>
    rw [after_append] at hi
    obtain ⟨t, turn⟩ := x
    cases turn with
    | exit => exact (ih hi).append (by simp)
    | beside action =>
      obtain ⟨action', hturn, -⟩ := (d.after w steps).1.turn_beside (d.after w steps).2 t action
      have hsame : ((d.after w steps).1.after (d.after w steps).2 [(t, .beside action)]).1 = (d.after w steps).1 := by
        rw [after, answers_cons, hturn]
        rfl
      exact (ih (hsame ▸ hi)).append (by simp)
    | request r =>
      rcases (answer_answered (d.after w steps).1 (d.after w steps).2 t r).founds hi with ⟨hi, hr⟩ | hfounds
      · refine (ih hi).append ?_
        intro u hu
        cases hu
        exact hr rfl
      · obtain ⟨name, make, hfounds⟩ := hfounds
        exact ⟨steps, t, r, [], name, make, rfl, hfounds, fun u hu => by cases hu⟩

/-- In a directory that was set up the default space, if it exists, was made by one call of the factory that was
registered then under the name which the request gave, and not dropped since.  This is the default factory, unless the
request itself gives the name of the space and another factory; so it is the default factory if no request does so. -/
theorem default_space_is_made_by_factory_named (hd : SetUp w₀ d w) (steps : List (ThreadId × Turn κ υ))
    (hi : (d.after w steps).1.space? d.defaultSpace = some i) :
    ∃ before t r later name make, steps = before ++ (t, .request r) :: later ∧
      Founds (d.after w before) r d.defaultSpace name make i ∧
      (∀ u, (u, .request (.dropSpace d.defaultSpace)) ∉ later) ∧
      (name = d.defaultFactory ∨ r = .ensureSpace d.defaultSpace name ∨ (∃ k v, r = .put d.defaultSpace name k v) ∨
        ∃ k v, r = .putIfAbsent d.defaultSpace name k v) ∧
      ((∀ u q e, (u, .request q) ∈ steps → d.errand? q = some e → e.space = d.defaultSpace →
        ∀ other, e.factory? = some other → other = d.defaultFactory) → name = d.defaultFactory) := by
  obtain ⟨before, t, r, later, name, make, rfl, hfounds, hlater⟩ := space_has_founder hd steps hi
  obtain ⟨e, he, hspace, hf⟩ := hfounds.errand
  rw [errand?_congr (d.default_after w before)] at he
  refine ⟨before, t, r, later, name, make, rfl, hfounds, hlater, ?_, ?_⟩
  · rw [← hspace]
    exact errand_names he hf
  · intro hnames
    exact hnames t r e (by simp) he hspace name hf

/-- The default factory is replaced, and then a value is stored in the default space. -/
theorem default_space_made_by_default_factory :
    let start := builtin (.empty : Caches Nat Nat) {}
    let steps : List (ThreadId × Turn Nat Nat) :=
      [(1, .request (.replaceFactory "concurrent" (.bounded .lru { size := 2 }))), (0, .request (.putDefault 5 7))]
    (start.1.after start.2 steps).1.space? start.1.defaultSpace = some 0 ∧
      ∃ before make, (start.1.after start.2 before).1.factory? "concurrent" = some make ∧
        0 = ((start.1.after start.2 before).2.make make).1 := by
  intro start steps
  have hstart : SetUp (.empty : Caches Nat Nat) start.1 start.2 := .builtin {}
  -- the tables after the first turn
  let d : Directory Nat :=
    { start.1 with factories := start.1.factories.insert "concurrent" (.bounded .lru { size := 2 }) }
  let w := start.2.emit (.factoryReplaced "concurrent")
  have hfirst : start.1.after start.2 [(1, .request (.replaceFactory "concurrent" (.bounded .lru { size := 2 })))] =
      (d, w) := by
    have hold : start.1.factory? "concurrent" = some _ := (factory?_builtin _ _ _ _).2 List.mem_cons_self
    simp only [after, answers, turn, answer, replaceFactory, hold]
    rfl
  have hlru : d.factory? "concurrent" = some (.bounded .lru { size := 2 }) :=
    (factory?_insert ..).trans (if_pos rfl)
  have hmissing : d.space? d.defaultSpace = none := by
    rw [space?]
    exact hstart.space? _
  have hanswer := answer_of_new (r := .putDefault 5 7) rfl hmissing rfl (defaultSpaceOf_ne_empty _) hlru w 0
  have hspace : (start.1.after start.2 steps).1.space? start.1.defaultSpace = some 0 := by
    have hsteps : start.1.after start.2 steps = d.after w [(0, .request (.putDefault 5 7))] :=
      (after_append start.1 start.2 [_] [_]).trans (by rw [hfirst])
    have hsecond : (d.after w [(0, .request (.putDefault 5 7))]).1 = (d.answer w 0 (.putDefault 5 7)).2.2.1 := rfl
    rw [hsteps, hsecond, hanswer]
    exact (space?_insert ..).trans (if_pos rfl)
  obtain ⟨before, t, r, later, name, make, -, hfounds, -, -, hname⟩ :=
    default_space_is_made_by_factory_named hstart steps hspace
  have hconcurrent : name = "concurrent" := by
    apply hname
    intro u q e hmem he hs other hf
    simp only [steps, List.mem_cons, Prod.mk.injEq, Turn.request.injEq, List.not_mem_nil, or_false] at hmem
    rcases hmem with ⟨-, rfl⟩ | ⟨-, rfl⟩
    · cases he
    · cases he
      cases hf
      rfl
  exact ⟨hspace, before, make, hconcurrent ▸ hfounds.registered, hfounds.made⟩

/-- A directory whose default factory makes an unbounded map is asked for its default space by name, to be made by the
factory of bounded caches in order of use. -/
theorem default_space_made_by_other_factory :
    let start := builtin (.empty : Caches Nat Nat) { capacity := { size := 3 } }
    let s := start.1.after start.2 [(0, .request (.ensureSpace start.1.defaultSpace "lru"))]
    s.1.space? start.1.defaultSpace = some 0 ∧ s.2.capacity? 0 0 = some 3 ∧
      ∀ make, start.1.factory? start.1.defaultFactory = some make →
        (start.2.make make).1 = 0 ∧ (start.2.make make).2.capacity? 0 0 = none := by
  intro start s
  have hlru : start.1.factory? "lru" = some (.bounded .lru { size := 3 }) :=
    (factory?_builtin _ _ _ _).2 (by simp [builtinFactories])
  have hmissing : start.1.space? start.1.defaultSpace = none := (SetUp.builtin _).space? _
  have hanswer := answer_of_new (r := .ensureSpace start.1.defaultSpace "lru") rfl hmissing rfl
    (defaultSpaceOf_ne_empty _) hlru start.2 0
  have hs : s = ((start.1.answer start.2 0 (.ensureSpace start.1.defaultSpace "lru")).2.2.1,
      (start.1.answer start.2 0 (.ensureSpace start.1.defaultSpace "lru")).2.2.2) := rfl
  rw [hs, hanswer]
  refine ⟨?_, rfl, ?_⟩
  · exact (space?_insert ..).trans (if_pos rfl)
  · intro make hmake
    have hmem := (factory?_builtin _ _ _ _).1 hmake
    obtain rfl : make = .striped _ hash := by simpa [start, builtin, builtinFactories] using hmem
    exact ⟨rfl, rfl⟩

end Caching.Directory
