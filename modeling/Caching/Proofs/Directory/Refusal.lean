import Caching.Proofs.Directory.Run

/-!
# What a directory refuses

A directory refuses a request for one of five reasons (`Refuses`), and a request that is refused has changed nothing but
the log (`refusals_change_nothing`).  None of the reasons ever holds of a request to the default space
(`default_space_is_always_available`).
-/

namespace Caching

variable {κ υ : Type} [BEq κ] [Hashable κ]

private theorem Caches.answer_ne_fault (w : Caches κ υ) (t : ThreadId) (i : CacheId) (r : Request κ υ) (f : Fault) :
    (w.answer t i r).1 ≠ .fault f := by
  cases r with
  | putIf condition | removeIf condition => cases condition <;> simp [answer]
  | get | put | contains | remove | length | isEmpty | clear | capacity | putIfAbsent => simp [answer]

namespace Errand

theorem done_ne_fault (e : Errand κ υ) (w : Caches κ υ) (t : ThreadId) (i : CacheId) (f : Fault) :
    (e.done w t i).1 ≠ .fault f := by
  rw [done]
  split
  · simp
  · next r _ => exact w.answer_ne_fault t i r f

omit [BEq κ] [Hashable κ] in
private theorem passedOver_ne_fault (e : Errand κ υ) (f : Fault) : e.passedOver ≠ .fault f := by
  rw [passedOver]
  split
  · simp
  · next r _ => cases r <;> simp [Request.answerOfEmpty]

end Errand

namespace Directory

variable {d d' : Directory κ} {w w' w₀ : Caches κ υ} {t : ThreadId} {r : DirectoryRequest κ υ} {e : Errand κ υ}
  {reply : Reply κ υ} {product? : Option (Product κ)} {f : Fault}

/-! ### Faults -/

/-- A fault is the reply to a request that is refused, and to no other. -/
private theorem Answered.of_fault (h : d.Answered w t r reply product? d' w') (hreply : reply = .fault f) :
    d.Refuses r f ∧ product? = none ∧ d' = d ∧ w' = { w with log := w'.log } := by
  cases h with
  | refused h log =>
    cases hreply
    exact ⟨h, rfl, rfl, rfl⟩
  | done | made => exact absurd hreply (Errand.done_ne_fault _ _ _ _ _)
  | passedOver => exact absurd hreply (Errand.passedOver_ne_fault _ _)
  | inquiry h hne => exact absurd hreply (hne f)
  | registered | removed | notRemoved | replaced | notReplaced | dropped | notDropped => cases hreply

private theorem Refuses.answer (h : d.Refuses r f) (w : Caches κ υ) (t : ThreadId) : (d.answer w t r).1 = .fault f := by
  cases h with
  | unnamedFactory make => rfl
  | takenName make hname h => simp [Directory.answer, registerFactory, hname, h, replyOf]
  | defaultFactory => simp [Directory.answer, removeFactory, replyOf]
  | @unnamedSpace _ e name he hf hs hname =>
    have hnone : d.space? e.space = none := by simpa [hasSpace_eq] using hs
    rw [answer_of_unnamed he hnone hf hname]
  | @unknownFactory _ e name he hf hs hname h =>
    have hnone : d.space? e.space = none := by simpa [hasSpace_eq] using hs
    have hunknown : d.factory? name = none := by simpa [hasFactory_eq] using h
    rw [answer_of_unknown he hnone hf hname hunknown]

private theorem answer_eq_fault_iff (d : Directory κ) (w : Caches κ υ) (t : ThreadId) (r : DirectoryRequest κ υ)
    (f : Fault) : (d.answer w t r).1 = .fault f ↔ d.Refuses r f :=
  ⟨fun h => ((answer_answered d w t r).of_fault h).1, fun h => h.answer w t⟩

/-! ### The default space -/

/-- An errand to the default space that makes it with the default factory is done. -/
private theorem WellNamed.answer_default (hd : d.WellNamed) (he : d.errand? r = some e) (hs : e.space = d.defaultSpace)
    (hf : e.factory? = some d.defaultFactory) (w : Caches κ υ) (t : ThreadId) :
    ∃ w₁ i, (d.answer w t r).1 = (e.done w₁ t i).1 ∧ (d.answer w t r).2.1 = (e.done w₁ t i).2.1 := by
  cases hi : d.space? e.space with
  | some i =>
    rw [answer_of_space he hi]
    exact ⟨w, i, rfl, rfl⟩
  | none =>
    obtain ⟨make, hmake⟩ := hd.default
    have hname : e.space ≠ "" := by
      rw [hs, hd.space]
      exact defaultSpaceOf_ne_empty _
    rw [answer_of_new he hi hf hname hmake]
    exact ⟨_, _, rfl, rfl⟩

private theorem WellNamed.not_refuses_default (hd : d.WellNamed) (he : d.errand? r = some e)
    (hs : e.space = d.defaultSpace) (hf : e.factory? = some d.defaultFactory) (f : Fault) : ¬ d.Refuses r f := by
  intro h
  obtain ⟨w₁, i, hreply, -⟩ := hd.answer_default he hs hf (.empty : Caches κ υ) 0
  exact e.done_ne_fault w₁ 0 i f (hreply.symm.trans (h.answer _ _))

/-- A directory that was set up goes on having its default space, whatever is asked of it and happens beside it: -/
theorem default_space_is_always_available (hd : SetUp w₀ d w) (steps : List (ThreadId × Turn κ υ)) :
    let d' := (d.after w steps).1
    let w' := (d.after w steps).2
    -- the default factory keeps its name and stays registered
    (d'.defaultFactory = d.defaultFactory ∧ d'.hasFactory d.defaultFactory) ∧
    -- nothing is held under the empty name
    (¬ d'.hasFactory "" ∧ ¬ d'.hasSpace "") ∧
    -- the default space is handed over, and takes what is stored in it
    ∀ t, (∃ i, (d'.answer w' t .ensureDefault).1 = .flag true ∧
        (d'.answer w' t .ensureDefault).2.1 = some (.cache i)) ∧
      ∀ k v, (∃ v?, (d'.answer w' t (.putDefault k v)).1 = .value? v?) ∧
        ∃ v?, (d'.answer w' t (.putDefaultIfAbsent k v)).1 = .value? v? := by
  intro d' w'
  have hnamed : d'.WellNamed := hd.wellNamed.after w steps
  have hdefault : d'.defaultFactory = d.defaultFactory := (d.default_after w steps).1
  refine ⟨⟨hdefault, ?_⟩, ⟨by simp [hasFactory_eq, hnamed.factories], by simp [hasSpace_eq, hnamed.spaces]⟩,
    fun t => ⟨?_, fun k v => ⟨?_, ?_⟩⟩⟩
  · obtain ⟨make, hmake⟩ := hnamed.default
    rw [← hdefault, hasFactory_eq, hmake]
    rfl
  · obtain ⟨w₁, i, hreply, hproduct⟩ := hnamed.answer_default (r := .ensureDefault) rfl rfl rfl w' t
    exact ⟨i, hreply, hproduct⟩
  · obtain ⟨w₁, i, hreply, -⟩ := hnamed.answer_default (r := .putDefault k v) rfl rfl rfl w' t
    exact ⟨_, hreply⟩
  · obtain ⟨w₁, i, hreply, -⟩ := hnamed.answer_default (r := .putDefaultIfAbsent k v) rfl rfl rfl w' t
    exact ⟨_, hreply⟩

/-- Nobody can take the default factory out, and a dropped default space is made again. -/
theorem default_space_after_dropping :
    let start := builtin (.empty : Caches Nat Nat) {}
    let steps : List (ThreadId × Turn Nat Nat) :=
      [(0, .request .ensureDefault), (1, .request (.removeFactory "concurrent")),
        (1, .request (.replaceFactory "concurrent" (.bounded .lru { size := 2 }))),
        (0, .request (.dropSpace start.1.defaultSpace)), (0, .exit)]
    let d := (start.1.after start.2 steps).1
    let w := (start.1.after start.2 steps).2
    d.hasFactory "concurrent" ∧ ¬ d.hasSpace "" ∧ ∃ v?, (d.answer w 1 (.putDefault 5 7)).1 = .value? v? := by
  intro start steps d w
  obtain ⟨⟨-, hdefault⟩, ⟨-, hspace⟩, hdone⟩ :=
    default_space_is_always_available (.builtin {}) steps
  exact ⟨hdefault, hspace, ((hdone 1).2 5 7).1⟩

/-- When a directory was set up, or is to be: -/
theorem refusals_change_nothing (hd : SetUp w₀ d w) (steps : List (ThreadId × Turn κ υ)) :
    let d' := (d.after w steps).1
    let w' := (d.after w steps).2
    -- who is answered with a fault is handed nothing, and has changed neither the tables nor anything of the caches but
    -- the log
    (∀ t (r : DirectoryRequest κ υ) f, (d'.answer w' t r).1 = .fault f →
      (d'.answer w' t r).2 = (none, d', { w' with log := (d'.answer w' t r).2.2.2.log })) ∧
    -- the fault tells the reason, and there is no other reason
    (∀ t (r : DirectoryRequest κ υ) f, (d'.answer w' t r).1 = .fault f ↔ d'.Refuses r f) ∧
    -- no reason ever holds of a request to the default space
    (∀ f, ¬ d'.Refuses (.ensureDefault : DirectoryRequest κ υ) f ∧
      ∀ (k : κ) (v : υ), ¬ d'.Refuses (.putDefault k v) f ∧ ¬ d'.Refuses (.putDefaultIfAbsent k v) f) ∧
    -- where a space exists, it does not matter what factory is named
    (∀ t space factory factory', d'.hasSpace space →
      d'.answer w' t (.ensureSpace space factory) = d'.answer w' t (.ensureSpace space factory') ∧
      ∀ k v, d'.answer w' t (.put space factory k v) = d'.answer w' t (.put space factory' k v) ∧
        d'.answer w' t (.putIfAbsent space factory k v) = d'.answer w' t (.putIfAbsent space factory' k v)) ∧
    -- a directory is not set up only if its default factory has no name, and then nothing is changed either
    ∀ name make f, (create w' name make).1 = .error f ↔
      name = "" ∧ f = .emptyName "factory" ∧ create w' name make = (.error f, w') := by
  intro d' w'
  have hnamed : d'.WellNamed := hd.wellNamed.after w steps
  refine ⟨fun t r f h => ?_, fun t r f => answer_eq_fault_iff d' w' t r f, fun f => ⟨?_, fun k v => ⟨?_, ?_⟩⟩,
    fun t space factory factory' hs => ?_, fun name make f => ⟨fun h => ?_, fun h => ?_⟩⟩
  · obtain ⟨-, hproduct, hsame, hlog⟩ := (answer_answered d' w' t r).of_fault h
    exact Prod.ext hproduct (Prod.ext hsame hlog)
  · exact hnamed.not_refuses_default (r := .ensureDefault) rfl rfl rfl f
  · exact hnamed.not_refuses_default (r := .putDefault k v) rfl rfl rfl f
  · exact hnamed.not_refuses_default (r := .putDefaultIfAbsent k v) rfl rfl rfl f
  · obtain ⟨i, hi⟩ := Option.isSome_iff_exists.1 ((hasSpace_eq ..).symm.trans hs)
    have heq : ∀ {r r' : DirectoryRequest κ υ} {e e' : Errand κ υ}, d'.errand? r = some e → d'.errand? r' = some e' →
        e.space = space → e'.space = space → e.request? = e'.request? → d'.answer w' t r = d'.answer w' t r' := by
      intro r r' e e' he he' hs hs' hrequest
      rw [answer_of_space he (hs ▸ hi), answer_of_space he' (hs' ▸ hi), Errand.done, Errand.done, hrequest]
    exact ⟨heq rfl rfl rfl rfl rfl, fun k v => ⟨heq rfl rfl rfl rfl rfl, heq rfl rfl rfl rfl rfl⟩⟩
  · rw [create] at h ⊢
    split at h
    · next hname =>
      cases h
      exact ⟨by simpa using hname, rfl, if_pos hname⟩
    · cases h
  · rw [h.2.2]

/-- A write to no space by no factory: the space is what the fault is about, and nothing is changed. -/
theorem write_without_space_is_refused :
    let make : Factory Nat := .bounded .lru { size := 2 }
    let d : Directory Nat := ⟨"lru", defaultSpaceOf "lru", .ofList [("lru", make)], {}⟩
    let w := (.empty : Caches Nat Nat).emit (.directoryCreated "lru" (defaultSpaceOf "lru"))
    let s := d.after w [(0, .request (.put "a" "lru" 5 7)), (0, .exit)]
    (s.1.answer s.2 0 (.put "" "nowhere" 6 8)).1 = .fault (.emptyName "space") ∧
      (s.1.answer s.2 0 (.put "" "nowhere" 6 8)).2.2.1 = s.1 ∧
      (s.1.answer s.2 0 (.put "" "nowhere" 6 8)).2.2.2.instances = s.2.instances := by
  intro make d w s
  have hcreate : create (.empty : Caches Nat Nat) "lru" make = (.ok d, w) := rfl
  obtain ⟨hsame, hrefuses, -⟩ :=
    refusals_change_nothing (.create hcreate) [(0, .request (.put "a" "lru" 5 7)), (0, .exit)]
  have hnamed : s.1.WellNamed := (SetUp.create hcreate).wellNamed.after w _
  have hspace : ¬ s.1.hasSpace "" := by simp [hasSpace_eq, hnamed.spaces]
  have hfault := (hrefuses 0 (.put "" "nowhere" 6 8) (.emptyName "space")).2 (.unnamedSpace rfl rfl hspace rfl)
  have hrest := hsame 0 _ _ hfault
  exact ⟨hfault, congrArg (·.2.1) hrest, congrArg (·.2.2.instances) hrest⟩

end Directory

end Caching
