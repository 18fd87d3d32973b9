import Caching.Directory.Request
import Caching.Proofs.Caches.Answer

/-!
# Errands

Most requests to a directory come down to an errand at one space: the instance of the space is handed over, or a request
is put to it.  An errand that may make the space names the factory to make it with.  An errand to a space that exists is
done at its instance (`answer_of_space`); one to a space that does not is passed over (`answer_of_missing`), refused, or
has the factory called first (`answer_of_new`).  With the requests that are no errands this is all that a directory can
do (`answer_answered`).
-/

namespace Caching

variable {κ υ : Type}

structure Errand (κ υ : Type) where
  space : String
  /-- The name of the factory to make the space with, if the errand may make it. -/
  factory? : Option String := none
  /-- What is asked of the instance; it is handed over if nothing is asked. -/
  request? : Option (Request κ υ) := none

namespace Errand

/-- The reply where the space is missing and stays so. -/
def passedOver (e : Errand κ υ) : Reply κ υ :=
  match e.request? with
  | none => .flag false
  | some r => r.answerOfEmpty none

variable [BEq κ] [Hashable κ]

/-- The errand done at an instance: the reply, what is handed over, and the caches afterwards. -/
def done (e : Errand κ υ) (w : Caches κ υ) (t : ThreadId) (i : CacheId) :
    Reply κ υ × Option (Product κ) × Caches κ υ :=
  match e.request? with
  | none => (.flag true, some (.cache i), w)
  | some r => ((w.answer t i r).1, none, (w.answer t i r).2)

end Errand

/-- The factory that comes with a request. -/
def DirectoryRequest.entered? : DirectoryRequest κ υ → Option (Factory κ)
  | .registerFactory _ make | .replaceFactory _ make => some make
  | _ => none

namespace Directory

/-- The errand that a request comes down to, if it does. -/
def errand? (d : Directory κ) : DirectoryRequest κ υ → Option (Errand κ υ)
  | .ensureSpace space factory => some { space, factory? := some factory }
  | .ensureDefault => some { space := d.defaultSpace, factory? := some d.defaultFactory }
  | .cache space => some { space }
  | .clear space => some { space, request? := some .clear }
  | .clearDefault => some { space := d.defaultSpace, request? := some .clear }
  | .get space k => some { space, request? := some (.get k) }
  | .getDefault k => some { space := d.defaultSpace, request? := some (.get k) }
  | .put space factory k v => some { space, factory? := some factory, request? := some (.put k v) }
  | .putDefault k v =>
    some { space := d.defaultSpace, factory? := some d.defaultFactory, request? := some (.put k v) }
  | .putIfAbsent space factory k v => some { space, factory? := some factory, request? := some (.putIfAbsent k v) }
  | .putDefaultIfAbsent k v =>
    some { space := d.defaultSpace, factory? := some d.defaultFactory, request? := some (.putIfAbsent k v) }
  | .remove space k => some { space, request? := some (.remove k) }
  | .removeDefault k => some { space := d.defaultSpace, request? := some (.remove k) }
  | .defaultFactory | .defaultSpace | .registerFactory .. | .hasFactory _ | .factoryNames | .removeFactory _
  | .factory _ | .replaceFactory .. | .hasSpace _ | .spaceNames | .dropSpace _ => none

/-- The tables do not matter for that. -/
theorem errand?_congr {d d' : Directory κ}
    (h : d'.defaultFactory = d.defaultFactory ∧ d'.defaultSpace = d.defaultSpace) (r : DirectoryRequest κ υ) :
    d'.errand? r = d.errand? r := by
  cases r <;> simp only [errand?, h.1, h.2]

theorem hasSpace_eq (d : Directory κ) (space : String) : d.hasSpace space = (d.space? space).isSome :=
  Std.HashMap.contains_eq_isSome_getElem?

theorem hasFactory_eq (d : Directory κ) (name : String) : d.hasFactory name = (d.factory? name).isSome :=
  Std.HashMap.contains_eq_isSome_getElem?

variable [BEq κ] [Hashable κ] {d : Directory κ} {w : Caches κ υ} {r : DirectoryRequest κ υ} {e : Errand κ υ}
  {name : String} {make : Factory κ} {i : CacheId}

/-! ### At a space that exists -/

private theorem ensureSpace_of_space {space : String} (hi : d.space? space = some i) (w : Caches κ υ)
    (factory : String) : d.ensureSpace w space factory = (.ok i, d, w) := by
  rw [ensureSpace, hi]

/-- The errand is done at the instance of the space, whatever factory it names. -/
theorem answer_of_space (he : d.errand? r = some e) (hi : d.space? e.space = some i) (w : Caches κ υ) (t : ThreadId) :
    d.answer w t r = ((e.done w t i).1, (e.done w t i).2.1, d, (e.done w t i).2.2) := by
  cases r <;> cases he <;>
    simp_all [answer, ensureDefault, ensureSpace_of_space, get, put, putIfAbsent, remove, clear, replyOf,
      Except.toOption, Errand.done, Caches.answer]

/-! ### At a space that does not exist -/

theorem answer_of_missing (he : d.errand? r = some e) (hs : d.space? e.space = none) (hf : e.factory? = none)
    (w : Caches κ υ) (t : ThreadId) : d.answer w t r = (e.passedOver, none, d, w) := by
  cases r <;> cases he <;>
    simp_all [answer, get, remove, clear, Errand.passedOver, Request.answerOfEmpty]

/-- What becomes of an errand that makes its space. -/
private theorem answer_of_ensureSpace (he : d.errand? r = some e) (hf : e.factory? = some name) (w : Caches κ υ)
    (t : ThreadId) : d.answer w t r =
      match d.ensureSpace w e.space name with
      | (.error f, d, w) => (.fault f, none, d, w)
      | (.ok i, d, w) => ((e.done w t i).1, (e.done w t i).2.1, d, (e.done w t i).2.2) := by
  cases r <;> cases he <;> cases hf <;>
    simp only [answer, ensureDefault, put, putIfAbsent, Errand.done, Caches.answer] <;>
    (split <;> simp_all [replyOf, Except.toOption])

theorem answer_of_unnamed (he : d.errand? r = some e) (hs : d.space? e.space = none) (hf : e.factory? = some name)
    (hunnamed : e.space = "") (w : Caches κ υ) (t : ThreadId) :
    d.answer w t r = (.fault (.emptyName "space"), none, d, w) := by
  rw [answer_of_ensureSpace he hf, ensureSpace, hs]
  simp [hunnamed]

theorem answer_of_unknown (he : d.errand? r = some e) (hs : d.space? e.space = none) (hf : e.factory? = some name)
    (hnamed : e.space ≠ "") (hunknown : d.factory? name = none) (w : Caches κ υ) (t : ThreadId) :
    d.answer w t r =
      (.fault (.unknownFactory name), none, d, w.emit (.unknownFactoryRequested e.space name)) := by
  rw [answer_of_ensureSpace he hf, ensureSpace, hs]
  simp [hnamed, hunknown]

/-- The factory is called once, what it makes becomes the instance of the space, and the errand is done there. -/
theorem answer_of_new (he : d.errand? r = some e) (hs : d.space? e.space = none) (hf : e.factory? = some name)
    (hnamed : e.space ≠ "") (hmake : d.factory? name = some make) (w : Caches κ υ) (t : ThreadId) :
    d.answer w t r =
      let result := e.done ((w.make make).2.emit (.spaceCreated e.space name)) t (w.make make).1
      (result.1, result.2.1, { d with spaces := d.spaces.insert e.space (w.make make).1 }, result.2.2) := by
  rw [answer_of_ensureSpace he hf, ensureSpace, hs]
  simp [hnamed, hmake]

/-! ### Every request -/

/-- Why a request is refused, the first reason that holds where there are several. -/
inductive Refuses (d : Directory κ) : DirectoryRequest κ υ → Fault → Prop
  | unnamedFactory (make : Factory κ) : Refuses d (.registerFactory "" make) (.emptyName "factory")
  | takenName {name : String} (make : Factory κ) (hname : name ≠ "") (h : d.hasFactory name) :
    Refuses d (.registerFactory name make) (.duplicateFactory name)
  | defaultFactory : Refuses d (.removeFactory d.defaultFactory) (.protectedDefaultFactory d.defaultFactory)
  | unnamedSpace {r : DirectoryRequest κ υ} {e : Errand κ υ} {name : String} (he : d.errand? r = some e)
    (hf : e.factory? = some name) (hs : ¬ d.hasSpace e.space) (hname : e.space = "") :
    Refuses d r (.emptyName "space")
  | unknownFactory {r : DirectoryRequest κ υ} {e : Errand κ υ} {name : String} (he : d.errand? r = some e)
    (hf : e.factory? = some name) (hs : ¬ d.hasSpace e.space) (hname : e.space ≠ "") (h : ¬ d.hasFactory name) :
    Refuses d r (.unknownFactory name)

/-- A request that only asks what is in the tables. -/
inductive Inquires : DirectoryRequest κ υ → Prop
  | defaultFactory : Inquires .defaultFactory
  | defaultSpace : Inquires .defaultSpace
  | hasFactory (name : String) : Inquires (.hasFactory name)
  | factoryNames : Inquires .factoryNames
  | factory (name : String) : Inquires (.factory name)
  | hasSpace (space : String) : Inquires (.hasSpace space)
  | spaceNames : Inquires .spaceNames

/-- What can come of a request: the reply, what is handed over, and the tables and the caches after it. -/
inductive Answered (d : Directory κ) (w : Caches κ υ) (t : ThreadId) :
    DirectoryRequest κ υ → Reply κ υ → Option (Product κ) → Directory κ → Caches κ υ → Prop
  | done {r : DirectoryRequest κ υ} {e : Errand κ υ} {i : CacheId} (he : d.errand? r = some e)
    (hi : d.space? e.space = some i) : Answered d w t r (e.done w t i).1 (e.done w t i).2.1 d (e.done w t i).2.2
  | passedOver {r : DirectoryRequest κ υ} {e : Errand κ υ} (he : d.errand? r = some e)
    (hs : d.space? e.space = none) (hf : e.factory? = none) : Answered d w t r e.passedOver none d w
  /-- The space is made, and the errand done at the new instance. -/
  | made {r : DirectoryRequest κ υ} {e : Errand κ υ} {name : String} {make : Factory κ} {i : CacheId}
    {w₁ : Caches κ υ} (he : d.errand? r = some e) (hs : d.space? e.space = none) (hf : e.factory? = some name)
    (hname : e.space ≠ "") (hmake : d.factory? name = some make) (hi : w.make make = (i, w₁)) :
    Answered d w t r (e.done (w₁.emit (.spaceCreated e.space name)) t i).1
      (e.done (w₁.emit (.spaceCreated e.space name)) t i).2.1 { d with spaces := d.spaces.insert e.space i }
      (e.done (w₁.emit (.spaceCreated e.space name)) t i).2.2
  | refused {r : DirectoryRequest κ υ} {f : Fault} (h : d.Refuses r f) (log : Array Event) :
    Answered d w t r (.fault f) none d { w with log }
  | registered {name : String} {make : Factory κ} (hname : name ≠ "") (h : d.factory? name = none) :
    Answered d w t (.registerFactory name make) .done none { d with factories := d.factories.insert name make }
      (w.emit (.factoryRegistered name))
  | removed {name : String} {old : Factory κ} (hname : name ≠ d.defaultFactory) (h : d.factory? name = some old) :
    Answered d w t (.removeFactory name) (.flag true) (some (.factory old))
      { d with factories := d.factories.erase name } (w.emit (.factoryRemoved name))
  | notRemoved {name : String} (h : d.factory? name = none) :
    Answered d w t (.removeFactory name) (.flag false) none d w
  | replaced {name : String} {make old : Factory κ} (h : d.factory? name = some old) :
    Answered d w t (.replaceFactory name make) (.flag true) (some (.factory old))
      { d with factories := d.factories.insert name make } (w.emit (.factoryReplaced name))
  | notReplaced {name : String} {make : Factory κ} (h : d.factory? name = none) :
    Answered d w t (.replaceFactory name make) (.flag false) none d w
  | dropped {space : String} (h : d.hasSpace space) :
    Answered d w t (.dropSpace space) (.flag true) none { d with spaces := d.spaces.erase space }
      (w.emit (.spaceDropped space))
  | notDropped {space : String} (h : ¬ d.hasSpace space) :
    Answered d w t (.dropSpace space) (.flag false) none d w
  | inquiry {r : DirectoryRequest κ υ} {reply : Reply κ υ} {product? : Option (Product κ)} (h : Inquires r)
    (hreply : ∀ f, reply ≠ .fault f) : Answered d w t r reply product? d w

private theorem answer_answered_of_errand? (he : d.errand? r = some e) (w : Caches κ υ) (t : ThreadId) :
    d.Answered w t r (d.answer w t r).1 (d.answer w t r).2.1 (d.answer w t r).2.2.1 (d.answer w t r).2.2.2 := by
  cases hs : d.space? e.space with
  | some i =>
    rw [answer_of_space he hs]
    exact .done he hs
  | none =>
    have hs' : ¬ d.hasSpace e.space := by simp [hasSpace_eq, hs]
    cases hf : e.factory? with
    | none =>
      rw [answer_of_missing he hs hf]
      exact .passedOver he hs hf
    | some name =>
      by_cases hname : e.space = ""
      · rw [answer_of_unnamed he hs hf hname]
        exact .refused (.unnamedSpace he hf hs' hname) w.log
      · cases hmake : d.factory? name with
        | none =>
          rw [answer_of_unknown he hs hf hname hmake]
          exact .refused (.unknownFactory he hf hs' hname (by simp [hasFactory_eq, hmake])) _
        | some make =>
          rw [answer_of_new he hs hf hname hmake]
          exact .made he hs hf hname hmake rfl

/-- A directory does nothing else. -/
theorem answer_answered (d : Directory κ) (w : Caches κ υ) (t : ThreadId) (r : DirectoryRequest κ υ) :
    d.Answered w t r (d.answer w t r).1 (d.answer w t r).2.1 (d.answer w t r).2.2.1 (d.answer w t r).2.2.2 := by
  cases r with
  | registerFactory name make =>
    by_cases hname : name = ""
    · subst hname
      exact .refused (.unnamedFactory make) w.log
    · cases h : d.factory? name with
      | none =>
        have hnot : d.hasFactory name = false := by rw [hasFactory_eq, h]; rfl
        simp only [answer, registerFactory, String.isEmpty_iff, hname, hnot, Bool.false_eq_true, if_false]
        exact .registered hname h
      | some old =>
        have hhas : d.hasFactory name = true := by rw [hasFactory_eq, h]; rfl
        simp only [answer, registerFactory, String.isEmpty_iff, hname, hhas, if_true, if_false]
        exact .refused (.takenName make hname hhas) _
  | removeFactory name =>
    by_cases hname : name = d.defaultFactory
    · subst hname
      simp only [answer, removeFactory, if_true]
      exact .refused .defaultFactory _
    · cases h : d.factory? name with
      | none =>
        simp only [answer, removeFactory, hname, h, if_false]
        exact .notRemoved h
      | some old =>
        simp only [answer, removeFactory, hname, h, if_false]
        exact .removed hname h
  | replaceFactory name make =>
    cases h : d.factory? name with
    | none =>
      simp only [answer, replaceFactory, h]
      exact .notReplaced h
    | some old =>
      simp only [answer, replaceFactory, h]
      exact .replaced h
  | dropSpace space =>
    by_cases h : d.hasSpace space
    · simp only [answer, dropSpace, h, if_true]
      exact .dropped h
    · simp only [answer, dropSpace, h, if_false, Bool.false_eq_true]
      exact .notDropped h
  | defaultFactory => exact .inquiry .defaultFactory (by simp [answer])
  | defaultSpace => exact .inquiry .defaultSpace (by simp [answer])
  | hasFactory name => exact .inquiry (.hasFactory name) (by simp [answer])
  | factoryNames => exact .inquiry .factoryNames (by simp [answer])
  | factory name => exact .inquiry (.factory name) (by simp [answer])
  | hasSpace space => exact .inquiry (.hasSpace space) (by simp [answer])
  | spaceNames => exact .inquiry .spaceNames (by simp [answer])
  | ensureSpace | ensureDefault | cache | clear | clearDefault | get | getDefault | put | putDefault | putIfAbsent
  | putDefaultIfAbsent | remove | removeDefault => exact answer_answered_of_errand? rfl w t

end Directory

end Caching
