import Caching.Proofs.Caches.Apart
import Caching.Proofs.Directory.Run

/-!
# Spaces do not interfere

What a directory answers about one space depends on the turns that concern the space: the requests addressed to it, the
requests about the factories and the exits of threads.  Left out the others, a run goes on beside the whole one with
tables and instances that look alike at the space (`Separated`), and so two runs that have these turns in common are
answered alike there (`spaces_do_not_interfere`).
-/

namespace Caching

variable {κ υ : Type}

/-- What a request is about. -/
inductive Scope where
  | factories
  | space (name : String)
  | allSpaces
  deriving DecidableEq

/-- What is seen of what a request hands over: of an instance, what it replies to requests of any threads. -/
inductive Shown (κ υ : Type) where
  | nothing
  | contents (replies : List (ThreadId × Request κ υ) → List (Reply κ υ))
  | factory (f : Factory κ)

namespace Directory

/-- The requests without the name of a space are about the default one. -/
def scope (d : Directory κ) : DirectoryRequest κ υ → Scope
  | .defaultFactory | .defaultSpace | .registerFactory .. | .hasFactory _ | .factoryNames | .removeFactory _
  | .factory _ | .replaceFactory .. => .factories
  | .ensureSpace space _ | .cache space | .hasSpace space | .dropSpace space | .clear space | .get space _
  | .put space .. | .putIfAbsent space .. | .remove space _ => .space space
  | .ensureDefault | .clearDefault | .getDefault _ | .putDefault .. | .putDefaultIfAbsent .. | .removeDefault _ =>
    .space d.defaultSpace
  | .spaceNames => .allSpaces

variable [BEq κ] [Hashable κ]

/-- Whether a turn has to do with a space. -/
def Turn.concerns (d : Directory κ) (space : String) : Turn κ υ → Bool
  | .request r => d.scope r = .factories ∨ d.scope r = .space space
  | .exit => true
  | .beside _ => false

/-- Nothing is done beside the directory but dropping what is not in use, and the factories that are entered make what
they hand out anew. -/
def Turn.Regular : Turn κ υ → Prop
  | .request r => ∀ f, r.entered? = some f → f.references = []
  | .exit | .beside (.drop _) => True
  | .beside _ => False

def shown (w : Caches κ υ) : Option (Product κ) → Shown κ υ
  | none => .nothing
  | some (.cache i) => .contents fun requests => (answers (fun w q => w.answer q.1 i q.2) w requests).1
  | some (.factory f) => .factory f

/-- A turn with what is seen of it. -/
def seen (a : Directory κ × Caches κ υ) (step : ThreadId × Turn κ υ) :
    (Reply κ υ × Shown κ υ) × (Directory κ × Caches κ υ) :=
  let (result, b) := turn a step
  ((result.1, shown b.2 result.2), b)

/-- What is seen in a run at the turns that have to do with a space. -/
def seenAt (d : Directory κ) (w : Caches κ υ) (space : String) (steps : List (ThreadId × Turn κ υ)) :
    List (Reply κ υ × Shown κ υ) :=
  (steps.zip (answers seen (d, w) steps).1).filterMap fun (step, result) =>
    if step.2.concerns d space then some result else none

variable {d : Directory κ} {w w' : Caches κ υ} {t : ThreadId} {r : DirectoryRequest κ υ} {e : Errand κ υ}
  {space : String} {a b : Directory κ × Caches κ υ} {R : CacheId → CacheId → Prop} {zone : CacheId → Caches.Zone}

/-! ### Scopes -/

omit [BEq κ] [Hashable κ] in
private theorem scope_of_errand? (he : d.errand? r = some e) : d.scope r = .space e.space := by
  cases r <;> cases he <;> rfl

omit [BEq κ] [Hashable κ] in
private theorem of_scope_space (h : d.scope r = .space space) :
    r = .hasSpace space ∨ r = .dropSpace space ∨ ∃ e, d.errand? r = some e ∧ e.space = space := by
  cases r <;> cases h <;> first | exact Or.inl rfl | exact Or.inr (Or.inl rfl) | exact Or.inr (Or.inr ⟨_, rfl, rfl⟩)

/-- What is about the factories does not depend on the spaces, and changes nothing of the caches but the log. -/
private theorem answer_of_factories (h : d.scope r = .factories) (w₀ w : Caches κ υ) (t : ThreadId)
    (spaces : Std.HashMap String CacheId) : ∃ log, { d with spaces }.answer w t r =
      ((d.answer w₀ t r).1, (d.answer w₀ t r).2.1, { d with factories := (d.answer w₀ t r).2.2.1.factories, spaces },
        { w with log }) := by
  refine ⟨({ d with spaces }.answer w t r).2.2.2.log, ?_⟩
  cases r with
  | registerFactory name make =>
    have hsame : { d with spaces }.hasFactory name = d.hasFactory name := rfl
    simp only [answer, registerFactory, hsame]
    by_cases hname : name.isEmpty
    · simp only [if_pos hname]
    · cases htaken : d.hasFactory name <;> simp only [if_neg hname, if_true, if_false, Bool.false_eq_true] <;> rfl
  | removeFactory name =>
    simp only [answer, removeFactory, factory?]
    split_ifs
    · rfl
    · cases d.factories[name]? <;> rfl
  | replaceFactory name make =>
    simp only [answer, replaceFactory, factory?]
    cases d.factories[name]? <;> rfl
  | defaultFactory | defaultSpace | hasFactory | factoryNames | factory => rfl
  | ensureSpace | ensureDefault | cache | hasSpace | spaceNames | dropSpace | clear | clearDefault | get | getDefault
  | put | putDefault | putIfAbsent | putDefaultIfAbsent | remove | removeDefault => cases h

/-- Nothing is handed over then but a factory. -/
private theorem shown_of_factories (h : d.scope r = .factories) (w₀ w w' : Caches κ υ) (t : ThreadId) :
    shown w (d.answer w₀ t r).2.1 = shown w' (d.answer w₀ t r).2.1 := by
  cases r with
  | registerFactory | defaultFactory | defaultSpace | hasFactory | factoryNames => rfl
  | removeFactory name =>
    simp only [answer, removeFactory, factory?]
    split_ifs
    · rfl
    · cases d.factories[name]? <;> rfl
  | replaceFactory name make =>
    simp only [answer, replaceFactory, factory?]
    cases d.factories[name]? <;> rfl
  | factory name =>
    simp only [answer, factory?]
    cases d.factories[name]? <;> rfl
  | ensureSpace | ensureDefault | cache | hasSpace | spaceNames | dropSpace | clear | clearDefault | get | getDefault
  | put | putDefault | putIfAbsent | putDefaultIfAbsent | remove | removeDefault => cases h

/-! ### Errands on two sides -/

/-- An errand at instances that look alike is answered alike, and what is handed over is shown alike. -/
private theorem done_inside (h : w.Apart w' R zone) (hnew : ∀ x, w.instances.size ≤ x → zone x = .inside 0)
    {i i' : CacheId} (hi : R i i') (e : Errand κ υ) (t : ThreadId) :
    (e.done w t i).1 = (e.done w' t i').1 ∧
      shown (e.done w t i).2.2 (e.done w t i).2.1 = shown (e.done w' t i').2.2 (e.done w' t i').2.1 ∧
      ∃ R₁, Caches.Grown w w' R R₁ ∧ (e.done w t i).2.2.Apart (e.done w' t i').2.2 R₁ zone := by
  rw [Errand.done, Errand.done]
  split
  · have hprobe := fun requests => h.alike.answers h.left.ranked h.right.ranked hi requests
    exact ⟨rfl, congrArg Shown.contents (funext hprobe), R, .refl w w' R, h⟩
  · next q _ =>
    obtain ⟨hreply, hafter⟩ := h.answer_inside hnew hi t q
    exact ⟨hreply, rfl, hafter⟩

private theorem done_outside (h : w.Apart w' R zone) (hnew : ∀ x, w.instances.size ≤ x → zone x = .outside)
    {i : CacheId} (hi : zone i = .outside) (e : Errand κ υ) (t : ThreadId) : (e.done w t i).2.2.Apart w' R zone := by
  rw [Errand.done]
  split
  · exact h
  · exact h.answer_outside hnew hi t _

private theorem size_le_done (e : Errand κ υ) (w : Caches κ υ) (t : ThreadId) (i : CacheId) :
    w.instances.size ≤ (e.done w t i).2.2.instances.size := by
  rw [Errand.done]
  split
  · exact Nat.le_refl _
  · next q _ => exact (w.answer_works_true t i q).size_le

/-! ### A run and what concerns a space in it -/

/-- At the space everything looks alike, and on the left everything else lies outside. -/
structure Separated (space : String) (a b : Directory κ × Caches κ υ) (R : CacheId → CacheId → Prop)
    (zone : CacheId → Caches.Zone) : Prop where
  caches : a.2.Apart b.2 R zone
  tables : b.1 = { a.1 with spaces := b.1.spaces }
  fresh : ∀ name f, a.1.factory? name = some f → f.references = []
  related : Option.Rel R (a.1.space? space) (b.1.space? space)
  others : ∀ other i, other ≠ space → a.1.space? other = some i → zone i = .outside ∧ i < a.2.instances.size

namespace Separated

private theorem of_some (h : Separated space a b R zone) {i : CacheId} (hi : a.1.space? space = some i) :
    ∃ i', b.1.space? space = some i' ∧ R i i' := by
  have hrel := h.related
  rw [hi] at hrel
  cases hb : b.1.space? space with
  | none =>
    rw [hb] at hrel
    cases hrel
  | some i' =>
    rw [hb] at hrel
    cases hrel with
    | some hii' => exact ⟨i', rfl, hii'⟩

private theorem of_none (h : Separated space a b R zone) (hnone : a.1.space? space = none) :
    b.1.space? space = none := by
  have hrel := h.related
  rw [hnone] at hrel
  cases hb : b.1.space? space with
  | none => rfl
  | some i' =>
    rw [hb] at hrel
    cases hrel

private theorem hasSpace_eq (h : Separated space a b R zone) : b.1.hasSpace space = a.1.hasSpace space := by
  rw [Directory.hasSpace_eq, Directory.hasSpace_eq]
  cases ha : a.1.space? space with
  | none => rw [h.of_none ha]
  | some i =>
    obtain ⟨i', hb, -⟩ := h.of_some ha
    rw [hb]
    rfl

private theorem factory?_eq (h : Separated space a b R zone) : b.1.factory? = a.1.factory? := by
  rw [h.tables]
  rfl

private theorem errand?_eq (h : Separated space a b R zone) (r : DirectoryRequest κ υ) :
    b.1.errand? r = a.1.errand? r := by
  rw [h.tables]
  exact errand?_congr ⟨rfl, rfl⟩ r

/-- An errand at the instance of the space. -/
private theorem errand_of_space (h : Separated space a b R zone) (he : a.1.errand? r = some e) (hs : e.space = space)
    {i : CacheId} (ha : a.1.space? space = some i) (t : ThreadId) :
    (seen a (t, .request r)).1 = (seen b (t, .request r)).1 ∧
      ∃ R₁ zone₁, Separated space (seen a (t, .request r)).2 (seen b (t, .request r)).2 R₁ zone₁ := by
  subst hs
  obtain ⟨i', hb, hi⟩ := h.of_some ha
  obtain ⟨zone₁, hapart, hold, hnew⟩ := h.caches.reserve (z := .inside 0) (by simp)
  obtain ⟨hreply, hshown, R₁, hgrown, hapart₁⟩ := done_inside hapart hnew hi e t
  simp only [seen, turn]
  rw [answer_of_space he ha, answer_of_space ((h.errand?_eq r).trans he) hb]
  refine ⟨Prod.ext hreply hshown, R₁, zone₁, hapart₁, h.tables, h.fresh, ?_, fun other j hne hj => ?_⟩
  · dsimp only
    rw [ha, hb]
    exact .some (hgrown.old i i' hi)
  · obtain ⟨hout, hlt⟩ := h.others other j hne hj
    exact ⟨(hold j hlt).trans hout, Nat.lt_of_lt_of_le hlt (size_le_done e a.2 t i)⟩

/-- An errand that makes the space. -/
private theorem errand_of_new (h : Separated space a b R zone) (he : a.1.errand? r = some e) (hs : e.space = space)
    (ha : a.1.space? space = none) {name : String} {make : Factory κ} (hf : e.factory? = some name)
    (hname : e.space ≠ "") (hmake : a.1.factory? name = some make) (t : ThreadId) :
    (seen a (t, .request r)).1 = (seen b (t, .request r)).1 ∧
      ∃ R₁ zone₁, Separated space (seen a (t, .request r)).2 (seen b (t, .request r)).2 R₁ zone₁ := by
  subst hs
  have hmake' : b.1.factory? name = some make := by rw [h.factory?_eq, hmake]
  obtain ⟨zone₁, hapart, hold, hnew⟩ := h.caches.reserve (z := .inside 0) (by simp)
  obtain ⟨R₁, hgrown, hapart₁, hi⟩ := hapart.make_inside hnew (h.fresh name make hmake)
  have hle := (Caches.make_makes a.2 make).extends_old.size_le
  have hlogged : ((a.2.make make).2.emit (.spaceCreated e.space name)).Apart
      ((b.2.make make).2.emit (.spaceCreated e.space name)) R₁ zone₁ := hapart₁.relog _ _
  obtain ⟨hreply, hshown, R₂, hgrown₂, hapart₂⟩ :=
    done_inside hlogged (fun x hx => hnew x (Nat.le_trans hle hx)) hi e t
  have htables := congrArg (fun d => { d with spaces := b.1.spaces.insert e.space (b.2.make make).1 }) h.tables
  simp only [seen, turn]
  rw [answer_of_new he ha hf hname hmake, answer_of_new ((h.errand?_eq r).trans he) (h.of_none ha) hf hname hmake']
  refine ⟨Prod.ext hreply hshown, R₂, zone₁, hapart₂, htables, h.fresh, ?_, fun other j hne hj => ?_⟩
  · dsimp only
    rw [space?_insert, space?_insert, if_pos rfl, if_pos rfl]
    exact .some (hgrown₂.old _ _ hi)
  · dsimp only at hj
    rw [space?_insert, if_neg (Ne.symm hne)] at hj
    obtain ⟨hout, hlt⟩ := h.others other j hne hj
    refine ⟨(hold j hlt).trans hout, Nat.lt_of_lt_of_le hlt (Nat.le_trans hle ?_)⟩
    exact size_le_done e ((a.2.make make).2.emit _) t _

private theorem errand (h : Separated space a b R zone) (he : a.1.errand? r = some e) (hs : e.space = space)
    (t : ThreadId) : (seen a (t, .request r)).1 = (seen b (t, .request r)).1 ∧
      ∃ R₁ zone₁, Separated space (seen a (t, .request r)).2 (seen b (t, .request r)).2 R₁ zone₁ := by
  cases ha : a.1.space? space with
  | some i => exact h.errand_of_space he hs ha t
  | none =>
    subst hs
    have he' := (h.errand?_eq r).trans he
    have hb := h.of_none ha
    simp only [seen, turn]
    cases hf : e.factory? with
    | none =>
      rw [answer_of_missing he ha hf, answer_of_missing he' hb hf]
      exact ⟨rfl, R, zone, h⟩
    | some name =>
      by_cases hname : e.space = ""
      · rw [answer_of_unnamed he ha hf hname, answer_of_unnamed he' hb hf hname]
        exact ⟨rfl, R, zone, h⟩
      · cases hmake : a.1.factory? name with
        | none =>
          have hmake' : b.1.factory? name = none := by rw [h.factory?_eq, hmake]
          rw [answer_of_unknown he ha hf hname hmake, answer_of_unknown he' hb hf hname hmake']
          exact ⟨rfl, R, zone, h.caches.relog .., h.tables, h.fresh, h.related, h.others⟩
        | some make => exact h.errand_of_new he rfl ha hf hname hmake t

/-- A request about the factories. -/
private theorem request_of_factories (h : Separated space a b R zone) (hr : a.1.scope r = .factories)
    (hregular : (Turn.request r).Regular) (t : ThreadId) :
    (seen a (t, .request r)).1 = (seen b (t, .request r)).1 ∧
      Separated space (seen a (t, .request r)).2 (seen b (t, .request r)).2 R zone := by
  obtain ⟨log, hleft⟩ := answer_of_factories hr .empty a.2 t a.1.spaces
  obtain ⟨log', hright⟩ := answer_of_factories hr .empty b.2 t b.1.spaces
  change a.1.answer a.2 t r = _ at hleft
  rw [← h.tables] at hright
  simp only [seen, turn]
  rw [hleft, hright]
  refine ⟨Prod.ext rfl (shown_of_factories hr .empty _ _ t), h.caches.relog log log', rfl, fun name f hf => ?_,
    h.related, h.others⟩
  exact ((answer_answered a.1 .empty t r).factory? hf).elim (h.fresh name f) (hregular f)

private theorem dropSpace (h : Separated space a b R zone) (t : ThreadId) :
    let step := (t, .request (.dropSpace space))
    (seen a step).1 = (seen b step).1 ∧ Separated space (seen a step).2 (seen b step).2 R zone := by
  simp only [seen, turn, answer, Directory.dropSpace, h.hasSpace_eq]
  by_cases hhas : a.1.hasSpace space
  · simp only [if_pos hhas]
    refine ⟨rfl, h.caches.relog .., congrArg (fun d => { d with spaces := b.1.spaces.erase space }) h.tables, h.fresh,
      ?_, fun other i hne hi => ?_⟩
    · dsimp only
      rw [space?_erase, space?_erase, if_pos rfl, if_pos rfl]
      exact .none
    · dsimp only at hi
      rw [space?_erase, if_neg (Ne.symm hne)] at hi
      exact h.others other i hne hi
  · simp only [if_neg hhas]
    exact ⟨rfl, h⟩

/-- A turn that concerns the space is seen alike on both sides. -/
private theorem both (h : Separated space a b R zone) {turn : Turn κ υ} (hturn : turn.concerns a.1 space)
    (hregular : turn.Regular) (t : ThreadId) : (seen a (t, turn)).1 = (seen b (t, turn)).1 ∧
      ∃ R₁ zone₁, Separated space (seen a (t, turn)).2 (seen b (t, turn)).2 R₁ zone₁ := by
  cases turn with
  | beside action => cases hturn
  | exit =>
    refine ⟨rfl, R, zone, h.caches.exit t, h.tables, h.fresh, h.related, fun other i hne hi => ?_⟩
    obtain ⟨hout, hlt⟩ := h.others other i hne hi
    exact ⟨hout, (Caches.shrinks_exit a.2 t).size_eq ▸ hlt⟩
  | request r =>
    rcases of_decide_eq_true hturn with hr | hr
    · obtain ⟨hsame, hafter⟩ := h.request_of_factories hr hregular t
      exact ⟨hsame, R, zone, hafter⟩
    · rcases of_scope_space hr with rfl | rfl | ⟨e, he, hs⟩
      · refine ⟨?_, R, zone, h⟩
        simp only [seen, turn, answer, h.hasSpace_eq, shown]
      · obtain ⟨hsame, hafter⟩ := h.dropSpace t
        exact ⟨hsame, R, zone, hafter⟩
      · exact h.errand he hs t

/-- Another space is made, and an errand done there. -/
private theorem made_elsewhere (h : Separated space a b R zone) (hne : e.space ≠ space) {name : String}
    {make : Factory κ} (hmake : a.1.factory? name = some make) (t : ThreadId) :
    let result := e.done ((a.2.make make).2.emit (.spaceCreated e.space name)) t (a.2.make make).1
    ∃ R₁ zone₁, Separated space
      ({ a.1 with spaces := a.1.spaces.insert e.space (a.2.make make).1 }, result.2.2) b R₁ zone₁ := by
  intro result
  have hfresh := h.fresh name make hmake
  have hm := Caches.make_makes a.2 make
  have hle := hm.extends_old.size_le
  have hlt := (hm.new hfresh).2
  have hsize := size_le_done e ((a.2.make make).2.emit (.spaceCreated e.space name)) t (a.2.make make).1
  obtain ⟨zone₁, hapart, hold, hnew⟩ := h.caches.reserve (z := .outside) (by simp)
  obtain ⟨hapart₁, hout⟩ := hapart.make_outside hnew hfresh
  have hlogged : ((a.2.make make).2.emit (.spaceCreated e.space name)).Apart b.2 R zone₁ := hapart₁.relog _ b.2.log
  refine ⟨R, zone₁, done_outside hlogged (fun x hx => hnew x (Nat.le_trans hle hx)) hout e t, h.tables, h.fresh, ?_,
    fun other j hne' hj => ?_⟩
  · dsimp only
    rw [space?_insert, if_neg hne]
    exact h.related
  · dsimp only at hj
    rw [space?_insert] at hj
    split at hj
    · obtain rfl := Option.some.inj hj
      exact ⟨hout, Nat.lt_of_lt_of_le hlt hsize⟩
    · obtain ⟨hout', hlt'⟩ := h.others other j hne' hj
      exact ⟨(hold j hlt').trans hout', Nat.lt_of_lt_of_le hlt' (Nat.le_trans hle hsize)⟩

/-- A request that is about other spaces leaves alike what is alike. -/
private theorem request_elsewhere (h : Separated space a b R zone) (hfactories : a.1.scope r ≠ .factories)
    (hspace : a.1.scope r ≠ .space space) {reply : Reply κ υ} {product? : Option (Product κ)} {d' : Directory κ}
    {w' : Caches κ υ} (ha : a.1.Answered a.2 t r reply product? d' w') :
    ∃ R₁ zone₁, Separated space (d', w') b R₁ zone₁ := by
  have hne : ∀ {e : Errand κ υ}, a.1.errand? r = some e → e.space ≠ space :=
    fun he hs => hspace (hs ▸ scope_of_errand? he)
  cases ha with
  | @done _ e i he hi =>
    obtain ⟨zone₁, hapart, hold, hnew⟩ := h.caches.reserve (z := .outside) (by simp)
    obtain ⟨hout, hlt⟩ := h.others _ _ (hne he) hi
    refine ⟨R, zone₁, done_outside hapart hnew ((hold i hlt).trans hout) e t, h.tables, h.fresh, h.related,
      fun other j hne' hj => ?_⟩
    obtain ⟨hout', hlt'⟩ := h.others other j hne' hj
    exact ⟨(hold j hlt').trans hout', Nat.lt_of_lt_of_le hlt' (size_le_done e a.2 t i)⟩
  | made he hs hf hname hmake hi =>
    obtain ⟨rfl, rfl⟩ := Prod.ext_iff.1 hi
    exact h.made_elsewhere (hne he) hmake t
  | refused hrefuses log => exact ⟨R, zone, h.caches.relog log b.2.log, h.tables, h.fresh, h.related, h.others⟩
  | @dropped other hother =>
    have hother : other ≠ space := fun hs => hspace (hs ▸ rfl)
    refine ⟨R, zone, h.caches.relog _ b.2.log, h.tables, h.fresh, ?_, fun other' j hne' hj => ?_⟩
    · dsimp only
      rw [space?_erase, if_neg hother]
      exact h.related
    · dsimp only at hj
      rw [space?_erase] at hj
      split at hj
      · cases hj
      · exact h.others other' j hne' hj
  | passedOver | notDropped | inquiry => exact ⟨R, zone, h⟩
  | registered | removed | notRemoved | replaced | notReplaced => exact absurd rfl hfactories

/-- Any other turn leaves alike what is alike. -/
private theorem left (h : Separated space a b R zone) {turn : Turn κ υ} (hturn : ¬ turn.concerns a.1 space)
    (hregular : turn.Regular) (t : ThreadId) : ∃ R₁ zone₁, Separated space (seen a (t, turn)).2 b R₁ zone₁ := by
  cases turn with
  | exit => exact absurd rfl hturn
  | beside action =>
    cases action with
    | drop roots =>
      refine ⟨_, zone, h.caches.dropUnreachable (a.1.references ++ roots), h.tables, h.fresh, ?_,
        fun other i hne hi => ?_⟩
      · change Option.Rel _ (a.1.space? space) (b.1.space? space)
        cases ha : a.1.space? space with
        | none =>
          rw [h.of_none ha]
          exact .none
        | some i =>
          obtain ⟨i', hb, hi⟩ := h.of_some ha
          rw [hb]
          have hroot := List.mem_append_left roots (mem_references_of_space? ha)
          exact .some ⟨hi, Caches.mem_reachable_of_mem hroot⟩
      · obtain ⟨hout, hlt⟩ := h.others other i hne hi
        exact ⟨hout, hlt.trans_eq (Caches.size_dropUnreachable a.2 _).symm⟩
    | make | request | isBound | detach | beginExit | finishExit => cases hregular
  | request r =>
    obtain ⟨hfactories, hspace⟩ := not_or.1 fun hr => hturn (decide_eq_true hr)
    exact h.request_elsewhere hfactories hspace (answer_answered a.1 a.2 t r)

omit [BEq κ] [Hashable κ] in
private theorem concerns_congr {d₀ : Directory κ} (h : d.defaultSpace = d₀.defaultSpace) (turn : Turn κ υ) :
    turn.concerns d space = turn.concerns d₀ space := by
  cases turn with
  | request r =>
    have hscope : d.scope r = d₀.scope r := by cases r <;> simp only [scope, h]
    rw [Turn.concerns, Turn.concerns, hscope]
  | exit | beside => rfl

end Separated

/-! ### Runs -/

/-- At the turns that concern a space a run is seen as if there were no others. -/
private theorem Separated.seenAt_eq {d₀ : Directory κ} (h : Separated space a b R zone)
    (hnames : a.1.defaultSpace = d₀.defaultSpace) {steps : List (ThreadId × Turn κ υ)}
    (hsteps : ∀ step ∈ steps, step.2.Regular) :
    (steps.zip (answers seen a steps).1).filterMap (fun (step, result) =>
      if step.2.concerns d₀ space then some result else none) =
        (answers seen b (steps.filter (·.2.concerns d₀ space))).1 := by
  induction steps generalizing a b R zone with
  | nil => rfl
  | cons step steps ih =>
    obtain ⟨t, turn⟩ := step
    have hregular := hsteps _ List.mem_cons_self
    have hsteps' := fun step hstep => hsteps step (List.mem_cons_of_mem _ hstep)
    have hnames' : (seen a (t, turn)).2.1.defaultSpace = d₀.defaultSpace :=
      (a.1.default_after a.2 [(t, turn)]).2.trans hnames
    rw [answers_cons, List.zip_cons_cons, List.filterMap_cons, List.filter_cons]
    by_cases hturn : turn.concerns d₀ space
    · obtain ⟨hsame, R₁, zone₁, h₁⟩ := h.both (concerns_congr hnames turn ▸ hturn) hregular t
      simp only [hturn, if_true, answers_cons]
      rw [ih h₁ hnames' hsteps', hsame]
    · obtain ⟨R₁, zone₁, h₁⟩ := h.left (concerns_congr hnames turn ▸ hturn) hregular t
      simp only [hturn, if_false, Bool.false_eq_true]
      exact ih h₁ hnames' hsteps'

/-- Before anything was done about any space, everything looks alike. -/
private theorem separated_start (hw : w.Sound) (hfresh : ∀ name f, d.factory? name = some f → f.references = [])
    (hspaces : ∀ space, d.space? space = none) (space : String) :
    Separated space (d, w) (d, w) (fun _ _ => False) (fun _ => .outside) where
  caches :=
    { left := hw
      right := hw
      alike := ⟨fun _ _ h => h.elim, fun _ _ _ _ h => h.elim, fun _ => Iff.rfl⟩
      zoned := fun _ _ _ _ _ _ => rfl
      inside := fun _ _ h => h.elim
      no_root := by simp }
  tables := rfl
  fresh := hfresh
  related := by
    rw [hspaces]
    exact .none
  others other i _ hi := by cases (hspaces other).symm.trans hi

omit [BEq κ] [Hashable κ] in
/-- The factories that a directory can be set up with make anew what they hand out. -/
private theorem references_builtinFactories [Hashable κ] (sizing : Sizing) {name : String} {f : Factory κ}
    (h : (name, f) ∈ builtinFactories sizing) : f.references = [] := by
  simp only [builtinFactories, List.mem_cons, Prod.mk.injEq, List.not_mem_nil, or_false] at h
  rcases h with ⟨-, rfl⟩ | ⟨-, rfl⟩ | ⟨-, rfl⟩ | ⟨-, rfl⟩ | ⟨-, rfl⟩ | ⟨-, rfl⟩ | ⟨-, rfl⟩ | ⟨-, rfl⟩ <;> rfl

private theorem SetUp.sound {w₀ : Caches κ υ} (h : SetUp w₀ d w) (hw : w₀.Sound) : w.Sound := by
  have hlog : ∃ log, w = { w₀ with log } := by
    cases h with
    | @create name make _ _ h =>
      rw [Directory.create] at h
      split at h
      · cases h
      · cases h
        exact ⟨_, rfl⟩
    | builtin sizing => exact ⟨_, rfl⟩
  obtain ⟨log, rfl⟩ := hlog
  exact ⟨hw.ranked, hw.bound, hw.nodup⟩

/-- Factories are taken to make the same kind of cache at every call, as every `Factory` does. (With one whose product
depends on its earlier calls, of whatever space, the spaces would interfere; it cannot be expressed.) Then after any
run of the caches: -/
theorem spaces_do_not_interfere (before : List (ThreadId × Caches.Action κ υ)) :
    let w₀ := (Caches.empty : Caches κ υ).after before
    -- let a directory be set up whose factories make anew what they hand out, and let two runs of it have the same
    -- turns that concern a space: requests about the factories or addressed to the space, and exits; then the same is
    -- seen at these turns in both runs, whatever else is done and dropped in between
    (∀ d w, SetUp w₀ d w → (∀ name f, d.factory? name = some f → f.references = []) →
      ∀ space (steps steps' : List (ThreadId × Turn κ υ)), (∀ step ∈ steps, step.2.Regular) →
        (∀ step ∈ steps', step.2.Regular) →
        steps.filter (·.2.concerns d space) = steps'.filter (·.2.concerns d space) →
          seenAt d w space steps = seenAt d w space steps') ∧
    -- and the built-in factories are such factories
    ∀ sizing name f, (builtin w₀ sizing).1.factory? name = some f → f.references = [] := by
  intro w₀
  refine ⟨fun d w hd hfresh space steps steps' hsteps hsteps' hsame => ?_, fun sizing name f hf => ?_⟩
  · have hw : w.Sound := hd.sound (Caches.sound_empty.after before)
    have hstart := separated_start hw hfresh hd.space? space
    calc
      seenAt d w space steps = (answers seen (d, w) (steps.filter (·.2.concerns d space))).1 :=
        hstart.seenAt_eq rfl hsteps
      _ = (answers seen (d, w) (steps'.filter (·.2.concerns d space))).1 := by rw [hsame]
      _ = seenAt d w space steps' := (hstart.seenAt_eq rfl hsteps').symm
  · exact references_builtinFactories sizing ((factory?_builtin ..).1 hf)

/-- A space of thread-local caches, and another one that is made, dropped and not made again beside it. -/
theorem space_beside_another :
    let start := builtin (.empty : Caches Nat Nat) {}
    let steps : List (ThreadId × Turn Nat Nat) :=
      [(0, .request (.put "a" "thread-local-lru" 5 7)), (1, .request (.put "b" "thread-local-lru" 5 9)),
        (0, .request (.dropSpace "b")), (0, .beside (.drop [])), (1, .request (.put "b" "nowhere" 6 8)), (1, .exit),
        (0, .request (.ensureSpace "a" "lru"))]
    seenAt start.1 start.2 "a" steps = seenAt start.1 start.2 "a"
      [(0, .request (.put "a" "thread-local-lru" 5 7)), (1, .exit), (0, .request (.ensureSpace "a" "lru"))] := by
  intro start steps
  obtain ⟨hsame, hbuiltin⟩ := spaces_do_not_interfere (κ := Nat) (υ := Nat) []
  refine hsame start.1 start.2 (.builtin {}) (hbuiltin {}) "a" steps _ ?_ ?_ ?_
  · simp [steps, Turn.Regular, DirectoryRequest.entered?]
  · simp [Turn.Regular, DirectoryRequest.entered?]
  · simp [steps, Turn.concerns, scope]

end Directory

end Caching
