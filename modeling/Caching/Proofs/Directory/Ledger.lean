import Caching.Proofs.Caches.Calls
import Caching.Proofs.Directory.Refusal

/-!
# One instance for each space

The requests and their replies say which factory a name stands for, which spaces there are and which factories were
called to make them: this is the `Ledger` of a run.  The directory agrees with it at all times, calls no factory
otherwise, and once it has made a space it comes back to the instance that the one call has handed out, whatever becomes
of the factories, until the space is dropped (`one_instance_for_each_space`).
-/

namespace Caching

variable {κ υ : Type}

namespace Directory

/-- What requests and replies say. -/
structure Ledger (κ : Type) where
  /-- The factory that was last entered under a name, unless it was taken out since. -/
  factories : String → Option (Factory κ)
  /-- The spaces that were made and not dropped since. -/
  spaces : String → Bool
  /-- The spaces that were made, and the factories called to make them, the last one last. -/
  calls : List (String × Factory κ) := []

namespace Ledger

/-- The space that a request has made if it was answered like this, and the factory for it. -/
def made? (d : Directory κ) (l : Ledger κ) (r : DirectoryRequest κ υ) : Reply κ υ → Option (String × Factory κ)
  | .fault _ => none
  | _ => do
    let e ← d.errand? r
    let make ← e.factory?.bind l.factories
    if l.spaces e.space then none else some (e.space, make)

/-- What a reply says of the tables if nothing was made. -/
def amend (l : Ledger κ) : DirectoryRequest κ υ → Reply κ υ → Ledger κ
  | .registerFactory name make, .done | .replaceFactory name make, .flag true =>
    { l with factories := Function.update l.factories name (some make) }
  | .removeFactory name, .flag true => { l with factories := Function.update l.factories name none }
  | .dropSpace space, .flag true => { l with spaces := Function.update l.spaces space false }
  | _, _ => l

def enter (d : Directory κ) (l : Ledger κ) (r : DirectoryRequest κ υ) (reply : Reply κ υ) : Ledger κ :=
  match l.made? d r reply with
  | some (space, make) =>
    { l with spaces := Function.update l.spaces space true, calls := l.calls ++ [(space, make)] }
  | none => l.amend r reply

/-- Nothing is entered but requests. -/
def enterTurn (d : Directory κ) (l : Ledger κ) :
    (ThreadId × Turn κ υ) × (Reply κ υ × Option (Product κ)) → Ledger κ
  | ((_, .request r), (reply, _)) => l.enter d r reply
  | _ => l

/-- How often the calls are counted under a name. -/
def tally (l : Ledger κ) (counter : String) : Nat := (l.calls.map (·.2.tally counter)).sum

end Ledger

variable [BEq κ] [Hashable κ] {d₀ d d' : Directory κ} {w₀ w w' : Caches κ υ} {l : Ledger κ} {t : ThreadId} {i : CacheId}
  {r : DirectoryRequest κ υ} {e : Errand κ υ} {reply : Reply κ υ} {product? : Option (Product κ)} {space name : String}
  {make : Factory κ} {counter : String}

/-- The ledger of a run from the tables that are there. -/
def ledger (d : Directory κ) (w : Caches κ υ) (steps : List (ThreadId × Turn κ υ)) : Ledger κ :=
  (steps.zip (answers turn (d, w) steps).1).foldl (.enterTurn d) { factories := d.factory?, spaces := d.hasSpace }

/-! ### Tables with another entry -/

omit [BEq κ] [Hashable κ] in
private theorem factory?_insert_eq (d : Directory κ) (name : String) (make : Factory κ) :
    { d with factories := d.factories.insert name make }.factory? = Function.update d.factory? name (some make) := by
  funext other
  rw [factory?_insert, Function.update_apply]
  simp only [eq_comm]

omit [BEq κ] [Hashable κ] in
private theorem factory?_erase_eq (d : Directory κ) (name : String) :
    { d with factories := d.factories.erase name }.factory? = Function.update d.factory? name none := by
  funext other
  rw [factory?_erase, Function.update_apply]
  simp only [eq_comm]

omit [BEq κ] [Hashable κ] in
private theorem hasSpace_insert (d : Directory κ) (space : String) (i : CacheId) :
    { d with spaces := d.spaces.insert space i }.hasSpace = Function.update d.hasSpace space true := by
  funext other
  rw [hasSpace_eq, space?_insert, Function.update_apply, hasSpace_eq]
  by_cases hs : other = space
  · simp [hs]
  · simp [hs, Ne.symm hs]

omit [BEq κ] [Hashable κ] in
private theorem hasSpace_erase (d : Directory κ) (space : String) :
    { d with spaces := d.spaces.erase space }.hasSpace = Function.update d.hasSpace space false := by
  funext other
  rw [hasSpace_eq, space?_erase, Function.update_apply, hasSpace_eq]
  by_cases hs : other = space
  · simp [hs]
  · simp [hs, Ne.symm hs]

/-! ### Entries -/

namespace Ledger

omit [BEq κ] [Hashable κ] in
private theorem made?_eq_some_iff : l.made? d r reply = some (space, make) ↔
    (∀ f, reply ≠ .fault f) ∧ ∃ e name, d.errand? r = some e ∧ e.factory? = some name ∧ e.space = space ∧
      l.factories name = some make ∧ l.spaces space = false := by
  cases reply with
  | fault f => simp [made?]
  | _ =>
    simp only [made?, ne_eq, reduceCtorEq, not_false_eq_true, implies_true, true_and]
    constructor
    · intro h
      obtain ⟨e, he, h⟩ := Option.bind_eq_some_iff.1 h
      obtain ⟨make', hmake, h⟩ := Option.bind_eq_some_iff.1 h
      obtain ⟨name, hname, hmake⟩ := Option.bind_eq_some_iff.1 hmake
      split at h
      · cases h
      · next hspace =>
        cases h
        exact ⟨e, name, he, hname, rfl, hmake, by simpa using hspace⟩
    · rintro ⟨e, name, he, hname, rfl, hmake, hspace⟩
      simp [he, hname, hmake, hspace]

omit [BEq κ] [Hashable κ] in
/-- An errand changes no table but by making its space. -/
private theorem enter_of_errand (he : d.errand? r = some e) (h : l.made? d r reply = none) : l.enter d r reply = l := by
  rw [enter, h]
  cases r <;> first | rfl | cases he

omit [BEq κ] [Hashable κ] in
private theorem enter_of_no_errand (he : d.errand? r = none) (reply : Reply κ υ) :
    l.enter d r reply = l.amend r reply := by
  have h : l.made? d r reply = none := by
    rw [Option.eq_none_iff_forall_ne_some]
    rintro ⟨space, make⟩ h
    obtain ⟨-, e, -, he', -⟩ := made?_eq_some_iff.1 h
    cases he.symm.trans he'
  rw [enter, h]

/-- The tables are as the ledger says. -/
structure Agrees (l : Ledger κ) (d : Directory κ) : Prop where
  factories : d.factory? = l.factories
  spaces : d.hasSpace = l.spaces

omit [BEq κ] [Hashable κ] in
private theorem Agrees.space? (h : l.Agrees d) : l.spaces space = false ↔ d.space? space = none := by
  rw [← h.spaces, hasSpace_eq, Option.isSome_eq_false_iff, Option.isNone_iff_eq_none]

omit [BEq κ] [Hashable κ] in
/-- Whether a space was made can be told from the directory. -/
private theorem Agrees.made?_eq_some_iff (h : l.Agrees d)
    (hnames : d.defaultFactory = d₀.defaultFactory ∧ d.defaultSpace = d₀.defaultSpace) :
    l.made? d₀ r reply = some (space, make) ↔ (∀ f, reply ≠ .fault f) ∧
      ∃ e name, d.errand? r = some e ∧ e.factory? = some name ∧ e.space = space ∧ d.factory? name = some make ∧
        d.space? space = none := by
  simp only [Ledger.made?_eq_some_iff, ← errand?_congr hnames, ← h.factories, h.space?]

omit [BEq κ] [Hashable κ] in
private theorem Agrees.made?_eq_none_of_space (h : l.Agrees d)
    (hnames : d.defaultFactory = d₀.defaultFactory ∧ d.defaultSpace = d₀.defaultSpace) (he : d.errand? r = some e)
    (hi : d.space? e.space = some i) (reply : Reply κ υ) : l.made? d₀ r reply = none := by
  rw [Option.eq_none_iff_forall_ne_some]
  rintro ⟨space, make⟩ hmade
  obtain ⟨-, e', name, he', -, rfl, -, hnone⟩ := (h.made?_eq_some_iff hnames).1 hmade
  obtain rfl := Option.some.inj (he.symm.trans he')
  cases hi.symm.trans hnone

/-- The entry of a request leaves the ledger agreeing with the tables. -/
private theorem Agrees.enter (h : l.Agrees d)
    (hnames : d.defaultFactory = d₀.defaultFactory ∧ d.defaultSpace = d₀.defaultSpace)
    (ha : d.Answered w t r reply product? d' w') : (l.enter d₀ r reply).Agrees d' := by
  have herrand := errand?_congr hnames r
  cases ha with
  | done he hi =>
    rw [enter_of_errand (herrand ▸ he) (h.made?_eq_none_of_space hnames he hi _)]
    exact h
  | @passedOver _ e he hs hf =>
    rw [enter_of_errand (herrand ▸ he)]
    · exact h
    · rw [Option.eq_none_iff_forall_ne_some]
      rintro ⟨space, make⟩ hmade
      obtain ⟨-, e', name, he', hf', -⟩ := (h.made?_eq_some_iff hnames).1 hmade
      obtain rfl := Option.some.inj (he.symm.trans he')
      cases hf.symm.trans hf'
  | @made _ e name make i w₁ he hs hf hname hmake hi =>
    have hmade : l.made? d₀ r (e.done (w₁.emit (.spaceCreated e.space name)) t i).1 = some (e.space, make) :=
      (h.made?_eq_some_iff hnames).2 ⟨e.done_ne_fault _ t i, e, name, he, hf, rfl, hmake, hs⟩
    rw [Ledger.enter, hmade]
    exact ⟨h.factories, by rw [hasSpace_insert, h.spaces]⟩
  | @refused _ f hrefuses log =>
    have hsame : l.enter d₀ r (.fault f) = l := by
      rw [Ledger.enter, Ledger.made?]
      cases r <;> rfl
    rw [hsame]
    exact h
  | registered | replaced =>
    rw [enter_of_no_errand rfl]
    exact ⟨by rw [factory?_insert_eq, h.factories]; rfl, h.spaces⟩
  | removed =>
    rw [enter_of_no_errand rfl]
    exact ⟨by rw [factory?_erase_eq, h.factories]; rfl, h.spaces⟩
  | dropped =>
    rw [enter_of_no_errand rfl]
    exact ⟨h.factories, by rw [hasSpace_erase, h.spaces]; rfl⟩
  | notRemoved | notReplaced | notDropped =>
    rw [enter_of_no_errand rfl]
    exact h
  | inquiry hinquires =>
    have hsame : l.enter d₀ r reply = l := by
      cases hinquires <;> (rw [enter_of_no_errand rfl]; rfl)
    rw [hsame]
    exact h

/-- A request that has made a space has called the factory for it, once, and done its errand at the new instance. -/
private theorem Agrees.of_made (h : l.Agrees d)
    (hnames : d.defaultFactory = d₀.defaultFactory ∧ d.defaultSpace = d₀.defaultSpace)
    (ha : d.Answered w t r reply product? d' w') (hmade : l.made? d₀ r reply = some (space, make)) :
    ∃ e name, d.errand? r = some e ∧ e.space = space ∧ e.factory? = some name ∧ d.factory? name = some make ∧
      space ≠ "" ∧ d.space? space = none ∧
        w' = (e.done ((w.make make).2.emit (.spaceCreated space name)) t (w.make make).1).2.2 := by
  obtain ⟨hreply, e, name, he, hf, rfl, hmake, hs⟩ := (h.made?_eq_some_iff hnames).1 hmade
  refine ⟨e, name, he, rfl, hf, hmake, ?_⟩
  cases ha with
  | done he' hi =>
    obtain rfl := Option.some.inj (he.symm.trans he')
    cases hs.symm.trans hi
  | passedOver he' _ hf' =>
    obtain rfl := Option.some.inj (he.symm.trans he')
    cases hf.symm.trans hf'
  | made he' _ hf' hname hmake' hi =>
    obtain rfl := Option.some.inj (he.symm.trans he')
    obtain rfl := Option.some.inj (hf.symm.trans hf')
    obtain rfl := Option.some.inj (hmake.symm.trans hmake')
    rw [hi]
    exact ⟨hname, hs, rfl⟩
  | refused => exact absurd rfl (hreply _)
  | registered | removed | notRemoved | replaced | notReplaced | dropped | notDropped => cases he
  | inquiry hinquires => cases hinquires <;> cases he

/-- A request that has made no space has called no factory for one: it has changed nothing, or done an errand at the
instance of its space. -/
private theorem Agrees.of_not_made (h : l.Agrees d)
    (hnames : d.defaultFactory = d₀.defaultFactory ∧ d.defaultSpace = d₀.defaultSpace)
    (ha : d.Answered w t r reply product? d' w') (hmade : l.made? d₀ r reply = none) :
    w' = { w with log := w'.log } ∨
      ∃ e i, d.errand? r = some e ∧ d.space? e.space = some i ∧ w' = (e.done w t i).2.2 := by
  cases ha with
  | done he hi => exact Or.inr ⟨_, _, he, hi, rfl⟩
  | @made _ e name make i w₁ he hs hf hname hmake hi =>
    refine absurd hmade (Option.ne_none_iff_exists'.2 ⟨(e.space, make), (h.made?_eq_some_iff hnames).2 ?_⟩)
    exact ⟨e.done_ne_fault _ t i, e, name, he, hf, rfl, hmake, hs⟩
  | passedOver | refused | registered | removed | notRemoved | replaced | notReplaced | dropped | notDropped
  | inquiry => exact Or.inl rfl

private theorem Agrees.after (h : l.Agrees d)
    (hnames : d.defaultFactory = d₀.defaultFactory ∧ d.defaultSpace = d₀.defaultSpace) (w : Caches κ υ)
    (steps : List (ThreadId × Turn κ υ)) :
    ((steps.zip (answers turn (d, w) steps).1).foldl (.enterTurn d₀) l).Agrees (d.after w steps).1 := by
  induction steps generalizing d w l with
  | nil => exact h
  | cons step steps ih =>
    obtain ⟨t, turn⟩ := step
    rw [Directory.after, answers_cons, List.zip_cons_cons, List.foldl_cons]
    cases turn with
    | request r =>
      have ha := answer_answered d w t r
      exact ih (h.enter hnames ha) ⟨ha.default_eq.1.trans hnames.1, ha.default_eq.2.trans hnames.2⟩ _
    | exit => exact ih h hnames _
    | beside action =>
      obtain ⟨action', hturn, -⟩ := d.turn_beside w t action
      rw [hturn]
      exact ih h hnames _

end Ledger

/-- At the end of a run the tables are as its ledger says. -/
private theorem ledger_agrees (d : Directory κ) (w : Caches κ υ) (steps : List (ThreadId × Turn κ υ)) :
    (ledger d w steps).Agrees (d.after w steps).1 :=
  Ledger.Agrees.after ⟨rfl, rfl⟩ ⟨rfl, rfl⟩ w steps

end Directory

/-! ### What is counted -/

private theorem Errand.uncounted_done [BEq κ] [Hashable κ] {w : Caches κ υ} {counter : String}
    (hc : w.Uncounted counter) (e : Errand κ υ) (t : ThreadId) (i : CacheId) :
    (e.done w t i).2.2.Uncounted counter ∧ (e.done w t i).2.2.builtCount counter = w.builtCount counter := by
  rw [done]
  split
  · exact ⟨hc, rfl⟩
  · next r _ =>
    have hworks := w.answer_works_true t i r
    exact ⟨hworks.uncounted hc, hworks.builtCount_of_uncounted hc⟩

private theorem Caches.Uncounted.act [BEq κ] [Hashable κ] {w : Caches κ υ} {counter : String} (hc : w.Uncounted counter)
    (t : ThreadId) {action : Caches.Action κ υ} (hmake : ∀ f, action = .make f → counter ∉ f.counters) :
    (w.act (t, action)).2.Uncounted counter ∧ (w.act (t, action)).2.builtCount counter = w.builtCount counter := by
  cases action with
  | make f =>
    have hnot := hmake f rfl
    rw [Caches.act]
    split
    · exact ⟨uncounted_make hc fun part hpart hmem => hnot (Factory.counters_of_mem_parts hpart hmem),
        builtCount_make_of_not_mem hnot w⟩
    · exact ⟨hc, rfl⟩
  | request i r =>
    have hworks := w.answer_works_true t i r
    exact ⟨hworks.uncounted hc, hworks.builtCount_of_uncounted hc⟩
  | isBound i => exact ⟨hc, rfl⟩
  | detach i => exact ⟨(shrinks_detach w t i).uncounted hc, (shrinks_detach w t i).builtCount counter⟩
  | drop roots => exact ⟨hc.dropUnreachable roots, rfl⟩
  | beginExit => exact ⟨(shrinks_beginExit w t).uncounted hc, (shrinks_beginExit w t).builtCount counter⟩
  | finishExit => exact ⟨(shrinks_finishExit w t).uncounted hc, (shrinks_finishExit w t).builtCount counter⟩

namespace Directory

variable [BEq κ] [Hashable κ] {d₀ d d' : Directory κ} {w₀ w w' : Caches κ υ} {l : Ledger κ} {t : ThreadId} {i : CacheId}
  {r : DirectoryRequest κ υ} {reply : Reply κ υ} {product? : Option (Product κ)} {space : String} {counter : String}

/-- Nothing but a call of a factory is counted under the name. -/
structure CallsOnly (counter : String) (d : Directory κ) (w : Caches κ υ) : Prop where
  constructors : w.Uncounted counter
  parts : ∀ name f, d.factory? name = some f → ∀ part ∈ f.parts, counter ∉ part.counters

omit [BEq κ] [Hashable κ] in
private theorem Ledger.tally_enter (d : Directory κ) (l : Ledger κ) (r : DirectoryRequest κ υ) (reply : Reply κ υ)
    (counter : String) : (l.enter d r reply).tally counter =
      l.tally counter + ((l.made? d r reply).map (·.2.tally counter)).getD 0 := by
  rw [enter]
  split
  · next hmade => simp [tally, hmade]
  · next hmade =>
    have hcalls : (l.amend r reply).calls = l.calls := by
      unfold amend
      split <;> rfl
    simp [tally, hmade, hcalls]

/-- A request is counted as often as its entry says. -/
private theorem CallsOnly.answered (hc : CallsOnly counter d w) (h : l.Agrees d)
    (hnames : d.defaultFactory = d₀.defaultFactory ∧ d.defaultSpace = d₀.defaultSpace)
    (hr : ∀ f, r.entered? = some f → ∀ part ∈ f.parts, counter ∉ part.counters)
    (ha : d.Answered w t r reply product? d' w') : CallsOnly counter d' w' ∧
      w'.builtCount counter + l.tally counter = w.builtCount counter + (l.enter d₀ r reply).tally counter := by
  suffices hcounted : w'.Uncounted counter ∧ w'.builtCount counter =
      w.builtCount counter + ((l.made? d₀ r reply).map (·.2.tally counter)).getD 0 by
    refine ⟨⟨hcounted.1, fun name f hf => (ha.factory? hf).elim (hc.parts name f) (hr f)⟩, ?_⟩
    rw [hcounted.2, Ledger.tally_enter]
    omega
  cases hmade : l.made? d₀ r reply with
  | none =>
    rcases h.of_not_made hnames ha hmade with hlog | ⟨e, i, -, -, hdone⟩
    · rw [hlog]
      exact ⟨hc.constructors, rfl⟩
    · rw [hdone]
      exact e.uncounted_done hc.constructors t i
  | some call =>
    obtain ⟨space, make⟩ := call
    obtain ⟨e, name, -, -, -, hmake, -, -, hdone⟩ := h.of_made hnames ha hmade
    have hnew : ((w.make make).2.emit (.spaceCreated space name)).Uncounted counter :=
      Caches.uncounted_make hc.constructors (hc.parts name make hmake)
    obtain ⟨hcounted, hbuilt⟩ := e.uncounted_done hnew t (w.make make).1
    rw [hdone]
    exact ⟨hcounted, hbuilt.trans (w.builtCount_make make counter)⟩

private theorem CallsOnly.after (hc : CallsOnly counter d w) (h : l.Agrees d)
    (hnames : d.defaultFactory = d₀.defaultFactory ∧ d.defaultSpace = d₀.defaultSpace)
    {steps : List (ThreadId × Turn κ υ)}
    (hentered : ∀ t r f, (t, .request r) ∈ steps → r.entered? = some f → ∀ part ∈ f.parts, counter ∉ part.counters)
    (hbeside : ∀ t f, (t, .beside (.make f)) ∈ steps → counter ∉ f.counters) :
    (d.after w steps).2.builtCount counter + l.tally counter = w.builtCount counter +
      ((steps.zip (answers turn (d, w) steps).1).foldl (.enterTurn d₀) l).tally counter := by
  induction steps generalizing d w l with
  | nil => rfl
  | cons step steps ih =>
    obtain ⟨t, turn⟩ := step
    have hentered' := fun t r f hmem => hentered t r f (List.mem_cons_of_mem _ hmem)
    have hbeside' := fun t f hmem => hbeside t f (List.mem_cons_of_mem _ hmem)
    rw [Directory.after, answers_cons, List.zip_cons_cons, List.foldl_cons]
    cases turn with
    | request r =>
      have ha := answer_answered d w t r
      obtain ⟨hc', hcount⟩ := hc.answered h hnames (fun f => hentered t r f List.mem_cons_self) ha
      have hrest := ih hc' (h.enter hnames ha) ⟨ha.default_eq.1.trans hnames.1, ha.default_eq.2.trans hnames.2⟩
        hentered' hbeside'
      have hsum : ∀ n m, n + (l.enter d₀ r (d.answer w t r).1).tally counter =
          (d.answer w t r).2.2.2.builtCount counter + m → n + l.tally counter = w.builtCount counter + m := by
        omega
      exact hsum _ _ hrest
    | exit =>
      have hshrinks := Caches.shrinks_exit w t
      have hrest := ih ⟨hshrinks.uncounted hc.constructors, hc.parts⟩ h hnames hentered' hbeside'
      rw [← hshrinks.builtCount]
      exact hrest
    | beside action =>
      obtain ⟨action', hturn, hmake⟩ := d.turn_beside w t action
      obtain ⟨hcounted, hbuilt⟩ := hc.constructors.act t fun f hf =>
        hbeside t f (hmake f hf ▸ List.mem_cons_self)
      rw [hturn, ← hbuilt]
      exact ih ⟨hcounted, hc.parts⟩ h hnames hentered' hbeside'

/-! ### Runs -/

/-- After any run of a directory, with its ledger: -/
theorem one_instance_for_each_space (d₀ : Directory κ) (w₀ : Caches κ υ) (steps : List (ThreadId × Turn κ υ)) :
    let d := (d₀.after w₀ steps).1
    let w := (d₀.after w₀ steps).2
    let l := ledger d₀ w₀ steps
    -- the factories and the spaces are those that the requests and replies speak of
    (d.factory? = l.factories ∧ d.hasSpace = l.spaces) ∧
    -- a request that makes a space calls the factory that was last entered under the name it gives, once, and does its
    -- errand at what that makes
    (∀ t r space make, l.made? d₀ r (d.answer w t r).1 = some (space, make) →
      let i := (w.make make).1
      ∃ e name, d.errand? r = some e ∧ e.space = space ∧ e.factory? = some name ∧ l.factories name = some make ∧
        d.answer w t r =
          (let result := e.done ((w.make make).2.emit (.spaceCreated space name)) t i
          (result.1, result.2.1, { d with spaces := d.spaces.insert space i }, result.2.2)) ∧
        -- and every later errand at the space is done there, whatever factory it names, until the space is dropped
        ∀ later, (∀ u, (u, .request (.dropSpace space)) ∉ later) →
          let d' := (d₀.after w₀ (steps ++ (t, .request r) :: later)).1
          let w' := (d₀.after w₀ (steps ++ (t, .request r) :: later)).2
          d'.space? space = some i ∧ ∀ u r' e', d'.errand? r' = some e' → e'.space = space →
            d'.answer w' u r' = ((e'.done w' u i).1, (e'.done w' u i).2.1, d', (e'.done w' u i).2.2)) ∧
    -- every other request calls no factory: it changes nothing of the caches but the log, or is an errand at a space
    -- that is there
    (∀ t r, l.made? d₀ r (d.answer w t r).1 = none →
      (d.answer w t r).2.2.2 = { w with log := (d.answer w t r).2.2.2.log } ∨
        ∃ e i, d.errand? r = some e ∧ d.space? e.space = some i ∧ (d.answer w t r).2.2.2 = (e.done w t i).2.2) ∧
    -- and where nothing else is counted under a name, so many calls are counted as the ledger has
    ∀ counter, w₀.Uncounted counter →
      (∀ name f, d₀.factory? name = some f → ∀ part ∈ f.parts, counter ∉ part.counters) →
      (∀ t r f, (t, .request r) ∈ steps → r.entered? = some f → ∀ part ∈ f.parts, counter ∉ part.counters) →
      (∀ t f, (t, .beside (.make f)) ∈ steps → counter ∉ f.counters) →
      w.builtCount counter = w₀.builtCount counter + l.tally counter := by
  intro d w l
  have hagrees : l.Agrees d := ledger_agrees d₀ w₀ steps
  have hnames := d₀.default_after w₀ steps
  refine ⟨⟨hagrees.factories, hagrees.spaces⟩, fun t r space make hmade => ?_, fun t r hmade => ?_,
    fun counter hconstructors hparts hentered hbeside => ?_⟩
  · obtain ⟨e, name, he, rfl, hf, hmake, hname, hs, -⟩ := hagrees.of_made hnames (answer_answered d w t r) hmade
    have hanswer := answer_of_new he hs hf hname hmake w t
    refine ⟨e, name, he, rfl, hf, hagrees.factories ▸ hmake, hanswer, fun later hlater => ?_⟩
    have hnew : (d.answer w t r).2.2.1.space? e.space = some (w.make make).1 := by
      rw [hanswer, space?_insert, if_pos rfl]
    have hspace : (d₀.after w₀ (steps ++ (t, .request r) :: later)).1.space? e.space = some (w.make make).1 := by
      rw [after_append]
      exact space?_after hnew (d.answer w t r).2.2.2 hlater
    exact ⟨hspace, fun u r' e' he' hs' => answer_of_space he' (hs' ▸ hspace) _ u⟩
  · exact hagrees.of_not_made hnames (answer_answered d w t r) hmade
  · exact (CallsOnly.mk hconstructors hparts).after (ledger_agrees d₀ w₀ []) ⟨rfl, rfl⟩ hentered hbeside

/-- A space is made, its factory is replaced by another one, and a thread writes to the space and exits: the instance is
still the one that the first factory made when it was called, once. -/
theorem one_instance_while_factories_change :
    let make : Factory Nat := .counted "calls" (.bounded .lru { size := 2 })
    let d : Directory Nat := ⟨"f", defaultSpaceOf "f", .ofList [("f", make)], {}⟩
    let w := (.empty : Caches Nat Nat).emit (.directoryCreated "f" (defaultSpaceOf "f"))
    let later : List (ThreadId × Turn Nat Nat) :=
      [(1, .request (.replaceFactory "f" (.bounded .fifo { size := 1 }))), (1, .request (.put "a" "nowhere" 5 7)),
        (1, .exit)]
    (d.after w ((0, .request (.ensureSpace "a" "f")) :: later)).1.space? "a" = some 0 ∧
      (d.after w [(0, .request (.ensureSpace "a" "f"))]).2.builtCount "calls" = 1 := by
  intro make d w later
  have hcreate : create (.empty : Caches Nat Nat) "f" make = (.ok d, w) := rfl
  obtain ⟨-, -, -, hfactory, hspace⟩ := of_create hcreate
  have hmade : (ledger d w []).made? d (.ensureSpace "a" "f") (d.answer w 0 (.ensureSpace "a" "f")).1 =
      some ("a", make) := by
    refine ((ledger_agrees d w []).made?_eq_some_iff ⟨rfl, rfl⟩).2
      ⟨fun f => ?_, _, _, rfl, rfl, rfl, hfactory "f", hspace "a"⟩
    rw [answer_of_new rfl (hspace "a") rfl (by decide) (hfactory "f")]
    exact Errand.done_ne_fault _ _ _ _ _
  obtain ⟨-, hinstance, -⟩ := one_instance_for_each_space d w []
  obtain ⟨e, name, -, -, -, -, -, hlater⟩ := hinstance 0 _ "a" make hmade
  obtain ⟨-, -, -, hcount⟩ := one_instance_for_each_space d w [(0, .request (.ensureSpace "a" "f"))]
  refine ⟨(hlater later (by simp [later])).1, (hcount "calls" ?_ ?_ ?_ ?_).trans ?_⟩
  · intro t i make capacity? own? hs
    cases (w.sight?_of_size_le t (Nat.zero_le i)).symm.trans hs
  · intro name f hf
    rw [hfactory] at hf
    split at hf
    · cases hf
      simp [make, Factory.parts]
    · cases hf
  · intro t r f hmem hf
    simp only [List.mem_singleton, Prod.mk.injEq, Turn.request.injEq] at hmem
    rw [hmem.2] at hf
    cases hf
  · simp
  · have htally := Ledger.tally_enter d (ledger d w []) (.ensureSpace "a" "f")
      (d.answer w 0 (.ensureSpace "a" "f")).1 "calls"
    have hbuilt : w.builtCount "calls" = 0 := Std.HashMap.getD_empty
    rw [hmade] at htally
    rw [hbuilt]
    exact (Nat.zero_add _).trans htally

end Directory

end Caching
