import Mathlib
import Caching.Proofs.Caches.Shrinks
import Caching.Proofs.Run

/-!
# A cache of one's own

What a constructor makes anew, and no other cache leads to, is for the thread that uses it a value: a tree of per-thread
and forwarding caches above a store (`Private`), without numbers, threads or other caches.  The instances of the caches
show such a tree to the thread (`Shows`), and a request is answered as by the tree and leaves the instances showing the
tree as the request leaves it (`Shows.answer`).
-/

namespace Caching

variable {κ υ : Type} [BEq κ] [Hashable κ]

inductive Private (κ υ : Type) [BEq κ] [Hashable κ] where
  | store (s : Store κ υ)
  /-- A per-thread cache without an instance, and what its constructor makes. -/
  | unbound (fresh : Private κ υ) (capacity? : Option Nat)
  | bound (fresh : Private κ υ) (capacity? : Option Nat) (own : Private κ υ)
  | forwarding (inner : Private κ υ)

def Request.IsClear : Request κ υ → Prop
  | .clear => True
  | _ => False

instance : DecidablePred (Request.IsClear : Request κ υ → Prop)
  | .clear => .isTrue trivial
  | .get _ | .put .. | .contains _ | .remove _ | .length | .isEmpty | .capacity | .putIfAbsent .. | .putIf ..
  | .removeIf .. => .isFalse id

/-- The value that a look-up is answered with, if it found one. -/
def Reply.found? : Reply κ υ → Option υ
  | .value? v? => v?
  | _ => none

namespace Private

/-- What a factory makes, if it makes it anew. -/
def made? : Factory κ → Option (Private κ υ)
  | .bounded .fifo capacity => some (.store (.fifo (.empty capacity)))
  | .bounded .lru capacity => some (.store (.lru (.empty capacity)))
  | .bounded .lfu capacity => some (.store (.lfu (.empty capacity)))
  | .striped striping hash => some (.store (.striped (.empty striping hash)))
  | .perThread make capacity? => (made? make).map (.unbound · capacity?)
  | .forwarding inner => (made? inner).map .forwarding
  | .existing _ => none
  | .counted _ make => made? make

/-- A request, as a forwarding cache passes it on unchanged. -/
def relay (r : Request κ υ) : Private κ υ → Reply κ υ × Private κ υ
  | .store s => ((s.answer r).1, .store (s.answer r).2.2)
  | .unbound fresh capacity? =>
    if r.IsWrite then ((fresh.relay r).1, .bound fresh capacity? (fresh.relay r).2)
    else (r.answerOfEmpty capacity?, .unbound fresh capacity?)
  | .bound fresh capacity? own =>
    ((own.relay r).1, if r.IsClear then .unbound fresh capacity? else .bound fresh capacity? (own.relay r).2)
  | .forwarding inner => ((inner.relay r).1, .forwarding (inner.relay r).2)

/-- Stores a value unless a look-up finds one. -/
def lookUpThenPut (p : Private κ υ) (k : κ) (v : υ) : Reply κ υ × Private κ υ :=
  match (p.relay (.get k)).1.found? with
  | some current => (.value? (some current), (p.relay (.get k)).2)
  | none => (p.relay (.get k)).2.relay (.put k v)

/-- Carries a request out. -/
def answer (r : Request κ υ) : Private κ υ → Reply κ υ × Private κ υ
  | .store s => ((s.answer r).1, .store (s.answer r).2.2)
  | .unbound fresh capacity? =>
    if r.IsWrite then ((fresh.answer r).1, .bound fresh capacity? (fresh.answer r).2)
    else (r.answerOfEmpty capacity?, .unbound fresh capacity?)
  | .bound fresh capacity? own =>
    ((own.answer r).1, if r.IsClear then .unbound fresh capacity? else .bound fresh capacity? (own.answer r).2)
  | .forwarding inner =>
    match r with
    | .putIfAbsent k v => ((inner.lookUpThenPut k v).1, .forwarding (inner.lookUpThenPut k v).2)
    | r => ((inner.answer r).1, .forwarding (inner.answer r).2)

private theorem relay_eq_answer {r : Request κ υ} (hr : ∀ k v, r ≠ .putIfAbsent k v) (p : Private κ υ) :
    p.relay r = p.answer r := by
  induction p with
  | store s => rfl
  | unbound fresh capacity? ih => simp only [relay, answer, ih]
  | bound fresh capacity? own _ ih => simp only [relay, answer, ih]
  | forwarding inner ih =>
    cases r with
    | putIfAbsent k v => exact absurd rfl (hr k v)
    | _ => simp only [relay, answer, ih]

private theorem answer_forwarding {r : Request κ υ} (hr : ∀ k v, r ≠ .putIfAbsent k v) (inner : Private κ υ) :
    (forwarding inner).answer r = ((inner.answer r).1, .forwarding (inner.answer r).2) := by
  cases r with
  | putIfAbsent k v => exact absurd rfl (hr k v)
  | _ => rfl

/-- At a forwarding cache it is two requests. -/
private theorem answer_forwarding_putIfAbsent (inner : Private κ υ) (k : κ) (v : υ) :
    (forwarding inner).answer (.putIfAbsent k v) =
      match (inner.answer (.get k)).1.found? with
      | some current => (.value? (some current), .forwarding (inner.answer (.get k)).2)
      | none =>
        let (reply, inner) := (inner.answer (.get k)).2.answer (.put k v)
        (reply, .forwarding inner) := by
  rw [answer, lookUpThenPut, relay_eq_answer (by simp)]
  split
  · rfl
  · rw [relay_eq_answer (by simp)]

theorem references_of_made? {f : Factory κ} {p : Private κ υ} (h : made? f = some p) : f.references = [] := by
  induction f generalizing p with
  | bounded | striped => rfl
  | perThread make capacity? ih =>
    obtain ⟨fresh, hfresh, -⟩ := Option.map_eq_some_iff.1 h
    exact ih hfresh
  | forwarding inner ih =>
    obtain ⟨p, hp, -⟩ := Option.map_eq_some_iff.1 h
    exact ih hp
  | existing => cases h
  | counted _ make ih => exact ih h

end Private

namespace Caches

variable {w w' : Caches κ υ} {t t' : ThreadId} {i j x : CacheId} {p own fresh : Private κ υ} {r : Request κ υ}
  {make : Factory κ} {capacity? : Option Nat}

/-- The instances show a tree to the thread. -/
inductive Shows (w : Caches κ υ) (t : ThreadId) : CacheId → Private κ υ → Prop
  | store {i : CacheId} {s : Store κ υ} (h : w.sight? t i = some (.store s)) : Shows w t i (.store s)
  | unbound {i : CacheId} {make : Factory κ} {capacity? : Option Nat} {fresh : Private κ υ}
      (h : w.sight? t i = some (.perThread make capacity? none)) (hmake : Private.made? make = some fresh) :
      Shows w t i (.unbound fresh capacity?)
  | bound {i : CacheId} {make : Factory κ} {capacity? : Option Nat} {fresh own : Private κ υ} {inner : CacheId}
      (h : w.sight? t i = some (.perThread make capacity? (some inner))) (hmake : Private.made? make = some fresh)
      (hinner : Shows w t inner own) : Shows w t i (.bound fresh capacity? own)
  | forwarding {i inner : CacheId} {p : Private κ υ} (h : w.sight? t i = some (.forwarding inner))
      (hinner : Shows w t inner p) : Shows w t i (.forwarding p)

/-- What is shown depends on the instances alone that the thread comes to. -/
theorem Shows.frame (h : w.Shows t i p) {S : CacheId → Prop} (hi : S i)
    (hseen : ∀ i s, S i → w.sight? t i = some s → ∀ x ∈ s.references, S x)
    (hsame : ∀ i s, S i → w.sight? t i = some s → w'.sight? t i = some s) : w'.Shows t i p := by
  induction h with
  | store h => exact .store (hsame _ _ hi h)
  | unbound h hmake => exact .unbound (hsame _ _ hi h) hmake
  | bound h hmake _ ih =>
    exact .bound (hsame _ _ hi h) hmake (ih (hseen _ _ hi h _ (Sight.mem_references_of_own? rfl)))
  | forwarding h _ ih => exact .forwarding (hsame _ _ hi h) (ih (hseen _ _ hi h _ List.mem_cons_self))

private theorem Shows.extends (h : w.Shows t i p) (hext : w'.Extends w) : w'.Shows t i p :=
  h.frame (S := fun _ => True) trivial (fun _ _ _ _ _ _ => trivial) fun i _ _ hs =>
    (sight?_congr (hext.instance? i (lt_size_of_sight? hs)) t).trans hs

/-- What a factory makes shows what it makes. -/
theorem shows_make (w : Caches κ υ) {f : Factory κ} (h : Private.made? f = some p) (t : ThreadId) :
    (w.make f).2.Shows t (w.make f).1 p := by
  have hadd : ∀ (w : Caches κ υ) (n : Nat) (b : Body κ υ),
      (w.add n b).2.sight? t (w.add n b).1 = some (b.sight t) := fun w n b =>
    (sight?_add w n b t _).trans (if_pos rfl)
  induction f generalizing w p with
  | bounded policy capacity =>
    cases policy <;> (obtain rfl := Option.some.inj h; exact .store (hadd ..))
  | striped striping hash =>
    obtain rfl := Option.some.inj h
    exact .store (hadd ..)
  | perThread make capacity? =>
    obtain ⟨fresh, hfresh, rfl⟩ := Option.map_eq_some_iff.1 h
    refine .unbound ((hadd ..).trans ?_) hfresh
    simp only [Body.sight, Std.HashMap.getElem?_empty]
  | forwarding inner ih =>
    obtain ⟨p, hp, rfl⟩ := Option.map_eq_some_iff.1 h
    exact .forwarding (hadd ..) ((ih w hp).extends (extends_add ..))
  | existing => cases h
  | counted counter make ih => exact ih _ h

/-! ### What lies below an instance -/

/-- What lies below an instance is shown whatever becomes of the instance. -/
theorem Shows.of_reshapes (h : w.Shows t j p) (hw : w.Ranked) (hij : w.rank j < w.rank i)
    {f : ThreadId → Sight κ υ → Sight κ υ} (hre : w.Reshapes w' i f) : w'.Shows t j p := by
  refine h.frame (S := fun j => w.rank j < w.rank i) hij
    (fun _ _ hj hs _ hx => Nat.lt_trans (hw.reference hs hx).2 hj) fun _ _ hj hs => ?_
  rw [hre.sight?, if_neg fun hij => Nat.lt_irrefl _ (hij ▸ hj), hs]

private theorem Shows.has (h : w.Shows t i p) : w.Has i := by
  cases h with
  | store h | unbound h | bound h | forwarding h => exact (has_iff_sight? t).2 ⟨_, h⟩

/-! ### Requests -/

theorem answer_putIfAbsent_of_forwarding (h : w.sight? t i = some (.forwarding j)) (k : κ) (v : υ) :
    w.answer t i (.putIfAbsent k v) =
      match (w.answer t j (.get k)).1.found? with
      | some current => (.value? (some current), (w.answer t j (.get k)).2)
      | none => (w.answer t j (.get k)).2.answer t j (.put k v) := by
  simp only [answer, putIfAbsent_of_forwarding h, lookUpThenPut, Reply.found?]
  rcases w.get t j k with ⟨_ | current, w₁⟩ <;> rfl

theorem Ranked.make_fresh (hw : w.Ranked) (hmake : Private.made? make = some fresh) : (w.make make).2.Ranked :=
  (hw.make fun x hx => by rw [Private.references_of_made? hmake] at hx; cases hx).1

/-- What a thread that runs gets as its own instance is what the constructor makes. -/
private theorem shows_ownInstance {releases : List CacheId} (hw : w.Ranked) (hr : r.IsWrite)
    (hs : w.sight? t i = some (.perThread make capacity? none)) (hmake : Private.made? make = some fresh)
    (hrun : w.thread t = .running releases) : ∃ inner w₁, w.ownInstance t i make = (inner, w₁) ∧ w₁.Ranked ∧
      w.rank i = w₁.rank inner + 1 ∧ w₁.rank i = w.rank i ∧
      w₁.sight? t i = some (.perThread make capacity? (some inner)) ∧ w₁.Shows t inner fresh ∧
      ∃ releases, w₁.thread t = .running releases := by
  have hext := (make_makes w make).extends_old
  have hi := lt_size_of_sight? hs
  have hrank := hw.rank_eq hs
  have hrank' : (w.make make).2.rank i = w.rank i := Caches.rank_congr (hext.instance? i hi)
  obtain ⟨w₁, hown, hre, hthread, -⟩ := ownInstance_of_running (bound?_of_sight? hs) hrun make
  have hw₁ := (Touch.own hr hs).ranked hw
  rw [hown] at hw₁ hrank
  refine ⟨_, w₁, hown, hw₁, hrank, (hre.rank i).trans hrank', ?_, ?_, _, (hthread t).trans (if_pos rfl)⟩
  · rw [hre.sight?, if_pos rfl, sight?_congr (hext.instance? i hi), hs]
    exact congrArg some (Sight.rebound_self ..)
  · refine (w.shows_make hmake t).of_reshapes (hw.make_fresh hmake) ?_ hre
    rw [hrank', hrank, hre.rank]
    exact Nat.lt_succ_self _

/-- The thread is answered as by the tree; and the tree is what is shown afterwards, unless the thread has made
something that it cannot keep. -/
theorem Shows.answer (hw : w.Ranked) (h : w.Shows t i p) (r : Request κ υ) :
    (w.answer t i r).1 = (p.answer r).1 ∧
      ((r.IsWrite → ∃ releases, w.thread t = .running releases) → (w.answer t i r).2.Shows t i (p.answer r).2) := by
  -- on the rank: a forwarding cache puts two requests to the instance behind it, the second to what the first left
  induction hn : w.rank i using Nat.strong_induction_on generalizing w i p r with
  | _ n ih =>
    subst hn
    have hhas := h.has
    cases h with
    | @store _ s hs =>
      refine ⟨congrArg Prod.fst (answer_of_store hs r), fun _ => .store ?_⟩
      rw [sight?_answer_of_store hs, if_pos rfl]
    | @unbound _ make capacity? fresh hs hmake =>
      by_cases hr : r.IsWrite
      · rw [Private.answer, if_pos hr]
        by_cases hrun : ∃ releases, w.thread t = .running releases
        · obtain ⟨releases, hrel⟩ := hrun
          obtain ⟨inner, w₁, hown, hw₁, hrank, hrank₁, hs₁, hinner, hrun₁⟩ := shows_ownInstance hw hr hs hmake hrel
          rw [answer_of_write hs (hw.rank_eq hs) hr, hown]
          have hlt : w₁.rank inner < w.rank i := hrank ▸ Nat.lt_succ_self _
          obtain ⟨hreply, hafter⟩ := ih _ hlt hw₁ hinner r rfl
          refine ⟨hreply, fun _ => .bound ?_ hmake (hafter fun _ => hrun₁)⟩
          exact (hw₁.sight?_answer (hrank₁ ▸ hlt) ((has_iff_sight? t).2 ⟨_, hs₁⟩) ..).trans hs₁
        · have hrank := hw.rank_eq hs
          have hown := ownInstance_of_not_running (bound?_of_sight? hs) (fun releases h => hrun ⟨releases, h⟩) make
          rw [answer_of_write hs hrank hr, hown]
          rw [hown] at hrank
          refine ⟨(ih _ (hrank ▸ Nat.lt_succ_self _) (hw.make_fresh hmake) (w.shows_make hmake t) r rfl).1, ?_⟩
          exact fun h => absurd (h hr) hrun
      · rw [answer_of_unbound hs hr]
        simp only [Private.answer, if_neg hr]
        exact ⟨trivial, fun _ => .unbound hs hmake⟩
    | @bound _ make capacity? fresh own inner hs hmake hinner =>
      have hrank : w.rank i = w.rank inner + 1 := ((hw t i _ hs).2.2 inner rfl).2
      have hlt : w.rank inner < w.rank i := hrank ▸ Nat.lt_succ_self _
      by_cases hr : r = .clear
      · subst hr
        rw [answer_clear_of_bound hs hrank]
        have hre := reshapes_detach (bound?_of_sight? hs)
        have hw₁ := (shrinks_detach w t i).ranked hw
        obtain ⟨hreply, -⟩ := ih _ hlt hw₁ (hinner.of_reshapes hw hlt hre) .clear (hre.rank inner)
        have hs₁ : (w.detach t i).2.sight? t i = some (.perThread make capacity? none) := by
          rw [hre.sight?, if_pos rfl, hs]
          exact congrArg some (Sight.rebound_self ..)
        have hlt₁ : (w.detach t i).2.rank inner < (w.detach t i).2.rank i := by
          rw [hre.rank, hre.rank]
          exact hlt
        exact ⟨hreply, fun _ => .unbound ((hw₁.sight?_answer hlt₁ (hre.has_iff.2 hhas) ..).trans hs₁) hmake⟩
      · rw [answer_of_bound hs hrank hr]
        have hclear : ¬ r.IsClear := by
          intro h
          cases r with
          | clear => exact hr rfl
          | _ => exact h
        obtain ⟨hreply, hafter⟩ := ih _ hlt hw hinner r rfl
        rw [Private.answer, if_neg hclear]
        exact ⟨hreply, fun hrun => .bound ((hw.sight?_answer hlt hhas ..).trans hs) hmake (hafter hrun)⟩
    | @forwarding _ inner p hs hinner =>
      have hrank : w.rank i = w.rank inner + 1 := (hw t i _ hs).2
      have hlt : w.rank inner < w.rank i := hrank ▸ Nat.lt_succ_self _
      by_cases hr : ∀ k v, r ≠ .putIfAbsent k v
      · rw [answer_of_forwarding hs hrank hr, Private.answer_forwarding hr]
        obtain ⟨hreply, hafter⟩ := ih _ hlt hw hinner r rfl
        exact ⟨hreply, fun hrun => .forwarding ((hw.sight?_answer hlt hhas ..).trans hs) (hafter hrun)⟩
      · obtain ⟨k, v, rfl⟩ : ∃ k v, r = .putIfAbsent k v := by
          by_contra hne
          exact hr fun k v heq => hne ⟨k, v, heq⟩
        rw [answer_putIfAbsent_of_forwarding hs, Private.answer_forwarding_putIfAbsent]
        obtain ⟨hreply, hget⟩ := ih _ hlt hw hinner (.get k) rfl
        have hworks := w.answer_works_true t inner (.get k)
        have hw₁ := hworks.ranked hw
        have hs₁ := (hw.sight?_answer hlt hhas t t (.get k)).trans hs
        rw [hreply]
        split
        · exact ⟨rfl, fun _ => .forwarding hs₁ (hget fun h => h.elim)⟩
        · have hinner₁ := hget fun h => h.elim
          have hrank₁ := hworks.rank hinner.has.lt_size
          obtain ⟨hreply₁, hput⟩ := ih _ hlt hw₁ hinner₁ (.put k v) hrank₁
          refine ⟨hreply₁, fun hrun => .forwarding ?_ (hput fun _ => ?_)⟩
          · refine (hw₁.sight?_answer ?_ ((has_iff_sight? t).2 ⟨_, hs₁⟩) ..).trans hs₁
            rw [hrank₁, hworks.rank hhas.lt_size]
            exact hlt
          · obtain ⟨releases, hrel⟩ := hrun trivial
            obtain ⟨releases', hrel', -⟩ := hworks.running hrel
            exact ⟨releases', hrel'⟩

/-- Several requests of a thread that runs are answered as by the tree. -/
theorem Shows.answers (hw : w.Ranked) (hrun : ∃ releases, w.thread t = .running releases) (h : w.Shows t i p)
    (rs : List (Request κ υ)) : (Caching.answers (fun w r => w.answer t i r) w rs).1 =
      (Caching.answers (fun p r => p.answer r) p rs).1 := by
  refine (answers_simulates
    (R := fun _ w p => w.Ranked ∧ (∃ releases, w.thread t = .running releases) ∧ w.Shows t i p)
    (fun r _ w p ⟨hw, hrun, h⟩ => ?_) ⟨hw, hrun, h⟩).1
  obtain ⟨hreply, hafter⟩ := h.answer hw r
  obtain ⟨releases, hrel⟩ := hrun
  have hworks := w.answer_works_true t i r
  obtain ⟨releases', hrel', -⟩ := hworks.running hrel
  exact ⟨hreply, hworks.ranked hw, ⟨releases', hrel'⟩, hafter fun _ => ⟨releases, hrel⟩⟩

end Caches

end Caching
