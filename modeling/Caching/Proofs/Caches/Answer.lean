import Mathlib
import Caching.Proofs.Caches.Sight

/-!
# Where requests go

A request is answered by the store that it ends up at, or as by an empty cache.  From what the thread sees of an
instance it follows where a request to it goes on, with the same answer and the same effect: at a forwarding cache and
at a per-thread cache with an instance for the thread, to the instance behind (`answer_of_forwarding`,
`answer_of_bound`); a write at a per-thread cache without, to the instance that is made for it (`answer_of_write`).
-/

namespace Caching

/-- A request that stores a value, unless it finds one. -/
def Request.IsWrite {κ υ : Type} : Request κ υ → Prop
  | .put .. | .putIfAbsent .. | .putIf true .. => True
  | _ => False

instance {κ υ : Type} : DecidablePred (Request.IsWrite : Request κ υ → Prop)
  | .put .. | .putIfAbsent .. | .putIf true .. => .isTrue trivial
  | .putIf false .. | .get _ | .contains _ | .remove _ | .length | .isEmpty | .clear | .capacity | .removeIf .. =>
    .isFalse id

namespace Request

variable {κ υ : Type}

/-- The answer of an empty cache to a request that is no write. -/
def answerOfEmpty (capacity? : Option Nat) : Request κ υ → Reply κ υ
  | .contains _ => .flag false
  | .length => .number 0
  | .isEmpty => .flag true
  | .clear => .done
  | .capacity => .number? capacity?
  | .get _ | .remove _ | .put .. | .putIfAbsent .. | .putIf .. | .removeIf .. => .value? none

end Request

/-- Carries a request out at a store. -/
def Store.answer {κ υ : Type} [BEq κ] [Hashable κ] (s : Store κ υ) :
    Request κ υ → Reply κ υ × Option Eviction × Store κ υ
  | .get k => let (v?, s) := s.get k; (.value? v?, none, s)
  | .put k v => let (old?, evicted?, s) := s.put k v; (.value? old?, evicted?, s)
  | .contains k => (.flag (s.contains k), none, s)
  | .remove k => let (v?, s) := s.remove k; (.value? v?, none, s)
  | .length => (.number s.length, none, s)
  | .isEmpty => (.flag s.isEmpty, none, s)
  | .clear => (.done, none, s.clear)
  | .capacity => (.number? s.capacity?, none, s)
  | .putIfAbsent k v => let (v?, evicted?, s) := s.putIfAbsent k v; (.value? v?, evicted?, s)
  | .putIf true k v => let (old?, evicted?, s) := s.put k v; (.value? old?, evicted?, s)
  | .removeIf true k => let (v?, s) := s.remove k; (.value? v?, none, s)
  | .putIf false _ _ | .removeIf false _ => (.value? none, none, s)

namespace Caches

variable {κ υ : Type} [BEq κ] [Hashable κ] {w : Caches κ υ} {t : ThreadId} {i inner : CacheId} {s : Store κ υ}
  {make : Factory κ} {capacity? : Option Nat} {own? : Option CacheId}

/-- What is there already is no change. -/
theorem setBody_self {b : Body κ υ} (h : w.body? i = some b) : w.setBody i b = w := by
  obtain ⟨⟨rank, body⟩, hx, rfl⟩ := Option.map_eq_some_iff.1 h
  have hset : w.instances.modify i (Option.map fun x => { x with body := body }) = w.instances := by
    apply Array.ext_getElem?
    intro j
    rw [Array.getElem?_modify]
    split
    · next hij =>
      subst hij
      rw [instance?, Option.join_eq_some_iff] at hx
      rw [hx]
      rfl
    · rfl
  exact congrArg (fun x => { w with instances := x }) hset

/-- The answer to anything but a write or `clear` is the answer where a read ends. -/
private theorem answer_of_target_eq (h : w.target t i = w.target t inner) {r : Request κ υ} (hr : ¬ r.IsWrite)
    (hclear : r ≠ .clear) : w.answer t i r = w.answer t inner r := by
  cases r with
  | put | putIfAbsent => exact absurd trivial hr
  | clear => exact absurd rfl hclear
  | get k => simp only [answer, get, h]
  | remove k => simp only [answer, remove, h]
  | contains k => simp only [answer, contains, h]
  | length => simp only [answer, length, h]
  | isEmpty => simp only [answer, isEmpty, h]
  | capacity => simp only [answer, Caches.capacity?, h]
  | putIf condition k v =>
    cases condition
    · rfl
    · exact absurd trivial hr
  | removeIf condition k =>
    cases condition
    · rfl
    · simp only [answer, remove, h]

/-! ### At a store -/

theorem target_of_store (h : w.sight? t i = some (.store s)) : w.target t i = .store i s := by
  rw [target, targetWithin, body?_of_sight?_store h]

theorem settle_of_store (h : w.sight? t i = some (.store s)) : w.settle t i = (i, w) := by
  rw [settle, settleWithin, body?_of_sight?_store h]

theorem putIfAbsent_of_store (h : w.sight? t i = some (.store s)) (k : κ) (v : υ) :
    w.putIfAbsent t i k v = w.updateStore i (·.putIfAbsent k v) := by
  rw [putIfAbsent, putIfAbsentWithin, body?_of_sight?_store h]

private theorem clear_of_store (h : w.sight? t i = some (.store s)) : w.clear t i = w.setBody i (.store s.clear) := by
  rw [clear, clearWithin, body?_of_sight?_store h]

theorem answer_of_store (h : w.sight? t i = some (.store s)) (r : Request κ υ) :
    w.answer t i r =
      ((s.answer r).1, (w.setBody i (.store (s.answer r).2.2)).emitEviction (s.answer r).2.1) := by
  have hself := setBody_self (body?_of_sight?_store h)
  have htarget := target_of_store h
  cases r with
  | get k => simp only [answer, get, htarget, updateStore_of_sight? h, Store.answer]
  | remove k => simp only [answer, remove, htarget, updateStore_of_sight? h, Store.answer]
  | put k v => simp only [answer, put, settle_of_store h, updateStore_of_sight? h, Store.answer]
  | putIfAbsent k v => simp only [answer, putIfAbsent_of_store h, updateStore_of_sight? h, Store.answer]
  | contains k => simp only [answer, contains, htarget, Store.answer, hself, emitEviction]
  | length => simp only [answer, length, htarget, Store.answer, hself, emitEviction]
  | isEmpty => simp only [answer, isEmpty, htarget, Store.answer, hself, emitEviction]
  | capacity => simp only [answer, Caches.capacity?, htarget, Store.answer, hself, emitEviction]
  | clear => simp only [answer, clear_of_store h, Store.answer, emitEviction]
  | putIf condition k v =>
    cases condition
    · simp only [answer, Store.answer, hself, emitEviction]
    · simp only [answer, put, settle_of_store h, updateStore_of_sight? h, Store.answer]
  | removeIf condition k =>
    cases condition
    · simp only [answer, Store.answer, hself, emitEviction]
    · simp only [answer, remove, htarget, updateStore_of_sight? h, Store.answer]

/-- Every thread sees the store as the request leaves it, and nothing else differently. -/
theorem sight?_answer_of_store (h : w.sight? t i = some (.store s)) (r : Request κ υ) (t' : ThreadId) (j : CacheId) :
    (w.answer t i r).2.sight? t' j = if i = j then some (.store (s.answer r).2.2) else w.sight? t' j := by
  rw [answer_of_store h, (reshapes_store ..).sight?]
  split
  · next hij =>
    rw [← hij, sight?_of_body? (body?_of_sight?_store h) t']
    rfl
  · rfl

/-! ### At a per-thread cache without an instance for the thread -/

theorem target_of_unbound (h : w.sight? t i = some (.perThread make capacity? none)) :
    w.target t i = .unbound capacity? := by
  obtain ⟨bindings, hb, hown⟩ := body?_of_sight?_perThread h
  simp only [target, targetWithin, hb, hown]

theorem detach_of_unbound (h : w.bound? t i = none) : w.detach t i = (none, w) := by
  rw [detach, h]

/-- Reads, removals and `clear` change nothing there. -/
theorem answer_of_unbound (h : w.sight? t i = some (.perThread make capacity? none)) {r : Request κ υ}
    (hr : ¬ r.IsWrite) : w.answer t i r = (r.answerOfEmpty capacity?, w) := by
  have htarget := target_of_unbound h
  cases r with
  | put | putIfAbsent => exact absurd trivial hr
  | get k => simp only [answer, get, htarget, Request.answerOfEmpty]
  | remove k => simp only [answer, remove, htarget, Request.answerOfEmpty]
  | contains k => simp only [answer, contains, htarget, Request.answerOfEmpty]
  | length => simp only [answer, length, htarget, Request.answerOfEmpty]
  | isEmpty => simp only [answer, isEmpty, htarget, Request.answerOfEmpty]
  | capacity => simp only [answer, Caches.capacity?, htarget, Request.answerOfEmpty]
  | clear =>
    obtain ⟨bindings, hb, -⟩ := body?_of_sight?_perThread h
    simp only [answer, clear, clearWithin, hb, detach_of_unbound (bound?_of_sight? h), Request.answerOfEmpty]
  | putIf condition k v =>
    cases condition
    · rfl
    · exact absurd trivial hr
  | removeIf condition k =>
    cases condition
    · rfl
    · simp only [answer, remove, htarget, Request.answerOfEmpty]

/-! ### Writes at a per-thread cache -/

theorem settle_of_perThread (h : w.sight? t i = some (.perThread make capacity? own?))
    (hrank : w.rank i = (w.ownInstance t i make).2.rank (w.ownInstance t i make).1 + 1) :
    w.settle t i = (w.ownInstance t i make).2.settle t (w.ownInstance t i make).1 := by
  obtain ⟨bindings, hb, -⟩ := body?_of_sight?_perThread h
  rw [settle, settleWithin, hb, hrank]
  rfl

theorem putIfAbsent_of_perThread (h : w.sight? t i = some (.perThread make capacity? own?))
    (hrank : w.rank i = (w.ownInstance t i make).2.rank (w.ownInstance t i make).1 + 1) (k : κ) (v : υ) :
    w.putIfAbsent t i k v = (w.ownInstance t i make).2.putIfAbsent t (w.ownInstance t i make).1 k v := by
  obtain ⟨bindings, hb, -⟩ := body?_of_sight?_perThread h
  rw [putIfAbsent, putIfAbsentWithin, hb, hrank]
  rfl

/-- A write goes to the thread's own instance, which is made first if there is none. -/
theorem answer_of_write (h : w.sight? t i = some (.perThread make capacity? own?))
    (hrank : w.rank i = (w.ownInstance t i make).2.rank (w.ownInstance t i make).1 + 1) {r : Request κ υ}
    (hr : r.IsWrite) :
    w.answer t i r = (w.ownInstance t i make).2.answer t (w.ownInstance t i make).1 r := by
  cases r with
  | get | contains | remove | length | isEmpty | clear | capacity | removeIf => exact hr.elim
  | put k v => simp only [answer, put, settle_of_perThread h hrank]
  | putIfAbsent k v => simp only [answer, putIfAbsent_of_perThread h hrank]
  | putIf condition k v =>
    cases condition
    · exact hr.elim
    · simp only [answer, put, settle_of_perThread h hrank]

/-! ### At a per-thread cache with an instance for the thread -/

theorem target_of_bound (h : w.sight? t i = some (.perThread make capacity? (some inner)))
    (hrank : w.rank i = w.rank inner + 1) : w.target t i = w.target t inner := by
  obtain ⟨bindings, hb, hown⟩ := body?_of_sight?_perThread h
  simp only [target, hrank]
  rw [targetWithin, hb]
  simp only [hown]

theorem detach_of_bound (h : w.bound? t i = some inner) :
    w.detach t i = (some inner, (w.unbind t i).emit .detached) := by
  rw [detach, h]

theorem reshapes_detach (h : w.bound? t i = some inner) :
    w.Reshapes (w.detach t i).2 i (Sight.rebound t none) := by
  rw [detach_of_bound h]
  have hre := reshapes_unbind w t i
  exact ⟨hre.size_eq, hre.rank, hre.sight?⟩

theorem answer_of_bound (h : w.sight? t i = some (.perThread make capacity? (some inner)))
    (hrank : w.rank i = w.rank inner + 1) {r : Request κ υ} (hr : r ≠ .clear) :
    w.answer t i r = w.answer t inner r := by
  have hown := ownInstance_of_bound (bound?_of_sight? h) make
  by_cases hw : r.IsWrite
  · rw [answer_of_write h (by rw [hown, hrank]) hw, hown]
  · exact answer_of_target_eq (target_of_bound h hrank) hw hr

/-- `clear` gives the thread's own instance up and clears it. -/
theorem answer_clear_of_bound (h : w.sight? t i = some (.perThread make capacity? (some inner)))
    (hrank : w.rank i = w.rank inner + 1) : w.answer t i .clear = (w.detach t i).2.answer t inner .clear := by
  obtain ⟨bindings, hb, -⟩ := body?_of_sight?_perThread h
  have hrank' : ((w.unbind t i).emit .detached).rank inner = w.rank inner :=
    (reshapes_unbind w t i).rank inner
  simp only [answer, clear]
  rw [clearWithin, hb]
  simp only [detach_of_bound (bound?_of_sight? h), hrank, hrank']

/-! ### At a forwarding cache -/

private theorem target_of_forwarding (h : w.sight? t i = some (.forwarding inner))
    (hrank : w.rank i = w.rank inner + 1) : w.target t i = w.target t inner := by
  rw [target, targetWithin, body?_of_sight?_forwarding h, hrank]
  rfl

private theorem settle_of_forwarding (h : w.sight? t i = some (.forwarding inner))
    (hrank : w.rank i = w.rank inner + 1) : w.settle t i = w.settle t inner := by
  rw [settle, settleWithin, body?_of_sight?_forwarding h, hrank]
  rfl

private theorem clear_of_forwarding (h : w.sight? t i = some (.forwarding inner))
    (hrank : w.rank i = w.rank inner + 1) : w.clear t i = w.clear t inner := by
  rw [clear, clearWithin, body?_of_sight?_forwarding h, hrank]
  rfl

theorem answer_of_forwarding (h : w.sight? t i = some (.forwarding inner)) (hrank : w.rank i = w.rank inner + 1)
    {r : Request κ υ} (hr : ∀ k v, r ≠ .putIfAbsent k v) : w.answer t i r = w.answer t inner r := by
  have hread := answer_of_target_eq (r := r) (target_of_forwarding h hrank)
  have hsettle := settle_of_forwarding h hrank
  cases r with
  | putIfAbsent k v => exact absurd rfl (hr k v)
  | put k v => simp only [answer, put, hsettle]
  | clear => simp only [answer, clear_of_forwarding h hrank]
  | putIf condition k v =>
    cases condition
    · rfl
    · simp only [answer, put, hsettle]
  | get | remove | contains | length | isEmpty | capacity | removeIf => exact hread id (by simp)

/-- What a forwarding cache does on its own: two requests, of which the second is made only if the first finds
nothing. -/
theorem putIfAbsent_of_forwarding (h : w.sight? t i = some (.forwarding inner)) (k : κ) (v : υ) :
    w.putIfAbsent t i k v = w.lookUpThenPut t inner k v := by
  rw [putIfAbsent, putIfAbsentWithin, body?_of_sight?_forwarding h]

end Caches

end Caching
