import Mathlib
import Caching.Proofs.Caches.Alike
import Caching.Proofs.Caches.Confined

/-!
# Work that stays apart

Caches on two sides, of which some instances look alike, and those lie in a zone of their own on the left (`Apart`).
Threads come neither into the zone from outside nor out of it.  So a request outside, on the left alone, leaves alike
what is alike (`Apart.answer_outside`), and a request to instances that look alike is answered alike on both sides and
goes on being apart from the rest (`Apart.answer_inside`).  The same holds of new instances, exits and dropping.
-/

namespace Caching.Caches

variable {κ υ : Type} [BEq κ] [Hashable κ] {w w₁ w' w₁' : Caches κ υ} {t : ThreadId} {i i' : CacheId}
  {r : Request κ υ} {R : CacheId → CacheId → Prop} {f : Factory κ} {zone : CacheId → Zone} {z : Zone}

private theorem Zone.next_of_ne_root (hz : z ≠ .root) (t : ThreadId) : z.next t = z := by
  cases z with
  | root => exact absurd rfl hz
  | outside | inside => rfl

/-- What looks alike lies in one zone on the left. There is no root. -/
structure Apart (w w' : Caches κ υ) (R : CacheId → CacheId → Prop) (zone : CacheId → Zone) : Prop where
  left : w.Sound
  right : w'.Sound
  alike : Alike R w w'
  zoned : w.Zoned zone
  inside : ∀ x x', R x x' → zone x = .inside 0
  no_root : ∀ x, zone x ≠ .root

/-- New instances can be put into any zone. -/
theorem Apart.reserve (h : Apart w w' R zone) (hz : z ≠ .root) : ∃ zone', Apart w w' R zone' ∧
    (∀ x < w.instances.size, zone' x = zone x) ∧ ∀ x, w.instances.size ≤ x → zone' x = z := by
  refine ⟨_, ⟨h.left, h.right, h.alike, h.zoned.relabel h.left.ranked z, fun x x' hx => ?_, fun x => ?_⟩,
    fun x hx => if_neg (Nat.not_le.2 hx), fun x hx => if_pos hx⟩
  · rw [if_neg (Nat.not_le.2 (h.alike.lt_size hx).1)]
    exact h.inside x x' hx
  · split
    · exact hz
    · exact h.no_root x

/-- What is logged does not matter. -/
theorem Apart.relog (h : Apart w w' R zone) (log log' : Array Event) :
    Apart { w with log := log } { w' with log := log' } R zone :=
  ⟨⟨h.left.ranked, h.left.bound, h.left.nodup⟩, ⟨h.right.ranked, h.right.bound, h.right.nodup⟩,
    ⟨h.alike.sight?, h.alike.unique, h.alike.running⟩, h.zoned, h.inside, h.no_root⟩

/-! ### Outside -/

/-- A request outside leaves alike what is alike. -/
theorem Apart.answer_outside (h : Apart w w' R zone) (hnew : ∀ x, w.instances.size ≤ x → zone x = .outside)
    (hi : zone i = .outside) (t : ThreadId) (r : Request κ υ) : Apart (w.answer t i r).2 w' R zone := by
  have hworks := answer_works (h.zoned.closed (t := t) (z := .outside) hnew) (Or.inl hi) r
  refine ⟨hworks.sound h.left, h.right, h.alike.left (fun x x' hx u => ?_) hworks.running_iff,
    hworks.zoned h.zoned hnew, h.inside, h.no_root⟩
  refine hworks.sight?_of_not_mem (h.alike.lt_size hx).1 ?_ u
  rw [Zone.Reaches, h.inside x x' hx]
  simp [Zone.next]

private theorem Sound.make (hw : w.Sound) (hf : f.references = []) : (w.make f).2.Sound := by
  have hact : (w.act (0, .make f)).2 = (w.make f).2 := by
    rw [Caches.act, if_pos (by simp [hf])]
  exact hact ▸ hw.act (0, .make f)

/-- What a factory makes anew lies where new instances are put. -/
private theorem Zoned.make (hzoned : w.Zoned zone) (hz : z ≠ .root) (hnew : ∀ x, w.instances.size ≤ x → zone x = z)
    (hf : f.references = []) : (w.make f).2.Zoned zone ∧ zone (w.make f).1 = z := by
  have hm := make_makes w f
  have hold : ∀ x, x ∉ f.references := by simp [hf]
  refine ⟨fun t j s hs x hx => ?_, hnew _ (hm.new hf).1⟩
  rcases Nat.lt_or_ge j w.instances.size with hj | hj
  · rw [sight?_congr (hm.extends_old.instance? j hj)] at hs
    exact hzoned t j s hs x hx
  · rw [hnew j hj, hnew x ((hm.references t j s hj hs x hx).resolve_left (hold x)).1, Zone.next_of_ne_root hz]

theorem Apart.make_outside (h : Apart w w' R zone) (hnew : ∀ x, w.instances.size ≤ x → zone x = .outside)
    (hf : f.references = []) : Apart (w.make f).2 w' R zone ∧ zone (w.make f).1 = .outside := by
  have hext := (make_makes w f).extends_old
  obtain ⟨hzoned, hi⟩ := h.zoned.make (by simp) hnew hf
  refine ⟨⟨h.left.make hf, h.right, h.alike.left (fun x x' hx u => ?_) fun u => ?_, hzoned, h.inside, h.no_root⟩, hi⟩
  · exact sight?_congr (hext.instance? x (h.alike.lt_size hx).1) u
  · rw [thread_congr hext.threads]

/-! ### Inside -/

private theorem Apart.grown {R₁ : CacheId → CacheId → Prop} (h : Apart w w' R zone)
    (hnew : ∀ x, w.instances.size ≤ x → zone x = .inside 0) (hgrown : Grown w w' R R₁) (x x' : CacheId)
    (hx : R₁ x x') : zone x = .inside 0 :=
  (hgrown.new x x' hx).elim (h.inside x x') fun hx => hnew x hx.1

/-- A request inside is answered alike on both sides. -/
theorem Apart.answer_inside (h : Apart w w' R zone) (hnew : ∀ x, w.instances.size ≤ x → zone x = .inside 0)
    (hi : R i i') (t : ThreadId) (r : Request κ υ) : (w.answer t i r).1 = (w'.answer t i' r).1 ∧
      ∃ R₁, Grown w w' R R₁ ∧ Apart (w.answer t i r).2 (w'.answer t i' r).2 R₁ zone := by
  obtain ⟨hreply, R₁, hgrown, h₁⟩ := h.alike.answer h.left.ranked h.right.ranked hi t r
  have hworks := answer_works (h.zoned.closed (t := t) (z := .inside 0) hnew) (Or.inl (h.inside i i' hi)) r
  exact ⟨hreply, R₁, hgrown, hworks.sound h.left, (w'.answer_works_true t i' r).sound h.right, h₁,
    hworks.zoned h.zoned hnew, h.grown hnew hgrown, h.no_root⟩

theorem Apart.make_inside (h : Apart w w' R zone) (hnew : ∀ x, w.instances.size ≤ x → zone x = .inside 0)
    (hf : f.references = []) : ∃ R₁, Grown w w' R R₁ ∧ Apart (w.make f).2 (w'.make f).2 R₁ zone ∧
      R₁ (w.make f).1 (w'.make f).1 := by
  obtain ⟨R₁, hgrown, h₁, hi⟩ := h.alike.make hf
  exact ⟨R₁, hgrown, ⟨h.left.make hf, h.right.make hf, h₁, (h.zoned.make (by simp) hnew hf).1, h.grown hnew hgrown,
    h.no_root⟩, hi⟩

/-! ### Exits and dropping -/

theorem Apart.exit (h : Apart w w' R zone) (t : ThreadId) :
    Apart ((w.beginExit t).finishExit t) ((w'.beginExit t).finishExit t) R zone :=
  ⟨h.left.exit t, h.right.exit t, h.alike.exit h.left h.right t, (shrinks_exit w t).zoned h.zoned, h.inside, h.no_root⟩

/-- What is still referred to looks alike after the rest is dropped on the left. -/
theorem Apart.dropUnreachable (h : Apart w w' R zone) (roots : List CacheId) :
    Apart (w.dropUnreachable roots) w' (fun x x' => R x x' ∧ x ∈ w.reachable roots) zone where
  left := h.left.act (0, .drop roots)
  right := h.right
  alike := h.alike.dropUnreachable roots
  zoned t i s hs := h.zoned t i s (sight?_of_dropUnreachable hs).2
  inside x x' hx := h.inside x x' hx.1
  no_root := h.no_root

end Caching.Caches
