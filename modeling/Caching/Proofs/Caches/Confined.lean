import Mathlib
import Caching.Proofs.Caches.Calls
import Caching.Proofs.Caches.Private
import Caching.Proofs.Caches.Run

/-!
# Who comes where

Seen from one per-thread cache, the `root`, the instances fall into zones: those that were made inside it for a thread,
and all others.  A thread comes from the root to what is inside for this thread, from there to nowhere else, and from
outside neither to the root nor inside (`Zoned`), and that is so again after every request, if what the request has made
is put into the zone that it was made in.  So what a thread does outside changes nothing that any thread is shown at the
root, and what it does at the root or inside changes nothing for another thread (`Confined.answer`).
-/

namespace Caching.Caches

variable {κ υ : Type} [BEq κ] [Hashable κ] {w₀ w w' : Caches κ υ} {t u : ThreadId} {i j root : CacheId}
  {r : Request κ υ} {S : CacheId → Prop} {p : Private κ υ}

inductive Zone where
  | outside
  | root
  | inside (t : ThreadId)
  deriving DecidableEq

/-- The zone that a thread comes to from an instance of a zone. -/
def Zone.next : Zone → ThreadId → Zone
  | .outside, _ => .outside
  | .root, t => .inside t
  | .inside u, _ => .inside u

private theorem Zone.next_next (z : Zone) (t u : ThreadId) : (z.next t).next u = z.next t := by cases z <;> rfl

private theorem Zone.next_ne_root (z : Zone) (t : ThreadId) : z.next t ≠ .root := by cases z <;> simp [next]

variable {zone zone' : CacheId → Zone} {z : Zone}

def Zoned (w : Caches κ υ) (zone : CacheId → Zone) : Prop :=
  ∀ t i s, w.sight? t i = some s → ∀ x ∈ s.references, zone x = (zone i).next t

private theorem Touch.zoned (h : Touch r t i w w') (hz : w.Zoned zone)
    (hnew : ∀ x, w.instances.size ≤ x → zone x = (zone i).next t) : w'.Zoned zone := by
  intro u j s' hs' x hx
  rcases h.references hs' hx with ⟨s, hs, hx⟩ | ⟨hj, hx⟩
  · exact hz u j s hs x hx
  · have hx' : zone x = (zone i).next t :=
      hx.elim (fun hx => hnew x hx.1) fun ⟨s, hs, hx⟩ => hz t i s hs x hx
    rcases hj with hj | ⟨rfl, rfl⟩
    · rw [hx', hnew j hj, Zone.next_next]
    · exact hx'

/-- The zone of an instance and the zone that the thread comes to from it. -/
def Zone.Reaches (zone : CacheId → Zone) (z : Zone) (t : ThreadId) (i : CacheId) : Prop :=
  zone i = z ∨ zone i = z.next t

theorem Zoned.closed (hz : w.Zoned zone) (hnew : ∀ x, w.instances.size ≤ x → zone x = z.next t) :
    w.Closed t (Zone.Reaches zone z t) where
  new x hx := Or.inr (hnew x hx)
  seen i s hi hs x hx := by
    rw [Zone.Reaches, hz t i s hs x hx]
    rcases hi with hi | hi
    · exact Or.inr (by rw [hi])
    · exact Or.inr (by rw [hi, Zone.next_next])

theorem Works.zoned (h : Works r t (Zone.Reaches zone z t) w w') (hz : w.Zoned zone)
    (hnew : ∀ x, w.instances.size ≤ x → zone x = z.next t) : w'.Zoned zone :=
  (h.induct (P := fun w' => w'.Zoned zone ∧ ∀ x, w'.instances.size ≤ x → zone x = z.next t)
    (fun w₁ w₂ i hi htouch ⟨hz₁, hnew₁⟩ => by
      have hnext : (zone i).next t = z.next t := by
        rcases hi with hi | hi
        · rw [hi]
        · rw [hi, Zone.next_next]
      exact ⟨htouch.zoned hz₁ fun x hx => (hnew₁ x hx).trans hnext.symm,
        fun x hx => hnew₁ x (Nat.le_trans htouch.size_le hx)⟩) ⟨hz, hnew⟩).1

/-- The numbers that are not given yet can be put into any zone. -/
theorem Zoned.relabel (hz : w.Zoned zone) (hw : w.Ranked) (z : Zone) :
    w.Zoned fun x => if w.instances.size ≤ x then z else zone x := by
  intro t i s hs x hx
  have hi := lt_size_of_sight? hs
  have hx' := (hw.reference hs hx).1.lt_size
  simp only [Nat.not_le.2 hi, Nat.not_le.2 hx', if_false]
  exact hz t i s hs x hx

theorem Shrinks.zoned (h : Shrinks t w w') (hz : w.Zoned zone) : w'.Zoned zone := by
  intro u i s' hs' x hx
  obtain ⟨s, hs, hkind, hown⟩ := h.was hs'
  refine hz u i s hs x ((hkind.references hx).elim id fun hx => ?_)
  exact Sight.mem_references_of_own? (hown x hx)

/-! ### What a thread is shown -/

/-- Only a store, or an instance of the thread that does the work, is seen differently after it. -/
private theorem Works.sight?_eq (h : Works r t S w w') {s : Sight κ υ} (hs : w.sight? u i = some s)
    (hi : S i → u ≠ t ∧ ∀ contents, s ≠ .store contents) : w'.sight? u i = some s := by
  by_cases hSi : S i
  · obtain ⟨ht, hstore⟩ := hi hSi
    obtain ⟨s', hs', hkind, hown⟩ := h.kept hs
    rw [hs', ← hkind.eq_of_own? (hown ht) hstore]
  · exact (h.sight?_of_not_mem (lt_size_of_sight? hs) hSi u).trans hs

/-- The other threads are shown what they were shown. -/
theorem Shrinks.shows (h : Shrinks t w w') (hu : u ≠ t) (hp : w.Shows u i p) : w'.Shows u i p := by
  refine hp.frame (S := fun _ => True) trivial (fun _ _ _ _ _ _ => trivial) fun i s _ hs => ?_
  obtain ⟨s', hs', -, hsame⟩ := h.kept hs
  rw [hs', hsame hu]

/-! ### One per-thread cache and the rest -/

/-- The caches since `w₀`, seen from a per-thread cache `root`. -/
structure Confined (w₀ : Caches κ υ) (root : CacheId) (w : Caches κ υ) (zone : CacheId → Zone) : Prop where
  sound : w.Sound
  zoned : w.Zoned zone
  root_iff : ∀ i, zone i = .root ↔ i = root
  size_le : w₀.instances.size ≤ w.instances.size
  outside : ∀ i, i < w₀.instances.size → i ≠ root → zone i = .outside
  kinds : ∀ t i s, w₀.sight? t i = some s → ∃ s', w.sight? t i = some s' ∧ s.SameKind s'

theorem Confined.shrinks (hc : Confined w₀ root w zone) (h : Shrinks t w w') (hsound : w'.Sound) :
    Confined w₀ root w' zone where
  sound := hsound
  zoned := h.zoned hc.zoned
  root_iff := hc.root_iff
  size_le := h.size_eq ▸ hc.size_le
  outside := hc.outside
  kinds u i s hs := by
    obtain ⟨s₁, hs₁, hkind₁⟩ := hc.kinds u i s hs
    obtain ⟨s₂, hs₂, hkind₂, -⟩ := h.kept hs₁
    exact ⟨s₂, hs₂, hkind₁.trans hkind₂⟩

section

variable {make : Factory κ} {capacity? : Option Nat} {bindings : Std.HashMap ThreadId CacheId}
  (hc : Confined w₀ root w zone) (hroot : w₀.body? root = some (.perThread make capacity? bindings))
include hc hroot

/-- The root is the per-thread cache that it was. -/
theorem Confined.sight?_root (u : ThreadId) :
    w.sight? u root = some (.perThread make capacity? (w.bound? u root)) := by
  obtain ⟨s, hs, hkind⟩ := hc.kinds u root _ (sight?_of_body?_perThread hroot u)
  cases s with
  | perThread make' capacity?' own? =>
    obtain ⟨rfl, rfl⟩ := hkind
    rw [bound?_of_sight? hs, hs]
  | store | forwarding => cases hkind

/-- A request to an instance outside, or by a thread to the root or to an instance that was made inside for it. -/
theorem Confined.answer (t : ThreadId) (hi : i < w.instances.size)
    (hzone : zone i = .outside ∨ zone i = .root ∨ zone i = .inside t) (r : Request κ υ) :
    ∃ zone', Confined w₀ root (w.answer t i r).2 zone' ∧ (∀ x < w.instances.size, zone' x = zone x) ∧
      (∀ u p, u ≠ t ∨ zone i = .outside → w.Shows u root p → (w.answer t i r).2.Shows u root p) ∧
      ∃ S, (zone i ≠ .root → ¬ S root) ∧ Works r t S w (w.answer t i r).2 := by
  have hsize : root < w.instances.size := lt_size_of_sight? (hc.sight?_root hroot t)
  -- what the request makes is put where the thread comes to from the instance
  obtain ⟨zone', hold, hnew, hz⟩ : ∃ zone' : CacheId → Zone, (∀ x < w.instances.size, zone' x = zone x) ∧
      (∀ x, w.instances.size ≤ x → zone' x = (zone i).next t) ∧ w.Zoned zone' :=
    ⟨_, fun x hx => if_neg (Nat.not_le.2 hx), fun x hx => if_pos hx, hc.zoned.relabel hc.sound.ranked _⟩
  have hworks := answer_works (hz.closed hnew) (Or.inl (hold i hi)) r
  refine ⟨zone', ⟨hworks.sound hc.sound, hworks.zoned hz hnew, fun x => ?_,
    Nat.le_trans hc.size_le hworks.size_le, fun x hx hne => ?_, fun u x s hs => ?_⟩, hold, fun u p hu hp => ?_,
    _, fun hne hS => ?_, hworks⟩
  · rcases Nat.lt_or_ge x w.instances.size with hx | hx
    · rw [hold x hx, hc.root_iff]
    · rw [hnew x hx]
      exact ⟨fun h => absurd h (Zone.next_ne_root _ _), fun h => absurd hsize (Nat.not_lt.2 (h ▸ hx))⟩
  · rw [hold x (Nat.lt_of_lt_of_le hx hc.size_le), hc.outside x hx hne]
  · obtain ⟨s', hs', hkind⟩ := hc.kinds u x s hs
    obtain ⟨s'', hs'', hkind', -⟩ := hworks.kept hs'
    exact ⟨s'', hs'', hkind.trans hkind'⟩
  · refine hp.frame (S := fun x => zone x = .root ∨ zone x = .inside u) (Or.inl ((hc.root_iff root).2 rfl))
      (fun x s hx hs y hy => Or.inr ?_) fun x s hx hs => hworks.sight?_eq hs fun hSx => ?_
    · rw [hc.zoned u x s hs y hy]
      rcases hx with hx | hx <;> rw [hx] <;> rfl
    · -- the work comes to nothing that is shown to the thread but the root itself
      have hxroot : x = root ∧ u ≠ t := by
        rw [Zone.Reaches, hold x (lt_size_of_sight? hs)] at hSx
        rw [← hc.root_iff x]
        rcases hzone with hzi | hzi | hzi <;> rw [hzi] at hSx hu <;> rcases hx with hx | hx <;>
          rw [hx] at hSx ⊢ <;> simp_all [Zone.next]
      refine ⟨hxroot.2, fun contents h => ?_⟩
      rw [hxroot.1, hc.sight?_root hroot u] at hs
      cases h ▸ Option.some.inj hs
  · rw [Zone.Reaches, hold root hsize, (hc.root_iff root).2 rfl] at hS
    exact hS.elim (fun h => hne h.symm) fun h => Zone.next_ne_root _ _ h.symm

/-- Several requests of a thread to an instance outside, or made inside for it. -/
theorem Confined.answers (t : ThreadId) (hi : i < w.instances.size) (hzone : zone i = .outside ∨ zone i = .inside t)
    (rs : List (Request κ υ)) :
    ∃ w' zone', (Caching.answers (fun w r => w.answer t i r) w rs).2 = w' ∧ Confined w₀ root w' zone' ∧
      (∀ u p, u ≠ t ∨ zone i = .outside → w.Shows u root p → w'.Shows u root p) ∧
      w'.sight? t root = w.sight? t root ∧ (∀ u, u ≠ t → w'.thread u = w.thread u) ∧
      (∀ releases, w.thread t = .running releases →
        ∃ releases', w'.thread t = .running releases' ∧ releases ⊆ releases') ∧
      ∀ counter, w.CountsAt counter root →
        w'.CountsAt counter root ∧ w'.builtCount counter = w.builtCount counter := by
  induction rs generalizing w zone with
  | nil =>
    exact ⟨w, zone, rfl, hc, fun _ _ _ h => h, rfl, fun _ _ => rfl,
      fun releases h => ⟨releases, h, List.Subset.refl _⟩, fun _ h => ⟨h, rfl⟩⟩
  | cons r rs ih =>
    have hne : zone i ≠ .root := by rcases hzone with h | h <;> rw [h] <;> simp
    obtain ⟨zone₁, hc₁, hold, hshows, S, hS, hworks⟩ := hc.answer hroot t hi (hzone.imp_right Or.inr) r
    obtain ⟨w', zone', hw', hc', hshows', hsight', hthread', hrun', hcounts'⟩ :=
      ih hc₁ (Nat.lt_of_lt_of_le hi hworks.size_le) (by rw [hold i hi]; exact hzone)
    refine ⟨w', zone', hw', hc', fun u p hu hp => hshows' u p (by rwa [hold i hi]) (hshows u p hu hp), ?_,
      fun u hu => (hthread' u hu).trans (hworks.thread_of_ne hu), fun releases hrun => ?_, fun counter hcounts => ?_⟩
    · exact hsight'.trans (hworks.sight?_of_not_mem (lt_size_of_sight? (hc.sight?_root hroot t)) (hS hne) t)
    · obtain ⟨releases₁, hrun₁, hsub₁⟩ := hworks.running hrun
      obtain ⟨releases₂, hrun₂, hsub₂⟩ := hrun' releases₁ hrun₁
      exact ⟨releases₂, hrun₂, List.Subset.trans hsub₁ hsub₂⟩
    · obtain ⟨hcounts₂, hbuilt⟩ := hcounts' counter (hworks.countsAt hcounts)
      exact ⟨hcounts₂, hbuilt.trans (hworks.builtCount (hS hne) hcounts)⟩

omit hroot in
/-- What becomes of an instance outside is not shown at the root. -/
theorem Confined.shows_reshapes (hi : zone i = .outside) {f : ThreadId → Sight κ υ → Sight κ υ}
    (hre : w.Reshapes w' i f) (hp : w.Shows u root p) : w'.Shows u root p := by
  refine hp.frame (S := fun x => zone x = .root ∨ zone x = .inside u) (Or.inl ((hc.root_iff root).2 rfl))
    (fun x s hx hs y hy => Or.inr ?_) fun x s hx hs => ?_
  · rw [hc.zoned u x s hs y hy]
    rcases hx with hx | hx <;> rw [hx] <;> rfl
  · rw [hre.sight?, if_neg fun hix => ?_, hs]
    rw [← hix, hi] at hx
    rcases hx with hx | hx <;> cases hx

end

end Caching.Caches
