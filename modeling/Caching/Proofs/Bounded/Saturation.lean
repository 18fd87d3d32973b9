import Caching.Proofs.Bounded.FrequencyRuns

/-!
# Uses at the largest frequency

A frequency stops at the largest word.  An entry that is used there is taken out of its bucket and put back into
it.  With others in the bucket this is a use like any other (`Promoted`).  An entry that stands there alone takes
its bucket with it and finds none to go back to (`Lost`): the index leads to it and the cache counts it as before,
but it is not listed, and no eviction finds it.
-/

namespace Caching.FrequencyCache

open Linked
open Layer (flat)
open Bounded (Request CountedRequest)

variable {κ υ : Type} [BEq κ] [Hashable κ] {c : FrequencyCache κ υ} {L : List (Layer κ υ)} {h : Handle}
  {e : Entry κ υ} {k : κ} {l r others : List (Handle × Entry κ υ)} {z : Handle × Entry κ υ}

private theorem toNat_frequencyAfter_eq_min (f : UInt64) :
    (frequencyAfter f).toNat = min (f.toNat + 1) (2 ^ 64 - 1) := by
  by_cases hf : f.toNat + 1 < 2 ^ 64
  · rw [toNat_frequencyAfter hf]
    omega
  · have hlt := f.toNat_lt
    rw [frequencyAfter_of_largest hf]
    omega

/-- The cache after a use of the entry `z`: the invariant holds, the entry is behind those of its frequency, and
the others are as they were. -/
structure Promoted (c : FrequencyCache κ υ) (z : Handle × Entry κ υ) (others : List (Handle × Entry κ υ)) :
    Prop where
  placed : ∃ L, c.Holds L ∧ PlacedIn z others (flat L)
  listed : z.2.key ∈ c.keys
  frequency : c.frequencyOf? z.2.key = some z.2.frequency
  length_put_le : ∀ k v, (c.put k v).2.2.length ≤ c.capacity.size

/-- The cache without the entry `z` in any bucket: it is found and counted, but not listed, and if there are no
others, a new key costs no entry even if the cache is full. -/
structure Lost (c : FrequencyCache κ υ) (z : Handle × Entry κ υ) (others : List (Handle × Entry κ υ)) : Prop where
  contains : c.contains z.2.key = true
  length : c.length = others.length + 1
  keys : c.keys = others.map fun w => w.2.key
  not_holds : ∀ L, ¬ c.Holds L
  length_put : others = [] → ∀ k v, c.index[k]? = none → (c.put k v).2.2.length = c.length + 1

/-! ### One entry used over and over -/

/-- The cache after one value was stored and then looked up `n` times. -/
def lookedUp (capacity : Capacity) (k : κ) (v : υ) (n : Nat) : FrequencyCache κ υ :=
  (answers answer (empty capacity) (.plain (.put k v) :: List.replicate n (.plain (.get k)))).2

private theorem lookedUp_succ (capacity : Capacity) (k : κ) (v : υ) (n : Nat) :
    lookedUp capacity k v (n + 1) = ((lookedUp capacity k v n).get k).2 := by
  rw [lookedUp, List.replicate_succ', ← List.cons_append, answers_append]
  rfl

/-- Storing counts as the first use. -/
theorem holds_lookedUp [EquivBEq κ] [LawfulHashable κ] (capacity : Capacity) (k : κ) (v : υ) {n : Nat}
    (hn : n + 1 < 2 ^ 64) :
    ∃ L h e, (lookedUp capacity k v n).Holds L ∧ (lookedUp capacity k v n).capacity = capacity ∧
      flat L = [(h, e)] ∧ (lookedUp capacity k v n).index[k]? = some h ∧ (e.key == k) = true ∧
      e.frequency.toNat = n + 1 := by
  have hindex : ∀ {c : FrequencyCache κ υ} {L : List (Layer κ υ)} {h : Handle} {e : Entry κ υ}, c.Holds L →
      flat L = [(h, e)] → (e.key == k) = true → c.index[k]? = some h :=
    fun hc hflat hek => (hc.index.getElem? _ _).2 ⟨_, by rw [hflat]; exact List.mem_cons_self .., hek⟩
  induction n with
  | zero =>
    obtain ⟨-, -, h, L, hc, hp⟩ := (Holds.empty capacity).put_new (k := k) Std.HashMap.getElem?_empty v
    have hflat : flat L = [(h, { key := k, value := v, frequency := 1 })] := by
      have hperm := hp.perm
      rw [Layer.flat_nil, List.tail_nil, ite_self] at hperm
      exact List.perm_singleton.1 hperm
    exact ⟨L, h, _, hc, capacity_put _ k v, hflat, hindex hc hflat BEq.rfl, BEq.rfl, rfl⟩
  | succ n ih =>
    obtain ⟨L, h, e, hc, hcap, hflat, hk, hek, hf⟩ := ih (by omega)
    have hlt : e.frequency.toNat + 1 < 2 ^ 64 := by omega
    obtain ⟨-, L', hc', hp⟩ := hc.get_hit (l := []) (r := []) hk hflat (Or.inl hlt)
    have hflat' : flat L' = [(h, e.used)] := List.perm_singleton.1 hp.perm
    rw [lookedUp_succ]
    refine ⟨L', h, e.used, hc', (capacity_get _ k).trans hcap, hflat', hindex hc' hflat' hek, hek, ?_⟩
    rw [Entry.used, toNat_frequencyAfter hlt, hf]

/-! ### An entry alone at the largest frequency -/

/-- The bucket goes as the entry leaves it, and joining it changes nothing. -/
private theorem Laid.promote_alone (hc : c.Laid L []) (ht : ∀ x ∈ L, x.Tidy) (hflat : flat L = l ++ (h, e) :: r)
    (hf : ¬ e.Movable (l ++ r)) :
    ∃ L', (c.promote h).Laid L' [(h, e.used)] ∧ (∀ x ∈ L', x.Tidy) ∧ flat L' = l ++ r := by
  have hget := (hc.entries.get? h e).2 (by simp [hflat])
  obtain ⟨A, x, B, l, r, rfl, hxe, rfl, rfl, hxf, hb⟩ := hc.split ht hflat
  obtain ⟨hlargest, hothers⟩ := not_or.1 hf
  have hnone : ∀ z ∈ l ++ r, False := by
    intro z hz
    have hzx : z ∈ x.entries := by
      rw [hxe]
      exact List.perm_middle.mem_iff.2 (List.mem_cons_of_mem _ hz)
    have hzf := (ht x (by simp)).frequency z hzx
    refine hothers ⟨z, ?_, hzf.trans hxf⟩
    simp only [List.mem_append] at hz ⊢
    tauto
  obtain ⟨rfl, rfl⟩ := List.append_eq_nil_iff.1 (List.eq_nil_iff_forall_not_mem.2 hnone)
  have hleft := hc.leaveBucket_alone hxe
  have hgone : (c.leaveBucket x.handle h).buckets.get? x.handle = none := by
    rw [Option.eq_none_iff_forall_ne_some]
    intro b hxb
    obtain ⟨y, hy, hyb⟩ := List.mem_map.1 ((hleft.buckets.stores.get? _ _).1 hxb)
    exact hc.handle_ne y hy (congrArg Prod.fst hyb)
  have hjoin : (c.leaveBucket x.handle h).joinBucket x.handle h = c.leaveBucket x.handle h := by
    simp only [FrequencyCache.joinBucket, hgone]
  rw [promote_of_largest hget hb (frequencyAfter_of_largest hlargest), hjoin]
  refine ⟨A ++ B, (hleft.setLoose fun e' => { e' with frequency := frequencyAfter e.frequency }).front _ _ _, ?_,
    by simp⟩
  rw [List.forall_mem_append, List.forall_mem_cons] at ht
  exact List.forall_mem_append.2 ⟨ht.1, ht.2.2⟩

variable [EquivBEq κ] [LawfulHashable κ]

/-- Without a bucket there is nothing to give up. -/
private theorem length_put_of_no_bucket (hb : c.chain.first? = none) (hk : c.index[k]? = none) (v : υ) :
    (c.put k v).2.2.length = c.length + 1 := by
  have hevict : c.evict = (none, c) := by
    simp only [evict, hb]
  have hindex : (c.insertNew k v).index = c.index.insert k
      (c.firstBucket.2.entries.insert { key := k, value := v, frequency := 1 }).1 :=
    congrArg (Std.HashMap.insert · k _)
      (c.sameFront_firstBucket.trans ((sameFront_setEntries _ _).trans (sameFront_joinBucket _ _ _))).index
  have hnew : (c.put k v).2.2 = c.insertNew k v := by
    rw [put_of_absent hk, hevict, ite_self]
  rw [hnew, length, hindex, size_insert_of_absent hk, length]

namespace Holds

private theorem lost (hc : c.Holds L) (hflat : flat L = l ++ (h, e) :: r) (hf : ¬ e.Movable (l ++ r)) :
    (c.promote h).Lost (h, e.used) (l ++ r) := by
  obtain ⟨L', hlaid, htidy, hflat'⟩ := hc.laid.promote_alone hc.tidy hflat hf
  have hindex := (c.index_promote h).1
  have hkeys : (c.promote h).keys = (l ++ r).map fun w => w.2.key := by
    rw [FrequencyCache.keys, hlaid.toList, hflat', List.map_map]
    rfl
  have hlength : (c.promote h).length = (l ++ r).length + 1 := by
    rw [FrequencyCache.length, hindex, hc.index.size, hflat, List.perm_middle.length_eq, List.length_cons]
  refine ⟨?_, hlength, hkeys, ?_, ?_⟩
  · have hmem : c.index[e.key]? = some h := (hc.index.getElem? _ _).2 ⟨e, by simp [hflat], BEq.rfl⟩
    show (c.promote h).index.contains e.key = true
    rw [hindex, ← Std.HashMap.isSome_getElem?_eq_contains, hmem]
    rfl
  · -- the index would lead to listed entries only
    intro L'' hc''
    have hcount := congrArg List.length (hkeys.symm.trans hc''.keys)
    rw [List.length_map, List.length_map, ← hc''.length, hlength] at hcount
    omega
  · intro hnone k v hk
    have hL : L' = [] := by
      rw [List.eq_nil_iff_forall_not_mem]
      intro x hx
      obtain ⟨w, hw⟩ := List.exists_mem_of_ne_nil _ (htidy x hx).filled
      have hmem : w ∈ flat L' := Layer.mem_flat.2 ⟨x, hx, hw⟩
      rw [hflat', hnone] at hmem
      cases hmem
    have hfirst : (c.promote h).chain.first? = none := by
      rw [hlaid.buckets.lists.first, hL]
      rfl
    exact length_put_of_no_bucket hfirst hk v

omit [LawfulHashable κ] in
/-- A key that is there is found, even if that loses its entry. -/
theorem get_fst (hc : c.Holds L) (hk : c.index[k]? = some h) (hflat : flat L = l ++ (h, e) :: r) :
    (c.get k).1 = some e.value := by
  by_cases hf : e.Movable (l ++ r)
  · exact (hc.get_hit hk hflat hf).1
  · have hcount := hc.setCounters (c.count .hit).counters
    obtain ⟨L', hlaid, -⟩ := hcount.laid.promote_alone hcount.tidy hflat hf
    have hget := (hlaid.entries.get? h e.used).2 (List.mem_cons_self ..)
    simp only [FrequencyCache.get, hk]
    exact congrArg (Option.map Entry.value) hget

private theorem length_put_le (hc : c.Holds L) (k : κ) (v : υ) : (c.put k v).2.2.length ≤ c.capacity.size := by
  cases hk : c.index[k]? with
  | some h =>
    have hle := hc.length_le
    rw [← hc.length] at hle
    simp only [put, hk, FrequencyCache.length, (index_promote _ h).1]
    exact hle
  | none =>
    obtain ⟨-, -, -, L', hc', -⟩ := hc.put_new hk v
    have hle := hc'.length_le
    rw [← hc'.length, c.capacity_put] at hle
    exact hle

/-- What the invariant says of a cache with the entry in its place. -/
private theorem promoted (hc : c.Holds L) (hp : PlacedIn z others (flat L)) : c.Promoted z others where
  placed := ⟨L, hc, hp⟩
  listed := by
    rw [hc.keys]
    exact List.mem_map.2 ⟨z, hp.perm.mem_iff.2 (List.mem_cons_self ..), rfl⟩
  frequency := hc.frequencyOf?_eq_some.2 ⟨z, hp.perm.mem_iff.2 (List.mem_cons_self ..), BEq.rfl, rfl⟩
  length_put_le := hc.length_put_le

/-- The only entry of a cache is lost with a look-up at the largest frequency. -/
private theorem only_entry_lost (hc : c.Holds L) (hflat : flat L = [(h, e)]) (hk : c.index[k]? = some h)
    (hf : e.frequency.toNat = 2 ^ 64 - 1) :
    (c.get k).2.Lost (h, e.used) [] ∧
      ∀ k' v, (e.key == k') = false → ((c.get k).2.put k' v).2.2.length = 2 := by
  have hfixed : ¬ e.Movable [] := by
    rintro (hlt | ⟨z, hz, -⟩)
    · omega
    · cases hz
  have hget : (c.get k).2 = (c.count .hit).promote h := by
    simp only [FrequencyCache.get, hk]
  have hlost : (c.get k).2.Lost (h, e.used) [] := by
    rw [hget]
    exact (hc.setCounters (c.count .hit).counters).lost (l := []) (r := []) hflat hfixed
  refine ⟨hlost, ?_⟩
  intro k' v hk'
  have habsent : (c.get k).2.index[k']? = none := by
    rw [hget, (index_promote _ h).1, Option.eq_none_iff_forall_ne_some]
    intro i hi
    obtain ⟨e', hmem, hek⟩ := (hc.index.getElem? k' i).1 hi
    rw [hflat, List.mem_singleton, Prod.mk.injEq] at hmem
    rw [hmem.2, hk'] at hek
    exact Bool.false_ne_true hek
  rw [hlost.length_put rfl k' v habsent, hlost.length]
  rfl

end Holds

/-! ### A use at any frequency -/

/-- A look-up or an overwrite of a key, at any frequency, keeps the invariant and all other entries, unless the
entry stands alone at the largest frequency; then it is lost. -/
theorem use_promotes_unless_alone_at_largest (hc : c.Holds L) (hk : c.contains k = true) (v : υ) :
    ∃ h e l r, flat L = l ++ (h, e) :: r ∧ (e.key == k) = true ∧
      e.used.frequency.toNat = min (e.frequency.toNat + 1) (2 ^ 64 - 1) ∧
      (e.Movable (l ++ r) →
        (c.get k).2.Promoted (h, e.used) (l ++ r) ∧
        (c.put k v).2.2.Promoted (h, { e with value := v }.used) (l ++ r)) ∧
      (¬ e.Movable (l ++ r) →
        (c.get k).2.Lost (h, e.used) (l ++ r) ∧
        (c.put k v).2.2.Lost (h, { e with value := v }.used) (l ++ r)) := by
  obtain ⟨h, hh⟩ : ∃ h, c.index[k]? = some h := by
    rw [← Option.isSome_iff_exists, Std.HashMap.isSome_getElem?_eq_contains]
    exact hk
  obtain ⟨e, l, r, hflat, hek, -⟩ := hc.lookup hh
  refine ⟨h, e, l, r, hflat, hek, toNat_frequencyAfter_eq_min _, ?_, ?_⟩
  · intro hf
    obtain ⟨-, L₁, hget, hp₁⟩ := hc.get_hit hh hflat hf
    obtain ⟨-, -, L₂, hput, hp₂⟩ := hc.put_hit hh hflat hf v
    exact ⟨hget.promoted hp₁, hput.promoted hp₂⟩
  · intro hf
    obtain ⟨L', hflat', hc'⟩ := hc.setValue hflat v
    simp only [FrequencyCache.get, FrequencyCache.put, hh]
    exact ⟨(hc.setCounters (c.count .hit).counters).lost hflat hf,
      (hc'.setCounters (c.count .update).counters).lost hflat' hf⟩

/-- An entry that is used beside one of its frequency and one of a higher one goes between them. -/
theorem entry_promoted_between_others :
    let rs : List (CountedRequest Nat Nat) :=
      .plain (.put 0 10) :: List.replicate 4 (.plain (.get 0)) ++ [.plain (.put 1 11), .plain (.put 2 12)]
    let c := (answers answer (empty ⟨3, Nat.succ_pos 2⟩) rs).2
    (∃ L, c.Holds L) ∧ c.contains 1 = true ∧ c.keys = [1, 2, 0] ∧
      ∃ z x y, z.2.key = 1 ∧ z.2.frequency = 2 ∧ x.2.key = 2 ∧ y.2.key = 0 ∧
        ((c.get 1).2.Promoted z [x, y] ∧ (c.get 1).2.keys = [2, 1, 0]) ∧
        ∃ w, (c.put 1 21).2.2.Promoted w [x, y] ∧ (c.put 1 21).2.2.keys = [2, 1, 0] := by
  intro rs c
  have hrs : rs.length < 2 ^ 64 - 1 := by decide
  obtain ⟨-, hagrees, -⟩ := answers_agree ⟨3, Nat.succ_pos 2⟩ hrs
  have hget : (c.get 1).2.keys = [2, 1, 0] := by
    obtain ⟨-, L, T, hcm⟩ := hagrees.get (by decide) 1
    exact hcm.keys
  have hput : (c.put 1 21).2.2.keys = [2, 1, 0] := by
    obtain ⟨-, L, T, hcm⟩ := hagrees.put (by decide) 1 21
    exact hcm.keys
  obtain ⟨L, T, hcm⟩ := hagrees
  have hcontains : c.contains 1 = true := hcm.contains 1
  obtain ⟨h, e, l, r, hflat, hek, -, hpromoted, -⟩ :=
    use_promotes_unless_alone_at_largest hcm.holds hcontains 21
  have hlist : c.toList = [⟨1, 11, 1⟩, ⟨2, 12, 1⟩, ⟨0, 10, 5⟩] := Entry.shown_injective.list_map hcm.toList_shown
  rw [hcm.holds.laid.toList, hflat] at hlist
  obtain ⟨x, y, rfl, rfl, rfl, hx, hy⟩ :
      ∃ x y, l = [] ∧ r = [x, y] ∧ e = ⟨1, 11, 1⟩ ∧ x.2 = ⟨2, 12, 1⟩ ∧ y.2 = ⟨0, 10, 5⟩ := by
    rcases l with _ | ⟨w, l⟩
    · obtain ⟨he, hr⟩ := List.cons_eq_cons.1 hlist
      obtain ⟨x, r, rfl, hx, hr⟩ := List.map_eq_cons_iff.1 hr
      obtain ⟨y, r, rfl, hy, hr⟩ := List.map_eq_cons_iff.1 hr
      obtain rfl := List.map_eq_nil_iff.1 hr
      exact ⟨x, y, rfl, rfl, he, hx, hy⟩
    · -- the other two have other keys
      have hmem : e ∈ [(⟨2, 12, 1⟩ : Entry Nat Nat), ⟨0, 10, 5⟩] := by
        rw [← (List.cons_eq_cons.1 hlist).2]
        exact List.mem_map.2 ⟨(h, e), by simp, rfl⟩
      simp only [List.mem_cons, List.not_mem_nil, or_false] at hmem
      rcases hmem with rfl | rfl <;> cases hek
  obtain ⟨hused, hstored⟩ := hpromoted (Or.inl (by decide))
  exact ⟨⟨L, hcm.holds⟩, hcontains, hcm.keys, _, x, y, rfl, rfl, congrArg Entry.key hx, congrArg Entry.key hy,
    ⟨hused, hget⟩, _, hstored, hput⟩

/-- Storing a value and looking it up `2 ^ 64 - 2` times brings its entry to the largest frequency.  There is no room
for a second key beside it; but after one more look-up no key is listed, and the cache takes a second one without
giving anything up. -/
theorem entry_alone_at_largest_is_lost :
    let c : FrequencyCache Nat Nat := lookedUp ⟨1, Nat.one_pos⟩ 0 10 (2 ^ 64 - 2)
    (∃ L, c.Holds L) ∧ c.keys = [0] ∧ (c.frequencyOf? 0).map (·.toNat) = some (2 ^ 64 - 1) ∧
      (c.put 1 11).2.2.length ≤ 1 ∧
      (¬ ∃ L, (c.get 0).2.Holds L) ∧ (c.get 0).2.keys = [] ∧ (c.get 0).2.contains 0 = true ∧
      ((c.get 0).2.put 1 11).2.2.length = 2 := by
  intro c
  obtain ⟨L, h, e, hc, hcap, hflat, hk, hek, hn⟩ :
      ∃ L h e, c.Holds L ∧ c.capacity = ⟨1, Nat.one_pos⟩ ∧ flat L = [(h, e)] ∧ c.index[0]? = some h ∧
        (e.key == 0) = true ∧ e.frequency.toNat = 2 ^ 64 - 2 + 1 :=
    holds_lookedUp ⟨1, Nat.one_pos⟩ 0 10 (by norm_num)
  have hf : e.frequency.toNat = 2 ^ 64 - 1 := by omega
  have hkey : e.key = 0 := eq_of_beq hek
  have hfreq : c.frequencyOf? 0 = some e.frequency :=
    hc.frequencyOf?_eq_some.2 ⟨(h, e), by rw [hflat]; exact List.mem_cons_self .., hek, rfl⟩
  have hput := hc.length_put_le 1 11
  rw [hcap] at hput
  obtain ⟨hlost, hlength⟩ := hc.only_entry_lost hflat hk hf
  have hcontains : (c.get 0).2.contains e.key = true := hlost.contains
  rw [hkey] at hcontains
  refine ⟨⟨L, hc⟩, ?_, ?_, hput, fun ⟨L', hc'⟩ => hlost.not_holds L' hc', hlost.keys, hcontains,
    hlength 1 11 (by rw [hkey]; rfl)⟩
  · rw [hc.keys, hflat, List.map_cons, hkey, List.map_nil]
  · rw [hfreq, Option.map_some, hf]

end Caching.FrequencyCache
