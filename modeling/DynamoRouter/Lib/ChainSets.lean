import Mathlib.Data.Finset.Card
import DynamoRouter.Lib.ChainFamily

set_option relaxedAutoImplicit false
set_option autoImplicit false

/-!
# Sets of keys that grow by chains

A cache that only grows, and is looked up before each chain is added, counts a *hit* for each leading key
of the chain that it has. In a collision-free family such a cache has, with a key of a chain, all keys
before it; so the leading keys that it has are all the keys of the chain that it has, and what a chain
does not hit is what it adds. Hence the hits of a list of chains, added one after another, do not depend
on their order.

## Main definitions

* `leadingIn` — the number of leading keys of a list that are in a set.
* `PrefixClosed` — with a key of a chain a set has all keys before it.
* `hits` — the leading keys found when lists are looked up and added one after another.

## Main results

* `PrefixClosed.card_union` — what a chain does not hit, it adds.
* `hits_add_card` — the hits of a list of chains, from the set that they make.
* `hits_perm` — the hits do not depend on the order of the chains.
* `disjoint_update_union` — a chain that goes to its owner keeps disjoint sets disjoint.
-/

variable {K : Type*} [DecidableEq K]

/-- The number of leading keys of a list that are in a set. -/
def leadingIn (S : Finset K) (l : List K) : ℕ := (l.takeWhile (· ∈ S)).length

/-- More keys, more leading ones. -/
theorem leadingIn_mono {S T : Finset K} (h : S ⊆ T) (l : List K) : leadingIn S l ≤ leadingIn T l := by
  induction l with
  | nil => exact le_rfl
  | cons k l ih =>
    simp only [leadingIn, List.takeWhile_cons] at ih ⊢
    by_cases hk : k ∈ S
    · have hk' : k ∈ T := h hk
      simpa [hk, hk'] using ih
    · simp [hk]

/-- Keys that are new to a set are not among the leading ones that are found. -/
theorem card_union_add_leadingIn_le (S : Finset K) (l : List K) :
    (S ∪ l.toFinset).card + leadingIn S l ≤ S.card + l.length := by
  have hsub : S ∪ l.toFinset ⊆ S ∪ (l.dropWhile (· ∈ S)).toFinset := by
    refine Finset.union_subset Finset.subset_union_left fun k hk => ?_
    rw [List.mem_toFinset, ← List.takeWhile_append_dropWhile (p := (· ∈ S)) (l := l),
      List.mem_append] at hk
    rw [Finset.mem_union, List.mem_toFinset]
    exact hk.imp (fun hk => by simpa using List.mem_takeWhile_imp hk) id
  have hlength : (l.takeWhile (· ∈ S)).length + (l.dropWhile (· ∈ S)).length = l.length := by
    rw [← List.length_append, List.takeWhile_append_dropWhile]
  calc (S ∪ l.toFinset).card + leadingIn S l
      ≤ S.card + (l.dropWhile (· ∈ S)).toFinset.card + leadingIn S l :=
        Nat.add_le_add_right ((Finset.card_le_card hsub).trans (Finset.card_union_le _ _)) _
    _ ≤ S.card + (l.dropWhile (· ∈ S)).length + leadingIn S l :=
        Nat.add_le_add_right (Nat.add_le_add_left (List.toFinset_card_le _) _) _
    _ = S.card + l.length := by rw [leadingIn, ← hlength]; omega

/-- The leading present keys of an LRU map are those of its set of keys. -/
theorem LazyLru.leading_eq_leadingIn {L : Type*} [LinearOrder L] (c : LazyLru L) (l : List L) :
    c.leading l = leadingIn c.map.keys l := by
  rw [leading, leadingIn]
  congr 2
  funext k
  rw [Bool.eq_iff_iff, contains_iff, decide_eq_true_iff]

/-- Where all keys fit, a round of touches with an eviction after it adds its keys and evicts none. -/
theorem LazyLru.keys_evictTo_tick_of_subset {L : Type*} [LinearOrder L] {c : LazyLru L} {B : Finset L}
    {hs : List L} {b : ℕ} (hc : c.map.keys ⊆ B) (hhs : hs.toFinset ⊆ B) (hb : B.card ≤ b)
    (floor : ℕ) : ((c.tick floor hs).evictTo b).map.keys = c.map.keys ∪ hs.toFinset := by
  have hfits : ¬ b < (c.tick floor hs).size := by
    rw [not_lt, size, keys_tick]
    exact (Finset.card_le_card (Finset.union_subset hc hhs)).trans hb
  rw [evictTo_eq, if_neg hfits, keys_tick]

/-- The lists looked up and added one after another to the keys `S`: the number of leading keys that
were found. -/
def hits (S : Finset K) : List (List K) → ℕ
  | [] => 0
  | l :: ls => leadingIn S l + hits (S ∪ l.toFinset) ls

/-- One more list finds its leading keys among all keys before it. -/
theorem hits_concat (S : Finset K) (ls : List (List K)) (l : List K) :
    hits S (ls ++ [l]) = hits S ls + leadingIn (S ∪ ls.flatten.toFinset) l := by
  induction ls generalizing S with
  | nil => simp [hits]
  | cons l' ls ih =>
    rw [List.cons_append, hits, ih, hits, List.flatten_cons, List.toFinset_append, Finset.union_assoc,
      Nat.add_assoc]

/-- With a key of a list of the family, all keys before it are in the set. -/
def PrefixClosed (F : Set (List K)) (S : Finset K) : Prop :=
  ∀ l ∈ F, l.Pairwise fun a b => b ∈ S → a ∈ S

variable {F : Set (List K)} {S : Finset K}

omit [DecidableEq K] in
/-- The empty set is closed. -/
theorem prefixClosed_empty (F : Set (List K)) : PrefixClosed F ∅ := fun _ _ =>
  List.pairwise_of_forall fun _ _ h => absurd h (Finset.notMem_empty _)

/-- **Adding a chain** keeps a set closed: where another chain has a key of it, the two agree up to
there. -/
theorem PrefixClosed.union (h : PrefixClosed F S) (hF : CollisionFree F) {l : List K} (hl : l ∈ F) :
    PrefixClosed F (S ∪ l.toFinset) := by
  intro l' hl'
  rw [List.pairwise_iff_getElem]
  intro i j hi hj hij hmem
  rw [Finset.mem_union, List.mem_toFinset] at hmem ⊢
  rcases hmem with hS | hmem
  · exact .inl (List.pairwise_iff_getElem.mp (h l' hl') i j hi hj hij hS)
  · obtain ⟨k, hk, heq⟩ := List.mem_iff_getElem.mp hmem
    obtain ⟨rfl, htake⟩ := hF l' hl' l hl j k hj hk heq.symm
    have hbefore : l'[i] ∈ l'.take j := List.mem_take_iff_getElem.mpr ⟨i, by omega, rfl⟩
    rw [htake] at hbefore
    exact .inr (List.mem_of_mem_take hbefore)

/-- If, with an element, all earlier ones have a property, then the elements that have it are the leading
ones. -/
theorem filter_eq_takeWhile {α : Type*} {p : α → Bool} {l : List α}
    (h : l.Pairwise fun a b => p b → p a) : l.filter p = l.takeWhile p := by
  induction l with
  | nil => rfl
  | cons x l ih =>
    obtain ⟨hx, hl⟩ := List.pairwise_cons.mp h
    by_cases hp : p x
    · rw [List.filter_cons_of_pos hp, List.takeWhile_cons_of_pos hp, ih hl]
    · rw [List.filter_cons_of_neg hp, List.takeWhile_cons_of_neg hp]
      exact List.filter_eq_nil_iff.mpr fun y hy hpy => hp (hx y hy hpy)

/-- **What a chain does not hit, it adds.** -/
theorem PrefixClosed.card_union (h : PrefixClosed F S) (hF : CollisionFree F) {l : List K}
    (hl : l ∈ F) : (S ∪ l.toFinset).card + leadingIn S l = S.card + l.length := by
  have hnd : l.Nodup := hF.nodup hl
  have hinter : (S ∩ l.toFinset).card = leadingIn S l := by
    have hfilter : l.filter (· ∈ S) = l.takeWhile (· ∈ S) :=
      filter_eq_takeWhile ((h l hl).imp fun hab => by simpa using hab)
    rw [leadingIn, ← hfilter, ← List.toFinset_card_of_nodup (hnd.filter _), List.toFinset_filter,
      Finset.inter_comm, ← Finset.filter_mem_eq_inter]
    simp
  rw [← hinter, Finset.card_union_add_card_inter, List.toFinset_card_of_nodup hnd]

/-- **The hits of a list of chains**: all keys of the chains, less the keys that they add. -/
theorem hits_add_card (hF : CollisionFree F) {ls : List (List K)} :
    ∀ {S : Finset K}, PrefixClosed F S → (∀ l ∈ ls, l ∈ F) →
      hits S ls + (S ∪ ls.flatten.toFinset).card = S.card + (ls.map List.length).sum := by
  induction ls with
  | nil => intro S _ _; simp [hits]
  | cons l ls ih =>
    intro S hS hls
    rw [List.forall_mem_cons] at hls
    have hrest := ih (hS.union hF hls.1) hls.2
    have hfirst := hS.card_union hF hls.1
    rw [List.flatten_cons, List.toFinset_append, ← Finset.union_assoc, List.map_cons, List.sum_cons,
      hits]
    omega

/-- The keys of a list of chains do not depend on their order. -/
theorem toFinset_flatten_perm {ls ls' : List (List K)} (h : ls.Perm ls') :
    ls.flatten.toFinset = ls'.flatten.toFinset := by
  ext k
  simp only [List.mem_toFinset, List.mem_flatten]
  exact exists_congr fun l => and_congr_left fun _ => h.mem_iff

/-- **The hits of a list of chains do not depend on their order.** -/
theorem hits_perm (hF : CollisionFree F) (hS : PrefixClosed F S) {ls ls' : List (List K)}
    (hls : ∀ l ∈ ls, l ∈ F) (h : ls.Perm ls') : hits S ls = hits S ls' := by
  have hleft := hits_add_card hF hS hls
  have hright := hits_add_card hF hS fun l hl => hls l (h.mem_iff.mpr hl)
  rw [← toFinset_flatten_perm h, ← (h.map List.length).sum_eq] at hright
  omega

/-- The keys of chains of the family are closed. -/
theorem prefixClosed_flatten (hF : CollisionFree F) {ls : List (List K)} (hls : ∀ l ∈ ls, l ∈ F) :
    PrefixClosed F ls.flatten.toFinset := by
  induction ls using List.reverseRecOn with
  | nil => exact prefixClosed_empty F
  | append_singleton ls l ih =>
    rw [List.flatten_concat, List.toFinset_append]
    exact (ih fun l' hl' => hls l' (List.mem_append_left _ hl')).union hF
      (hls l (List.mem_append_right _ (List.mem_singleton_self l)))

/-! ## Several sets -/

/-- A set that has leading keys of a list, has its first key. -/
theorem leadingIn_cons_pos {k : K} {l : List K} : 0 < leadingIn S (k :: l) ↔ k ∈ S := by
  by_cases hk : k ∈ S <;> simp [leadingIn, hk]

/-- A closed set that has a key of a chain has leading keys of it. -/
theorem PrefixClosed.leadingIn_pos (h : PrefixClosed F S) {l : List K} (hl : l ∈ F) {k : K} (hk : k ∈ l)
    (hS : k ∈ S) : 0 < leadingIn S l := by
  have hpair := h l hl
  cases l with
  | nil => cases hk
  | cons x l =>
    rw [leadingIn_cons_pos]
    rcases List.mem_cons.mp hk with rfl | hk
    · exact hS
    · exact (List.pairwise_cons.mp hpair).1 k hk hS

/-- Disjoint sets do not both have leading keys of a list. -/
theorem not_leadingIn_pos_of_disjoint {T : Finset K} (h : Disjoint S T) {l : List K}
    (hS : 0 < leadingIn S l) : ¬ 0 < leadingIn T l := by
  cases l with
  | nil => exact absurd hS (lt_irrefl _)
  | cons k l =>
    rw [leadingIn_cons_pos] at hS ⊢
    exact Finset.disjoint_left.mp h hS

/-- **A chain that goes to its owner keeps disjoint sets disjoint**: if one of the closed sets has leading
keys of the chain, then the one that the chain is added to has.

**Proof sketch.** Another set that has a key of the chain has its first one, and so has the set that the
chain goes to; but they are disjoint. -/
theorem disjoint_update_union {ι : Type*} [DecidableEq ι] {P : ι → Finset K}
    (hP : ∀ i j, i ≠ j → Disjoint (P i) (P j)) (hclosed : ∀ i, PrefixClosed F (P i)) {l : List K}
    (hl : l ∈ F) {o : ι} (howner : ∀ i, 0 < leadingIn (P i) l → 0 < leadingIn (P o) l) :
    ∀ i j, i ≠ j → Disjoint (Function.update P o (P o ∪ l.toFinset) i)
      (Function.update P o (P o ∪ l.toFinset) j) := by
  have hother : ∀ i, i ≠ o → Disjoint (P i) (P o ∪ l.toFinset) := fun i hi => by
    refine Finset.disjoint_union_right.mpr ⟨hP i o hi, Finset.disjoint_left.mpr fun k hk hkl => ?_⟩
    have hpos := (hclosed i).leadingIn_pos hl (List.mem_toFinset.mp hkl) hk
    exact not_leadingIn_pos_of_disjoint (hP i o hi) hpos (howner i hpos)
  intro i j hij
  by_cases hi : i = o
  · subst hi
    rw [Function.update_self, Function.update_of_ne (Ne.symm hij)]
    exact (hother j (Ne.symm hij)).symm
  · rw [Function.update_of_ne hi]
    by_cases hj : j = o
    · subst hj
      rw [Function.update_self]
      exact hother i hi
    · rw [Function.update_of_ne hj]
      exact hP i j hij
