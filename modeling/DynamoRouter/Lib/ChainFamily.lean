import DynamoRouter.Lib.RadixTree

set_option relaxedAutoImplicit false
set_option autoImplicit false

/-!
# A flat map of chains is a radix tree

Take a family of key lists in which a key determines everything before it: the keys are chained, as
hashes are that commit to all earlier blocks, and there is no collision. Then an LRU map over single
keys, touched along lists of the family, is a radix tree over their paths: a key stands for the node
that ends in it, a leading run of present keys is a walk from the root, and evicting the last keys of
the eviction order is evicting leaves.

What makes the flat eviction leaf-first is the order of the stamps. A key is never touched without the
keys before it, which are touched at the same time or later, and at the same time with smaller sequence
numbers; so a key always has a later place than the key before it.

## Main definitions

* `CollisionFree` — a key determines its position and the keys before it.
* `IsPath`, `route` — the paths of a family, and the path that ends in a given key.
* `LazyLru.Refines` — an LRU map is the flat form of a radix tree.

## Main results

* `LazyLru.Refines.tick`, `LazyLru.Refines.evictTo` — the operations keep the refinement.
* `LazyLru.Refines.leading_eq`, `LazyLru.Refines.size_eq` — the counts agree.
* `LazyLru.Refines.mem_of_mem` — a present key has all keys before it present.
-/

/-! ## Collision-free families -/

section Families

variable {K : Type*} {F : Set (List K)}

/-- A key of a list of the family determines its index and the keys before it. -/
def CollisionFree (F : Set (List K)) : Prop :=
  ∀ l ∈ F, ∀ l' ∈ F, ∀ (i j : ℕ) (hi : i < l.length) (hj : j < l'.length), l[i] = l'[j] →
    i = j ∧ l.take i = l'.take j

/-- Whether the lists of a list are collision-free can be decided. -/
instance [DecidableEq K] (ls : List (List K)) : Decidable (CollisionFree {l | l ∈ ls}) :=
  decidable_of_iff
    (∀ l ∈ ls, ∀ l' ∈ ls, ∀ i, ∀ hi : i < l.length, ∀ j, ∀ hj : j < l'.length,
      l[i] = l'[j] → i = j ∧ l.take i = l'.take j)
    ⟨fun h l hl l' hl' i j hi hj => h l hl l' hl' i hi j hj,
      fun h l hl l' hl' i hi j hj => h l hl l' hl' i j hi hj⟩

/-- A path, read from its end up to the root, that a list of the family starts with. -/
def IsPath (F : Set (List K)) (p : List K) : Prop := ∃ l ∈ F, p.reverse <+: l

/-- The parent of a path is a path. -/
theorem IsPath.parent {h : K} {anc : List K} (hp : IsPath F (h :: anc)) : IsPath F anc := by
  obtain ⟨l, hl, hpre⟩ := hp
  rw [List.reverse_cons] at hpre
  exact ⟨l, hl, (List.prefix_append _ _).trans hpre⟩

/-- A path ends at the index of its length in the list it starts. -/
theorem getElem_of_reverse_isPrefix {h : K} {anc l : List K} (hpre : (h :: anc).reverse <+: l) :
    ∃ hi : anc.length < l.length, l[anc.length] = h ∧ l.take anc.length = anc.reverse := by
  obtain ⟨rest, rfl⟩ := hpre
  refine ⟨by simp, ?_, ?_⟩
  · simp
  · rw [List.reverse_cons, List.append_assoc, List.take_left' (by simp)]

/-- In a collision-free family a key ends only one path.

**Proof sketch.** Two paths that end in the same key are the beginnings of two lists of the family, which
have this key at the depths of the paths; so the depths agree, and so do the keys before. -/
theorem CollisionFree.path_unique (hF : CollisionFree F) {h : K} {anc anc' : List K}
    (hp : IsPath F (h :: anc)) (hp' : IsPath F (h :: anc')) : anc = anc' := by
  obtain ⟨l, hl, hpre⟩ := hp
  obtain ⟨l', hl', hpre'⟩ := hp'
  obtain ⟨hi, hh, htake⟩ := getElem_of_reverse_isPrefix hpre
  obtain ⟨hi', hh', htake'⟩ := getElem_of_reverse_isPrefix hpre'
  have heq := (hF l hl l' hl' _ _ hi hi' (hh.trans hh'.symm)).2
  rw [htake, htake'] at heq
  exact List.reverse_injective heq

/-- The lists of a collision-free family have no repetition. -/
theorem CollisionFree.nodup (hF : CollisionFree F) {l : List K} (hl : l ∈ F) : l.Nodup := by
  rw [List.nodup_iff_pairwise_ne, List.pairwise_iff_getElem]
  intro i j hi hj hij heq
  exact hij.ne (hF l hl l hl i j hi hj heq).1

open Classical in
/-- The path of the family that ends in `h`, if there is one. -/
noncomputable def route (F : Set (List K)) (h : K) : List K :=
  h :: if hp : ∃ anc, IsPath F (h :: anc) then hp.choose else []

/-- Routes to different keys are different. -/
theorem route_injective (F : Set (List K)) : Function.Injective (route F) :=
  fun _ _ heq => (List.cons.inj heq).1

/-- The route to the end of a path is the path. -/
theorem CollisionFree.route_eq (hF : CollisionFree F) {h : K} {anc : List K}
    (hp : IsPath F (h :: anc)) : route F h = h :: anc := by
  have hex : ∃ anc, IsPath F (h :: anc) := ⟨anc, hp⟩
  rw [route, dif_pos hex, hF.path_unique hex.choose_spec hp]

/-- The route to a key of a list of the family. -/
theorem CollisionFree.route_of_append (hF : CollisionFree F) {pre post : List K} {h : K}
    (hl : ∃ l ∈ F, pre ++ h :: post <+: l) : route F h = h :: pre.reverse := by
  obtain ⟨l, hl, hpre⟩ := hl
  refine hF.route_eq ⟨l, hl, List.IsPrefix.trans ?_ hpre⟩
  rw [List.reverse_cons, List.reverse_reverse]
  exact ⟨post, by simp⟩

/-- A key is on a list of the family exactly if the list spells the route to it.

**Proof sketch.** A key of the list has the keys before it there as its route. Conversely a route ends in
its key. -/
theorem CollisionFree.mem_iff_route (hF : CollisionFree F) {hs l : List K} (hl : l ∈ F)
    (hpre : hs <+: l) {h : K} : h ∈ hs ↔ (route F h).reverse <+: hs := by
  constructor
  · intro hh
    obtain ⟨pre, post, rfl⟩ := List.append_of_mem hh
    rw [hF.route_of_append ⟨l, hl, hpre⟩, List.reverse_cons, List.reverse_reverse]
    exact ⟨post, by simp⟩
  · intro hroute
    refine hroute.subset (List.mem_reverse.mpr ?_)
    exact List.mem_cons_self

end Families

namespace LazyLru

variable {K : Type*} [LinearOrder K] {F : Set (List K)} {c : LazyLru K} {t : RadixTree K}

/-- The position of a key in a list of the family is the depth of its parent.

**Proof sketch.** The list has no repetition, so that the last index of the key is the number of keys
before it, and these are the rest of its route. -/
theorem lastIdx_eq_of_route (hF : CollisionFree F) {hs l : List K} (hl : l ∈ F) (hpre : hs <+: l)
    {h : K} (hh : h ∈ hs) : lastIdx (· == h) hs + 1 = (route F h).length := by
  obtain ⟨pre, post, rfl⟩ := List.append_of_mem hh
  have hnd : (pre ++ h :: post).Nodup := (hF.nodup hl).sublist hpre.sublist
  have hlt : pre.length < (pre ++ h :: post).length := by simp
  have hidx := lastIdx_getElem hlt hnd
  rw [List.getElem_append_right (le_refl _)] at hidx
  simp only [Nat.sub_self, List.getElem_cons_zero] at hidx
  rw [hF.route_of_append ⟨l, hl, hpre⟩, hidx, List.length_cons, List.length_reverse]

/-- The map `c` is the flat form of the tree `t`: the same counters; a node with the same stamp for
each present key; and every present key has the key before it present, with an earlier place. -/
structure Refines (F : Set (List K)) (c : LazyLru K) (t : RadixTree K) : Prop where
  /-- Heap, map and counters are linked. -/
  wf : c.Wf
  /-- The clocks agree. -/
  clock : t.clock = c.clock
  /-- The sequence numbers agree. -/
  seq : t.seq = c.seq
  /-- The nodes are the routes to the present keys. -/
  keys : t.nodes.keys = c.map.keys.image (route F)
  /-- The stamps agree. -/
  lookup : ∀ h, t.nodes.lookup (route F h) = c.map.lookup h
  /-- Present keys end paths of the family. -/
  onPath : ∀ h ∈ c.map.keys, IsPath F (route F h)
  /-- The key before a present one is present and has an earlier place. -/
  parent : ∀ h h' anc, IsPath F (h :: h' :: anc) → h ∈ c.map.keys →
    h' ∈ c.map.keys ∧ c.rank h' < c.rank h

/-- The empty map is the flat form of the tree that is only a root. -/
theorem refines_empty (F : Set (List K)) : Refines F (empty : LazyLru K) RadixTree.empty where
  wf := wf_empty
  clock := rfl
  seq := rfl
  keys := rfl
  lookup _ := rfl
  onPath _ hh := absurd hh (Finset.notMem_empty _)
  parent _ _ _ _ hh := absurd hh (Finset.notMem_empty _)

namespace Refines

/-- The numbers of blocks agree. -/
theorem size_eq (h : Refines F c t) : c.size = t.size := by
  rw [RadixTree.size, h.keys, Finset.card_image_of_injective _ (route_injective F), size]

/-- A key is present if its route is a node. -/
theorem mem_nodes_iff (h : Refines F c t) {k : K} : route F k ∈ t.nodes ↔ k ∈ c.map.keys := by
  rw [← Finmap.mem_keys, h.keys, (route_injective F).mem_finset_image]

/-- Places agree. -/
theorem rank_route (h : Refines F c t) (k : K) : t.rank (route F k) = c.rank k := by
  rw [RadixTree.rank, RadixTree.stamp, h.lookup, rank, stamp]

/-- A walk down the tree counts leading present keys.

**Proof sketch.** By induction on the rest of the list. The child that the walk looks for is the route to
the next key, and is a node if the key is present. -/
theorem walk_eq (hF : CollisionFree F) (h : Refines F c t) {hs : List K} :
    ∀ {anc : List K}, (∃ l ∈ F, anc.reverse ++ hs <+: l) →
      RadixTree.walk t.nodes anc hs = (hs.takeWhile c.contains).length := by
  induction hs with
  | nil => exact fun _ => rfl
  | cons k hs ih =>
    intro anc hl
    have hroute : route F k = k :: anc := by
      rw [hF.route_of_append hl, List.reverse_reverse]
    have hiff : (t.nodes.lookup (k :: anc)).isSome = c.contains k := by
      rw [← hroute, h.lookup, contains]
    rw [RadixTree.walk, hiff, List.takeWhile_cons]
    split_ifs
    · rw [ih (by simpa using hl), List.length_cons]
    · rfl

/-- The counts of a lookup agree. -/
theorem leading_eq (hF : CollisionFree F) (h : Refines F c t) {l : List K} (hl : l ∈ F) :
    c.leading l = t.lookup l := by
  have hwalk : RadixTree.walk t.nodes [] l = (l.takeWhile c.contains).length :=
    h.walk_eq hF ⟨l, hl, by simp⟩
  exact hwalk.symm

/-- **Touching a path.** A round of touches of the first part of a list of the family is a round of
touches of the path it spells.

**Proof sketch.** The touched keys are those whose routes are nodes of the touched path
(`CollisionFree.mem_iff_route`), and the index of a key is the depth of its node, so that nodes and stamps
agree. A touched key has the keys before it touched too, with smaller sequence numbers; a key that is not
touched keeps its place, and the key before it keeps its place or moves to the front. -/
theorem tick (hF : CollisionFree F) (h : Refines F c t) {l hs : List K} (hl : l ∈ F)
    (hpre : hs <+: l) (floor : ℕ) : Refines F (c.tick floor hs) (t.touch hs) := by
  have hon : ∀ {k}, k ∈ hs ↔ (route F k).reverse <+: hs := hF.mem_iff_route hl hpre
  have hroute : ∀ {k anc}, IsPath F (k :: anc) → (k ∈ hs ↔ (k :: anc).reverse <+: hs) :=
    fun hp => by rw [hon, hF.route_eq hp]
  have hne : ∀ k, route F k ≠ [] := fun k => List.cons_ne_nil _ _
  refine
    { wf := h.wf.tick floor hs
      clock := ?_
      seq := ?_
      keys := ?_
      lookup := fun k => ?_
      onPath := fun k hk => ?_
      parent := fun k k' anc hp hk => ?_ }
  · rw [clock_tick, RadixTree.clock_touch, h.clock]
  · rw [seq_tick, RadixTree.seq_touch, h.seq]
  · ext p
    rw [Finmap.mem_keys, RadixTree.mem_touch, ← Finmap.mem_keys, h.keys, keys_tick,
      Finset.image_union, Finset.mem_union]
    refine or_congr Iff.rfl ⟨fun ⟨hp, hphs⟩ => ?_, fun hp => ?_⟩
    · -- a node on the path is the route to its last key
      cases p with
      | nil => exact absurd rfl hp
      | cons k anc =>
        have hpath : IsPath F (k :: anc) := ⟨l, hl, hphs.trans hpre⟩
        rw [Finset.mem_image]
        exact ⟨k, List.mem_toFinset.mpr ((hroute hpath).mpr hphs), hF.route_eq hpath⟩
    · obtain ⟨k, hk, rfl⟩ := Finset.mem_image.mp hp
      exact ⟨hne k, hon.mp (List.mem_toFinset.mp hk)⟩
  · by_cases hk : k ∈ hs
    · rw [t.lookup_touch_of_mem (hne k) (hon.mp hk), lookup_tick, if_pos hk, h.clock, h.seq,
        Nat.add_assoc, lastIdx_eq_of_route hF hl hpre hk]
    · rw [t.lookup_touch_of_notMem fun _ => mt hon.mpr hk, lookup_tick, if_neg hk, h.lookup]
  · rw [keys_tick, Finset.mem_union, List.mem_toFinset] at hk
    by_cases hkhs : k ∈ hs
    · exact ⟨l, hl, (hon.mp hkhs).trans hpre⟩
    · exact h.onPath k (hk.resolve_right hkhs)
  · rw [keys_tick, Finset.mem_union, List.mem_toFinset] at hk ⊢
    have hp' : IsPath F (k' :: anc) := hp.parent
    by_cases hkhs : k ∈ hs
    · -- the round touches the whole path, in order
      have hpath := (hroute hp).mp hkhs
      have hk' : k' ∈ hs := by
        refine (hroute hp').mpr (List.IsPrefix.trans ?_ hpath)
        rw [List.reverse_cons (a := k)]
        exact List.prefix_append _ _
      refine ⟨.inr hk', (rank_tick_lt_iff_of_mem hk' hkhs).mpr ?_⟩
      have hidx := lastIdx_eq_of_route hF hl hpre hkhs
      have hidx' := lastIdx_eq_of_route hF hl hpre hk'
      rw [hF.route_eq hp] at hidx
      rw [hF.route_eq hp'] at hidx'
      simp only [List.length_cons] at hidx hidx'
      omega
    · obtain ⟨hmem, hlt⟩ := h.parent k k' anc hp (hk.resolve_right hkhs)
      refine ⟨.inl hmem, ?_⟩
      by_cases hk'hs : k' ∈ hs
      · exact rank_tick_lt_of_mem_of_notMem h.wf floor hk'hs (hk.resolve_right hkhs) hkhs
      · exact (rank_tick_lt_iff_of_notMem hk'hs hkhs).mpr hlt

/-- The tree of a flat map is ordered.

**Proof sketch.** Places of nodes are places of keys, which differ for different keys, and come earlier
for the key before (`Refines.parent`). -/
theorem ordered (h : Refines F c t) : t.Ordered := by
  refine ⟨fun x hx y hy hxy => ?_, fun k anc hk hanc => ?_⟩
  · rw [h.keys, Finset.coe_image] at hx hy
    obtain ⟨a, ha, rfl⟩ := hx
    obtain ⟨b, hb, rfl⟩ := hy
    rw [h.rank_route, h.rank_route] at hxy
    rw [h.wf.rank_injOn ha hb hxy]
  · rw [← Finmap.mem_keys, h.keys, Finset.mem_image] at hk hanc
    obtain ⟨a, ha, heq⟩ := hk
    obtain ⟨b, hb, rfl⟩ := hanc
    obtain rfl : a = k := (List.cons.inj heq).1
    have hpath := h.onPath a ha
    have hroute : route F b = b :: (route F b).tail := rfl
    rw [heq, hroute] at hpath
    rw [← heq, h.rank_route, h.rank_route]
    exact (h.parent a b _ hpath ha).2

/-- **Evicting leaves.** Evicting the last keys of the eviction order is evicting leaves of the tree.

**Proof sketch.** Both sides keep the first of their orders, and the order of the tree on the routes is
the order of the map on the keys. As a key comes after the key before it, the first keys contain with a
key all keys before it. -/
theorem evictTo (h : Refines F c t) (b : ℕ) :
    Refines F (c.evictTo b) (t.evictTo b) := by
  have hord := h.ordered
  have hfirsts : Ranking.firsts t.rank b t.nodes.keys =
      (Ranking.firsts c.rank b c.map.keys).image (route F) := by
    rw [h.keys, Ranking.firsts_image (route_injective F)]
    congr 1
    exact Ranking.firsts_congr fun x _ y _ => by
      simp only [Function.comp_apply, h.rank_route]
  have hkeys := keys_evictTo h.wf b
  have hsub : (c.evictTo b).map.keys ⊆ c.map.keys := (h.wf.evictsTo b).subset
  have hlookup : ∀ k, (t.evictTo b).nodes.lookup (route F k) = (c.evictTo b).map.lookup k :=
    fun k => by
      rw [RadixTree.lookup_evictTo hord, lookup_evictTo h.wf, hfirsts, h.lookup]
      exact if_congr (route_injective F).mem_finset_image rfl rfl
  refine
    { wf := h.wf.evictTo b
      clock := (t.clock_seq_evictTo b).1.trans h.clock
      seq := (t.clock_seq_evictTo b).2.trans h.seq
      keys := ?_
      lookup := hlookup
      onPath := fun k hk => h.onPath k (hsub hk)
      parent := fun k k' anc hp hk => ?_ }
  · rw [hkeys, ← hfirsts]
    ext p
    rw [Finmap.mem_keys, ← Finmap.lookup_isSome, RadixTree.lookup_evictTo hord]
    split_ifs with hp
    · rw [Finmap.lookup_isSome, ← Finmap.mem_keys]
      exact iff_of_true (Ranking.firsts_subset hp) hp
    · exact iff_of_false Bool.false_ne_true hp
  · obtain ⟨hmem, hlt⟩ := h.parent k k' anc hp (hsub hk)
    have hk' : k' ∈ (c.evictTo b).map.keys := by
      rw [hkeys] at hk ⊢
      exact Ranking.mem_firsts_of_lt hk hmem hlt
    refine ⟨hk', ?_⟩
    rwa [rank, rank, stamp_evictTo h.wf hk', stamp_evictTo h.wf hk]

/-- **Ancestors are present.** On a list of the family, what comes before a present key is present.

**Proof sketch.** By induction from the present key backwards, one key at a time (`Refines.parent`). -/
theorem mem_of_mem (h : Refines F c t) {l : List K} (hl : l ∈ F) {i j : ℕ} (hij : i ≤ j)
    (hj : j < l.length) (hmem : l[j] ∈ c.map.keys) : l[i] ∈ c.map.keys := by
  induction j, hij using Nat.le_induction with
  | base => exact hmem
  | succ j hij ih =>
    refine ih (by omega) (h.parent l[j + 1] l[j] (l.take j).reverse ⟨l, hl, ?_⟩ hmem).1
    rw [List.reverse_cons, List.reverse_cons, List.reverse_reverse, List.take_append_getElem,
      List.take_append_getElem]
    exact List.take_prefix _ _

/-- The keys of a list of the family are present if the nodes on its path are. -/
theorem mem_keys_iff (h : Refines F c t) (hF : CollisionFree F) {l : List K} (hl : l ∈ F) {i : ℕ}
    (hi : i < l.length) : l[i] ∈ c.map.keys ↔ (l.take (i + 1)).reverse ∈ t.nodes := by
  have hpath : (l.take (i + 1)).reverse = l[i] :: (l.take i).reverse := by
    rw [← List.take_append_getElem hi, List.reverse_append]
    rfl
  have hroute : route F l[i] = l[i] :: (l.take i).reverse := by
    refine hF.route_eq ⟨l, hl, ?_⟩
    rw [← hpath, List.reverse_reverse]
    exact List.take_prefix _ _
  rw [hpath, ← hroute]
  exact h.mem_nodes_iff.symm

end Refines

end LazyLru
