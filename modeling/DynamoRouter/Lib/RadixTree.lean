import Mathlib.Data.Finset.Max
import Mathlib.Logic.Function.Iterate
import DynamoRouter.Lib.LazyLru

set_option relaxedAutoImplicit false
set_option autoImplicit false

/-!
# Radix trees with leaf-first eviction

A tree whose edges are labelled by the keys of `K`. A node is given by its path, read from the node up
to the root, so that the parent of `h :: anc` is `anc`; the root `[]` itself is not stored. Each node
carries the stamp `(access, seq)` of its last touch.

Touching a chain of keys stamps every node of the path that the chain spells. Eviction removes one leaf
at a time: the leaf with the oldest access and, among equal accesses, the largest sequence number.

## Main definitions

* `RadixTree` — the tree; its nodes are closed under parents.
* `RadixTree.lookup`, `touch`, `matchPath`, `evictTo` — the operations.
* `RadixTree.Ordered` — every parent stays longer than its children.

## Main results

* `RadixTree.lookup_touch_of_mem`, `RadixTree.lookup_touch_of_notMem` — the stamps after a touch.
* `RadixTree.lookup_evictTo` — evicting leaves of an ordered tree keeps the first nodes of its order.
-/

/-- A radix tree over the keys `K`: the stamps of the nodes, the clock of the last round of touches and
the number of touches. -/
structure RadixTree (K : Type*) [DecidableEq K] where
  /-- The stamp of each node. -/
  nodes : Finmap fun _ : List K => ℕ × ℕ
  /-- The access time of the last round. -/
  clock : ℕ
  /-- The sequence number of the last touch. -/
  seq : ℕ
  /-- The parent of a node is the root or a node. -/
  closed : ∀ h anc, h :: anc ∈ nodes → anc = [] ∨ anc ∈ nodes

namespace RadixTree

variable {K : Type*} [DecidableEq K]

/-- The tree that is only a root. -/
def empty : RadixTree K := ⟨∅, 0, 0, fun _ _ h => absurd h Finmap.notMem_empty⟩

/-- The number of nodes. -/
def size (t : RadixTree K) : ℕ := t.nodes.keys.card

/-- The stamp of a node (`(0, 0)` if there is none). -/
def stamp (t : RadixTree K) (p : List K) : ℕ × ℕ := (t.nodes.lookup p).getD (0, 0)

/-- The place of a node in the eviction order. -/
def rank (t : RadixTree K) (p : List K) : ℕᵒᵈ ×ₗ ℕ := LazyLru.place (t.stamp p)

/-! ## The operations -/

/-- Walk down from the node `anc` along a chain of keys; the number of steps taken. -/
def walk (nodes : Finmap fun _ : List K => ℕ × ℕ) (anc : List K) : List K → ℕ
  | [] => 0
  | h :: hs => if (nodes.lookup (h :: anc)).isSome then walk nodes (h :: anc) hs + 1 else 0

/-- The number of leading keys of a chain that can be walked from the root. -/
def lookup (t : RadixTree K) (hs : List K) : ℕ := walk t.nodes [] hs

/-- Stamp the nodes on the path from `anc` along a chain, creating those that are missing. -/
def refresh (access : ℕ) : ℕ → List K → (Finmap fun _ : List K => ℕ × ℕ) → List K →
    Finmap fun _ : List K => ℕ × ℕ
  | _, _, nodes, [] => nodes
  | seq, anc, nodes, h :: hs =>
    refresh access (seq + 1) (h :: anc) (nodes.insert (h :: anc) (access, seq + 1)) hs

/-- Stamping a path from the root or a node keeps the nodes closed under parents. -/
theorem closed_refresh (access : ℕ) {hs : List K} :
    ∀ {seq : ℕ} {anc : List K} {nodes : Finmap fun _ : List K => ℕ × ℕ},
      (∀ h p, h :: p ∈ nodes → p = [] ∨ p ∈ nodes) → (anc = [] ∨ anc ∈ nodes) →
      ∀ h p, h :: p ∈ refresh access seq anc nodes hs →
        p = [] ∨ p ∈ refresh access seq anc nodes hs := by
  induction hs with
  | nil => exact fun hclosed _ => hclosed
  | cons k hs ih =>
    intro seq anc nodes hclosed hanc
    refine ih (fun h p hp => ?_) (.inr (Finmap.mem_insert.mpr (.inl rfl)))
    rcases Finmap.mem_insert.mp hp with heq | hp
    · obtain ⟨-, rfl⟩ := List.cons.inj heq
      exact hanc.imp id fun h => Finmap.mem_insert.mpr (.inr h)
    · exact (hclosed h p hp).imp id fun h => Finmap.mem_insert.mpr (.inr h)

/-- One round of touches: refresh the whole path of a chain. -/
def touch (t : RadixTree K) (hs : List K) : RadixTree K where
  nodes := refresh (t.clock + 1) t.seq [] t.nodes hs
  clock := t.clock + 1
  seq := t.seq + hs.length
  closed := closed_refresh _ t.closed (.inl rfl)

/-- The clock after a round. -/
@[simp] theorem clock_touch (t : RadixTree K) (hs : List K) : (t.touch hs).clock = t.clock + 1 := rfl

/-- The sequence number after a round. -/
@[simp] theorem seq_touch (t : RadixTree K) (hs : List K) :
    (t.touch hs).seq = t.seq + hs.length := rfl

/-- Walk a chain from the root, and refresh the matched path. -/
def matchPath (t : RadixTree K) (hs : List K) : ℕ × RadixTree K :=
  (t.lookup hs, t.touch (hs.take (t.lookup hs)))

/-- A node without children. -/
def Leaf (t : RadixTree K) (p : List K) : Prop := p ∈ t.nodes ∧ ∀ h, h :: p ∉ t.nodes

/-- The leaf to evict: the one with the oldest access and, among equal accesses, the largest sequence
number. -/
def Victim (t : RadixTree K) (p : List K) : Prop :=
  t.Leaf p ∧ ∀ q, t.Leaf q → (t.stamp p).1 < (t.stamp q).1 ∨
    (t.stamp p).1 = (t.stamp q).1 ∧ (t.stamp q).2 ≤ (t.stamp p).2

/-- Remove a leaf. -/
def prune (t : RadixTree K) (p : List K) (hp : t.Leaf p) : RadixTree K where
  nodes := t.nodes.erase p
  clock := t.clock
  seq := t.seq
  closed h anc hmem := by
    rw [Finmap.mem_erase] at hmem
    refine (t.closed h anc hmem.2).imp id fun hanc => Finmap.mem_erase.mpr ⟨?_, hanc⟩
    rintro rfl
    exact hp.2 h hmem.2

open Classical in
/-- Evict one leaf. -/
noncomputable def evictOne (t : RadixTree K) : RadixTree K :=
  if h : ∃ p, t.Victim p then t.prune h.choose h.choose_spec.1 else t

/-- Evict leaves until at most `budget` nodes are left. -/
noncomputable def evictTo (t : RadixTree K) (budget : ℕ) : RadixTree K :=
  evictOne^[t.size - budget] t

/-! ## The nodes after a touch -/

/-- Nodes off the path keep their stamps. -/
theorem lookup_refresh_of_notMem {access : ℕ} {hs p : List K} :
    ∀ {seq : ℕ} {anc : List K} {nodes : Finmap fun _ : List K => ℕ × ℕ},
      (∀ q, q ≠ [] → q <+: hs → p ≠ q.reverse ++ anc) →
      (refresh access seq anc nodes hs).lookup p = nodes.lookup p := by
  induction hs with
  | nil => exact fun _ => rfl
  | cons h hs ih =>
    intro seq anc nodes hp
    have hne : p ≠ h :: anc := hp [h] (List.cons_ne_nil _ _) (by simp)
    rw [refresh, ih fun q _ hq => ?_, Finmap.lookup_insert_of_ne _ hne]
    have := hp (h :: q) (List.cons_ne_nil _ _) ((List.prefix_cons_inj h).mpr hq)
    simpa using this

/-- Nodes on the path are stamped in order.

**Proof sketch.** By induction on the path. What is stamped after a node is longer than the node, and does
not stamp it again. -/
theorem lookup_refresh_of_mem {access : ℕ} {hs : List K} :
    ∀ {seq : ℕ} {anc q : List K} {nodes : Finmap fun _ : List K => ℕ × ℕ}, q ≠ [] → q <+: hs →
      (refresh access seq anc nodes hs).lookup (q.reverse ++ anc) =
        some (access, seq + q.length) := by
  induction hs with
  | nil => exact fun hq hpre => absurd (List.prefix_nil.mp hpre) hq
  | cons h hs ih =>
    intro seq anc q nodes hq hpre
    cases q with
    | nil => exact absurd rfl hq
    | cons k q =>
      obtain ⟨rfl, htail⟩ := List.cons_prefix_cons.mp hpre
      rw [refresh, List.reverse_cons, List.append_assoc, List.singleton_append]
      cases q with
      | nil =>
        -- the node stamped first is on no longer path
        rw [List.reverse_nil, List.nil_append, lookup_refresh_of_notMem, Finmap.lookup_insert]
        · rfl
        · intro q hq _ heq
          have hlen := congrArg List.length heq
          have := List.length_pos_iff.mpr hq
          simp only [List.length_cons, List.length_append, List.length_reverse] at hlen
          omega
      | cons k' q =>
        rw [ih (List.cons_ne_nil _ _) htail]
        simp only [List.length_cons]
        congr 2
        omega

/-- The stamps of the nodes on the path of a round. -/
theorem lookup_touch_of_mem (t : RadixTree K) {hs p : List K} (hp : p ≠ [])
    (hpre : p.reverse <+: hs) :
    (t.touch hs).nodes.lookup p = some (t.clock + 1, t.seq + p.length) := by
  have h : (refresh (t.clock + 1) t.seq [] t.nodes hs).lookup (p.reverse.reverse ++ []) = _ :=
    lookup_refresh_of_mem (mt List.reverse_eq_nil_iff.mp hp) hpre
  rwa [List.reverse_reverse, List.append_nil, List.length_reverse] at h

/-- The stamps of the other nodes. -/
theorem lookup_touch_of_notMem (t : RadixTree K) {hs p : List K}
    (hpre : p ≠ [] → ¬ p.reverse <+: hs) : (t.touch hs).nodes.lookup p = t.nodes.lookup p := by
  refine lookup_refresh_of_notMem fun q hq hqhs heq => ?_
  rw [List.append_nil] at heq
  subst heq
  exact hpre (mt List.reverse_eq_nil_iff.mp hq) (by rwa [List.reverse_reverse])

/-- The nodes after a round. -/
theorem mem_touch (t : RadixTree K) {hs p : List K} :
    p ∈ (t.touch hs).nodes ↔ p ∈ t.nodes ∨ p ≠ [] ∧ p.reverse <+: hs := by
  rw [← Finmap.lookup_isSome, ← Finmap.lookup_isSome]
  by_cases h : p ≠ [] ∧ p.reverse <+: hs
  · simp [t.lookup_touch_of_mem h.1 h.2, h]
  · rw [t.lookup_touch_of_notMem fun h1 h2 => h ⟨h1, h2⟩, or_iff_left h]

/-! ## Evicting leaves -/

/-- The order of an LRU tree: no two nodes share a place, and every parent stays longer than its
children. -/
structure Ordered (t : RadixTree K) : Prop where
  /-- Distinct nodes have distinct places. -/
  inj : Set.InjOn t.rank t.nodes.keys
  /-- A parent has an earlier place than its child. -/
  parent_lt : ∀ h anc, h :: anc ∈ t.nodes → anc ∈ t.nodes → t.rank anc < t.rank (h :: anc)

/-- In an ordered tree, the node with the last place is the leaf that is evicted.

**Proof sketch.** A child of that node would have a later place; and a leaf with an earlier place has a
younger access, or the same access and a smaller sequence number. -/
theorem nodes_evictOne {t : RadixTree K} (ht : t.Ordered) {z : List K} (hz : z ∈ t.nodes)
    (hlast : ∀ y ∈ t.nodes, y ≠ z → t.rank y < t.rank z) :
    t.evictOne.nodes = t.nodes.erase z := by
  have hleaf : t.Leaf z := ⟨hz, fun h hmem =>
    (ht.parent_lt h z hmem hz).asymm (hlast _ hmem (List.cons_ne_self h z))⟩
  have hvictim : t.Victim z := by
    refine ⟨hleaf, fun q hq => ?_⟩
    by_cases hqz : q = z
    · subst hqz
      exact .inr ⟨rfl, le_rfl⟩
    · exact (LazyLru.place_lt_iff.mp (hlast q hq.1 hqz)).imp id fun h => ⟨h.1.symm, h.2.le⟩
  have hunique : ∀ p, t.Victim p → p = z := fun p hp => by
    by_contra hpz
    have hlt := LazyLru.place_lt_iff.mp (hlast p hp.1.1 hpz)
    have hle := hp.2 z hleaf
    omega
  have hex : ∃ p, t.Victim p := ⟨z, hvictim⟩
  calc t.evictOne.nodes
      = t.nodes.erase hex.choose := by rw [evictOne, dif_pos hex]; rfl
    _ = t.nodes.erase z := by rw [hunique _ hex.choose_spec]

/-- Evicting leaves changes neither the clock nor the sequence number. -/
theorem clock_seq_iterate_evictOne (t : RadixTree K) (k : ℕ) :
    (evictOne^[k] t).clock = t.clock ∧ (evictOne^[k] t).seq = t.seq := by
  induction k generalizing t with
  | zero => exact ⟨rfl, rfl⟩
  | succ k ih =>
    rw [Function.iterate_succ_apply]
    have hone : t.evictOne.clock = t.clock ∧ t.evictOne.seq = t.seq := by
      unfold evictOne
      split_ifs <;> exact ⟨rfl, rfl⟩
    exact ⟨(ih _).1.trans hone.1, (ih _).2.trans hone.2⟩

/-- A nonempty ordered tree has a node with the last place. -/
theorem Ordered.exists_last {t : RadixTree K} (ht : t.Ordered) (hpos : 0 < t.size) :
    ∃ z ∈ t.nodes, ∀ y ∈ t.nodes, y ≠ z → t.rank y < t.rank z := by
  obtain ⟨z, hz, hmax⟩ := Finset.exists_max_image t.nodes.keys t.rank (Finset.card_pos.mp hpos)
  refine ⟨z, Finmap.mem_keys.mp hz, fun y hy hyz => ?_⟩
  rw [← Finmap.mem_keys] at hy
  exact lt_of_le_of_ne (hmax y hy) fun heq => hyz (ht.inj hy hz heq)

/-- Removing a node leaves the places of the others. -/
theorem rank_congr {t t' : RadixTree K} {p : List K} (h : t'.nodes.lookup p = t.nodes.lookup p) :
    t'.rank p = t.rank p := by
  rw [rank, rank, stamp, stamp, h]

/-- **Evicting leaves keeps the first nodes.** After `k` evictions from an ordered tree of `n` nodes the
first `n - k` nodes of its order are left, with their stamps.

**Proof sketch.** Each eviction removes the node with the last place (`nodes_evictOne`), and the tree
stays ordered. -/
theorem lookup_iterate_evictOne {t : RadixTree K} (ht : t.Ordered) {k : ℕ} (hk : k ≤ t.size)
    (p : List K) : (evictOne^[k] t).nodes.lookup p =
      if p ∈ Ranking.firsts t.rank (t.size - k) t.nodes.keys then t.nodes.lookup p else none := by
  induction k generalizing t with
  | zero =>
    rw [Nat.sub_zero, size, Ranking.firsts_of_card_le le_rfl]
    split_ifs with hp
    · rfl
    · exact Finmap.lookup_eq_none.mpr fun h => hp (Finmap.mem_keys.mpr h)
  | succ k ih =>
    obtain ⟨z, hz, hlast⟩ := ht.exists_last (by omega)
    have hnodes := nodes_evictOne ht hz hlast
    have hkeys : t.evictOne.nodes.keys = t.nodes.keys.erase z := by
      rw [hnodes, Finmap.keys_erase]
    have hlookup : ∀ q, q ≠ z → t.evictOne.nodes.lookup q = t.nodes.lookup q := fun q hq => by
      rw [hnodes, Finmap.lookup_erase_ne hq]
    have hrank : ∀ q ∈ t.nodes.keys.erase z, t.evictOne.rank q = t.rank q := fun q hq =>
      rank_congr (hlookup q (Finset.ne_of_mem_erase hq))
    have hmem : ∀ q, q ∈ t.evictOne.nodes → q ∈ t.nodes.keys.erase z := fun q hq =>
      hkeys ▸ Finmap.mem_keys.mpr hq
    have hsize : t.evictOne.size = t.size - 1 := by
      rw [size, hkeys, Finset.card_erase_of_mem (Finmap.mem_keys.mpr hz), size]
    have hordered : t.evictOne.Ordered := by
      refine ⟨fun x hx y hy hxy => ?_, fun h anc hh hanc => ?_⟩
      · rw [hkeys] at hx hy
        rw [hrank x hx, hrank y hy] at hxy
        exact ht.inj (Finset.mem_of_mem_erase hx) (Finset.mem_of_mem_erase hy) hxy
      · have hh' := hmem _ hh
        have hanc' := hmem _ hanc
        rw [hrank _ hh', hrank _ hanc']
        exact ht.parent_lt h anc (Finmap.mem_keys.mp (Finset.mem_of_mem_erase hh'))
          (Finmap.mem_keys.mp (Finset.mem_of_mem_erase hanc'))
    have hfirsts : Ranking.firsts t.evictOne.rank (t.evictOne.size - k) t.evictOne.nodes.keys =
        Ranking.firsts t.rank (t.size - (k + 1)) t.nodes.keys := by
      rw [hkeys, hsize, Nat.sub_sub, Nat.add_comm 1 k]
      rw [Ranking.firsts_congr (g := t.rank) fun x hx y hy => by rw [hrank x hx, hrank y hy]]
      refine Ranking.firsts_erase_last (Finmap.mem_keys.mpr hz)
        (fun y hy hyz => hlast y (Finmap.mem_keys.mp hy) hyz) ?_
      rw [← size]
      omega
    rw [Function.iterate_succ_apply, ih hordered (by omega), hfirsts]
    split_ifs with hp
    · refine hlookup p fun hpz => ?_
      -- the last node is not among the first ones
      rw [← hfirsts, hpz] at hp
      exact Finset.notMem_erase z _ (hkeys ▸ Ranking.firsts_subset hp)
    · rfl

/-- The nodes of an ordered tree after an eviction. -/
theorem lookup_evictTo {t : RadixTree K} (ht : t.Ordered) (b : ℕ) (p : List K) :
    (t.evictTo b).nodes.lookup p =
      if p ∈ Ranking.firsts t.rank b t.nodes.keys then t.nodes.lookup p else none := by
  rw [evictTo, lookup_iterate_evictOne ht (Nat.sub_le _ _)]
  have hsame : Ranking.firsts t.rank (t.size - (t.size - b)) t.nodes.keys =
      Ranking.firsts t.rank b t.nodes.keys := by
    rcases Nat.le_total b t.size with h | h
    · rw [Nat.sub_sub_self h]
    · rw [Nat.sub_eq_zero_of_le h, Nat.sub_zero, Ranking.firsts_of_card_le h, size,
        Ranking.firsts_of_card_le le_rfl]
  rw [hsame]

/-- The clock and the sequence number after an eviction. -/
theorem clock_seq_evictTo (t : RadixTree K) (b : ℕ) :
    (t.evictTo b).clock = t.clock ∧ (t.evictTo b).seq = t.seq :=
  clock_seq_iterate_evictOne t _

end RadixTree
