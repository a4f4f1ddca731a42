import DynamoRouter.Lib.ChainFamily
import DynamoRouter.Lib.Lts
import DynamoRouter.Router.PrefixCache

set_option relaxedAutoImplicit false
set_option autoImplicit false

/-!
# The flat cache refines a radix tree

`prefix_cache.rs` keeps a flat map from block hashes to stamps where one would expect a radix tree over
token blocks, on the ground that chained hashes commit to all earlier blocks. Here the two are run side
by side: as long as every chain comes from a collision-free family, the flat cache and a radix tree with
leaf-first eviction answer the same counts and hold the same number of blocks after every call.

## Main definitions

* `CacheOp` — the calls; `PrefixCache.step` and `RadixTree.step` — the two systems.

## Main results

* `PrefixCache.simulation` — one call.
* `PrefixCache.refines_radixTree` — every run, and what follows for the ancestors of a block.
-/

/-- A call of one of the operations of the cache. -/
inductive CacheOp
  | insert (hashes : List UInt64)
  | matchPrefix (hashes : List UInt64)
  | lookup (hashes : List UInt64)
  | evictTo (budget : ℕ)
  deriving DecidableEq, Repr

/-- The call is for a chain of the family, if it is for a chain. -/
def CacheOp.ChainIn (F : Set (List UInt64)) : CacheOp → Prop
  | .insert hashes => hashes ∈ F
  | .matchPrefix hashes => hashes ∈ F
  | .lookup hashes => hashes ∈ F
  | .evictTo _ => True

/-- Chains of a decidable family are recognised. -/
instance (F : Set (List UInt64)) [DecidablePred (· ∈ F)] : (op : CacheOp) → Decidable (op.ChainIn F)
  | .insert hashes => inferInstanceAs (Decidable (hashes ∈ F))
  | .matchPrefix hashes => inferInstanceAs (Decidable (hashes ∈ F))
  | .lookup hashes => inferInstanceAs (Decidable (hashes ∈ F))
  | .evictTo _ => .isTrue trivial

/-- What is observed of a call: the count it answers, if it answers one, and the number of blocks
after it. -/
abbrev CacheAnswer := Option ℕ × ℕ

/-- One call of the flat cache. -/
def PrefixCache.step (c : PrefixCache) : CacheOp → Option (CacheAnswer × PrefixCache)
  | .insert hashes => some ((none, (c.insert hashes).numBlocks), c.insert hashes)
  | .matchPrefix hashes =>
    some ((some (c.matchPrefix hashes).1, (c.matchPrefix hashes).2.numBlocks),
      (c.matchPrefix hashes).2)
  | .lookup hashes => some ((some (c.lookup hashes), c.numBlocks), c)
  | .evictTo budget => some ((none, (c.evictTo budget).numBlocks), c.evictTo budget)

/-- One call of the reference tree: an insertion refreshes the whole path, a match walks from the root
and refreshes the matched path, and an eviction removes leaves. -/
noncomputable def RadixTree.step (t : RadixTree UInt64) :
    CacheOp → Option (CacheAnswer × RadixTree UInt64)
  | .insert hashes => some ((none, (t.touch hashes).size), t.touch hashes)
  | .matchPrefix hashes =>
    some ((some (t.matchPath hashes).1, (t.matchPath hashes).2.size), (t.matchPath hashes).2)
  | .lookup hashes => some ((some (t.lookup hashes), t.size), t)
  | .evictTo budget => some ((none, (t.evictTo budget).size), t.evictTo budget)

namespace PrefixCache

/-- The flat cache as a transition system. -/
def lts : Lts PrefixCache CacheOp CacheAnswer := .ofFun step

/-- The reference tree as a transition system. -/
noncomputable def treeLts : Lts (RadixTree UInt64) CacheOp CacheAnswer := .ofFun RadixTree.step

variable {F : Set (List UInt64)}

/-- **One call.** A call of the flat cache for a chain of a collision-free family is the same call of
the tree, with the same answer.

**Proof sketch.** One case for each call. The chain of a call is of the family, and so is its part that
`match_prefix` touches, so that the rules of the refinement apply (`LazyLru.Refines.tick`, `leading_eq`
and `evictTo`). -/
theorem simulation (hF : CollisionFree F) :
    Lts.Simulation lts treeLts (CacheOp.ChainIn F) fun c t => LazyLru.Refines F c.toLazyLru t := by
  intro c t op a c' hR hop hstep
  rw [lts, Lts.ofFun_step] at hstep
  cases op with
  | insert hashes =>
    obtain ⟨rfl, rfl⟩ := Prod.mk.inj (Option.some_inj.mp hstep)
    have hR' : LazyLru.Refines F (c.insert hashes).toLazyLru (t.touch hashes) := by
      rw [toLazyLru_insert]
      exact hR.tick hF hop List.prefix_rfl compactFloor
    refine ⟨_, ?_, hR'⟩
    rw [treeLts, Lts.ofFun_step, RadixTree.step, numBlocks, hR'.size_eq]
  | matchPrefix hashes =>
    obtain ⟨rfl, rfl⟩ := Prod.mk.inj (Option.some_inj.mp hstep)
    have hcount : (c.matchPrefix hashes).1 = t.lookup hashes := by
      rw [matchPrefix_fst]
      exact hR.leading_eq hF hop
    have htake : hashes.takeWhile c.contains = hashes.take (t.lookup hashes) := by
      rw [← hR.leading_eq hF hop]
      exact List.prefix_iff_eq_take.mp (List.takeWhile_prefix _)
    have hR' : LazyLru.Refines F (c.matchPrefix hashes).2.toLazyLru (t.matchPath hashes).2 := by
      rw [toLazyLru_matchPrefix, htake]
      exact hR.tick hF hop (List.take_prefix _ _) compactFloor
    refine ⟨_, ?_, hR'⟩
    rw [treeLts, Lts.ofFun_step, RadixTree.step, numBlocks, hR'.size_eq, hcount]
    rfl
  | lookup hashes =>
    obtain ⟨rfl, rfl⟩ := Prod.mk.inj (Option.some_inj.mp hstep)
    refine ⟨t, ?_, hR⟩
    have hcount : c.lookup hashes = t.lookup hashes := hR.leading_eq hF hop
    rw [treeLts, Lts.ofFun_step, RadixTree.step, numBlocks, hR.size_eq, hcount]
  | evictTo budget =>
    obtain ⟨rfl, rfl⟩ := Prod.mk.inj (Option.some_inj.mp hstep)
    have hR' : LazyLru.Refines F (c.evictTo budget).toLazyLru (t.evictTo budget) :=
      hR.evictTo budget
    refine ⟨_, ?_, hR'⟩
    rw [treeLts, Lts.ofFun_step, RadixTree.step, numBlocks, hR'.size_eq]

/-- **The flat cache refines a radix tree.** For every run of calls for chains of a collision-free
family, from a new cache: the reference tree has a run with the same calls and the same answers, and
ends with a node for each block of the cache. So a present block has all its ancestors present, and a
block that `evict_to` removes has no descendant left.

**Proof sketch.** `simulation` along the run. The ancestors of a present block are present in every
state that refines a tree, before and after an eviction. -/
theorem refines_radixTree (hF : CollisionFree F) {τ : List (CacheOp × CacheAnswer)} {c : PrefixCache}
    (h : lts.Run (fun _ _ op => op.ChainIn F) new τ c) :
    (∃ t, treeLts.Exec RadixTree.empty τ t ∧ c.numBlocks = t.size ∧
      ∀ l ∈ F, ∀ (i : ℕ) (hi : i < l.length),
        l[i] ∈ c.map.keys ↔ (l.take (i + 1)).reverse ∈ t.nodes) ∧
    (∀ l ∈ F, ∀ (i j : ℕ) (hj : j < l.length) (hij : i ≤ j),
      l[j] ∈ c.map.keys → l[i] ∈ c.map.keys) ∧
    ∀ budget, ∀ l ∈ F, ∀ (i j : ℕ) (hj : j < l.length) (hij : i ≤ j),
      l[i] ∉ (c.evictTo budget).map.keys → l[j] ∉ (c.evictTo budget).map.keys := by
  obtain ⟨t, hexec, hR⟩ := (simulation hF).run (LazyLru.refines_empty F) h
  exact ⟨⟨t, hexec, hR.size_eq, fun l hl i hi => hR.mem_keys_iff hF hl hi⟩,
    fun l hl i j hj hij => hR.mem_of_mem hl hij hj,
    fun budget l hl i j hj hij => mt ((hR.evictTo budget).mem_of_mem hl hij hj)⟩

/-- The refinement in a run over the chains of two prompts that share two blocks of three: an eviction
cuts one branch, and the refreshed one keeps its path. -/
theorem refines_radixTree_two : ∃ τ c t,
    lts.Exec new τ c ∧ treeLts.Exec RadixTree.empty τ t ∧ τ.length = 5 ∧ c.numBlocks = 2 ∧
      t.size = 2 := by
  let chains := [Protocol.blockHashes (List.replicate 48 5),
    Protocol.blockHashes (List.replicate 32 5 ++ List.replicate 16 6)]
  have hF : CollisionFree {l | l ∈ chains} := by decide +kernel
  have hrun := Lts.run_get step new (fun _ _ op => op.ChainIn {l | l ∈ chains})
    [.insert chains[0], .insert chains[1], .evictTo 3, .matchPrefix chains[0], .evictTo 2]
    (by decide +kernel)
  obtain ⟨⟨t, hexec, hsize, -⟩, -, -⟩ := refines_radixTree hF hrun
  refine ⟨_, _, t, hrun.exec, hexec, by decide +kernel, by decide +kernel, hsize.symm.trans ?_⟩
  decide +kernel

end PrefixCache
