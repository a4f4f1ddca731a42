import DynamoRouter.Lib.Recency
import DynamoRouter.Router.PrefixRefinement

set_option relaxedAutoImplicit false
set_option autoImplicit false

/-!
# Eviction of the prefix cache is exact LRU (`crates/router/src/prefix_cache.rs`)

The heap of a prefix cache holds entries of blocks that were touched again since, of blocks that were
evicted and came back, and several entries of a block that a list repeats. It may have been rebuilt at
any time. None of this shows: whatever calls came before, `evict_to` leaves the blocks that a sort of the
map by recency puts first, as if the map were scanned for its oldest block over and over.

## Main results

* `PrefixCache.wf_of_exec` — the invariant of heap and map, along every run.
* `PrefixCache.evictTo_exact` — what an eviction leaves, after every run.
-/

namespace PrefixCache

/-- Every call keeps the invariant of heap and map. -/
theorem wf_step {c c' : PrefixCache} {op : CacheOp} {a : CacheAnswer} (h : c.Wf)
    (hstep : lts.step c op a c') : c'.Wf := by
  rw [lts, Lts.ofFun_step] at hstep
  cases op with
  | insert hashes =>
    cases hstep
    rw [toLazyLru_insert]
    exact LazyLru.Wf.tick h _ _
  | matchPrefix hashes =>
    cases hstep
    rw [toLazyLru_matchPrefix]
    exact LazyLru.Wf.tick h _ _
  | lookup hashes =>
    cases hstep
    exact h
  | evictTo budget =>
    cases hstep
    exact LazyLru.Wf.evictTo h budget

variable {τ : List (CacheOp × CacheAnswer)} {c : PrefixCache}

/-- The invariant of heap and map holds along every run. -/
theorem wf_of_exec (h : lts.Exec new τ c) : c.Wf :=
  Lts.Run.invariant (I := fun _ c => c.Wf) h LazyLru.wf_empty fun _ _ _ _ _ hI _ hstep =>
    wf_step hI hstep

/-- **Eviction is exact.** After every run of calls, with any lists of hashes and any budgets, and for
every budget `b`: `evict_to` leaves `b` blocks, or all if there are fewer, and never finds its heap empty
before that. The map sorted by the access time, the latest first, and then by the sequence number, the
smallest first, is cut to its first `b` blocks, with their stamps; and a scan of the map for its oldest
block, repeated until the budget is met, leaves the same map. -/
theorem evictTo_exact (h : lts.Exec new τ c) (b : ℕ) :
    (c.evictTo b).numBlocks = min c.numBlocks b ∧
    ¬ LazyLru.FindsHeapEmpty b c.map c.heap.toList ∧
    (LazyLru.byRecency c.map).Pairwise
      (fun e e' => e'.stamp.1 < e.stamp.1 ∨ e.stamp.1 = e'.stamp.1 ∧ e.stamp.2 < e'.stamp.2) ∧
    (∀ e, e ∈ LazyLru.byRecency c.map ↔ c.map.lookup e.key = some e.stamp) ∧
    LazyLru.byRecency (c.evictTo b).map = (LazyLru.byRecency c.map).take b ∧
    ∀ m, LazyLru.ScansTo (c.numBlocks - b) c.map m ↔ m = (c.evictTo b).map := by
  have hwf := wf_of_exec h
  refine ⟨?_, hwf.not_findsHeapEmpty b, ?_, fun e => LazyLru.mem_byRecency, hwf.byRecency_evictTo b,
    fun m => hwf.scansTo_iff b⟩
  · rw [min_comm]
    exact LazyLru.size_evictTo hwf b
  · simpa only [LazyLru.place_lt_iff] using LazyLru.SeqInj.pairwise_byRecency hwf.seq_inj

/-- An eviction after a run in which a block is repeated, refreshed, evicted and inserted again. -/
theorem evictTo_exact_two : ∃ τ c, lts.Exec new τ c ∧ τ.length = 5 ∧
    (c.evictTo 2).numBlocks = min c.numBlocks 2 ∧
    LazyLru.byRecency (c.evictTo 2).map = (LazyLru.byRecency c.map).take 2 := by
  have hrun := Lts.exec_get step new
    [.insert [1, 2, 3, 2], .matchPrefix [2, 4], .evictTo 1, .insert [3, 1], .matchPrefix [1]]
    (by decide +kernel)
  have hexact := evictTo_exact hrun 2
  exact ⟨_, _, hrun, by decide +kernel, hexact.1, hexact.2.2.2.2.1⟩

end PrefixCache
