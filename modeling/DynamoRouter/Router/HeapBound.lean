import DynamoRouter.Lib.HeapSize
import DynamoRouter.Router.SchedulerInvariant

set_option relaxedAutoImplicit false
set_option autoImplicit false

/-!
# The memory of the caches (`crates/router/src/scheduler.rs`, `prefix_cache.rs`)

A cache is rebuilt only inside `touch`, by the size of its map before the eviction of the same pick. The
map may shrink to half in that eviction, so the threshold of the rebuild is not a bound of the heap after
a pick. Three times the map is, in every run in which no prompt repeats a block.

## Main definitions

* `Scheduler.Op.Distinct` — the prompt of a pick repeats no block.
* `PrefixCache.HeapBounded` — the bound, and what it is carried by.

## Main results

* `PrefixCache.HeapBounded.insert_evictTo` — one pick, at its replica.
* `Scheduler.heap_len_le` — the bound, along every run.
-/

namespace PrefixCache

/-- The heap of a cache is in order, and at most three times the map, which counts for at least the
compaction floor. -/
structure HeapBounded (c : PrefixCache) : Prop where
  /-- The entries of the heap are distinct, and not ahead of the counters. -/
  ok : c.HeapOk
  /-- The heap is within three times the map. -/
  len_le : c.heap.len ≤ 3 * max c.numBlocks compactFloor

/-- The heap of a new cache is empty. -/
theorem heapBounded_new : new.HeapBounded where
  ok := LazyLru.heapOk_empty
  len_le := Nat.zero_le _

/-- **A pick keeps the bound at its replica.** A chain of distinct hashes is inserted into a cache within
the budget, and the cache is cut down to the budget.

**Proof sketch.** The heap stays in order under the touches and the evictions, and its length after both
is bounded by that of the map (`LazyLru.len_heap_evictTo_tick`). -/
theorem HeapBounded.insert_evictTo {c : PrefixCache} (h : c.HeapBounded) (hc : c.Wf) {budget : ℕ}
    (hbudget : c.numBlocks ≤ budget) {hashes : List UInt64} (hnd : hashes.Nodup) :
    ((c.insert hashes).evictTo budget).HeapBounded := by
  have htick : ((c.insert hashes).evictTo budget).toLazyLru =
      (c.toLazyLru.tick compactFloor hashes).evictTo budget := by
    rw [evictTo, toLazyLru_insert]
  refine ⟨?_, ?_⟩
  · rw [htick]
    exact (h.ok.tick hc compactFloor hashes).evictTo budget
  · rw [numBlocks, htick]
    exact LazyLru.len_heap_evictTo_tick hc h.ok compactFloor hbudget hnd

end PrefixCache

namespace Scheduler

variable {F : Type} {n : ℕ}

/-- The prompt of a pick repeats no block. -/
def Op.Distinct : Op n → Prop
  | .pick hashes => hashes.Nodup
  | _ => True

/-- Whether a prompt repeats a block can be decided. -/
instance : (op : Op n) → Decidable op.Distinct
  | .pick hashes => inferInstanceAs (Decidable hashes.Nodup)
  | .complete _ => .isTrue trivial
  | .markUnhealthy _ => .isTrue trivial
  | .markHealthy _ => .isTrue trivial

variable [Mul F] [Sub F] [LT F] [DecidableLT F] [ScoreArith F]

/-- **One call keeps the bound**, if it repeats no block. -/
theorem heapBounded_step {s s' : Scheduler F n} {op : Op n} {a : Answer n} (hinv : s.Inv)
    (h : ∀ r, (s.replicas r).cache.HeapBounded) (hop : op.Distinct)
    (hstep : (lts F n).step s op a s') (r : Fin n) : (s'.replicas r).cache.HeapBounded := by
  cases step_inv hstep with
  | refused => exact h r
  | picked hashes d rr =>
    refine commit_induction (P := fun _ x => x.cache.HeapBounded) ?_ h r
    rw [replicas_commit_self]
    split_ifs
    · exact (h _).insert_evictTo (hinv.replica _).wf (hinv.replica _).numBlocks_le hop
    · exact h _
  | complete i =>
    rw [cache_complete]
    exact h r
  | markUnhealthy i =>
    exact setReplica_induction (P := fun _ x => x.cache.HeapBounded) PrefixCache.heapBounded_new h r
  | markHealthy i =>
    rw [cache_markHealthy]
    exact h r

variable {policy : Policy} {cfg : SchedulerConfig F} {τ : List (Op n × Answer n)} {s : Scheduler F n}

/-- **The heap of every cache stays proportional to its map.** In every state of every run whose prompts
each repeat no block, whatever the policy and the block budget, the heap of each cache has at most
`3 * max num_blocks 1024` entries.

**Proof sketch.** By induction on the run, with the invariant of the scheduler (`Scheduler.Inv.step`,
`heapBounded_step`). -/
theorem heap_len_le
    (h : (lts F n).Run (fun _ _ op => op.Distinct) (new n policy cfg) τ s) (r : Fin n) :
    (s.replicas r).cache.heap.len ≤ 3 * max (s.replicas r).cache.numBlocks 1024 := by
  have hall : s.Inv ∧ ∀ r, (s.replicas r).cache.HeapBounded :=
    Lts.Run.invariant (I := fun _ s => s.Inv ∧ ∀ r, (s.replicas r).cache.HeapBounded) h
      ⟨inv_new n policy cfg, fun _ => PrefixCache.heapBounded_new⟩
      fun _ _ _ _ _ hI hop hstep => ⟨hI.1.step hstep, heapBounded_step hI.1 hI.2 hop hstep⟩
  exact (hall.2 r).len_le

/-- The bound in a run in which a replica is hit again and again, and evicts. -/
theorem heap_len_le_hit : ∃ τ s,
    (lts ℚ 1).Run (fun _ _ op => op.Distinct) (new 1 .cacheAware smallConfig) τ s ∧ τ.length = 5 ∧
      (s.replicas 0).cache.numBlocks = 2 ∧
      (s.replicas 0).cache.heap.len ≤ 3 * max (s.replicas 0).cache.numBlocks 1024 := by
  have hrun := Lts.run_get step (new 1 .cacheAware smallConfig) (fun _ _ op => op.Distinct)
    [.pick [1, 2], .complete 0, .pick [1, 2, 3], .complete 0, .pick [1, 3]] (by decide +kernel)
  exact ⟨_, _, hrun, by decide +kernel, by decide +kernel, heap_len_le hrun 0⟩

end Scheduler
