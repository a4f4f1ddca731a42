import Mathlib.Algebra.BigOperators.Group.Finset.Basic
import DynamoRouter.Lib.Amortized
import DynamoRouter.Lib.HeapWork
import DynamoRouter.Router.PrefixRefinement
import DynamoRouter.Router.SchedulerInvariant

set_option relaxedAutoImplicit false
set_option autoImplicit false

/-!
# The work on the heaps (`crates/router/src/prefix_cache.rs`)

Every touch of a block pushes an entry on the heap of its cache; an eviction pops entries, and discards
the stale ones; and a heap that has outgrown its map is rebuilt. Over a run, the work is two entries for
each block that was touched.

## Main definitions

* `PrefixCache.heapWork`, `Scheduler.heapWork` — the work of one call.

## Main results

* `PrefixCache.heapWork_le` — the work of every run of calls of a cache.
* `Scheduler.routingWork_le` — the work of every run of the scheduler, in all caches together.
-/

namespace PrefixCache

/-- The work of one call: the entries pushed, rebuilt and popped. -/
def heapWork (c : PrefixCache) : CacheOp → ℕ
  | .insert hashes => c.tickWork compactFloor hashes
  | .matchPrefix hashes => c.tickWork compactFloor (hashes.takeWhile c.contains)
  | .lookup _ => 0
  | .evictTo budget => c.evictWork budget

/-- The blocks that a call touches. -/
def touched : CacheOp × CacheAnswer → ℕ
  | (.insert hashes, _) => hashes.length
  | (.matchPrefix _, (count, _)) => count.getD 0
  | _ => 0

/-- **One call** is paid for by two units for each touched block, and what it takes off the heap. -/
theorem heapWork_step {c c' : PrefixCache} {op : CacheOp} {a : CacheAnswer}
    (hstep : lts.step c op a c') :
    c.heapWork op + c'.heap.len ≤ c.heap.len + 2 * touched (op, a) := by
  rw [lts, Lts.ofFun_step] at hstep
  cases op with
  | insert hashes =>
    obtain ⟨rfl, rfl⟩ := Prod.mk.inj (Option.some_inj.mp hstep)
    rw [toLazyLru_insert]
    exact LazyLru.tickWork_le compactFloor c.toLazyLru hashes
  | matchPrefix hashes =>
    obtain ⟨rfl, rfl⟩ := Prod.mk.inj (Option.some_inj.mp hstep)
    rw [toLazyLru_matchPrefix, touched, matchPrefix_fst]
    exact LazyLru.tickWork_le compactFloor c.toLazyLru (hashes.takeWhile c.contains)
  | lookup hashes =>
    obtain ⟨rfl, rfl⟩ := Prod.mk.inj (Option.some_inj.mp hstep)
    simp [heapWork]
  | evictTo budget =>
    obtain ⟨rfl, rfl⟩ := Prod.mk.inj (Option.some_inj.mp hstep)
    exact (LazyLru.evictWork_eq budget c.toLazyLru).le

/-- **The work on the heap is two entries for each touched block.** In every run of insertions, matches,
lookups and evictions, of any chains and to any budgets, the entries that were pushed, rebuilt or popped,
and those that are still on the heap, are at most twice as many as the touches.

**Proof sketch.** The method of potentials (`Lts.metered_le`), with the length of the heap. -/
theorem heapWork_le {τ : List (CacheOp × CacheAnswer)} {c : PrefixCache} {k : ℕ}
    (h : (Lts.metered step heapWork).Exec (new, 0) τ (c, k)) :
    k + c.heap.len ≤ 2 * (τ.map touched).sum := by
  have hle := Lts.metered_le (fun c : PrefixCache => c.heap.len) 2 touched
    (fun _ _ _ _ hstep => heapWork_step hstep) h
  exact hle.trans (Nat.le_of_eq (Nat.zero_add _))

/-- The bound is met when everything is evicted: four entries are pushed, and four are popped. -/
theorem heapWork_le_evicted : ∃ τ c,
    (Lts.metered step heapWork).Exec (new, 0) τ (c, 8) ∧ c.heap.len = 0 ∧ (τ.map touched).sum = 4 ∧
      8 + c.heap.len ≤ 2 * (τ.map touched).sum := by
  have hrun := Lts.exec_get (Lts.meteredStep step heapWork) (new, 0)
    [.insert [1, 2], .matchPrefix [1, 2, 3], .lookup [1], .evictTo 1, .evictTo 0] (by decide +kernel)
  obtain ⟨τ, c, k, hrun, hk, hlen, htouched⟩ : ∃ τ c k,
      (Lts.metered step heapWork).Exec (new, 0) τ (c, k) ∧ k = 8 ∧ c.heap.len = 0 ∧
        (τ.map touched).sum = 4 :=
    ⟨_, _, _, hrun, by decide +kernel, by decide +kernel, by decide +kernel⟩
  subst hk
  exact ⟨τ, c, hrun, hlen, htouched, heapWork_le hrun⟩

end PrefixCache

namespace Scheduler

variable {F : Type} {n : ℕ} [Mul F] [Sub F] [LT F] [DecidableLT F] [ScoreArith F]

/-- The work of one call: under `CacheAware` the chosen replica's cache takes in the chain, and is cut down
to the budget. -/
def heapWork (s : Scheduler F n) : Op n → ℕ
  | .pick hashes =>
    match s.pick hashes with
    | some (.ok d, _) =>
      if s.policy = Policy.cacheAware then
        let cache := (s.replicas d.replica).cache
        cache.heapWork (.insert hashes) + (cache.insert hashes).heapWork (.evictTo s.cfg.blockBudget)
      else 0
    | _ => 0
  | _ => 0

/-- The blocks of a prompt that was routed. -/
def routedBlocks : Op n × Answer n → ℕ
  | (.pick hashes, some (.ok _)) => hashes.length
  | _ => 0

/-- The entries on all heaps. -/
def heapEntries (s : Scheduler F n) : ℕ := ∑ r, (s.replicas r).cache.heap.len

omit [Mul F] [Sub F] [LT F] [DecidableLT F] [ScoreArith F] in
/-- The account of the heaps when one replica is replaced. -/
theorem heapEntries_setReplica (s : Scheduler F n) (r : Fin n) (x : ReplicaState) :
    (s.setReplica r x).heapEntries + (s.replicas r).cache.heap.len =
      s.heapEntries + x.cache.heap.len := by
  have hrest : ∀ i ∈ Finset.univ.erase r,
      ((s.setReplica r x).replicas i).cache.heap.len = (s.replicas i).cache.heap.len := fun i hi => by
    rw [replicas_setReplica_of_ne _ _ (Finset.ne_of_mem_erase hi)]
  rw [heapEntries, heapEntries, ← Finset.add_sum_erase _ _ (Finset.mem_univ r),
    ← Finset.add_sum_erase _ _ (Finset.mem_univ r), Finset.sum_congr rfl hrest,
    replicas_setReplica_self]
  omega

omit [Mul F] [Sub F] [LT F] [DecidableLT F] [ScoreArith F] in
/-- A replica whose cache is replaced by a new one has nothing on its heap. -/
theorem heapEntries_markUnhealthy (s : Scheduler F n) (r : Fin n) :
    (s.markUnhealthy r).heapEntries ≤ s.heapEntries := by
  have haccount : (s.markUnhealthy r).heapEntries + (s.replicas r).cache.heap.len = s.heapEntries + 0 :=
    s.heapEntries_setReplica r _
  omega

omit [Mul F] [Sub F] [LT F] [DecidableLT F] [ScoreArith F] in
/-- The account of the heaps when a request is routed. -/
theorem heapEntries_commit (s : Scheduler F n) (hashes : List UInt64) (idx : Fin n) (rr : ℕ) :
    (s.commit hashes idx rr).heapEntries + (s.replicas idx).cache.heap.len =
      s.heapEntries + (if s.policy = Policy.cacheAware then
        ((s.replicas idx).cache.insert hashes).evictTo s.cfg.blockBudget
        else (s.replicas idx).cache).heap.len := by
  have haccount := ({ s with rrNext := rr } : Scheduler F n).heapEntries_setReplica idx
    ((s.commit hashes idx rr).replicas idx)
  rw [replicas_commit_self] at haccount
  exact haccount

/-- A pick is paid for by two units for each block of the prompt, and what it takes off the heap of the
chosen replica. -/
theorem heapWork_commit (s : Scheduler F n) {hashes : List UInt64} {d : RouteDecision n} {rr : ℕ}
    (hpick : s.pick hashes = some (.ok d, s.commit hashes d.replica rr)) :
    s.heapWork (.pick hashes) + (s.commit hashes d.replica rr).heapEntries ≤
      s.heapEntries + 2 * hashes.length := by
  have haccount := s.heapEntries_commit hashes d.replica rr
  simp only [heapWork, hpick]
  split_ifs at haccount ⊢ with hpolicy
  · have hinsert := @PrefixCache.heapWork_step (s.replicas d.replica).cache _ (.insert hashes) _ rfl
    have hevict := @PrefixCache.heapWork_step ((s.replicas d.replica).cache.insert hashes) _
      (.evictTo s.cfg.blockBudget) _ rfl
    simp only [PrefixCache.touched] at hinsert hevict
    omega
  · omega

/-- **One call** is paid for by two units for each block that was routed, and what it takes off the heaps. -/
theorem heapWork_step {s s' : Scheduler F n} {op : Op n} {a : Answer n}
    (hstep : (lts F n).step s op a s') :
    s.heapWork op + s'.heapEntries ≤ s.heapEntries + 2 * routedBlocks (op, a) := by
  cases step_inv hstep with
  | refused hashes e =>
    obtain ⟨⟨answer, t⟩, hpick, heq⟩ := Option.map_eq_some_iff.mp hstep
    cases heq
    simp [heapWork, hpick]
  | picked hashes d rr =>
    obtain ⟨⟨answer, t⟩, hpick, heq⟩ := Option.map_eq_some_iff.mp hstep
    cases heq
    exact heapWork_commit s hpick
  | complete r =>
    have hcache : (s.complete r).heapEntries = s.heapEntries :=
      Finset.sum_congr rfl fun i _ => by rw [cache_complete]
    simp [heapWork, hcache]
  | markUnhealthy r => simpa [heapWork] using (heapEntries_markUnhealthy s r).trans (Nat.le_add_right _ _)
  | markHealthy r =>
    have hcache : (s.markHealthy r).heapEntries = s.heapEntries :=
      Finset.sum_congr rfl fun i _ => by rw [cache_markHealthy]
    simp [heapWork, hcache]

variable {policy : Policy} {cfg : SchedulerConfig F} {τ : List (Op n × Answer n)} {s : Scheduler F n}
  {k : ℕ}

/-- **The work on all heaps is two entries for each routed block.** In every run of the scheduler, under
any policy and budget, with replicas that fail and come back, the entries that were pushed on the heaps of
the caches, rebuilt, or popped, and those that are still on them, are at most twice as many as the blocks of
the prompts that were routed.

**Proof sketch.** The method of potentials, with the entries on all heaps. -/
theorem routingWork_le (h : (Lts.metered step heapWork).Exec (new n policy cfg, 0) τ (s, k)) :
    k + s.heapEntries ≤ 2 * (τ.map routedBlocks).sum := by
  have hle := Lts.metered_le heapEntries 2 routedBlocks (fun _ _ _ _ hstep => heapWork_step hstep) h
  have hzero : (new n policy cfg).heapEntries = 0 := Finset.sum_eq_zero fun r _ => rfl
  rwa [hzero, Nat.zero_add] at hle

/-- The work of a run in which a replica is hit, evicts, fails, and is filled again. -/
theorem routingWork_le_hit : ∃ τ s k,
    (Lts.metered step heapWork).Exec (new 1 .cacheAware smallConfig, 0) τ (s, k) ∧ k = 13 ∧
      s.heapEntries = 2 ∧ (τ.map routedBlocks).sum = 9 ∧
      k + s.heapEntries ≤ 2 * (τ.map routedBlocks).sum := by
  have hrun := Lts.exec_get (Lts.meteredStep step heapWork) (new 1 .cacheAware smallConfig, 0)
    [.pick [1, 2], .complete 0, .pick [1, 2, 3], .complete 0, .pick [1, 3], .markUnhealthy 0,
      .markHealthy 0, .pick [4, 5]] (by decide +kernel)
  exact ⟨_, _, _, hrun, by decide +kernel, by decide +kernel, by decide +kernel, routingWork_le hrun⟩

end Scheduler
