import DynamoRouter.Router.Scheduler

set_option relaxedAutoImplicit false
set_option autoImplicit false

/-!
# The reachable states of the scheduler

One invariant, `Scheduler.Inv`, that `Scheduler::new` satisfies and that every call of `pick`,
`complete`, `mark_unhealthy` and `mark_healthy` preserves, whatever the scores are.

The clock and the sequence counter of a cache are natural numbers here. `Scheduler.counters_le` bounds
them by the number of picks and of picked blocks of the run, so the 64-bit counters of the code agree
with them in every run of fewer than `2 ^ 64` picks and picked blocks.

## Main definitions

* `ReplicaState.Inv` — the invariant of one replica; `Scheduler.Inv` — of the whole state.

## Main results

* `Scheduler.Inv.step`, `Scheduler.inv_of_exec` — the invariant along a run.
* `Scheduler.reachable_bounds` — what it says about the limits, the unhealthy replicas and eviction.
* `Scheduler.counters_le` — the size of the counters of the caches.
-/

namespace ReplicaState

/-- The invariant of a replica under the given limits. -/
structure Inv {F : Type} (policy : Policy) (cfg : SchedulerConfig F) (x : ReplicaState) : Prop where
  /-- The heap of the cache covers its map. -/
  wf : x.cache.Wf
  /-- The cache is within the block budget. -/
  numBlocks_le : x.cache.numBlocks ≤ cfg.blockBudget
  /-- The in-flight cap holds. -/
  inflight_le : x.inflight ≤ cfg.maxInflight
  /-- Out of routing, nothing is in flight. -/
  inflight_of_unhealthy : x.healthy = false → x.inflight = 0
  /-- Out of routing, the cache is as new. -/
  cache_of_unhealthy : x.healthy = false → x.cache = .new
  /-- Under `RoundRobin` the cache is never used. -/
  cache_of_roundRobin : policy = .roundRobin → x.cache = .new

variable {F : Type} {policy : Policy} {cfg : SchedulerConfig F} {x : ReplicaState}

/-- An idle replica with a new cache satisfies the invariant. -/
theorem inv_idle (policy : Policy) (cfg : SchedulerConfig F) (healthy : Bool) :
    Inv policy cfg { cache := .new, inflight := 0, healthy := healthy } where
  wf := LazyLru.wf_empty
  numBlocks_le := Nat.zero_le _
  inflight_le := Nat.zero_le _
  inflight_of_unhealthy _ := rfl
  cache_of_unhealthy _ := rfl
  cache_of_roundRobin _ := rfl

/-- A completion keeps the invariant. -/
theorem Inv.complete (h : x.Inv policy cfg) :
    Inv policy cfg { x with inflight := x.inflight - 1 } where
  wf := h.wf
  numBlocks_le := h.numBlocks_le
  inflight_le := (Nat.sub_le _ _).trans h.inflight_le
  inflight_of_unhealthy hx := by simp [h.inflight_of_unhealthy hx]
  cache_of_unhealthy := h.cache_of_unhealthy
  cache_of_roundRobin := h.cache_of_roundRobin

/-- Re-admission keeps the invariant. -/
theorem Inv.markHealthy (h : x.Inv policy cfg) : Inv policy cfg { x with healthy := true } where
  wf := h.wf
  numBlocks_le := h.numBlocks_le
  inflight_le := h.inflight_le
  inflight_of_unhealthy hx := absurd hx Bool.noConfusion
  cache_of_unhealthy hx := absurd hx Bool.noConfusion
  cache_of_roundRobin := h.cache_of_roundRobin

end ReplicaState

namespace PrefixCache

/-- A new cache has no blocks. -/
@[simp] theorem numBlocks_new : new.numBlocks = 0 := rfl

/-- The invariant of the cache is kept by an insertion. -/
theorem wf_insert {c : PrefixCache} (hc : c.Wf) (hashes : List UInt64) : (c.insert hashes).Wf := by
  rw [toLazyLru_insert]
  exact LazyLru.Wf.tick hc _ _

/-- The invariant of the cache is kept by an eviction. -/
theorem wf_evictTo {c : PrefixCache} (hc : c.Wf) (b : ℕ) : (c.evictTo b).Wf :=
  LazyLru.Wf.evictTo hc b

/-- An eviction reaches its budget. -/
theorem numBlocks_evictTo_le {c : PrefixCache} (hc : c.Wf) (b : ℕ) : (c.evictTo b).numBlocks ≤ b :=
  (LazyLru.size_evictTo hc b).le.trans (min_le_left _ _)

end PrefixCache

namespace Scheduler

variable {F : Type} {n : ℕ}

/-- The invariant of the scheduler. -/
structure Inv (s : Scheduler F n) : Prop where
  /-- Every replica satisfies its invariant. -/
  replica : ∀ r, (s.replicas r).Inv s.policy s.cfg
  /-- The cursor is `0` or a replica. -/
  rrNext : s.rrNext = 0 ∨ s.rrNext < n

/-- A new scheduler satisfies the invariant. -/
theorem inv_new (n : ℕ) (policy : Policy) (cfg : SchedulerConfig F) : (new n policy cfg).Inv where
  replica _ := ReplicaState.inv_idle policy cfg true
  rrNext := .inl rfl

/-- Replacing a replica by one that satisfies the invariant keeps the invariant. -/
theorem Inv.setReplica {s : Scheduler F n} (h : s.Inv) {r : Fin n} {x : ReplicaState}
    (hx : x.Inv s.policy s.cfg) : (s.setReplica r x).Inv where
  replica := setReplica_induction (P := fun _ x => x.Inv s.policy s.cfg) hx h.replica
  rrNext := h.rrNext

/-- The invariant of the replica that a request was routed to.

**Proof sketch.** An available replica is healthy and below its cap, so that one more request keeps the
cap and nothing is asked of unhealthy replicas. Under `CacheAware` its cache gets the chain and is then
cut down to the budget; otherwise the cache is as it was. -/
theorem Inv.commit_replica {s : Scheduler F n} (h : s.Inv) {idx : Fin n}
    (havail : s.availMask idx = true) (hashes : List UInt64) (rr : ℕ) :
    ((s.commit hashes idx rr).replicas idx).Inv s.policy s.cfg := by
  obtain ⟨hhealthy, hlt⟩ := availMask_iff.mp havail
  have hidx := h.replica idx
  rw [replicas_commit_self]
  by_cases hp : s.policy = .cacheAware
  · rw [if_pos hp]
    have hwf := PrefixCache.wf_insert hidx.wf hashes
    exact
      { wf := PrefixCache.wf_evictTo hwf _
        numBlocks_le := PrefixCache.numBlocks_evictTo_le hwf _
        inflight_le := hlt
        inflight_of_unhealthy := fun hx => by simp [hhealthy] at hx
        cache_of_unhealthy := fun hx => by simp [hhealthy] at hx
        cache_of_roundRobin := fun hr => by simp [hp] at hr }
  · rw [if_neg hp]
    exact
      { hidx with
        inflight_le := hlt
        inflight_of_unhealthy := fun hx => by simp [hhealthy] at hx }

variable [Mul F] [Sub F] [LT F] [DecidableLT F] [ScoreArith F]

/-- A successful pick leaves the cursor at `0` or at a replica. -/
theorem Inv.rrNext_of_route {s : Scheduler F n} (h : s.Inv) {hashes : List UInt64} {idx : Fin n}
    {m rr : ℕ} (hroute : s.route hashes = some (idx, m, rr)) : rr = 0 ∨ rr < n := by
  rcases route_eq_some_inv hroute with ⟨-, -, -, rfl⟩ | ⟨-, -, rfl⟩
  · exact .inr (Nat.mod_lt _ idx.pos)
  · exact h.rrNext

/-- **One call keeps the invariant.**

**Proof sketch.** A pick is for an available replica (`Inv.commit_replica`) and moves the cursor to a
replica, if at all; the other calls replace one replica by one that satisfies the invariant. -/
theorem Inv.step {s s' : Scheduler F n} (h : s.Inv) {op : Op n} {a : Answer n}
    (hstep : (lts F n).step s op a s') : s'.Inv := by
  cases step_inv hstep with
  | refused => exact h
  | picked hashes d rr havail hroute _ =>
    refine ⟨?_, h.rrNext_of_route hroute⟩
    exact commit_induction (P := fun _ x => x.Inv s.policy s.cfg)
      (h.commit_replica havail hashes rr) h.replica
  | complete r => exact h.setReplica (h.replica r).complete
  | markUnhealthy r => exact h.setReplica (ReplicaState.inv_idle _ _ false)
  | markHealthy r => exact h.setReplica (h.replica r).markHealthy

/-- No call changes the policy or the configuration. -/
theorem policy_cfg_step {s s' : Scheduler F n} {op : Op n} {a : Answer n}
    (hstep : (lts F n).step s op a s') : s'.policy = s.policy ∧ s'.cfg = s.cfg := by
  cases step_inv hstep <;> exact ⟨rfl, rfl⟩

variable {policy : Policy} {cfg : SchedulerConfig F} {τ : List (Op n × Answer n)}
  {s₀ s : Scheduler F n}

/-- No run changes the policy or the configuration. -/
theorem policy_cfg_exec (h : (lts F n).Exec s₀ τ s) : s.policy = s₀.policy ∧ s.cfg = s₀.cfg :=
  Lts.Run.invariant (I := fun _ s => s.policy = s₀.policy ∧ s.cfg = s₀.cfg) h ⟨rfl, rfl⟩
    fun _ _ _ _ _ hI _ hstep =>
      ⟨(policy_cfg_step hstep).1.trans hI.1, (policy_cfg_step hstep).2.trans hI.2⟩

/-- The policy of a run from `Scheduler::new`. -/
theorem policy_of_exec (h : (lts F n).Exec (new n policy cfg) τ s) : s.policy = policy :=
  (policy_cfg_exec h).1

/-- The configuration of a run from `Scheduler::new`. -/
theorem cfg_of_exec (h : (lts F n).Exec (new n policy cfg) τ s) : s.cfg = cfg :=
  (policy_cfg_exec h).2

/-- **The invariant holds in every reachable state.** -/
theorem inv_of_exec (h : (lts F n).Exec (new n policy cfg) τ s) : s.Inv :=
  Lts.Run.invariant (I := fun _ s => s.Inv) h (inv_new n policy cfg)
    fun _ _ _ _ _ hI _ hstep => hI.step hstep

/-- **The reachable states of the scheduler.** In every state of every run from `Scheduler::new`, the
in-flight cap and the block budget hold for every replica; an unhealthy replica has nothing in flight
and a new cache, so it is re-admitted idle and cold; under `RoundRobin` every cache is as new; the
cursor is `0` or a replica; and the `evict_to` of the next pick, wherever it is routed, reaches the
budget and does not find the heap empty first.

**Proof sketch.** The invariant (`inv_of_exec`) says it of the state; and as it covers the map of a cache
by its heap, it says it also of the cache that a pick has inserted its chain into. -/
theorem reachable_bounds (h : (lts F n).Exec (new n policy cfg) τ s) :
    (∀ r, s.inflight r ≤ cfg.maxInflight ∧ (s.replicas r).cache.numBlocks ≤ cfg.blockBudget) ∧
    (∀ r, s.isHealthy r = false →
      s.inflight r = 0 ∧ (s.replicas r).cache.numBlocks = 0 ∧
      (s.markHealthy r).replicas r = { cache := .new, inflight := 0, healthy := true }) ∧
    (policy = .roundRobin → ∀ r, (s.replicas r).cache.numBlocks = 0) ∧
    (s.rrNext = 0 ∨ s.rrNext < n) ∧
    ∀ r hashes, (((s.replicas r).cache.insert hashes).evictTo cfg.blockBudget).numBlocks
          ≤ cfg.blockBudget ∧
      ¬ LazyLru.FindsHeapEmpty cfg.blockBudget ((s.replicas r).cache.insert hashes).map
          ((s.replicas r).cache.insert hashes).heap.toList := by
  have hinv := inv_of_exec h
  obtain ⟨rfl, rfl⟩ : s.policy = policy ∧ s.cfg = cfg := policy_cfg_exec h
  refine ⟨fun r => ⟨(hinv.replica r).inflight_le, (hinv.replica r).numBlocks_le⟩, fun r hr => ?_,
    fun hp r => ?_, hinv.rrNext, fun r hashes => ?_⟩
  · have hinflight := (hinv.replica r).inflight_of_unhealthy hr
    have hcache := (hinv.replica r).cache_of_unhealthy hr
    refine ⟨hinflight, by rw [hcache, PrefixCache.numBlocks_new], ?_⟩
    simp [markHealthy, hinflight, hcache]
  · rw [(hinv.replica r).cache_of_roundRobin hp, PrefixCache.numBlocks_new]
  · have hwf := PrefixCache.wf_insert (hinv.replica r).wf hashes
    exact ⟨PrefixCache.numBlocks_evictTo_le hwf _, LazyLru.Wf.not_findsHeapEmpty hwf _⟩

/-- A small configuration: a budget of two blocks, one request in flight. -/
def smallConfig : SchedulerConfig ℚ where
  alpha := 1
  beta := 2
  minMatchBlocks := 1
  blockBudget := 2
  maxInflight := 1

/-- The bounds in a run of two replicas in which a cache is cut down to its budget, and a replica is
taken out of routing and back. -/
theorem reachable_bounds_two : ∃ τ s,
    (lts ℚ 2).Exec (new 2 .cacheAware smallConfig) τ s ∧ τ.length = 5 ∧
      ∀ r, s.inflight r ≤ 1 ∧ (s.replicas r).cache.numBlocks ≤ 2 := by
  have hrun := Lts.exec_get step (new 2 .cacheAware smallConfig)
    [.pick [1, 2, 3], .pick [1, 2, 4], .complete 0, .markUnhealthy 1, .markHealthy 1]
    (by decide +kernel)
  exact ⟨_, _, hrun, by decide +kernel, (reachable_bounds hrun).1⟩

/-! ## The counters of the caches -/

/-- The blocks passed to a call. -/
def Op.blocks : Op n → ℕ
  | .pick hashes => hashes.length
  | _ => 0

/-- The number of picks of a run. -/
def picks (τ : List (Op n × Answer n)) : ℕ := τ.countP fun x => x.1.isPick

/-- The number of blocks passed to the picks of a run. -/
def blocks (τ : List (Op n × Answer n)) : ℕ := (τ.map fun x => x.1.blocks).sum

/-- One call advances the clock of a cache by at most one, and only if it is a pick, and its sequence
counter by at most the blocks passed.

**Proof sketch.** A pick touches the blocks of its chain in one cache, in one tick of its clock; an
eviction does not touch the counters, and a mark as unhealthy sets them to zero. -/
theorem counters_step {s s' : Scheduler F n} {op : Op n} {a : Answer n}
    (hstep : (lts F n).step s op a s') (r : Fin n) :
    (s'.replicas r).cache.clock ≤ (s.replicas r).cache.clock + picks [(op, a)] ∧
      (s'.replicas r).cache.seq ≤ (s.replicas r).cache.seq + op.blocks := by
  have hset : ∀ (i : Fin n) (x : ReplicaState),
      x.cache.clock ≤ (s.replicas i).cache.clock ∧ x.cache.seq ≤ (s.replicas i).cache.seq →
      ((s.setReplica i x).replicas r).cache.clock ≤ (s.replicas r).cache.clock ∧
        ((s.setReplica i x).replicas r).cache.seq ≤ (s.replicas r).cache.seq := by
    intro i x hx
    exact setReplica_induction
      (P := fun j y => y.cache.clock ≤ (s.replicas j).cache.clock ∧
        y.cache.seq ≤ (s.replicas j).cache.seq) hx (fun _ => ⟨le_rfl, le_rfl⟩) r
  cases step_inv hstep with
  | refused => exact ⟨Nat.le_add_right _ _, Nat.le_add_right _ _⟩
  | picked hashes d rr =>
    refine commit_induction
      (P := fun j y => y.cache.clock ≤ (s.replicas j).cache.clock +
          picks [(.pick hashes, some (.ok d))] ∧
        y.cache.seq ≤ (s.replicas j).cache.seq + Op.blocks (.pick hashes : Op n)) ?_
      (fun _ => ⟨Nat.le_add_right _ _, Nat.le_add_right _ _⟩) r
    rw [replicas_commit_self]
    split_ifs
    · have hins := (s.replicas d.replica).cache.toLazyLru_insert hashes
      simp [PrefixCache.evictTo, hins, picks, Op.isPick, Op.blocks]
    · exact ⟨Nat.le_add_right _ _, Nat.le_add_right _ _⟩
  | complete i => exact hset i _ ⟨le_rfl, le_rfl⟩
  | markUnhealthy i => exact hset i _ ⟨Nat.zero_le _, Nat.zero_le _⟩
  | markHealthy i => exact hset i _ ⟨le_rfl, le_rfl⟩

/-- **The counters of the caches** are bounded by the number of picks and of picked blocks.

**Proof sketch.** Sums of `counters_step` along the run. -/
theorem counters_le (h : (lts F n).Exec (new n policy cfg) τ s) (r : Fin n) :
    (s.replicas r).cache.clock ≤ picks τ ∧ (s.replicas r).cache.seq ≤ blocks τ := by
  refine Lts.Run.invariant (I := fun τ s =>
    (s.replicas r).cache.clock ≤ picks τ ∧ (s.replicas r).cache.seq ≤ blocks τ) h
    ⟨le_rfl, le_rfl⟩ fun τ s op a s' hI _ hstep => ?_
  obtain ⟨hclock, hseq⟩ := counters_step hstep r
  rw [picks, List.countP_append, blocks, List.map_append, List.sum_append]
  exact ⟨hclock.trans (Nat.add_le_add_right hI.1 _),
    hseq.trans (Nat.add_le_add_right hI.2 _)⟩

end Scheduler
