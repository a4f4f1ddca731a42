import DynamoRouter.MockTriton.Cache
import DynamoRouter.Router.SchedulerInvariant

set_option relaxedAutoImplicit false
set_option autoImplicit false

/-!
# The router's picture of the replicas' caches

Beside a run of a `CacheAware` scheduler, run one `KvCacheSim` for each replica: a pick routed to the
replica passes its hashes to the simulator, and taking the replica out of routing replaces the
simulator by a fresh one. The two caches were written separately, one split into `lookup`, `insert`
and `evict_to`, the other in one piece; they are in the same state at every point of every run, heaps
and counters included.

So the blocks that a decision reports as matched are the blocks that the replica finds cached, as far
as they are read off the picture at all. They are not when no score is above the constant the scoring
loop starts from: the loop then answers its initial values.

## Main definitions

* `Scheduler.mirror` — the simulators after a trace.
* `Scheduler.ScoresSeen` — the decision is read off the picture.

## Main results

* `Scheduler.mirror_exec` — the caches and the simulators agree at every point of every run.
* `Scheduler.matchedBlocks_eq_lookup_iff` — when a decision reports the match of its replica.
* `Scheduler.mirror_iff` — both together.
-/

namespace Scheduler

variable {F : Type} {n : ℕ}

/-- One call seen by the simulators. -/
def mirrorStep (budget : ℕ) (sims : Fin n → KvCacheSim) :
    Op n × Answer n → Fin n → KvCacheSim
  | (.pick hashes, some (.ok d)) =>
    Function.update sims d.replica ((sims d.replica).lookupInsert hashes).2
  | (.markUnhealthy r, _) => Function.update sims r (.new budget)
  | _ => sims

/-- The simulators after a trace. -/
def mirror (budget : ℕ) (τ : List (Op n × Answer n)) : Fin n → KvCacheSim :=
  τ.foldl (mirrorStep budget) fun _ => .new budget

/-- The simulators after one more call. -/
theorem mirror_snoc (budget : ℕ) (τ : List (Op n × Answer n)) (x : Op n × Answer n) :
    mirror budget (τ ++ [x]) = mirrorStep budget (mirror budget τ) x := by
  rw [mirror, List.foldl_append]
  rfl

/-- The simulators keep their capacity. -/
theorem capacity_mirror (budget : ℕ) (τ : List (Op n × Answer n)) (r : Fin n) :
    (mirror budget τ r).capacity = budget := by
  induction τ using List.reverseRecOn with
  | nil => rfl
  | append_singleton τ x ih =>
    rw [mirror_snoc]
    unfold mirrorStep
    split
    · rename_i d
      by_cases hr : r = d.replica
      · subst hr
        rw [Function.update_self, KvCacheSim.capacity_lookupInsert, ih]
      · rw [Function.update_of_ne hr, ih]
    · rename_i r' _
      by_cases hr : r = r'
      · subst hr
        rw [Function.update_self]
        rfl
      · rw [Function.update_of_ne hr, ih]
    · exact ih

/-- What a pick does to the cache of its replica is what a call does to the simulator. -/
theorem toLazyLru_insert_evictTo {c : PrefixCache} {k : KvCacheSim} {budget : ℕ}
    (h : c.toLazyLru = k.toLazyLru) (hcap : k.capacity = budget) (hashes : List UInt64) :
    ((c.insert hashes).evictTo budget).toLazyLru = (k.lookupInsert hashes).2.toLazyLru := by
  rw [PrefixCache.evictTo, PrefixCache.toLazyLru_insert, KvCacheSim.toLazyLru_lookupInsert, h, hcap]
  rfl

section Runs

variable [Mul F] [Sub F] [LT F] [DecidableLT F] [ScoreArith F]
variable {cfg : SchedulerConfig F} {τ : List (Op n × Answer n)} {s : Scheduler F n}

/-- **The picture mirrors the replicas.** At every point of every run each cache is in the state of
its simulator.

**Proof sketch.** Induction on the run. A pick and its call do the same to the cache and the
simulator of the chosen replica; both start afresh when the replica leaves routing; no other call
touches either. -/
theorem mirror_exec (h : (lts F n).Exec (new n .cacheAware cfg) τ s) (r : Fin n) :
    (s.replicas r).cache.toLazyLru = (mirror cfg.blockBudget τ r).toLazyLru := by
  induction h with
  | nil => rfl
  | @snoc τ s s' op a hrun _ hstep ih =>
    rw [mirror_snoc]
    cases step_inv hstep with
    | refused => exact ih
    | picked hashes d rr =>
      rw [mirrorStep]
      by_cases hr : r = d.replica
      · subst hr
        rw [replicas_commit_self, Function.update_self, policy_of_exec hrun, cfg_of_exec hrun]
        exact toLazyLru_insert_evictTo ih (capacity_mirror _ _ _) hashes
      · rw [replicas_commit_of_ne _ _ _ hr, Function.update_of_ne hr]
        exact ih
    | complete i => rwa [cache_complete]
    | markHealthy i => rwa [cache_markHealthy]
    | markUnhealthy i =>
      rw [mirrorStep]
      by_cases hr : r = i
      · subst hr
        rw [markUnhealthy, replicas_setReplica_self, Function.update_self]
        rfl
      · rw [markUnhealthy, replicas_setReplica_of_ne _ _ hr, Function.update_of_ne hr]
        exact ih

end Runs

/-! ## What a decision reports -/

section Matched

variable [Mul F] [Sub F] [LT F] [DecidableLT F] [ScoreArith F]

/-- What a decision reports is read off the picture: the fallback is certain, or some available
replica's score is above the constant the scoring loop starts from, or the first available replica,
which the loop starts from, has no block of the prompt. -/
def ScoresSeen (s : Scheduler F n) (hashes : List UInt64) : Prop :=
  s.cfg.minMatchBlocks ≠ 0 ∨
    (∃ i, s.availMask i = true ∧ ScoreArith.f64Min < s.score hashes i) ∨
    ∀ i, s.available.head? = some i → (s.replicas i).cache.lookup hashes = 0

/-- **When a decision reports the match of its replica.**

**Proof sketch.** In the fallback the match is looked up for the chosen replica, and if a score beat
the start of the scoring loop then the loop answers the match of its winner. Otherwise the loop answers
its start: the first available replica with the match `0`, which the fallback catches unless
`min_match_blocks` is `0`. -/
theorem matchedBlocks_eq_lookup_iff {s : Scheduler F n} {hashes : List UInt64} {idx : Fin n} {m : ℕ}
    (h : s.routeCacheAware hashes = some (idx, m)) :
    m = (s.replicas idx).cache.lookup hashes ↔ s.ScoresSeen hashes := by
  obtain ⟨first, rest, havail, best, hbest, hcases⟩ := routeCacheAware_inv h
  have hmem : ∀ i, i ∈ first :: rest ↔ s.availMask i = true := fun i => by
    rw [← havail, mem_available]
  rcases s.foldl_consider hashes (first :: rest) (first, ScoreArith.f64Min, 0) with
    ⟨heq, hnone⟩ | ⟨⟨i, hi, hlt⟩, b, -, heq⟩
  · -- no score beats the start
    rw [heq] at hbest
    subst hbest
    rcases hcases with ⟨hmin, -, rfl⟩ | ⟨hmin, rfl, rfl⟩
    · exact iff_of_true rfl (.inl (Nat.ne_of_gt hmin))
    · have hzero : s.cfg.minMatchBlocks = 0 := Nat.le_zero.mp hmin
      constructor
      · refine fun hm => .inr (.inr fun i hi => ?_)
        rw [havail, List.head?_cons, Option.some_inj] at hi
        rw [← hi]
        exact hm.symm
      · rintro (hne | ⟨i, hi, hlt⟩ | hfirst)
        · exact absurd hzero hne
        · exact absurd hlt (hnone i ((hmem i).mpr hi))
        · exact (hfirst _ (by rw [havail, List.head?_cons])).symm
  · -- some score beats the start
    refine iff_of_true ?_ (.inr (.inl ⟨i, (hmem i).mp hi, hlt⟩))
    rw [heq] at hbest
    subst hbest
    rcases hcases with ⟨-, -, rfl⟩ | ⟨-, rfl, rfl⟩
    · rfl
    · rfl

variable {cfg : SchedulerConfig F} {τ : List (Op n × Answer n)} {s : Scheduler F n}

/-- **The mirror, exactly.** At every point of every run of a `CacheAware` scheduler each replica's
cache and its simulator hold the same blocks; and a successful pick reports the number of blocks that
`lookup_insert` answers at the chosen replica's simulator if and only if the scores are seen. -/
theorem mirror_iff (h : (lts F n).Exec (new n .cacheAware cfg) τ s) :
    (∀ r, (s.replicas r).cache.map.keys = (mirror cfg.blockBudget τ r).map.keys) ∧
    ∀ hashes d s', s.pick hashes = some (.ok d, s') →
      (d.matchedBlocks = ((mirror cfg.blockBudget τ d.replica).lookupInsert hashes).1 ↔
        s.ScoresSeen hashes) := by
  refine ⟨fun r => congrArg (fun c => c.map.keys) (mirror_exec h r), fun hashes d s' hpick => ?_⟩
  have hlookup : ((mirror cfg.blockBudget τ d.replica).lookupInsert hashes).1 =
      (s.replicas d.replica).cache.lookup hashes := by
    rw [KvCacheSim.lookupInsert_fst, PrefixCache.lookup, mirror_exec h]
  rw [hlookup]
  exact matchedBlocks_eq_lookup_iff (pick_cacheAware_inv (policy_of_exec h) hpick).1

/-- The mirror in a run of two replicas with evictions, of which one leaves routing and comes back cold:
the next pick reports the block that the other one's simulator finds. -/
theorem mirror_iff_two : ∃ τ s d s',
    (lts ℚ 2).Exec (new 2 .cacheAware smallConfig) τ s ∧ τ.length = 5 ∧
      (∀ r, (s.replicas r).cache.map.keys = (mirror 2 τ r).map.keys) ∧
      s.pick [1, 5] = some (.ok d, s') ∧ d.matchedBlocks = 1 ∧
      d.matchedBlocks = ((mirror 2 τ d.replica).lookupInsert [1, 5]).1 := by
  obtain ⟨τ, s, hrun, hlen, havail, hmatched⟩ : ∃ τ s,
      (lts ℚ 2).Exec (new 2 .cacheAware smallConfig) τ s ∧ τ.length = 5 ∧ s.availMask 0 = true ∧
      (s.pick [1, 5]).map (fun r => r.1.toOption.map RouteDecision.matchedBlocks) = some (some 1) :=
    ⟨_, _, Lts.exec_get step _
        [.pick [1, 2, 3], .pick [1, 2, 4], .complete 0, .markUnhealthy 1, .markHealthy 1]
        (by decide +kernel), by decide +kernel, by decide +kernel, by decide +kernel⟩
  obtain ⟨hkeys, hiff⟩ := mirror_iff hrun
  obtain ⟨d, s', hpick⟩ := pick_ok_of_availMask havail [1, 5]
  have hmin : s.cfg.minMatchBlocks ≠ 0 := by
    rw [cfg_of_exec hrun]
    decide
  rw [hpick] at hmatched
  refine ⟨τ, s, d, s', hrun, hlen, hkeys, hpick, by simpa [Except.toOption] using hmatched, ?_⟩
  exact (hiff _ d s' hpick).mpr (.inl hmin)

/-- A configuration whose load weight is the largest finite number, without the fallback. -/
def heavyLoadConfig : SchedulerConfig ℚ where
  alpha := 1
  beta := -ScoreArith.f64Min
  minMatchBlocks := 0
  blockBudget := 4
  maxInflight := 4

/-- **A decision that does not report the match of its replica.** With two requests in flight the only
score is below the constant the scoring loop starts from: the third pick of the same block reports no
match, while the replica's simulator finds the block. -/
theorem exists_matchedBlocks_ne_mirror : ∃ τ s d s',
    (lts ℚ 1).Exec (new 1 .cacheAware heavyLoadConfig) τ s ∧
      s.pick [7] = some (.ok d, s') ∧ d.matchedBlocks = 0 ∧
      ((mirror 4 τ d.replica).lookupInsert [7]).1 = 1 := by
  obtain ⟨τ, s, hrun, havail, hmatched, hcount⟩ : ∃ τ s,
      (lts ℚ 1).Exec (new 1 .cacheAware heavyLoadConfig) τ s ∧ s.availMask 0 = true ∧
      (s.pick [7]).map (fun r => r.1.toOption.map RouteDecision.matchedBlocks) = some (some 0) ∧
      ((mirror 4 τ (0 : Fin 1)).lookupInsert [7]).1 = 1 :=
    ⟨_, _, Lts.exec_get step _ [.pick [7], .pick [7]] (by decide +kernel),
      by decide +kernel, by decide +kernel, by decide +kernel⟩
  obtain ⟨d, s', hpick⟩ := pick_ok_of_availMask havail [7]
  rw [hpick] at hmatched
  refine ⟨τ, s, d, s', hrun, hpick, ?_, ?_⟩
  · simpa [Except.toOption] using hmatched
  · rw [Subsingleton.elim d.replica 0]
    exact hcount

end Matched

end Scheduler
