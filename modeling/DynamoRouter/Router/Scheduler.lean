import Mathlib.Data.List.MinMax
import Mathlib.Data.Rat.Defs
import Mathlib.Algebra.Order.Ring.Unbundled.Rat
import DynamoRouter.Lib.Lts
import DynamoRouter.Router.PrefixCache

set_option relaxedAutoImplicit false
set_option autoImplicit false

/-!
# The scheduler (`crates/router/src/scheduler.rs`)

All routing state of the router: for each of the `n` replicas its health, its in-flight count and the
router's picture of its cache. `Scheduler.pick` is the whole routing decision of one request.

The number type `F` of the scores is a parameter, with the operations the code uses of `f64`; results
that do not look into the scores hold for every such type, and in particular for floating point with
its rounding and `NaN`s. Exact scores are scores in `ℚ`, which contains every finite `f64`. A panic of
`pick` is the value `none`.

## Main definitions

* `Scheduler F n` — the state; `Scheduler.pick`, `complete`, `markUnhealthy`, `markHealthy`.
* `Scheduler.step`, `Scheduler.lts` — the four operations as one transition system.

## Main results

* `Scheduler.pick_isSome` — `pick` never panics.
* `Scheduler.pick_error_inv`, `Scheduler.pick_ok_inv` — all that a pick can do.
* `Scheduler.route_eq_some_inv` — where the routing decision comes from, for each policy.
* `Scheduler.step_inv` — all that one call of an operation can do.
-/

/-- What the scores use of `f64` besides `*`, `-` and `<`: the cast `as f64`, and the constant
`f64::MIN`. -/
class ScoreArith (F : Type) where
  /-- The cast of a `usize`. -/
  ofUsize : ℕ → F
  /-- The most negative finite number of `f64`. -/
  f64Min : F

/-- The code's own arithmetic. -/
instance : ScoreArith Float where
  ofUsize := Float.ofNat
  f64Min := -1.7976931348623157e308

/-- Exact arithmetic: `f64::MIN` is `-(2 ^ 53 - 1) * 2 ^ 971`. -/
instance : ScoreArith ℚ where
  ofUsize m := m
  f64Min := -(2 ^ 53 - 1) * 2 ^ 971

/-- `Policy`: the routing strategy. -/
inductive Policy
  | cacheAware
  | roundRobin
  deriving DecidableEq, Repr

/-- `SchedulerConfig`: the weights of the score, and the limits of each replica. -/
structure SchedulerConfig (F : Type) where
  /-- The weight of matched blocks in the score. -/
  alpha : F
  /-- The weight of in-flight load in the score (subtracted). -/
  beta : F
  /-- Matches below this fall back to least-loaded routing. -/
  minMatchBlocks : ℕ
  /-- The cache capacity of a replica, in blocks. -/
  blockBudget : ℕ
  /-- The in-flight cap of a replica. -/
  maxInflight : ℕ

/-- `SchedulerConfig::default`. -/
def SchedulerConfig.default {F : Type} [ScoreArith F] : SchedulerConfig F where
  alpha := ScoreArith.ofUsize 1
  beta := ScoreArith.ofUsize 2
  minMatchBlocks := 2
  blockBudget := 65536
  maxInflight := 512

/-- `ReplicaState`. -/
structure ReplicaState where
  /-- The router's picture of the replica's cache. -/
  cache : PrefixCache
  /-- The requests counted as in flight. -/
  inflight : ℕ
  /-- Whether the replica takes part in routing. -/
  healthy : Bool

/-- `PickError`: why a request could not be routed. -/
inductive PickError
  | noHealthyReplicas
  | allSaturated
  deriving DecidableEq, Repr

/-- `RouteDecision`: the outcome of a successful pick. -/
structure RouteDecision (n : ℕ) where
  /-- The chosen replica. -/
  replica : Fin n
  /-- The leading blocks that the chosen replica is believed to have cached. -/
  matchedBlocks : ℕ
  /-- The chosen replica's in-flight count, this request included. -/
  inflightAfter : ℕ
  deriving DecidableEq, Repr

/-- `Scheduler`, over `n` replicas. -/
structure Scheduler (F : Type) (n : ℕ) where
  /-- The state of each replica. -/
  replicas : Fin n → ReplicaState
  /-- The routing strategy. -/
  policy : Policy
  /-- The weights and limits. -/
  cfg : SchedulerConfig F
  /-- The round-robin cursor. -/
  rrNext : ℕ

namespace Scheduler

variable {F : Type} {n : ℕ}

/-- `Scheduler::new`: all replicas healthy and idle. -/
def new (n : ℕ) (policy : Policy) (cfg : SchedulerConfig F) : Scheduler F n where
  replicas _ := { cache := .new, inflight := 0, healthy := true }
  policy := policy
  cfg := cfg
  rrNext := 0

/-- `is_healthy`. -/
def isHealthy (s : Scheduler F n) (r : Fin n) : Bool := (s.replicas r).healthy

/-- `inflight`. -/
def inflight (s : Scheduler F n) (r : Fin n) : ℕ := (s.replicas r).inflight

/-- The state with replica `r` replaced. -/
def setReplica (s : Scheduler F n) (r : Fin n) (x : ReplicaState) : Scheduler F n :=
  { s with replicas := Function.update s.replicas r x }

/-- `complete`: one in-flight request less (`saturating_sub`). -/
def complete (s : Scheduler F n) (r : Fin n) : Scheduler F n :=
  s.setReplica r { s.replicas r with inflight := (s.replicas r).inflight - 1 }

/-- `mark_unhealthy`: out of routing, with the in-flight count reset and the cache dropped. -/
def markUnhealthy (s : Scheduler F n) (r : Fin n) : Scheduler F n :=
  s.setReplica r { healthy := false, inflight := 0, cache := .new }

/-- `mark_healthy`: back into routing. -/
def markHealthy (s : Scheduler F n) (r : Fin n) : Scheduler F n :=
  s.setReplica r { s.replicas r with healthy := true }

/-! ## The routing decision -/

/-- `avail_mask[i]`: healthy and below the in-flight cap. -/
def availMask (s : Scheduler F n) (i : Fin n) : Bool :=
  (s.replicas i).healthy && decide ((s.replicas i).inflight < s.cfg.maxInflight)

/-- `any_available`. -/
def anyAvailable (s : Scheduler F n) : Bool := (List.finRange n).any s.availMask

/-- `any_healthy`. -/
def anyHealthy (s : Scheduler F n) : Bool := (List.finRange n).any fun i => (s.replicas i).healthy

/-- The candidate `(self.rr_next + off) % n`. -/
def rrCand (s : Scheduler F n) (off : Fin n) : Fin n :=
  ⟨(s.rrNext + off) % n, Nat.mod_lt _ off.pos⟩

/-- The round-robin scan: the first available candidate from the cursor on. -/
def rrScan (s : Scheduler F n) : Option (Fin n) :=
  ((List.finRange n).map s.rrCand).find? s.availMask

/-- The `available` list. -/
def available (s : Scheduler F n) : List (Fin n) := (List.finRange n).filter s.availMask

section Score

variable [Mul F] [Sub F] [LT F] [DecidableLT F] [ScoreArith F]

/-- The score of a replica: `alpha * matched as f64 - beta * inflight as f64`. -/
def score (s : Scheduler F n) (hashes : List UInt64) (i : Fin n) : F :=
  s.cfg.alpha * ScoreArith.ofUsize ((s.replicas i).cache.lookup hashes) -
    s.cfg.beta * ScoreArith.ofUsize (s.replicas i).inflight

/-- One turn of the scoring loop on `(best, best_score, best_matched)`. -/
def consider (s : Scheduler F n) (hashes : List UInt64) (acc : Fin n × F × ℕ) (i : Fin n) :
    Fin n × F × ℕ :=
  let matched := (s.replicas i).cache.lookup hashes
  let score := s.score hashes i
  if acc.2.1 < score then (i, score, matched) else acc

/-- The `CacheAware` arm: the chosen replica and its matched blocks. -/
def routeCacheAware (s : Scheduler F n) (hashes : List UInt64) : Option (Fin n × ℕ) :=
  match s.available with
  | [] => none -- `available[0]` is out of bounds
  | first :: rest =>
    let best := (first :: rest).foldl (s.consider hashes) (first, ScoreArith.f64Min, 0)
    if best.2.2 < s.cfg.minMatchBlocks then
      -- `min_by_key` answers the first of several minimal elements, as `List.argmin` does
      ((first :: rest).argmin s.inflight).map fun least =>
        (least, (s.replicas least).cache.lookup hashes)
    else some (best.1, best.2.2)

/-- The `match self.policy`: the chosen replica, its matched blocks and the next cursor. -/
def route (s : Scheduler F n) (hashes : List UInt64) : Option (Fin n × ℕ × ℕ) :=
  match s.policy with
  | .roundRobin => s.rrScan.map fun cand => (cand, 0, (cand.val + 1) % n)
  | .cacheAware => (s.routeCacheAware hashes).map fun r => (r.1, r.2, s.rrNext)

/-- The state after a request was routed to `idx`: under `CacheAware` the cache takes in the chain and
evicts down to the budget; the in-flight count grows by one. -/
def commit (s : Scheduler F n) (hashes : List UInt64) (idx : Fin n) (rrNext : ℕ) : Scheduler F n :=
  { s with rrNext := rrNext }.setReplica idx
    { s.replicas idx with
      cache := if s.policy = Policy.cacheAware then
        ((s.replicas idx).cache.insert hashes).evictTo s.cfg.blockBudget
        else (s.replicas idx).cache
      inflight := (s.replicas idx).inflight + 1 }

/-- `pick`: route one request. -/
def pick (s : Scheduler F n) (hashes : List UInt64) :
    Option (Except PickError (RouteDecision n) × Scheduler F n) :=
  if !s.anyAvailable then
    some (.error (if s.anyHealthy then .allSaturated else .noHealthyReplicas), s)
  else
    match s.route hashes with
    | none => none
    | some (idx, matched, rrNext) =>
      let s' := s.commit hashes idx rrNext
      some (.ok { replica := idx, matchedBlocks := matched, inflightAfter := s'.inflight idx }, s')

/-! ## The operations as a transition system -/

end Score

/-- A call of one of the scheduler's operations. -/
inductive Op (n : ℕ)
  | pick (hashes : List UInt64)
  | complete (r : Fin n)
  | markUnhealthy (r : Fin n)
  | markHealthy (r : Fin n)
  deriving DecidableEq, Repr

/-- Whether a call is a pick. -/
def Op.isPick : Op n → Bool
  | .pick _ => true
  | _ => false

/-- What a call answers: the result of a pick, and nothing otherwise. -/
abbrev Answer (n : ℕ) := Option (Except PickError (RouteDecision n))

section Runs

variable [Mul F] [Sub F] [LT F] [DecidableLT F] [ScoreArith F]

/-- One call. -/
def step (s : Scheduler F n) : Op n → Option (Answer n × Scheduler F n)
  | .pick hashes => (s.pick hashes).map fun r => (some r.1, r.2)
  | .complete r => some (none, s.complete r)
  | .markUnhealthy r => some (none, s.markUnhealthy r)
  | .markHealthy r => some (none, s.markHealthy r)

/-- The scheduler as a transition system. -/
def lts (F : Type) (n : ℕ) [Mul F] [Sub F] [LT F] [DecidableLT F] [ScoreArith F] :
    Lts (Scheduler F n) (Op n) (Answer n) := .ofFun step

end Runs

/-! ## Small facts about the state -/

/-- The replica that was replaced. -/
@[simp] theorem replicas_setReplica_self (s : Scheduler F n) (r : Fin n) (x : ReplicaState) :
    (s.setReplica r x).replicas r = x := Function.update_self _ _ _

/-- The other replicas are unchanged. -/
theorem replicas_setReplica_of_ne (s : Scheduler F n) {r i : Fin n} (x : ReplicaState) (h : i ≠ r) :
    (s.setReplica r x).replicas i = s.replicas i := Function.update_of_ne h _ _

/-- What holds of all replicas and of the new one, holds of all replicas after one was replaced. -/
theorem setReplica_induction {P : Fin n → ReplicaState → Prop} {s : Scheduler F n} {r : Fin n}
    {x : ReplicaState} (hx : P r x) (h : ∀ i, P i (s.replicas i)) (i : Fin n) :
    P i ((s.setReplica r x).replicas i) := by
  by_cases hi : i = r
  · subst hi
    rw [replicas_setReplica_self]
    exact hx
  · rw [replicas_setReplica_of_ne _ _ hi]
    exact h i

/-- Replacing a replica keeps the policy. -/
@[simp] theorem policy_setReplica (s : Scheduler F n) (r : Fin n) (x : ReplicaState) :
    (s.setReplica r x).policy = s.policy := rfl

/-- Replacing a replica keeps the configuration. -/
@[simp] theorem cfg_setReplica (s : Scheduler F n) (r : Fin n) (x : ReplicaState) :
    (s.setReplica r x).cfg = s.cfg := rfl

/-- Replacing a replica keeps the cursor. -/
@[simp] theorem rrNext_setReplica (s : Scheduler F n) (r : Fin n) (x : ReplicaState) :
    (s.setReplica r x).rrNext = s.rrNext := rfl

/-- Replacing a replica by one with the same value of `f` leaves `f` unchanged everywhere. -/
theorem setReplica_congr {β : Type} (f : ReplicaState → β) {s : Scheduler F n} {r : Fin n}
    {x : ReplicaState} (hx : f x = f (s.replicas r)) (i : Fin n) :
    f ((s.setReplica r x).replicas i) = f (s.replicas i) := by
  by_cases hi : i = r
  · subst hi
    rw [replicas_setReplica_self, hx]
  · rw [replicas_setReplica_of_ne _ _ hi]

/-- A completion leaves the caches alone. -/
theorem cache_complete (s : Scheduler F n) (r i : Fin n) :
    ((s.complete r).replicas i).cache = (s.replicas i).cache := by
  rw [complete, setReplica_congr ReplicaState.cache]
  rfl

/-- Re-admission leaves the caches alone. -/
theorem cache_markHealthy (s : Scheduler F n) (r i : Fin n) :
    ((s.markHealthy r).replicas i).cache = (s.replicas i).cache := by
  rw [markHealthy, setReplica_congr ReplicaState.cache]
  rfl

/-- The in-flight counts after a replica was replaced. -/
theorem inflight_setReplica (s : Scheduler F n) (r i : Fin n) (x : ReplicaState) :
    (s.setReplica r x).inflight i = if i = r then x.inflight else s.inflight i := by
  split_ifs with hi
  · subst hi
    rw [inflight, replicas_setReplica_self]
  · rw [inflight, replicas_setReplica_of_ne _ _ hi, inflight]

/-- The in-flight counts after a completion. -/
theorem inflight_complete (s : Scheduler F n) (r i : Fin n) :
    (s.complete r).inflight i = if i = r then s.inflight r - 1 else s.inflight i :=
  inflight_setReplica _ _ _ _

/-- The in-flight counts after a replica was taken out of routing. -/
theorem inflight_markUnhealthy (s : Scheduler F n) (r i : Fin n) :
    (s.markUnhealthy r).inflight i = if i = r then 0 else s.inflight i :=
  inflight_setReplica _ _ _ _

/-- Re-admission leaves the in-flight counts alone. -/
theorem inflight_markHealthy (s : Scheduler F n) (r i : Fin n) :
    (s.markHealthy r).inflight i = s.inflight i := by
  rw [markHealthy, inflight_setReplica]
  split_ifs with hi
  · rw [hi, inflight]
  · rfl

/-- The in-flight counts after a request was routed. -/
theorem inflight_commit (s : Scheduler F n) (hashes : List UInt64) (idx i : Fin n) (rr : ℕ) :
    (s.commit hashes idx rr).inflight i = if i = idx then s.inflight idx + 1 else s.inflight i :=
  inflight_setReplica _ _ _ _

/-- A completion leaves the health alone. -/
theorem isHealthy_complete (s : Scheduler F n) (r i : Fin n) :
    (s.complete r).isHealthy i = s.isHealthy i := by
  rw [isHealthy, complete, setReplica_congr ReplicaState.healthy]
  · rfl
  · rfl

/-- Routing a request leaves the health alone. -/
theorem isHealthy_commit (s : Scheduler F n) (hashes : List UInt64) (idx i : Fin n) (rr : ℕ) :
    (s.commit hashes idx rr).isHealthy i = s.isHealthy i := by
  rw [isHealthy, commit, setReplica_congr ReplicaState.healthy]
  · rfl
  · rfl

/-- Availability, spelled out. -/
@[simp] theorem availMask_iff {s : Scheduler F n} {i : Fin n} :
    s.availMask i = true ↔
      (s.replicas i).healthy = true ∧ (s.replicas i).inflight < s.cfg.maxInflight := by
  simp [availMask]

/-- The `available` list holds the available replicas. -/
@[simp] theorem mem_available {s : Scheduler F n} {i : Fin n} :
    i ∈ s.available ↔ s.availMask i = true := by
  rw [available, List.mem_filter]
  exact and_iff_right (List.mem_finRange i)

/-- `any_available`, spelled out. -/
theorem anyAvailable_iff {s : Scheduler F n} : s.anyAvailable = true ↔ ∃ i, s.availMask i = true := by
  simp [anyAvailable]

/-- `any_healthy`, spelled out. -/
theorem anyHealthy_iff {s : Scheduler F n} :
    s.anyHealthy = true ↔ ∃ i, (s.replicas i).healthy = true := by
  simp [anyHealthy]

/-- The round-robin scan finds an available replica. -/
theorem availMask_of_rrScan {s : Scheduler F n} {i : Fin n} (h : s.rrScan = some i) :
    s.availMask i = true := List.find?_some h

/-- Every replica is a candidate of the round-robin scan. -/
theorem exists_rrCand_eq (s : Scheduler F n) (i : Fin n) : ∃ off, s.rrCand off = i := by
  have hn : 0 < n := i.pos
  have hr := Nat.mod_lt s.rrNext hn
  have hi := i.isLt
  refine ⟨⟨(i + (n - s.rrNext % n)) % n, Nat.mod_lt _ hn⟩, Fin.ext ?_⟩
  simp only [rrCand, Nat.add_mod_mod]
  have hsum : s.rrNext + (i.val + (n - s.rrNext % n)) = i + n * (s.rrNext / n + 1) := by
    have := Nat.div_add_mod s.rrNext n
    rw [Nat.mul_add, Nat.mul_one]
    omega
  rw [hsum, Nat.add_mul_mod_self_left, Nat.mod_eq_of_lt hi]

/-- The round-robin scan succeeds if some replica is available. -/
theorem rrScan_isSome {s : Scheduler F n} {i : Fin n} (hi : s.availMask i = true) :
    s.rrScan.isSome := by
  obtain ⟨off, rfl⟩ := s.exists_rrCand_eq i
  rw [rrScan, List.find?_isSome]
  exact ⟨_, List.mem_map_of_mem (List.mem_finRange off), hi⟩

/-- The replica a request was routed to. -/
theorem replicas_commit_self (s : Scheduler F n) (hashes : List UInt64) (idx : Fin n) (rr : ℕ) :
    (s.commit hashes idx rr).replicas idx =
      { s.replicas idx with
        cache := if s.policy = Policy.cacheAware then
          ((s.replicas idx).cache.insert hashes).evictTo s.cfg.blockBudget
          else (s.replicas idx).cache
        inflight := (s.replicas idx).inflight + 1 } := replicas_setReplica_self _ _ _

/-- The other replicas are unchanged by a pick. -/
theorem replicas_commit_of_ne (s : Scheduler F n) (hashes : List UInt64) {idx i : Fin n} (rr : ℕ)
    (h : i ≠ idx) : (s.commit hashes idx rr).replicas i = s.replicas i :=
  replicas_setReplica_of_ne _ _ h

/-- What holds of all replicas and of the chosen one after a pick, holds of all replicas after it. -/
theorem commit_induction {P : Fin n → ReplicaState → Prop} {s : Scheduler F n}
    {hashes : List UInt64} {idx : Fin n} {rr : ℕ}
    (hidx : P idx ((s.commit hashes idx rr).replicas idx)) (h : ∀ i, P i (s.replicas i))
    (i : Fin n) : P i ((s.commit hashes idx rr).replicas i) := by
  by_cases hi : i = idx
  · subst hi
    exact hidx
  · rw [replicas_commit_of_ne _ _ _ hi]
    exact h i

/-- A pick keeps the policy. -/
@[simp] theorem policy_commit (s : Scheduler F n) (hashes : List UInt64) (idx : Fin n) (rr : ℕ) :
    (s.commit hashes idx rr).policy = s.policy := rfl

/-- A pick keeps the configuration. -/
@[simp] theorem cfg_commit (s : Scheduler F n) (hashes : List UInt64) (idx : Fin n) (rr : ℕ) :
    (s.commit hashes idx rr).cfg = s.cfg := rfl

/-- The cursor after a pick. -/
@[simp] theorem rrNext_commit (s : Scheduler F n) (hashes : List UInt64) (idx : Fin n) (rr : ℕ) :
    (s.commit hashes idx rr).rrNext = rr := rfl

section Routing

variable [Mul F] [Sub F] [LT F] [DecidableLT F] [ScoreArith F]

/-! ## What a pick can do -/

/-- **The scoring loop.** Either no score beats the one at the start, and the loop answers its start;
or some score does, and the loop answers a replica of the list with its own score and its own match.
No law of the arithmetic is needed.

**Proof sketch.** Induction on the list: once the start is replaced, the accumulator holds the score
and the match of its own replica, and every later replacement keeps this. -/
theorem foldl_consider (s : Scheduler F n) (hashes : List UInt64) (l : List (Fin n)) :
    ∀ acc : Fin n × F × ℕ,
      l.foldl (s.consider hashes) acc = acc ∧ (∀ i ∈ l, ¬ acc.2.1 < s.score hashes i) ∨
      (∃ i ∈ l, acc.2.1 < s.score hashes i) ∧ ∃ b ∈ l, l.foldl (s.consider hashes) acc =
        (b, s.score hashes b, (s.replicas b).cache.lookup hashes) := by
  induction l with
  | nil => exact fun acc => .inl ⟨rfl, by simp⟩
  | cons i l ih =>
    intro acc
    rw [List.foldl_cons]
    by_cases hi : acc.2.1 < s.score hashes i
    · have hacc : s.consider hashes acc i =
          (i, s.score hashes i, (s.replicas i).cache.lookup hashes) := if_pos hi
      refine .inr ⟨⟨i, List.mem_cons_self, hi⟩, ?_⟩
      rw [hacc]
      rcases ih (i, s.score hashes i, (s.replicas i).cache.lookup hashes) with
        ⟨heq, -⟩ | ⟨-, b, hb, heq⟩
      · exact ⟨i, List.mem_cons_self, heq⟩
      · exact ⟨b, List.mem_cons_of_mem _ hb, heq⟩
    · have hacc : s.consider hashes acc i = acc := if_neg hi
      rw [hacc]
      rcases ih acc with ⟨heq, hall⟩ | ⟨⟨j, hj, hlt⟩, b, hb, heq⟩
      · exact .inl ⟨heq, List.forall_mem_cons.mpr ⟨hi, hall⟩⟩
      · exact .inr ⟨⟨j, List.mem_cons_of_mem _ hj, hlt⟩, b, List.mem_cons_of_mem _ hb, heq⟩

/-- The scoring loop answers a replica of a list it was started in. -/
theorem foldl_consider_fst_mem (s : Scheduler F n) (hashes : List UInt64) (first : Fin n)
    (rest : List (Fin n)) (x : F) (m : ℕ) :
    ((first :: rest).foldl (s.consider hashes) (first, x, m)).1 ∈ first :: rest := by
  rcases s.foldl_consider hashes (first :: rest) (first, x, m) with ⟨heq, -⟩ | ⟨-, b, hb, heq⟩
  · rw [heq]
    exact List.mem_cons_self
  · rw [heq]
    exact hb

/-- The two ways a `CacheAware` decision comes about: the least-loaded fallback, with the match of the
replica it falls back to, or the outcome of the scoring loop. -/
theorem routeCacheAware_inv {s : Scheduler F n} {hashes : List UInt64} {idx : Fin n} {m : ℕ}
    (h : s.routeCacheAware hashes = some (idx, m)) :
    ∃ first rest, s.available = first :: rest ∧
      ∃ best : Fin n × F × ℕ,
        best = (first :: rest).foldl (s.consider hashes) (first, ScoreArith.f64Min, 0) ∧
        (best.2.2 < s.cfg.minMatchBlocks ∧ idx ∈ (first :: rest).argmin s.inflight ∧
            m = (s.replicas idx).cache.lookup hashes ∨
          s.cfg.minMatchBlocks ≤ best.2.2 ∧ idx = best.1 ∧ m = best.2.2) := by
  unfold routeCacheAware at h
  split at h
  · simp at h
  · rename_i first rest havail
    refine ⟨first, rest, havail, _, rfl, ?_⟩
    simp only at h
    split_ifs at h with hmin
    · obtain ⟨least, hleast, heq⟩ := Option.map_eq_some_iff.mp h
      obtain ⟨rfl, rfl⟩ := Prod.mk.inj heq
      exact .inl ⟨hmin, hleast, rfl⟩
    · obtain ⟨rfl, rfl⟩ := Prod.mk.inj (Option.some_inj.mp h)
      exact .inr ⟨not_lt.mp hmin, rfl, rfl⟩

/-- A `CacheAware` decision exists if some replica is available. -/
theorem routeCacheAware_isSome {s : Scheduler F n} {i : Fin n} (hi : s.availMask i = true)
    (hashes : List UInt64) : (s.routeCacheAware hashes).isSome := by
  have hmem := mem_available.mpr hi
  unfold routeCacheAware
  split
  · rename_i havail
    simp [havail] at hmem
  · rename_i first rest _
    simp only
    split_ifs
    · rw [Option.isSome_map, Option.isSome_iff_ne_none, Ne, List.argmin_eq_none]
      exact List.cons_ne_nil first rest
    · rfl

/-- A `CacheAware` decision is for an available replica. -/
theorem availMask_of_routeCacheAware {s : Scheduler F n} {hashes : List UInt64} {idx : Fin n} {m : ℕ}
    (h : s.routeCacheAware hashes = some (idx, m)) : s.availMask idx = true := by
  obtain ⟨first, rest, havail, best, hbest, ⟨-, hidx, -⟩ | ⟨-, rfl, -⟩⟩ := routeCacheAware_inv h
  · rw [← mem_available, havail]
    exact List.argmin_mem hidx
  · rw [← mem_available, havail, hbest]
    exact s.foldl_consider_fst_mem hashes first rest _ _

/-- Where a decision comes from, for each policy. -/
theorem route_eq_some_inv {s : Scheduler F n} {hashes : List UInt64} {idx : Fin n} {m rr : ℕ}
    (h : s.route hashes = some (idx, m, rr)) :
    s.policy = .roundRobin ∧ s.rrScan = some idx ∧ m = 0 ∧ rr = (idx.val + 1) % n ∨
    s.policy = .cacheAware ∧ s.routeCacheAware hashes = some (idx, m) ∧ rr = s.rrNext := by
  unfold route at h
  split at h
  · rename_i hp
    obtain ⟨cand, hcand, heq⟩ := Option.map_eq_some_iff.mp h
    obtain ⟨rfl, rfl, rfl⟩ : cand = idx ∧ 0 = m ∧ (cand.val + 1) % n = rr := by simpa using heq
    exact .inl ⟨hp, hcand, rfl, rfl⟩
  · rename_i hp
    obtain ⟨⟨b, k⟩, hb, heq⟩ := Option.map_eq_some_iff.mp h
    obtain ⟨rfl, rfl, rfl⟩ : b = idx ∧ k = m ∧ s.rrNext = rr := by simpa using heq
    exact .inr ⟨hp, hb, rfl⟩

/-- A decision is for an available replica. -/
theorem availMask_of_route {s : Scheduler F n} {hashes : List UInt64} {idx : Fin n} {m rr : ℕ}
    (h : s.route hashes = some (idx, m, rr)) : s.availMask idx = true := by
  rcases route_eq_some_inv h with ⟨-, h, -, -⟩ | ⟨-, h, -⟩
  · exact availMask_of_rrScan h
  · exact availMask_of_routeCacheAware h

/-- A decision exists if some replica is available. -/
theorem route_isSome {s : Scheduler F n} {i : Fin n} (hi : s.availMask i = true)
    (hashes : List UInt64) : (s.route hashes).isSome := by
  unfold route
  split
  · rw [Option.isSome_map]
    exact rrScan_isSome hi
  · rw [Option.isSome_map]
    exact routeCacheAware_isSome hi hashes

/-- **`pick` never panics**: the index into `available`, the `unwrap` of the least-loaded replica and
the `expect` of the round-robin candidate are reached only when some replica is available. -/
theorem pick_isSome (s : Scheduler F n) (hashes : List UInt64) : (s.pick hashes).isSome := by
  unfold pick
  by_cases h : (!s.anyAvailable) = true
  · rw [if_pos h]
    rfl
  · rw [if_neg h]
    have havail : s.anyAvailable = true := by simpa using h
    obtain ⟨i, hi⟩ := anyAvailable_iff.mp havail
    obtain ⟨r, hr⟩ := Option.isSome_iff_exists.mp (route_isSome hi hashes)
    rw [hr]
    rfl

/-- **A refused pick**: no replica is available, the error says whether one is healthy, and the state
is unchanged. -/
theorem pick_error_inv {s s' : Scheduler F n} {hashes : List UInt64} {e : PickError}
    (h : s.pick hashes = some (.error e, s')) :
    s' = s ∧ (∀ i, s.availMask i = false) ∧
      e = if s.anyHealthy then .allSaturated else .noHealthyReplicas := by
  unfold pick at h
  split_ifs at h with havail hhealthy
  · obtain ⟨he, rfl⟩ : PickError.allSaturated = e ∧ s = s' := by simpa using h
    refine ⟨rfl, fun i => ?_, by rw [if_pos hhealthy, he]⟩
    rw [Bool.eq_false_iff]
    exact fun hi => by simp [anyAvailable_iff.mpr ⟨i, hi⟩] at havail
  · obtain ⟨he, rfl⟩ : PickError.noHealthyReplicas = e ∧ s = s' := by simpa using h
    refine ⟨rfl, fun i => ?_, by rw [if_neg hhealthy, he]⟩
    rw [Bool.eq_false_iff]
    exact fun hi => by simp [anyAvailable_iff.mpr ⟨i, hi⟩] at havail
  · split at h
    · simp at h
    · simp at h

/-- **A successful pick**: the decision is the one `route` makes, for an available replica, and the
state is committed to it. -/
theorem pick_ok_inv {s s' : Scheduler F n} {hashes : List UInt64} {d : RouteDecision n}
    (h : s.pick hashes = some (.ok d, s')) :
    ∃ rr, s.route hashes = some (d.replica, d.matchedBlocks, rr) ∧
      s' = s.commit hashes d.replica rr ∧
      d.inflightAfter = (s.replicas d.replica).inflight + 1 := by
  unfold pick at h
  by_cases havail : (!s.anyAvailable) = true
  · rw [if_pos havail] at h
    simp at h
  · rw [if_neg havail] at h
    split at h
    · simp at h
    · rename_i idx matched rr hroute
      obtain ⟨hd, rfl⟩ : _ = d ∧ s.commit hashes idx rr = s' := by simpa using h
      subst hd
      exact ⟨rr, hroute, rfl, by simp [Scheduler.inflight, commit]⟩

/-- **A successful `CacheAware` pick**: the decision is the one that its arm makes, and the cursor
stays. -/
theorem pick_cacheAware_inv {s s' : Scheduler F n} {hashes : List UInt64} {d : RouteDecision n}
    (hp : s.policy = .cacheAware) (h : s.pick hashes = some (.ok d, s')) :
    s.routeCacheAware hashes = some (d.replica, d.matchedBlocks) ∧
      s' = s.commit hashes d.replica s.rrNext := by
  obtain ⟨rr, hroute, rfl, -⟩ := pick_ok_inv h
  rcases route_eq_some_inv hroute with ⟨hp', -⟩ | ⟨-, harm, rfl⟩
  · rw [hp] at hp'
    exact Policy.noConfusion hp'
  · exact ⟨harm, rfl⟩

/-- A pick is for an available replica. -/
theorem availMask_of_pick {s s' : Scheduler F n} {hashes : List UInt64} {d : RouteDecision n}
    (h : s.pick hashes = some (.ok d, s')) : s.availMask d.replica = true := by
  obtain ⟨rr, hroute, -⟩ := pick_ok_inv h
  exact availMask_of_route hroute

/-- The in-flight counts after a successful pick. -/
theorem inflight_pick {s s' : Scheduler F n} {hashes : List UInt64} {d : RouteDecision n}
    (h : s.pick hashes = some (.ok d, s')) (i : Fin n) :
    s'.inflight i = if i = d.replica then s.inflight i + 1 else s.inflight i := by
  obtain ⟨rr, -, rfl, -⟩ := pick_ok_inv h
  rw [inflight_commit]
  split_ifs with hi
  · rw [hi]
  · rfl

/-- **A decision reports no more blocks than the request has**: the match is the number of leading
blocks found in the cache of the chosen replica, or the `0` that round-robin and the scoring loop start
from. -/
theorem matchedBlocks_le_of_pick {s s' : Scheduler F n} {hashes : List UInt64} {d : RouteDecision n}
    (h : s.pick hashes = some (.ok d, s')) : d.matchedBlocks ≤ hashes.length := by
  obtain ⟨rr, hroute, -, -⟩ := pick_ok_inv h
  rcases route_eq_some_inv hroute with ⟨-, -, hm, -⟩ | ⟨-, hcache, -⟩
  · rw [hm]
    exact Nat.zero_le _
  · obtain ⟨first, rest, -, best, hbest, ⟨-, -, hm⟩ | ⟨-, -, hm⟩⟩ := routeCacheAware_inv hcache
    · rw [hm]
      exact LazyLru.leading_le_length _ _
    · rw [hm, hbest]
      rcases s.foldl_consider hashes (first :: rest) (first, ScoreArith.f64Min, 0) with
        ⟨heq, -⟩ | ⟨-, b, -, heq⟩
      · rw [heq]
        exact Nat.zero_le _
      · rw [heq]
        exact LazyLru.leading_le_length _ _

/-- A pick succeeds if some replica is available. -/
theorem pick_ok_of_availMask {s : Scheduler F n} {i : Fin n} (hi : s.availMask i = true)
    (hashes : List UInt64) : ∃ d s', s.pick hashes = some (.ok d, s') := by
  obtain ⟨⟨r, s'⟩, h⟩ := Option.isSome_iff_exists.mp (s.pick_isSome hashes)
  cases r with
  | error e => simp [(pick_error_inv h).2.1 i] at hi
  | ok d => exact ⟨d, s', h⟩

/-! ## What a call can do -/

/-- All that one call can do: its answer, and the state after it. -/
inductive Effect (s : Scheduler F n) : Op n → Answer n → Scheduler F n → Prop
  /-- A pick refused: no replica is available, and the error says whether one is healthy. -/
  | refused (hashes : List UInt64) (e : PickError) (hnone : ∀ i, s.availMask i = false)
      (herr : e = if s.anyHealthy then .allSaturated else .noHealthyReplicas) :
      Effect s (.pick hashes) (some (.error e)) s
  /-- A pick routed to an available replica. -/
  | picked (hashes : List UInt64) (d : RouteDecision n) (rr : ℕ)
      (havail : s.availMask d.replica = true)
      (hroute : s.route hashes = some (d.replica, d.matchedBlocks, rr))
      (hinflight : d.inflightAfter = (s.replicas d.replica).inflight + 1) :
      Effect s (.pick hashes) (some (.ok d)) (s.commit hashes d.replica rr)
  /-- A completion. -/
  | complete (r : Fin n) : Effect s (.complete r) none (s.complete r)
  /-- A replica taken out of routing. -/
  | markUnhealthy (r : Fin n) : Effect s (.markUnhealthy r) none (s.markUnhealthy r)
  /-- A replica taken back into routing. -/
  | markHealthy (r : Fin n) : Effect s (.markHealthy r) none (s.markHealthy r)

/-- Every step of the transition system has one of the effects. -/
theorem step_inv {s s' : Scheduler F n} {op : Op n} {a : Answer n}
    (h : (lts F n).step s op a s') : Effect s op a s' := by
  rw [lts, Lts.ofFun_step] at h
  cases op with
  | pick hashes =>
    obtain ⟨⟨res, t⟩, hpick, heq⟩ := Option.map_eq_some_iff.mp h
    obtain ⟨rfl, rfl⟩ : some res = a ∧ t = s' := by simpa using heq
    cases res with
    | error e =>
      obtain ⟨rfl, hnone, herr⟩ := pick_error_inv hpick
      exact .refused hashes e hnone herr
    | ok d =>
      obtain ⟨rr, hroute, rfl, hinflight⟩ := pick_ok_inv hpick
      exact .picked hashes d rr (availMask_of_route hroute) hroute hinflight
  | complete r =>
    obtain ⟨rfl, rfl⟩ : none = a ∧ s.complete r = s' := by simpa [step] using h
    exact .complete r
  | markUnhealthy r =>
    obtain ⟨rfl, rfl⟩ : none = a ∧ s.markUnhealthy r = s' := by simpa [step] using h
    exact .markUnhealthy r
  | markHealthy r =>
    obtain ⟨rfl, rfl⟩ : none = a ∧ s.markHealthy r = s' := by simpa [step] using h
    exact .markHealthy r

end Routing

end Scheduler
