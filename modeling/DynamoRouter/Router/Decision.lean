import Mathlib.Data.Finset.Max
import DynamoRouter.Router.Affinity
import DynamoRouter.Router.Mirror

set_option relaxedAutoImplicit false
set_option autoImplicit false

/-!
# The routing decision

What a `CacheAware` pick should decide, with exact scores: the available replica with the highest score,
the lowest-indexed one of several, unless its match is below `min_match_blocks`; then the available
replica with the least in flight, again the lowest-indexed one of several.

The code decides this as long as some available replica scores above the constant `f64::MIN`, which the
scoring loop starts from. Where none does, the loop answers its start, the first available replica with
no match, and the decision is the right one only by coincidence.

## Main definitions

* `Scheduler.FirstMax` — the lowest-indexed available replica that maximises a function.
* `Scheduler.PickSpec` — what a pick should do.
* `Scheduler.ScoresDecide` — the condition under which it does.

## Main results

* `Scheduler.routeCacheAware_of_winner`, `routeCacheAware_of_unseen` — the decision, as computed.
* `Scheduler.pickSpec_iff` — when a pick does what it should do.
-/

namespace Scheduler

variable {n : ℕ}

/-! ## The lowest-indexed best replica -/

section FirstMax

variable {F κ : Type} [LinearOrder κ]

/-- `i` is the lowest-indexed available replica that maximises `f`. -/
structure FirstMax (s : Scheduler F n) (f : Fin n → κ) (i : Fin n) : Prop where
  /-- The replica is available. -/
  avail : s.availMask i = true
  /-- No available replica is better. -/
  le : ∀ j, s.availMask j = true → f j ≤ f i
  /-- Every available replica of a lower index is worse. -/
  lt : ∀ j, s.availMask j = true → j < i → f j < f i

variable {s : Scheduler F n} {f : Fin n → κ}

/-- There is a first maximum, if some replica is available. -/
theorem exists_firstMax {i : Fin n} (hi : s.availMask i = true) (f : Fin n → κ) :
    ∃ w, s.FirstMax f w := by
  -- the maximum of the values, ties resolved towards lower indices
  let key : Fin n → κ ×ₗ (Fin n)ᵒᵈ := fun j => toLex (f j, OrderDual.toDual j)
  obtain ⟨w, hw, hmax⟩ := Finset.exists_max_image (Finset.univ.filter fun j => s.availMask j = true)
    key ⟨i, by simpa using hi⟩
  have hle : ∀ j, s.availMask j = true → f j < f w ∨ f j = f w ∧ w ≤ j := fun j hj => by
    have := hmax j (by simpa using hj)
    simpa [key, Prod.Lex.toLex_le_toLex] using this
  refine ⟨w, by simpa using hw, fun j hj => ?_, fun j hj hjw => ?_⟩
  · rcases hle j hj with hlt | ⟨heq, -⟩
    · exact hlt.le
    · exact heq.le
  · rcases hle j hj with hlt | ⟨-, hwj⟩
    · exact hlt
    · exact absurd hjw hwj.not_gt

/-- There is one first maximum at most. -/
theorem FirstMax.unique {i j : Fin n} (hi : s.FirstMax f i) (hj : s.FirstMax f j) : i = j := by
  rcases lt_trichotomy i j with hlt | heq | hlt
  · exact absurd (hi.le j hj.avail) (hj.lt i hi.avail hlt).not_ge
  · exact heq
  · exact absurd (hj.le i hi.avail) (hi.lt j hj.avail hlt).not_ge

/-- The available replicas are listed in the order of their indices. -/
theorem pairwise_available (s : Scheduler F n) : s.available.Pairwise (· < ·) :=
  (List.pairwise_lt_finRange n).filter _

/-- The list of available replicas, split at one of them. -/
theorem available_split {i : Fin n} (hi : s.availMask i = true) :
    ∃ l₁ l₂, s.available = l₁ ++ i :: l₂ ∧ (∀ j ∈ l₁, s.availMask j = true ∧ j < i) ∧
      ∀ j ∈ l₂, s.availMask j = true := by
  obtain ⟨l₁, l₂, heq⟩ := List.append_of_mem (mem_available.mpr hi)
  have hmem : ∀ j ∈ l₁ ++ i :: l₂, s.availMask j = true := fun j hj => mem_available.mp (heq ▸ hj)
  have hsorted : (l₁ ++ i :: l₂).Pairwise (· < ·) := heq ▸ s.pairwise_available
  rw [List.pairwise_append] at hsorted
  refine ⟨l₁, l₂, heq, fun j hj => ⟨hmem j (by simp [hj]), ?_⟩, fun j hj => hmem j (by simp [hj])⟩
  exact hsorted.2.2 j hj i List.mem_cons_self

/-- `min_by_key` answers the lowest-indexed of the replicas with the least in flight. -/
theorem firstMax_of_mem_argmin {i : Fin n} (hi : i ∈ s.available.argmin s.inflight) :
    s.FirstMax (fun j => OrderDual.toDual (s.inflight j)) i := by
  have havail := mem_available.mp (List.argmin_mem hi)
  have hle : ∀ j, s.availMask j = true → s.inflight i ≤ s.inflight j := fun j hj =>
    List.le_of_mem_argmin (mem_available.mpr hj) hi
  refine ⟨havail, fun j hj => hle j hj, fun j hj hji => lt_of_le_of_ne (hle j hj) fun heq => ?_⟩
  -- an equally loaded replica of a lower index would come first in the list
  obtain ⟨l₁, l₂, hsplit, hbefore, -⟩ := available_split hj
  have hidx := List.index_of_argmin hi (mem_available.mpr hj) (OrderDual.toDual.injective heq).le
  have hnot : i ∉ l₁ := fun hmem => absurd (hbefore i hmem).2 hji.not_gt
  have hnotj : j ∉ l₁ := fun hmem => absurd (hbefore j hmem).2 (lt_irrefl j)
  rw [hsplit, List.idxOf_append_of_notMem hnot, List.idxOf_append_of_notMem hnotj,
    List.idxOf_cons_self, List.idxOf_cons_ne _ hji.ne] at hidx
  omega

end FirstMax

/-! ## The decision as computed -/

/-- The winner of the scoring: the lowest-indexed available replica with the highest score. -/
abbrev Winner (s : Scheduler ℚ n) (hashes : List UInt64) (w : Fin n) : Prop :=
  s.FirstMax (s.score hashes) w

/-- The fallback: the lowest-indexed available replica with the least in flight. -/
abbrev LeastLoaded (s : Scheduler ℚ n) (i : Fin n) : Prop :=
  s.FirstMax (fun j => OrderDual.toDual (s.inflight j)) i

/-- What the `CacheAware` arm should answer: the winner, or the fallback if the winner's match is below
`min_match_blocks`; and the match of the chosen replica. -/
def RouteSpec (s : Scheduler ℚ n) (hashes : List UInt64) (idx : Fin n) (m : ℕ) : Prop :=
  (∃ w, s.Winner hashes w ∧
    if s.cfg.minMatchBlocks ≤ (s.replicas w).cache.lookup hashes then idx = w
    else s.LeastLoaded idx) ∧
  m = (s.replicas idx).cache.lookup hashes

variable {s : Scheduler ℚ n} {hashes : List UInt64}

/-- If the winner's score is above the constant the loop starts from, then the loop answers the winner. -/
theorem routeCacheAware_of_winner {w : Fin n} (hw : s.Winner hashes w)
    (hseen : ScoreArith.f64Min < s.score hashes w) :
    s.routeCacheAware hashes =
      if (s.replicas w).cache.lookup hashes < s.cfg.minMatchBlocks then
        (s.available.argmin s.inflight).map fun least =>
          (least, (s.replicas least).cache.lookup hashes)
      else some (w, (s.replicas w).cache.lookup hashes) := by
  obtain ⟨l₁, l₂, hsplit, hbefore, hafter⟩ := available_split hw.avail
  unfold routeCacheAware
  cases hav : s.available with
  | nil => simp [hsplit] at hav
  | cons first rest =>
    have hfold := s.foldl_consider_eq hashes (first, ScoreArith.f64Min, 0) hseen
      (fun j hj => hw.lt j (hbefore j hj).1 (hbefore j hj).2)
      fun j hj => (hw.le j (hafter j hj)).not_gt
    rw [← hsplit, hav] at hfold
    simp only [hfold]

/-- If no available replica scores above that constant, then the loop answers its start. -/
theorem routeCacheAware_of_unseen {first : Fin n} (hfirst : s.available.head? = some first)
    (hunseen : ∀ j, s.availMask j = true → ¬ ScoreArith.f64Min < s.score hashes j) :
    s.routeCacheAware hashes =
      if 0 < s.cfg.minMatchBlocks then
        (s.available.argmin s.inflight).map fun least =>
          (least, (s.replicas least).cache.lookup hashes)
      else some (first, 0) := by
  unfold routeCacheAware
  cases hav : s.available with
  | nil => simp [hav] at hfirst
  | cons first' rest =>
    obtain rfl : first' = first := by simpa [hav] using hfirst
    rcases s.foldl_consider hashes (first' :: rest) (first', ScoreArith.f64Min, 0) with
      ⟨heq, -⟩ | ⟨⟨j, hj, hlt⟩, -⟩
    · simp only [heq]
    · exact absurd hlt (hunseen j (mem_available.mp (hav ▸ hj)))

/-- The least-loaded branch answers the fallback, with its match. -/
theorem leastLoaded_of_map_argmin {idx : Fin n} {m : ℕ}
    (h : (s.available.argmin s.inflight).map
      (fun least => (least, (s.replicas least).cache.lookup hashes)) = some (idx, m)) :
    s.LeastLoaded idx ∧ m = (s.replicas idx).cache.lookup hashes := by
  obtain ⟨least, hleast, heq⟩ := Option.map_eq_some_iff.mp h
  obtain ⟨rfl, rfl⟩ := Prod.mk.inj heq
  exact ⟨firstMax_of_mem_argmin hleast, rfl⟩

/-- If the winner's score is above the constant, the decision is as it should be. -/
theorem routeSpec_of_winner {w idx : Fin n} {m : ℕ} (hw : s.Winner hashes w)
    (hseen : ScoreArith.f64Min < s.score hashes w)
    (h : s.routeCacheAware hashes = some (idx, m)) : s.RouteSpec hashes idx m := by
  rw [routeCacheAware_of_winner hw hseen] at h
  split_ifs at h with hmin
  · obtain ⟨hleast, hm⟩ := leastLoaded_of_map_argmin h
    exact ⟨⟨w, hw, by rwa [if_neg (not_le.mpr hmin)]⟩, hm⟩
  · obtain ⟨rfl, rfl⟩ := Prod.mk.inj (Option.some_inj.mp h)
    exact ⟨⟨w, hw, by rw [if_pos (not_lt.mp hmin)]⟩, rfl⟩

/-- If no available replica scores above the constant, the decision is as it should be exactly in these
cases: with the fallback on, if the winner's match is below `min_match_blocks` or the winner is the
fallback anyway; with the fallback off, if the winner is the first available replica and has no match.

**Proof sketch.** The scan sees no replica, so that it picks the least loaded one if `min_match_blocks` is
positive, and keeps the first available one with a match of zero if it is not. The rest is to compare this
with the winner, who is unique. -/
theorem routeSpec_iff_of_unseen {w idx : Fin n} {m : ℕ} (hw : s.Winner hashes w)
    (hunseen : ∀ j, s.availMask j = true → ¬ ScoreArith.f64Min < s.score hashes j)
    (h : s.routeCacheAware hashes = some (idx, m)) :
    s.RouteSpec hashes idx m ↔
      if s.cfg.minMatchBlocks = 0 then
        s.available.head? = some w ∧ (s.replicas w).cache.lookup hashes = 0
      else (s.replicas w).cache.lookup hashes < s.cfg.minMatchBlocks ∨ s.LeastLoaded w := by
  obtain ⟨first, hfirst⟩ : ∃ first, s.available.head? = some first := by
    rw [← Option.isSome_iff_exists, List.isSome_head?]
    exact List.ne_nil_of_mem (mem_available.mpr hw.avail)
  rw [routeCacheAware_of_unseen hfirst hunseen] at h
  -- the winner that the specification speaks of is `w`
  have hspec : s.RouteSpec hashes idx m ↔
      (if s.cfg.minMatchBlocks ≤ (s.replicas w).cache.lookup hashes then idx = w
        else s.LeastLoaded idx) ∧ m = (s.replicas idx).cache.lookup hashes := by
    refine and_congr_left fun _ => ⟨?_, fun hidx => ⟨w, hw, hidx⟩⟩
    rintro ⟨w', hw', hidx⟩
    obtain rfl := hw'.unique hw
    exact hidx
  rw [hspec]
  by_cases hzero : s.cfg.minMatchBlocks = 0
  · rw [if_neg (by omega)] at h
    obtain ⟨rfl, rfl⟩ := Prod.mk.inj (Option.some_inj.mp h)
    rw [if_pos (by omega), if_pos hzero, hfirst, Option.some_inj]
    constructor
    · rintro ⟨rfl, hm⟩
      exact ⟨rfl, hm.symm⟩
    · rintro ⟨rfl, hm⟩
      exact ⟨rfl, hm.symm⟩
  · rw [if_pos (by omega)] at h
    obtain ⟨hleast, rfl⟩ := leastLoaded_of_map_argmin h
    rw [if_neg hzero, and_iff_left rfl]
    split_ifs with hmin
    · constructor
      · rintro rfl
        exact .inr hleast
      · rintro (hlt | hw')
        · exact absurd hmin (not_le.mpr hlt)
        · exact hleast.unique hw'
    · exact iff_of_true hleast (.inl (not_le.mp hmin))

/-! ## What a pick should do -/

/-- What a `CacheAware` pick should do: it does not panic; it is refused with the right error, and
without a trace, exactly if no replica is available; and otherwise it chooses the winner or the fallback,
reports the chosen replica's match and its in-flight count with this request, and touches nothing but the
chosen replica's in-flight count and cache. -/
structure PickSpec (s : Scheduler ℚ n) (hashes : List UInt64) : Prop where
  /-- There is no panic. -/
  total : (s.pick hashes).isSome
  /-- No replica is healthy. -/
  noHealthy : (∃ s', s.pick hashes = some (.error .noHealthyReplicas, s')) ↔
    ∀ i, s.isHealthy i = false
  /-- Some replica is healthy, and none is available. -/
  saturated : (∃ s', s.pick hashes = some (.error .allSaturated, s')) ↔
    (∃ i, s.isHealthy i = true) ∧ ∀ i, s.availMask i = false
  /-- A refused pick changes nothing. -/
  unchanged : ∀ e s', s.pick hashes = some (.error e, s') → s' = s
  /-- The choice, and the match that is reported. -/
  decides : ∀ d s', s.pick hashes = some (.ok d, s') →
    s.RouteSpec hashes d.replica d.matchedBlocks
  /-- The in-flight count that is reported. -/
  inflightAfter : ∀ d s', s.pick hashes = some (.ok d, s') →
    d.inflightAfter = s.inflight d.replica + 1 ∧ s'.inflight d.replica = s.inflight d.replica + 1
  /-- The rest of the state. -/
  frame : ∀ d s', s.pick hashes = some (.ok d, s') →
    s'.rrNext = s.rrNext ∧ s'.policy = s.policy ∧ s'.cfg = s.cfg ∧
    (∀ i, s'.isHealthy i = s.isHealthy i) ∧ ∀ i, i ≠ d.replica → s'.replicas i = s.replicas i

/-- The condition under which a pick does what it should do: no replica is available, or some available
replica scores above `f64::MIN`, or the decision that the scoring loop then makes by default is the right
one. -/
def ScoresDecide (s : Scheduler ℚ n) (hashes : List UInt64) : Prop :=
  (∀ i, s.availMask i = false) ∨
  (∃ i, s.availMask i = true ∧ ScoreArith.f64Min < s.score hashes i) ∨
  ∃ w, s.Winner hashes w ∧
    if s.cfg.minMatchBlocks = 0 then
      s.available.head? = some w ∧ (s.replicas w).cache.lookup hashes = 0
    else (s.replicas w).cache.lookup hashes < s.cfg.minMatchBlocks ∨ s.LeastLoaded w

/-- A pick is refused exactly if no replica is available, with the error that says whether one is
healthy. -/
theorem pick_error_iff {e : PickError} :
    (∃ s', s.pick hashes = some (.error e, s')) ↔
      (∀ i, s.availMask i = false) ∧ e = if s.anyHealthy then .allSaturated else .noHealthyReplicas := by
  constructor
  · rintro ⟨s', h⟩
    exact (pick_error_inv h).2
  · rintro ⟨hnone, rfl⟩
    obtain ⟨⟨res, s'⟩, h⟩ := Option.isSome_iff_exists.mp (s.pick_isSome hashes)
    cases res with
    | error e => exact ⟨s', (pick_error_inv h).2.2 ▸ h⟩
    | ok d =>
      exact absurd (hnone d.replica) (by simp [availMask_of_pick h])

/-- If no replica is healthy, then none is available. -/
theorem availMask_of_isHealthy {i : Fin n} (h : s.isHealthy i = false) : s.availMask i = false := by
  unfold isHealthy at h
  simp [availMask, h]

/-- The errors of a pick. -/
theorem pick_errors (s : Scheduler ℚ n) (hashes : List UInt64) :
    ((∃ s', s.pick hashes = some (.error .noHealthyReplicas, s')) ↔ ∀ i, s.isHealthy i = false) ∧
    ((∃ s', s.pick hashes = some (.error .allSaturated, s')) ↔
      (∃ i, s.isHealthy i = true) ∧ ∀ i, s.availMask i = false) := by
  rw [pick_error_iff, pick_error_iff]
  by_cases h : s.anyHealthy = true
  · obtain ⟨i, hi⟩ := anyHealthy_iff.mp h
    have hhealthy : s.isHealthy i = true := hi
    rw [if_pos h]
    constructor
    · exact iff_of_false (fun hno => by simp at hno) fun hno => by simp [hno i] at hhealthy
    · exact ⟨fun hsat => ⟨⟨i, hhealthy⟩, hsat.1⟩, fun hsat => ⟨hsat.2, rfl⟩⟩
  · have hnone : ∀ i, s.isHealthy i = false := fun i => by
      rw [Bool.eq_false_iff]
      exact fun hi => h (anyHealthy_iff.mpr ⟨i, hi⟩)
    rw [if_neg h]
    constructor
    · exact iff_of_true ⟨fun i => availMask_of_isHealthy (hnone i), rfl⟩ hnone
    · refine iff_of_false (fun hsat => by simp at hsat) ?_
      rintro ⟨⟨i, hi⟩, -⟩
      simp [hnone i] at hi

/-- What a successful pick leaves alone. -/
theorem pick_frame {d : RouteDecision n} {s' : Scheduler ℚ n} (hp : s.policy = .cacheAware)
    (h : s.pick hashes = some (.ok d, s')) :
    s'.rrNext = s.rrNext ∧ s'.policy = s.policy ∧ s'.cfg = s.cfg ∧
    (∀ i, s'.isHealthy i = s.isHealthy i) ∧ ∀ i, i ≠ d.replica → s'.replicas i = s.replicas i := by
  obtain ⟨-, rfl⟩ := pick_cacheAware_inv hp h
  exact ⟨rfl, rfl, rfl, fun i => isHealthy_commit _ _ _ _ _, fun i hi => replicas_commit_of_ne _ _ _ hi⟩

/-- A pick does what it should do if its decision is the right one. -/
theorem pickSpec_of_routeSpec (hp : s.policy = .cacheAware)
    (h : ∀ idx m, s.routeCacheAware hashes = some (idx, m) → s.availMask idx = true →
      s.RouteSpec hashes idx m) : s.PickSpec hashes where
  total := s.pick_isSome hashes
  noHealthy := (s.pick_errors hashes).1
  saturated := (s.pick_errors hashes).2
  unchanged e s' hpick := (pick_error_inv hpick).1
  decides d s' hpick := by
    have harm := (pick_cacheAware_inv hp hpick).1
    exact h _ _ harm (availMask_of_routeCacheAware harm)
  inflightAfter d s' hpick := by
    obtain ⟨rr, -, -, hafter⟩ := pick_ok_inv hpick
    exact ⟨hafter, by rw [inflight_pick hpick, if_pos rfl]⟩
  frame d s' hpick := pick_frame hp hpick

/-- **When a pick does what it should do**, for every `CacheAware` state and every prompt: exactly if no
replica is available, or some available replica scores above `f64::MIN`, or the decision that the scoring
loop makes by default is the right one.

**Proof sketch.** If the winner's score is above `f64::MIN`, the loop answers the winner
(`routeCacheAware_of_winner`). Otherwise no score is, and the loop answers the first available replica
with no match (`routeCacheAware_of_unseen`). All other parts hold in either case. -/
theorem pickSpec_iff (hp : s.policy = .cacheAware) (hashes : List UInt64) :
    s.PickSpec hashes ↔ s.ScoresDecide hashes := by
  by_cases havail : ∀ i, s.availMask i = false
  · exact iff_of_true
      (pickSpec_of_routeSpec hp fun idx m _ hidx => by simp [havail idx] at hidx) (.inl havail)
  obtain ⟨i, hi⟩ : ∃ i, s.availMask i = true := by simpa using havail
  obtain ⟨w, hw⟩ := exists_firstMax hi (s.score hashes)
  by_cases hseen : ScoreArith.f64Min < s.score hashes w
  · exact iff_of_true (pickSpec_of_routeSpec hp fun idx m h _ => routeSpec_of_winner hw hseen h)
      (.inr (.inl ⟨w, hw.avail, hseen⟩))
  have hunseen : ∀ j, s.availMask j = true → ¬ ScoreArith.f64Min < s.score hashes j :=
    fun j hj hlt => hseen (lt_of_lt_of_le hlt (hw.le j hj))
  constructor
  · intro hspec
    obtain ⟨d, s', hpick⟩ := pick_ok_of_availMask hi hashes
    have harm := (pick_cacheAware_inv hp hpick).1
    exact .inr (.inr ⟨w, hw, (routeSpec_iff_of_unseen hw hunseen harm).mp (hspec.decides d s' hpick)⟩)
  · rintro (hnone | ⟨j, hj, hlt⟩ | ⟨w', hw', hdefault⟩)
    · exact absurd hnone havail
    · exact absurd hlt (hunseen j hj)
    · exact pickSpec_of_routeSpec hp fun idx m h _ =>
        (routeSpec_iff_of_unseen hw' hunseen h).mpr hdefault

/-- A configuration in which a match takes two blocks, each of which outweighs two requests in flight. -/
def twoBlockConfig : SchedulerConfig ℚ where
  alpha := 2
  beta := 1
  minMatchBlocks := 2
  blockBudget := 8
  maxInflight := 4

/-- Picks of three replicas with different blocks and loads: a match of two blocks goes to a busy replica,
and a match of one block falls back to the idle one. -/
theorem pickSpec_iff_three : ∃ τ s,
    (lts ℚ 3).Exec (new 3 .cacheAware twoBlockConfig) τ s ∧
      [s.inflight 0, s.inflight 1, s.inflight 2] = [1, 1, 0] ∧
      s.PickSpec [1, 2, 4] ∧
      ((s.pick [1, 2, 4]).map fun r => r.1.toOption.map fun d => (d.replica, d.matchedBlocks)) =
        some (some (0, 2)) ∧
      s.PickSpec [7, 5] ∧
      ((s.pick [7, 5]).map fun r => r.1.toOption.map fun d => (d.replica, d.matchedBlocks)) =
        some (some (2, 0)) := by
  have hrun := Lts.exec_get step (new 3 .cacheAware twoBlockConfig)
    [.pick [1, 2, 3], .pick [7, 8], .pick [9], .complete 2] (by decide +kernel)
  exact ⟨_, _, hrun, by decide +kernel,
    (pickSpec_iff (policy_of_exec hrun) [1, 2, 4]).mpr (.inr (.inl ⟨0, by decide +kernel⟩)),
    by decide +kernel,
    (pickSpec_iff (policy_of_exec hrun) [7, 5]).mpr (.inr (.inl ⟨1, by decide +kernel⟩)),
    by decide +kernel⟩

/-- **A pick that does not do what it should do.** With two requests in flight the only score is below
`f64::MIN`: the third pick of the same block reports no match, although the block is in the cache. -/
theorem exists_not_pickSpec : ∃ τ s,
    (lts ℚ 1).Exec (new 1 .cacheAware heavyLoadConfig) τ s ∧ ¬ s.PickSpec [7] := by
  obtain ⟨τ, s, hrun, havail, hmatched, hlookup⟩ : ∃ τ s,
      (lts ℚ 1).Exec (new 1 .cacheAware heavyLoadConfig) τ s ∧ s.availMask 0 = true ∧
      (s.pick [7]).map (fun r => r.1.toOption.map RouteDecision.matchedBlocks) = some (some 0) ∧
      (s.replicas 0).cache.lookup [7] = 1 :=
    ⟨_, _, Lts.exec_get step _ [.pick [7], .pick [7]] (by decide +kernel),
      by decide +kernel, by decide +kernel, by decide +kernel⟩
  refine ⟨τ, s, hrun, fun hspec => ?_⟩
  obtain ⟨d, s', hpick⟩ := pick_ok_of_availMask havail [7]
  have hm := (hspec.decides d s' hpick).2
  rw [Subsingleton.elim d.replica 0, hlookup] at hm
  rw [hpick] at hmatched
  simp [Except.toOption, hm] at hmatched

end Scheduler
