import DynamoRouter.Lib.RoundRobin
import DynamoRouter.Router.SchedulerInvariant

set_option relaxedAutoImplicit false
set_option autoImplicit false

/-!
# Round-robin routing

Under `RoundRobin` the successful picks of a run are services of the cursor `rr_next`: a pick goes to
the available replica that the cursor meets first, and puts the cursor just behind it. The replicas
that are available at every successful pick of a window are therefore watched clients of that round
robin, whatever the other replicas do in between.

## Main definitions

* `Scheduler.chosen` — the replicas that the successful picks of a trace chose, in order.
* `Scheduler.AvailableAtPicks` — the guard of a window in which some replicas stay available.

## Main results

* `Scheduler.services_of_run` — a window is a sequence of services.
* `Scheduler.pick_blind` — a pick does not look at the hashes.
* `Scheduler.roundRobin_fair` — fairness, and independence of the hashes.
-/

namespace Scheduler

variable {F : Type} {n : ℕ}

/-- The replica that an answer names. -/
def Answer.chosen : Answer n → Option (Fin n)
  | some (.ok d) => some d.replica
  | _ => none

/-- The replicas that the successful picks of a trace chose. -/
def chosen (τ : List (Op n × Answer n)) : List (Fin n) := τ.filterMap fun x => Answer.chosen x.2

/-- The replicas of `W` are available whenever a pick finds some replica available. -/
def AvailableAtPicks (W : Fin n → Prop) : List (Op n × Answer n) → Scheduler F n → Op n → Prop :=
  fun _ s op => op.isPick = true → s.anyAvailable = true → ∀ i, W i → s.availMask i = true

/-- The guard can be decided. -/
instance (W : Fin n → Prop) [DecidablePred W] (τ : List (Op n × Answer n)) (s : Scheduler F n)
    (op : Op n) : Decidable (AvailableAtPicks W τ s op) :=
  inferInstanceAs (Decidable (_ → _ → _))

/-- One more step of a trace. -/
theorem chosen_snoc (τ : List (Op n × Answer n)) (op : Op n) (a : Answer n) :
    chosen (τ ++ [(op, a)]) = chosen τ ++ (Answer.chosen a).toList := by
  rw [chosen, List.filterMap_append, chosen]
  cases h : Answer.chosen a <;> simp [h]

/-- The scan answers the available replica that the cursor meets first. -/
theorem distance_rrScan_le {s : Scheduler F n} {c : Fin n} (h : s.rrScan = some c) {i : Fin n}
    (hi : s.availMask i = true) :
    RoundRobin.distance s.rrNext c ≤ RoundRobin.distance s.rrNext i := by
  rw [rrScan, List.find?_map] at h
  obtain ⟨off, hoff, rfl⟩ := Option.map_eq_some_iff.mp h
  obtain ⟨off', rfl⟩ := s.exists_rrCand_eq i
  have hdist : ∀ o, RoundRobin.distance s.rrNext (s.rrCand o) = o := RoundRobin.distance_mk s.rrNext
  rw [hdist, hdist]
  -- the offsets before the one found are not available
  obtain ⟨-, k, hk, heq, hbefore⟩ := List.find?_eq_some_iff_getElem.mp hoff
  by_contra hlt
  rw [not_le] at hlt
  have hoffk : off.val = k := by
    rw [← heq, List.getElem_finRange]
    rfl
  have := hbefore off'.val (hoffk ▸ hlt)
  rw [List.getElem_finRange] at this
  simp only [Function.comp_apply, Bool.not_eq_true'] at this
  exact Bool.false_ne_true (this.symm.trans hi)

variable [Mul F] [Sub F] [LT F] [DecidableLT F] [ScoreArith F]

/-- A successful pick under `RoundRobin`. -/
theorem route_roundRobin {s : Scheduler F n} (hp : s.policy = .roundRobin) {hashes : List UInt64}
    {idx : Fin n} {m rr : ℕ} (h : s.route hashes = some (idx, m, rr)) :
    s.rrScan = some idx ∧ m = 0 ∧ rr = (idx.val + 1) % n := by
  rcases route_eq_some_inv h with ⟨-, h⟩ | ⟨hp', -⟩
  · exact h
  · rw [hp] at hp'
    exact Policy.noConfusion hp'

/-- **A window is a sequence of services** that skip no replica that stays available. -/
theorem services_of_run {W : Fin n → Prop} {s₀ s : Scheduler F n} {τ : List (Op n × Answer n)}
    (hp : s₀.policy = .roundRobin) (h : (lts F n).Run (AvailableAtPicks W) s₀ τ s) :
    RoundRobin.Services W s₀.rrNext (chosen τ) s.rrNext := by
  induction h with
  | nil => exact .nil
  | @snoc τ s s' op a hrun hok hstep ih =>
    rw [chosen_snoc]
    cases step_inv hstep with
    | picked hashes d rr havail hroute =>
      have hp' : s.policy = .roundRobin := (policy_cfg_exec hrun.exec).1.trans hp
      obtain ⟨hscan, -, rfl⟩ := route_roundRobin hp' hroute
      refine ih.snoc fun i hi => distance_rrScan_le hscan ?_
      exact hok rfl (anyAvailable_iff.mpr ⟨_, havail⟩) i hi
    | refused => simpa [Answer.chosen] using ih
    | complete r => simpa [Answer.chosen, Scheduler.complete] using ih
    | markUnhealthy r => simpa [Answer.chosen, Scheduler.markUnhealthy] using ih
    | markHealthy r => simpa [Answer.chosen, Scheduler.markHealthy] using ih

/-! ## The hashes do not matter -/

/-- A call with its hashes removed. -/
def Op.blind : Op n → Op n
  | .pick _ => .pick []
  | op => op

/-- Under `RoundRobin` a pick does not look at the hashes. -/
theorem pick_blind {s : Scheduler F n} (hp : s.policy = .roundRobin) (hashes : List UInt64) :
    s.pick hashes = s.pick [] := by
  have hroute : s.route hashes = s.route [] := by
    unfold route
    rw [hp]
  have hcommit : ∀ idx rr, s.commit hashes idx rr = s.commit [] idx rr := fun idx rr => by
    unfold commit
    rw [hp]
    simp
  unfold pick
  simp only [hroute, hcommit]

/-- Under `RoundRobin` a run stays a run when its hashes are removed. -/
theorem exec_blind {s₀ s : Scheduler F n} {τ : List (Op n × Answer n)}
    (hp : s₀.policy = .roundRobin) (h : (lts F n).Exec s₀ τ s) :
    (lts F n).Exec s₀ (τ.map fun x => (x.1.blind, x.2)) s := by
  induction h with
  | nil => exact .nil
  | @snoc τ s s' op a hrun _ hstep ih =>
    rw [List.map_append]
    refine ih.snoc trivial ?_
    have hp' : s.policy = .roundRobin := (policy_cfg_exec hrun).1.trans hp
    rw [lts, Lts.ofFun_step] at hstep ⊢
    cases op with
    | pick hashes => rwa [step, pick_blind hp' hashes] at hstep
    | complete r => exact hstep
    | markUnhealthy r => exact hstep
    | markHealthy r => exact hstep

/-- **Round-robin fairness.** In every window of every run under `RoundRobin`: a replica that is
available at each of at least `n` successful picks of the window is chosen by one of them; two
replicas available at each successful pick are chosen equally often, up to one pick. And two runs
whose calls differ in their hashes only get the same answers.

**Proof sketch.** A window is a sequence of services of a round robin (`services_of_run`). For the last
part, remove the hashes from both runs: by `exec_blind` the results are runs with equal calls, and the
system is deterministic. -/
theorem roundRobin_fair {cfg : SchedulerConfig F} {τ₀ : List (Op n × Answer n)}
    {s₀ : Scheduler F n} (h₀ : (lts F n).Exec (new n .roundRobin cfg) τ₀ s₀) :
    (∀ r τ s, (lts F n).Run (AvailableAtPicks fun i => i = r) s₀ τ s → n ≤ (chosen τ).length →
      r ∈ chosen τ) ∧
    (∀ r r' τ s, (lts F n).Run (AvailableAtPicks fun i => i = r ∨ i = r') s₀ τ s →
      (chosen τ).count r ≤ (chosen τ).count r' + 1 ∧
        (chosen τ).count r' ≤ (chosen τ).count r + 1) ∧
    ∀ τ₁ s₁, (lts F n).Exec (new n .roundRobin cfg) τ₁ s₁ →
      τ₀.map (fun x => x.1.blind) = τ₁.map (fun x => x.1.blind) →
      τ₀.map Prod.snd = τ₁.map Prod.snd := by
  have hp : s₀.policy = .roundRobin := policy_of_exec h₀
  refine ⟨fun r τ s h hlen => (services_of_run hp h).mem rfl hlen, fun r r' τ s h => ?_,
    fun τ₁ s₁ h₁ hblind => ?_⟩
  · have hserv := services_of_run hp h
    exact ⟨hserv.count_le (.inl rfl) (.inr rfl), hserv.count_le (.inr rfl) (.inl rfl)⟩
  · have heq := (exec_blind rfl h₀).trace_unique (Lts.ofFun_deterministic _) (exec_blind rfl h₁)
      (by rw [List.map_map, List.map_map]; exact hblind)
    have hanswers := congrArg (List.map Prod.snd) heq.1
    rw [List.map_map, List.map_map] at hanswers
    exact hanswers

/-- Fairness in a run of three replicas: while replica `1` leaves routing and comes back, replica `2`
stays available and is chosen by one of three picks. -/
theorem roundRobin_fair_three : ∃ τ s,
    (lts ℚ 3).Run (AvailableAtPicks fun i => i = 2) (new 3 .roundRobin .default) τ s ∧
      (chosen τ).length = 3 ∧ 2 ∈ chosen τ := by
  have hrun := Lts.run_get (step (F := ℚ)) (new 3 .roundRobin .default)
    (AvailableAtPicks fun i => i = 2)
    [.pick [7], .markUnhealthy 1, .pick [8], .markHealthy 1, .pick []] (by decide +kernel)
  exact ⟨_, _, hrun, by decide +kernel,
    (roundRobin_fair .nil).1 2 _ _ hrun (by decide +kernel)⟩

end Scheduler
