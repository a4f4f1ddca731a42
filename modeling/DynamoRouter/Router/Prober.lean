import DynamoRouter.Lib.PointUpdates
import DynamoRouter.Router.System

set_option relaxedAutoImplicit false
set_option autoImplicit false

/-!
# A pass of the health prober (`spawn_health_prober`)

A pass probes all replicas at once and collects the results in the order in which the probes finish;
a probe that panicked has none. The results are applied one after another in one critical section, and
the count of live replicas is published after the lock is released.

Each replica is probed once, so a pass is a batch of updates of the replicas with at most one for each:
its effect does not depend on the order of the results.

## Main definitions

* `RouterInner.gatherProbes` — the results that a pass collects.
* `ReplicaState.probed` — what a result does to its replica.
* `Scheduler.healthyReplicas` — the number of healthy replicas.

## Main results

* `RouterInner.applyProbes_eq` — a pass as a batch of updates at points.
* `System.probe_pass` — what a pass does, in any order of its results, and what it publishes.
-/

/-! ## The results of a pass -/

namespace RouterInner

variable {n : ℕ}

/-- The results of a pass: the probes finish in the given order, and a probe without an outcome
panicked. -/
def gatherProbes (order : List (Fin n)) (outcome : Fin n → Option Bool) : List (Fin n × Bool) :=
  order.filterMap fun i => (outcome i).map fun live => (i, live)

/-- The replicas of the results are among the probed ones, in the same order. -/
theorem keys_gatherProbes (order : List (Fin n)) (outcome : Fin n → Option Bool) :
    (gatherProbes order outcome).map Prod.fst = order.filter fun i => (outcome i).isSome := by
  induction order with
  | nil => rfl
  | cons i order ih =>
    rw [gatherProbes] at ih ⊢
    cases hout : outcome i <;> simp [hout, ih]

/-- A pass that probes each replica at most once has at most one result for each. -/
theorem nodup_gatherProbes {order : List (Fin n)} (h : order.Nodup) (outcome : Fin n → Option Bool) :
    ((gatherProbes order outcome).map Prod.fst).Nodup := by
  rw [keys_gatherProbes]
  exact h.filter _

end RouterInner

/-! ## What a result does -/

namespace ReplicaState

/-- What a result of a pass does to its replica. -/
def probed (live : Bool) (x : ReplicaState) : ReplicaState :=
  if live then { x with healthy := true }
  else if x.healthy then { healthy := false, inflight := 0, cache := .new }
  else x

/-- A probed replica is as healthy as it is live. -/
@[simp] theorem healthy_probed (live : Bool) (x : ReplicaState) : (probed live x).healthy = live := by
  cases live
  · cases hx : x.healthy <;> simp [probed, hx]
  · rfl

/-- The second result does nothing. -/
theorem probed_probed (live : Bool) (x : ReplicaState) :
    probed live (probed live x) = probed live x := by
  cases live
  · have hunhealthy := healthy_probed false x
    rw [probed, if_neg Bool.false_ne_true, hunhealthy, if_neg Bool.false_ne_true]
  · rfl

/-- A replica that was probed dead is as an idle one out of routing, also if it was out of routing
before. -/
theorem Inv.probed_false {F : Type} {policy : Policy} {cfg : SchedulerConfig F} {x : ReplicaState}
    (h : x.Inv policy cfg) : probed false x = { healthy := false, inflight := 0, cache := .new } := by
  cases hx : x.healthy with
  | true => simp [probed, hx]
  | false =>
    have hinflight := h.inflight_of_unhealthy hx
    have hcache := h.cache_of_unhealthy hx
    obtain ⟨cache, inflight, healthy⟩ := x
    obtain rfl : healthy = false := hx
    obtain rfl : inflight = 0 := hinflight
    obtain rfl : cache = .new := hcache
    rfl

end ReplicaState

namespace Scheduler

variable {F : Type} {n : ℕ}

/-- The number of healthy replicas. -/
def healthyReplicas (s : Scheduler F n) : ℕ := (Finset.univ.filter fun r => s.isHealthy r = true).card

/-- What a pass with the given results makes of a state. -/
structure PassSpec (s : Scheduler F n) (results : List (Fin n × Bool)) (s' : Scheduler F n) :
    Prop where
  /-- A live replica is healthy, with its requests in flight and its cache. -/
  live : ∀ r, (r, true) ∈ results → s'.replicas r = { s.replicas r with healthy := true }
  /-- A dead replica is out of routing, with nothing in flight and a new cache. -/
  dead : ∀ r, (r, false) ∈ results →
    s'.replicas r = { healthy := false, inflight := 0, cache := .new }
  /-- A replica without a result is unchanged. -/
  absent : ∀ r, r ∉ results.map Prod.fst → s'.replicas r = s.replicas r
  /-- So is all that is not about one replica. -/
  frame : s'.policy = s.policy ∧ s'.cfg = s.cfg ∧ s'.rrNext = s.rrNext

end Scheduler

namespace RouterInner

variable {F : Type} {n : ℕ} {sched : Scheduler F n} {results results' : List (Fin n × Bool)}

/-! ## A pass as a batch of updates -/

/-- One result, as an update at its replica. -/
theorem applyProbe_eq (acc : Scheduler F n × ℕ) (result : Fin n × Bool) :
    applyProbe acc result =
      ({ acc.1 with replicas := PointUpdates.update1 ReplicaState.probed acc.1.replicas result },
        acc.2 + if result.2 then 1 else 0) := by
  obtain ⟨s, count⟩ := acc
  obtain ⟨r, live⟩ := result
  cases live with
  | true => rfl
  | false =>
    cases hr : (s.replicas r).healthy with
    | true => simp [applyProbe, Scheduler.isHealthy, hr, Scheduler.markUnhealthy,
        Scheduler.setReplica, PointUpdates.update1, ReplicaState.probed]
    | false => simp [applyProbe, Scheduler.isHealthy, hr, PointUpdates.update1, ReplicaState.probed]

/-- **A pass is a batch of updates** of the replicas, and a count of the live results. -/
theorem applyProbes_eq (sched : Scheduler F n) (results : List (Fin n × Bool)) :
    applyProbes sched results =
      ({ sched with replicas := PointUpdates.updates ReplicaState.probed sched.replicas results },
        results.countP fun x => x.2) := by
  have hfold : ∀ (results : List (Fin n × Bool)) (acc : Scheduler F n × ℕ),
      results.foldl applyProbe acc =
        ({ acc.1 with
            replicas := PointUpdates.updates ReplicaState.probed acc.1.replicas results },
          acc.2 + results.countP fun x => x.2) := by
    intro results
    induction results with
    | nil =>
      intro acc
      rfl
    | cons x results ih =>
      intro acc
      rw [List.foldl_cons, ih, applyProbe_eq, List.countP_cons, Nat.add_assoc,
        Nat.add_comm (List.countP _ _)]
      rfl
  rw [applyProbes, hfold, Nat.zero_add]

/-- **The order of the results does not matter.** -/
theorem applyProbes_perm (hnodup : (results.map Prod.fst).Nodup) (h : results'.Perm results) :
    applyProbes sched results' = applyProbes sched results := by
  rw [applyProbes_eq, applyProbes_eq, PointUpdates.updates_perm hnodup h, h.countP_eq]

/-- **The order in which the probes finish does not matter.** -/
theorem applyProbes_gatherProbes {order order' : List (Fin n)} (hnodup : order.Nodup)
    (h : order'.Perm order) (outcome : Fin n → Option Bool) :
    applyProbes sched (gatherProbes order' outcome) =
      applyProbes sched (gatherProbes order outcome) :=
  applyProbes_perm (nodup_gatherProbes hnodup outcome) (h.filterMap _)

/-- **A second pass with the same results** changes nothing. -/
theorem applyProbes_applyProbes (hnodup : (results.map Prod.fst).Nodup)
    (h : results'.Perm results) :
    (applyProbes (applyProbes sched results).1 results').1 = (applyProbes sched results).1 := by
  simp only [applyProbes_eq, PointUpdates.updates_updates ReplicaState.probed_probed hnodup h]

/-- What a pass makes of a state that satisfies the invariant. -/
theorem passSpec_applyProbes (hinv : sched.Inv) (hnodup : (results.map Prod.fst).Nodup) :
    sched.PassSpec results (applyProbes sched results).1 := by
  rw [applyProbes_eq]
  exact
    { live := fun r hr => PointUpdates.updates_of_mem hnodup hr
      dead := fun r hr => by
        have hdead := PointUpdates.updates_of_mem (g := ReplicaState.probed) (f := sched.replicas)
          hnodup hr
        exact hdead.trans (hinv.replica r).probed_false
      absent := fun r hr => PointUpdates.updates_of_notMem hr
      frame := ⟨rfl, rfl, rfl⟩ }

/-- With a result for each replica, a pass counts the healthy replicas. -/
theorem count_applyProbes (hnodup : (results.map Prod.fst).Nodup) (hall : results.length = n) :
    (applyProbes sched results).2 = (applyProbes sched results).1.healthyReplicas := by
  rw [applyProbes_eq]
  have hcard := PointUpdates.card_filter_updates (f := sched.replicas) hnodup
    (hall.trans (Fintype.card_fin n).symm) (p := ReplicaState.healthy) ReplicaState.healthy_probed
  exact hcard.symm

end RouterInner

/-! ## The pass in the system -/

/-- Whether the prober sets the gauge of healthy replicas. -/
def Act.isPublish {n : ℕ} {Resp : Type} : Act n Resp → Bool
  | .publish => true
  | _ => false

namespace System

variable {F : Type} {n : ℕ} {Resp : Type} [Mul F] [Sub F] [LT F] [DecidableLT F] [ScoreArith F]
variable {deps : Deps} {s s' : System F n Resp} {es : List (Event n)}

/-- The prober applies one pass at a time, and then holds its count. -/
theorem probe_inv {results : List (Fin n × Bool)}
    (h : (lts F n Resp deps).step s (.probe results) es s') :
    s.prober = none ∧ s'.sched = (RouterInner.applyProbes s.sched results).1 ∧
      s'.prober = some (RouterInner.applyProbes s.sched results).2 := by
  rw [lts, Lts.ofFun_step, step] at h
  split_ifs at h with hok
  cases h
  exact ⟨hok.1, rfl, rfl⟩

/-- The prober keeps its count until it publishes it. -/
theorem prober_step {act : Act n Resp} {count : ℕ} (hact : act.isPublish = false)
    (hcount : s.prober = some count) (h : (lts F n Resp deps).step s act es s') :
    s'.prober = some count := by
  cases step_inv h with
  | spawned => exact hcount
  | ran => exact hcount
  | probed results =>
    rw [(probe_inv h).1] at hcount
    cases hcount
  | published => cases hact

/-- The prober publishes the count of its pass, whatever the handlers do in between. -/
theorem published_of_probe {results : List (Fin n × Bool)} {s₁ s₂ s₃ : System F n Resp}
    {τ : List (Act n Resp × List (Event n))} {es' : List (Event n)}
    (hprobe : (lts F n Resp deps).step s (.probe results) es s₁)
    (hrun : (lts F n Resp deps).Run (fun _ _ act => act.isPublish = false) s₁ τ s₂)
    (hpublish : (lts F n Resp deps).step s₂ .publish es' s₃) :
    s₃.inner.metrics.healthyReplicas = (RouterInner.applyProbes s.sched results).2 := by
  have hcount : s₂.prober = some (RouterInner.applyProbes s.sched results).2 :=
    Lts.Run.invariant (I := fun _ s' => s'.prober = some (RouterInner.applyProbes s.sched results).2)
      hrun (probe_inv hprobe).2.2 fun _ _ _ _ _ hI hact hstep => prober_step hact hI hstep
  cases step_inv hpublish with
  | spawned _ _ hact => cases hact
  | published count hcount' => exact Option.some_inj.mp (hcount'.symm.trans hcount)

/-- **A pass of the prober.** From every reachable state of the scheduler, and with at most one result
for each replica: the order of the results does not matter; a live replica is healthy with its requests
in flight and its cache, a dead one is out of routing, idle and cold, and the others are unchanged; the
same results again change nothing. If all replicas have a result, the value that the prober publishes
after it released the lock is the number of replicas that were healthy at that moment, whatever the
handlers do in between.

**Proof sketch.** `RouterInner.applyProbes_eq`; the invariant of the scheduler is needed for a replica
that was already out of routing, which a dead result leaves as it is. -/
theorem probe_pass {policy : Policy} {cfg : SchedulerConfig F}
    {ops : List (Scheduler.Op n × Scheduler.Answer n)} {sched : Scheduler F n}
    (h : (Scheduler.lts F n).Exec (.new n policy cfg) ops sched) {results : List (Fin n × Bool)}
    (hnodup : (results.map Prod.fst).Nodup) :
    (∀ results', results'.Perm results →
      RouterInner.applyProbes sched results' = RouterInner.applyProbes sched results) ∧
    sched.PassSpec results (RouterInner.applyProbes sched results).1 ∧
    (∀ results', results'.Perm results →
      (RouterInner.applyProbes (RouterInner.applyProbes sched results).1 results').1 =
        (RouterInner.applyProbes sched results).1) ∧
    (results.length = n → ∀ (deps : Deps) (s s₁ s₂ s₃ : System F n Resp)
      (τ : List (Act n Resp × List (Event n))) (es es' : List (Event n)), s.sched = sched →
      (lts F n Resp deps).step s (.probe results) es s₁ →
      (lts F n Resp deps).Run (fun _ _ act => act.isPublish = false) s₁ τ s₂ →
      (lts F n Resp deps).step s₂ .publish es' s₃ →
      s₁.sched = (RouterInner.applyProbes sched results).1 ∧
        s₃.inner.metrics.healthyReplicas = s₁.sched.healthyReplicas) := by
  refine ⟨?_, RouterInner.passSpec_applyProbes (Scheduler.inv_of_exec h) hnodup, ?_, ?_⟩
  · intro results' hperm
    exact RouterInner.applyProbes_perm hnodup hperm
  · intro results' hperm
    exact RouterInner.applyProbes_applyProbes hnodup hperm
  · intro hall deps s s₁ s₂ s₃ τ es es' hs hprobe hrun hpublish
    have hreleased := (probe_inv hprobe).2.1
    refine ⟨hs ▸ hreleased, ?_⟩
    calc s₃.inner.metrics.healthyReplicas
        = (RouterInner.applyProbes s.sched results).2 := published_of_probe hprobe hrun hpublish
      _ = (RouterInner.applyProbes s.sched results).1.healthyReplicas :=
          RouterInner.count_applyProbes hnodup hall
      _ = s₁.sched.healthyReplicas := by rw [hreleased]

/-- The system at rest over a scheduler. -/
def atRest (Resp : Type) (sched : Scheduler F n) : System F n Resp where
  inner := { RouterInner.new n sched.policy sched.cfg with scheduler := sched }
  handlers := []
  prober := none

/-- A pass over two replicas: the first one is found dead with a request in flight, the second one is
re-admitted. A call is on its way when the count is published. -/
theorem probe_pass_two : ∃ ops sched, ∃ s₁ s₃ : System ℚ 2 Unit,
    (Scheduler.lts ℚ 2).Exec (.new 2 .cacheAware Scheduler.smallConfig) ops sched ∧ ops.length = 2 ∧
      sched.PassSpec [(1, true), (0, false)] s₁.sched ∧
      s₃.inner.metrics.healthyReplicas = s₁.sched.healthyReplicas ∧
      s₃.inner.metrics.healthyReplicas = 1 := by
  obtain ⟨ops, sched, s₁, s₂, s₃, es, τ, es', hops, hlen, hprobe, hrun, hpublish, hone⟩ :
      ∃ ops sched, ∃ s₁ s₂ s₃ : System ℚ 2 Unit, ∃ es τ es',
        (Scheduler.lts ℚ 2).Exec (.new 2 .cacheAware Scheduler.smallConfig) ops sched ∧
          ops.length = 2 ∧
          (lts ℚ 2 Unit emptyPromptDeps).step (atRest Unit sched) (.probe [(1, true), (0, false)]) es
            s₁ ∧
          (lts ℚ 2 Unit emptyPromptDeps).Run (fun _ _ act => act.isPublish = false) s₁ τ s₂ ∧
          (lts ℚ 2 Unit emptyPromptDeps).step s₂ .publish es' s₃ ∧
          s₃.inner.metrics.healthyReplicas = 1 :=
    ⟨_, _, _, _, _, _, _, _,
      Lts.exec_get Scheduler.step _ [.pick [1, 2, 3], .markUnhealthy 1] (by decide +kernel),
      by decide +kernel, Lts.step_get (step emptyPromptDeps) _ _ (by decide +kernel),
      Lts.run_get (step emptyPromptDeps) _ _ [.spawnUnary emptyPrompt, .run 0 .tick]
        (by decide +kernel),
      Lts.step_get (step emptyPromptDeps) _ _ (by decide +kernel), by decide +kernel⟩
  obtain ⟨-, hspec, -, hpublished⟩ := @probe_pass ℚ 2 Unit _ _ _ _ _ _ _ _ _ hops
    [(1, true), (0, false)] (by decide)
  obtain ⟨hsched, hcount⟩ := hpublished rfl _ _ _ _ _ _ _ _ rfl hprobe hrun hpublish
  exact ⟨ops, sched, s₁, s₃, hops, hlen, hsched ▸ hspec, hcount, hone⟩

end System
