import DynamoRouter.Cluster.Executions
import DynamoRouter.Cluster.Picture
import DynamoRouter.Cluster.ReplicaSteps
import DynamoRouter.Cluster.RouterSteps

set_option relaxedAutoImplicit false
set_option autoImplicit false

/-!
# A deployment shows what a cluster shows

The replicas of a cluster serve a request in one step; those of a deployment have tasks that step one after
another. The steps that the deployment has more cannot be seen. So all that holds along the runs of a
cluster holds along the runs of a deployment, with the caches as they are, and with the counters that the
replicas have once their tasks have counted what they looked up.

## Main definitions

* `Deployment.Action.toCluster` — the step of the cluster that a step of the deployment is.
* `Deployment.seen` — what is seen of a run.

## Main results

* `Deployment.Refines.step` — one step of the deployment is not seen, or is a step of the cluster.
* `Deployment.cluster_of_run` — along every run of a deployment, a cluster takes a run of its own that
  shows the same.
* `Deployment.Refines.service` — the caches and the counters of the replicas, beside those of the cluster.
* `Deployment.refines_cluster_of_run` — both, as one statement about runs.
-/

open Protocol

namespace Deployment

variable {F : Type} {n : ℕ} {deps : ClusterDeps} {mocks : Fin n → MockConfig} {T : Fin n → ReplicaTrace}
  {O : List ((Fin n × ℕ) × ℕ × Fin n × ModelInferRequest)} {d d' : Deployment F n} {c c' : Cluster F n}

/-- The step of the cluster that a step of the deployment is, if it can be told from the action. -/
def Action.toCluster : Action n → Option (Cluster.Action n)
  | .router act => some (.router act)
  | .deliver t => some (.deliver t)
  | .fail t status => some (.fail t status)
  | .arrive _ | .arriveStray _ | .work _ _ _ => none

section Run

variable [Mul F] [Sub F] [LT F] [DecidableLT F] [ScoreArith F]

/-- **One step of a deployment** is not seen, or is a step of the cluster.

**Proof sketch.** By the effects of a step. An arrival is not seen: its request is awaited by the link that
it makes, or is still astray in the cluster. A step of a task of a replica is seen if the task takes a
request with it. The others are steps of the router, which the cluster takes as well. -/
theorem Refines.step (hR : Refines deps mocks T O d c) (hs : c.Sound deps.toDeps) {a : Action n}
    {e : Option (Cluster.Seen n)} (hstep : (lts F n deps).step d a e d') :
    (e = none ∧ ∃ T' O', Refines deps mocks T' O' d' c) ∨
      ∃ a' e' c', e = some e' ∧
        (a.toCluster = some a' ∨ (∃ t, a' = .serve t) ∨ ∃ i, a' = .serveStray i) ∧
        (Cluster.lts F n deps).step c a' e' c' ∧ ∃ T' O', Refines deps mocks T' O' d' c' := by
  cases step_inv hstep with
  | routed act es router hact hrouter =>
    obtain ⟨O', hR'⟩ := hR.routed hs hact hrouter
    refine .inr ⟨.router act, .router act es, _, rfl, .inl rfl, ?_, T, O', hR'⟩
    have hrun : c.router.step deps.toDeps act = some (es, router) := hR.router ▸ hrouter
    show Cluster.step deps c (.router act) = _
    simp only [Cluster.step, hact, Bool.false_eq_true, if_false, hrun, Option.map_some]
  | arrived t h r req hget hcallee hreq hlink =>
    refine .inl ⟨rfl, _, O, hR.arrive (fun i => ?_) (fun _ hx => hx) (fun hne => ?_) hR.strays⟩
    · by_cases hi : i = t
      · subst hi
        exact .inr ⟨rfl, hlink, Function.update_self _ _ _, hget, hcallee, hreq⟩
      · exact .inl (Function.update_of_ne hi _ _)
    · exact absurd (Function.update_self _ _ _) hne
  | arrivedStray i t r req h hstray =>
    refine .inl ⟨rfl, _, O ++ [((r, (d.replicas r).workers.length), t, r, req)],
      hR.arrive (fun _ => .inl rfl) (fun _ hx => List.mem_append_left _ hx)
        (fun _ => List.mem_append_right _ (List.mem_singleton_self _)) ?_⟩
    -- the request is astray in the cluster until the task takes it
    obtain ⟨hlt, hi⟩ := List.getElem?_eq_some_iff.mp hstray
    have hperm : ((t, r, req) :: d.strays.eraseIdx i).Perm d.strays := by
      rw [← hi]
      exact List.getElem_cons_eraseIdx_perm hlt
    have hmove : (d.strays.eraseIdx i ++ (O.map Prod.snd ++ [(t, r, req)])).Perm
        (d.strays ++ O.map Prod.snd) := by
      rw [← List.append_assoc]
      exact (List.perm_append_singleton _ _).trans (hperm.append_right _)
    rw [List.map_append, List.map_singleton]
    exact hmove.subperm.trans hR.strays
  | worked r k input e replica hmoves hwork =>
    cases Replica.step_inv hwork with
    | spawned _ _ hspawns => cases hspawns
    | ran _ _ item service w w' hget hw =>
      by_cases hitem : ∃ rq, item = some (.ok rq)
      · obtain ⟨rq, rfl⟩ := hitem
        obtain ⟨a', c', O', ha', hcluster, hR'⟩ := hR.take ⟨hget, hw, hmoves⟩
        exact .inr ⟨a', _, c', rfl, .inr ha', hcluster, _, O', hR'⟩
      · refine .inl ⟨?_, _, O, hR.work_silent ⟨hget, hw, hmoves⟩ fun rq heq => hitem ⟨rq, heq⟩⟩
        rcases item with _ | _ | rq
        · rfl
        · rfl
        · exact absurd ⟨rq, rfl⟩ hitem
  | delivered t h input wire es router hget htakes hrouter =>
    obtain ⟨c', hcluster, hR'⟩ := hR.delivered hs hget htakes hrouter
    exact .inr ⟨.deliver t, _, c', rfl, .inl rfl, hcluster, T, O, hR'⟩
  | failed t h status input es router hget hfailure hrouter =>
    obtain ⟨c', O', hcluster, hR'⟩ := hR.failed hs hget hfailure hrouter
    exact .inr ⟨.fail t status, _, c', rfl, .inl rfl, hcluster, T, O', hR'⟩

/-- What is seen of a run. -/
def seen (τ : List (Action n × Option (Cluster.Seen n))) : List (Cluster.Seen n) := τ.filterMap Prod.snd

/-- **A deployment shows what a cluster shows.** Along every run of a deployment a cluster takes a run of its
own, in which the same is seen, and which ends in a related state. A guard on the steps of the router, which
depends on the router, carries over.

**Proof sketch.** The rule of refinement (`Lts.Run.refines`), with `Refines.step` for one step. That the
network of the cluster belongs to its tasks holds along its own run (`Cluster.sound_of_run`). -/
theorem cluster_of_run {policy : Policy} {cfg : SchedulerConfig F}
    {ok : Cluster F n → Cluster.Action n → Prop}
    (hrouter : ∀ c c' a, c.router = c'.router → ok c a → ok c' a)
    (hserve : ∀ c t, ok c (.serve t)) (hstray : ∀ c i, ok c (.serveStray i))
    {τ : List (Action n × Option (Cluster.Seen n))}
    (hrun : (lts F n deps).Run (fun _ d a => ∀ a' ∈ a.toCluster, ok d.view a') (new policy cfg mocks) τ
      d) :
    ∃ τ' c, (Cluster.lts F n deps).Run (fun _ c a => ok c a) (Cluster.new policy cfg mocks) τ' c ∧
      τ'.map Prod.snd = seen τ ∧ ∃ T O, Refines deps mocks T O d c := by
  refine Lts.Run.refines (fun d c => ∃ T O, Refines deps mocks T O d c)
    ⟨_, _, refines_new deps policy cfg mocks⟩ ?_ hrun
  rintro τ d a e d' τ' c hcluster ⟨T, O, hR⟩ hok hstep
  rcases hR.step (Cluster.sound_of_run hcluster) hstep with
    ⟨rfl, hR'⟩ | ⟨a', e', c', rfl, ha', hstep', hR'⟩
  · exact .inl ⟨rfl, hR'⟩
  · refine .inr ⟨a', e', c', rfl, ?_, hstep', hR'⟩
    rcases ha' with ha' | ⟨t, rfl⟩ | ⟨i, rfl⟩
    · exact hrouter d.view c a' hR.router.symm (hok a' ha')
    · exact hserve c t
    · exact hstray c i

end Run

/-! ## What the replicas have counted -/

/-- The blocks that replica `r` has cached. -/
def cached (d : Deployment F n) (r : Fin n) : Finset UInt64 := (d.replicas r).service.cache.map.keys

/-- What `cached_blocks_total` of replica `r` still lacks. -/
def uncountedCached (d : Deployment F n) (r : Fin n) : ℕ :=
  ((d.replicas r).workers.map Replica.Worker.uncountedCached).sum

/-- What `total_blocks_total` of replica `r` still lacks. -/
def uncountedTotal (d : Deployment F n) (r : Fin n) : ℕ :=
  ((d.replicas r).workers.map Replica.Worker.uncountedTotal).sum

/-- **The caches are those of the cluster, and so are the counters, with what is not counted yet.** -/
theorem Refines.service (hR : Refines deps mocks T O d c) (r : Fin n) :
    (d.replicas r).service.cache = (c.replicas r).cache ∧
      (d.replicas r).service.metrics.cachedBlocksTotal + d.uncountedCached r =
        (c.replicas r).metrics.cachedBlocksTotal ∧
      (d.replicas r).service.metrics.totalBlocksTotal + d.uncountedTotal r =
        (c.replicas r).metrics.totalBlocksTotal := by
  have hlinear := Replica.linear_of_run (hR.exec r)
  rw [hR.replicas]
  exact ⟨hlinear.alike.cache, hlinear.cached, hlinear.total⟩

/-- Tasks that have counted what they looked up lack nothing. -/
theorem uncounted_of_settled {r : Fin n} (hsettled : ∀ w ∈ (d.replicas r).workers, w.settled = true) :
    d.uncountedCached r = 0 ∧ d.uncountedTotal r = 0 := by
  have hboth : ∀ w ∈ (d.replicas r).workers, w.uncountedCached = 0 ∧ w.uncountedTotal = 0 := by
    intro w hw
    simpa [Replica.Worker.settled] using hsettled w hw
  exact ⟨Replica.Linear.sum_eq_zero fun w hw => (hboth w hw).1,
    Replica.Linear.sum_eq_zero fun w hw => (hboth w hw).2⟩

/-- **To serve a request at once is no simplification.** For every run of the router and its replicas, one
step of a task at a time, whatever fails, is dropped or goes astray, there is a run of the cluster in which
the same is seen: the same steps of the router, with the same events, and requests served for the same tasks
by the same replicas, with the same results and in the same order. Where it ends,
* the router is in the same state, and what it can take next of an answer is what comes next in the cluster;
* each replica has the same cache, and its counters lack what its tasks have looked up and not counted;
* a replica whose tasks have counted what they looked up is the same.

**Proof sketch.** The refinement (`cluster_of_run`), without a guard. -/
theorem refines_cluster_of_run [Mul F] [Sub F] [LT F] [DecidableLT F] [ScoreArith F] {policy : Policy}
    {cfg : SchedulerConfig F} {τ : List (Action n × Option (Cluster.Seen n))}
    (hrun : (lts F n deps).Exec (new policy cfg mocks) τ d) :
    ∃ τ' c, (Cluster.lts F n deps).Exec (Cluster.new policy cfg mocks) τ' c ∧
      τ'.map Prod.snd = seen τ ∧
      c.router = d.router ∧
      (∀ t, (d.wire t).Shows (c.wires t)) ∧
      ∀ r, (d.replicas r).service.cache = (c.replicas r).cache ∧
        (d.replicas r).service.metrics.cachedBlocksTotal + d.uncountedCached r =
          (c.replicas r).metrics.cachedBlocksTotal ∧
        (d.replicas r).service.metrics.totalBlocksTotal + d.uncountedTotal r =
          (c.replicas r).metrics.totalBlocksTotal ∧
        ((∀ w ∈ (d.replicas r).workers, w.settled) → (d.replicas r).service = c.replicas r) := by
  let ok : Cluster F n → Cluster.Action n → Prop := fun _ _ => True
  have hguarded : (lts F n deps).Run (fun _ d a => ∀ a' ∈ a.toCluster, ok d.view a')
      (new policy cfg mocks) τ d := hrun.mono fun _ _ _ _ _ _ => trivial
  obtain ⟨τ', c, hcluster, hseen, T, O, hR⟩ :=
    cluster_of_run (fun _ _ _ _ _ => trivial) (fun _ _ => trivial) (fun _ _ => trivial) hguarded
  refine ⟨τ', c, hcluster.exec, hseen, hR.router, hR.wire_shows, fun r => ?_⟩
  obtain ⟨hcache, hcached, htotal⟩ := hR.service r
  refine ⟨hcache, hcached, htotal, fun hsettled => ?_⟩
  rw [hR.replicas]
  exact (Replica.linear_of_run (hR.exec r)).service_eq hsettled

/-- Which replicas executed the requests of a task can be told from what is seen. -/
theorem executions_eq {τ : List (Action n × Option (Cluster.Seen n))}
    {τ' : List (Cluster.Action n × Cluster.Seen n)} (hseen : τ'.map Prod.snd = seen τ) (t : ℕ) :
    Cluster.executions τ' t = (seen τ).filterMap (Cluster.Seen.servedFor t) := by
  rw [← hseen, List.filterMap_map]
  rfl

/-- The steps of a call and a stream. The stream is at replica `r'`. The call fails at replica `r`, before
this one has taken its request; it is retried at `r'`, where it is served; and then `r` takes the request
after all. -/
def overlapping (r r' : Fin n) : List (Action n) :=
  List.flatten
    [[.router (.spawnUnary (Cluster.promptOf "aaaaaaaaaaaaaaaabbbbbbbbbbbbbbbb")), .router .spawnStream],
      List.replicate 3 (.router (.run 0 .tick)), [.arrive 0, .work r 0 .tick],
      [.router (.run 1 (.recv (some (.ok (Cluster.promptOf "aaaaaaaaaaaaaaaacccccccccccccccc")))))],
      List.replicate 6 (.router (.run 1 .tick)), [.deliver 1, .arrive 1],
      List.replicate 7 (.work r' 0 .tick), [.fail 0 (.unavailable "reset")],
      List.replicate 5 (.router (.run 0 .tick)), [.arrive 0], List.replicate 5 (.work r' 1 .tick),
      [.deliver 0, .deliver 1, .work r 0 .tick]]

/-- Two blocks are not counted, and one chunk is on its way. -/
theorem refines_cluster_of_run_overlapping : ∃ τ d τ' c,
    (lts ℚ 2 Cluster.charNet).Exec (new .cacheAware .default fun _ => .default) τ d ∧
      (d.uncountedTotal 0, d.uncountedTotal 1) = (2, 0) ∧
      (Cluster.lts ℚ 2 Cluster.charNet).Exec (Cluster.new .cacheAware .default fun _ => .default) τ' c ∧
      (Cluster.executions τ' 0, Cluster.executions τ' 1) = ([1, 0], [1]) ∧
      τ'.map Prod.snd = seen τ ∧
      (d.wire 1).Shows (c.wires 1) ∧
      (d.replicas 0).service.metrics.totalBlocksTotal + d.uncountedTotal 0 =
        (c.replicas 0).metrics.totalBlocksTotal ∧
      (d.replicas 1).service = c.replicas 1 := by
  have hrun := Lts.exec_get (step Cluster.charNet)
    (new (F := ℚ) (n := 2) .cacheAware .default fun _ => .default) (overlapping 0 1) (by decide +kernel)
  obtain ⟨τ', c, hcluster, hseen, -, hshows, hservice⟩ := refines_cluster_of_run hrun
  obtain ⟨-, -, htotal, -⟩ := hservice 0
  obtain ⟨-, -, -, hsettled⟩ := hservice 1
  refine ⟨_, _, τ', c, hrun, by decide +kernel, hcluster, ?_, hseen, hshows 1, htotal,
    hsettled (by decide +kernel)⟩
  rw [executions_eq hseen, executions_eq hseen]
  decide +kernel

end Deployment
