import DynamoRouter.Cluster.HitRate
import DynamoRouter.Cluster.Load
import DynamoRouter.Cluster.Refinement
import DynamoRouter.Router.Decision

set_option relaxedAutoImplicit false
set_option autoImplicit false

/-!
# Blocks that are computed once

What is the routing by prefixes good for? If all blocks fit, no replica is taken out of routing, and the
load always yields to the match, then no block is ever cached by two replicas: a chain whose first block
some replica has goes to that replica. So the replicas together compute each block once; no routing can do
better.

Where the load does not yield, because the replica that has the blocks is at its cap, or too far ahead of
the others, or has fewer of them than a match takes, or because no score exceeds the constant from which
the scan starts, a chain may go to a second replica, which computes it again.

## Main definitions

* `Scheduler.Yields` — the replica that matches a chain wins the scoring.
* `Cluster.Yielding` — so it is at every pick.
* `Benchmark.Steady` — and nothing breaks.

## Main results

* `Deployment.computed_once_of_run` — the replicas' caches are disjoint, and count each block as a miss once.
* `Benchmark.reports_once_of_run` — and a benchmark reports it.
-/

open Protocol Loadgen

/-! ## At least once -/

namespace MockTritonService

/-- What a replica has cached, it has counted as not cached. -/
structure Charged (s : MockTritonService) : Prop where
  /-- The cache keeps the invariant of a cache. -/
  wf : s.cache.Wf
  /-- The counters. -/
  le : s.cache.map.keys.card + s.metrics.cachedBlocksTotal ≤ s.metrics.totalBlocksTotal

/-- A request leaves it so: what it adds to the cache, it did not find there. -/
theorem Charged.prefill {s : MockTritonService} (h : s.Charged)
    (encode : String → Except String (List UInt32)) (req : ModelInferRequest) :
    (s.prefill encode req).2.Charged := by
  obtain ⟨herror, hok⟩ := prefill_eq encode s req
  rcases hprompt : MockTriton.promptHashes encode req with status | hashes
  · rw [herror status hprompt]
    exact h
  · obtain ⟨p, heq, -, -⟩ := hok hashes hprompt
    rw [heq]
    have hwf := h.wf.tick KvCacheSim.compactFloor hashes
    have hkeys : (s.cache.lookupInsert hashes).2.map.keys ⊆ s.cache.map.keys ∪ hashes.toFinset :=
      ((hwf.evictsTo s.cache.capacity).subset).trans_eq (LazyLru.keys_tick _ _ _)
    have hcard := Finset.card_le_card hkeys
    have hnew := card_union_add_leadingIn_le s.cache.map.keys hashes
    have hle := h.le
    refine ⟨hwf.evictTo s.cache.capacity, ?_⟩
    simp only [served, KvCacheSim.lookupInsert_fst, LazyLru.leading_eq_leadingIn]
    omega

end MockTritonService

namespace Cluster

/-- **No routing computes less.** In every run of a router and its replicas, whatever the policy is, what
fails and what is evicted: the blocks that the replicas did not find cached are at least as many as there
are different blocks in their caches.

**Proof sketch.** A block that a request adds to a cache is one that it did not find there
(`MockTritonService.Charged.prefill`). -/
theorem computed_le_of_run {F : Type} {n : ℕ} [Mul F] [Sub F] [LT F] [DecidableLT F] [ScoreArith F]
    {deps : ClusterDeps} {policy : Policy} {cfg : SchedulerConfig F} {mocks : Fin n → MockConfig}
    {τ : List (Action n × Seen n)} {s : Cluster F n}
    (h : (lts F n deps).Exec (new policy cfg mocks) τ s) :
    ∑ r, (s.replicas r).metrics.cachedBlocksTotal + (Finset.univ.biUnion s.cached).card ≤
      ∑ r, (s.replicas r).metrics.totalBlocksTotal := by
  have hcharged : ∀ r, (s.replicas r).Charged := by
    induction h with
    | nil => exact fun r => ⟨LazyLru.wf_empty, le_rfl⟩
    | @snoc τ s s' a e hrun _ hstep ih =>
      have hserved : ∀ r req i, (Function.update s.replicas r ((s.replicas r).prefill deps.encode req).2
          i).Charged := fun r req i => by
        by_cases hi : i = r
        · subst hi
          rw [Function.update_self]
          exact (ih i).prefill deps.encode req
        · rw [Function.update_of_ne hi]
          exact ih i
      intro r
      cases flow_of_step (sound_of_run hrun) hstep with
      | picked _ _ _ _ _ _ _ _ _ hreplicas => exact hreplicas ▸ ih r
      | served _ i req _ _ _ _ hreplicas => exact hreplicas ▸ hserved i req r
      | servedStray _ _ i req _ _ _ _ hreplicas => exact hreplicas ▸ hserved i req r
      | lost _ _ _ _ _ _ _ _ hreplicas => exact hreplicas ▸ ih r
      | quiet _ _ _ _ _ _ hreplicas => exact hreplicas ▸ ih r
  calc ∑ r, (s.replicas r).metrics.cachedBlocksTotal + (Finset.univ.biUnion s.cached).card
      ≤ ∑ r, (s.replicas r).metrics.cachedBlocksTotal + ∑ r, (s.cached r).card :=
        Nat.add_le_add_left Finset.card_biUnion_le _
    _ = ∑ r, ((s.replicas r).metrics.cachedBlocksTotal + (s.cached r).card) :=
        Finset.sum_add_distrib.symm
    _ ≤ ∑ r, (s.replicas r).metrics.totalBlocksTotal := Finset.sum_le_sum fun r _ => by
        have := (hcharged r).le
        rw [Cluster.cached]
        omega

end Cluster

/-! ## The pick of a replica that matches -/

namespace Scheduler

variable {n : ℕ} {s s' : Scheduler ℚ n} {hashes : List UInt64} {d : RouteDecision n}

/-- **The load yields to the match**: a replica that has blocks of the chain has as many as a match takes,
and is available, and scores more than any other one that is, and more than the constant from which the
scan starts. -/
def Yields (s : Scheduler ℚ n) (hashes : List UInt64) : Prop :=
  ∀ r, 0 < (s.replicas r).cache.lookup hashes →
    s.cfg.minMatchBlocks ≤ (s.replicas r).cache.lookup hashes ∧ s.availMask r = true ∧
      ScoreArith.f64Min < s.score hashes r ∧
      ∀ j, s.availMask j = true → j ≠ r → s.score hashes j < s.score hashes r

/-- Whether the load yields can be decided. -/
instance (s : Scheduler ℚ n) (hashes : List UInt64) : Decidable (s.Yields hashes) :=
  inferInstanceAs (Decidable (∀ r, 0 < (s.replicas r).cache.lookup hashes →
    s.cfg.minMatchBlocks ≤ (s.replicas r).cache.lookup hashes ∧ s.availMask r = true ∧
      ScoreArith.f64Min < s.score hashes r ∧
      ∀ j, s.availMask j = true → j ≠ r → s.score hashes j < s.score hashes r))

/-- Where the load yields, a chain goes to the replica that matches it, if there is one. -/
theorem Yields.lookup_pos (h : s.Yields hashes) (hp : s.policy = .cacheAware)
    (hpick : s.pick hashes = some (.ok d, s')) {r : Fin n}
    (hr : 0 < (s.replicas r).cache.lookup hashes) :
    0 < (s.replicas d.replica).cache.lookup hashes := by
  obtain ⟨hmin, havail, hseen, hlt⟩ := h r hr
  have hwinner : s.Winner hashes r := by
    refine ⟨havail, fun j hj => ?_, fun j hj hjr => hlt j hj hjr.ne⟩
    by_cases hjr : j = r
    · rw [hjr]
    · exact (hlt j hj hjr).le
  have harm := (pick_cacheAware_inv hp hpick).1
  rw [routeCacheAware_of_winner hwinner hseen, if_neg hmin.not_gt] at harm
  obtain ⟨hreplica, -⟩ := Prod.mk.inj (Option.some_inj.mp harm)
  rwa [← hreplica]

end Scheduler

namespace Handler

variable {F : Type} {n : ℕ} {Resp : Type}

/-- The chain that the next step of a handler picks a replica for. -/
def picksFor : Handler n Resp → Option (List UInt64)
  | .unary (.picking hashes _) => some hashes
  | .unary _ => none
  | .stream s =>
    match s.pc with
    | .picking hashes => some hashes
    | _ => none

/-- The chain that a handler picks a replica for, is its chain. -/
theorem chain_of_picksFor {h : Handler n Resp} {hashes : List UInt64} (hpicks : h.picksFor = some hashes) :
    h.chain = some hashes := by
  cases h with
  | unary pc =>
    cases pc with
    | picking => exact hpicks
    | _ => cases hpicks
  | stream s =>
    obtain ⟨pc, out, rxOpen⟩ := s
    cases pc with
    | picking => exact hpicks
    | _ => cases hpicks

/-- A step that picks a replica. -/
theorem picksFor_of_step [Mul F] [Sub F] [LT F] [DecidableLT F] [ScoreArith F] {deps : Deps}
    {inner inner' : RouterInner F n} {t t' blocks : ℕ} {d : RouteDecision n} {h h' : Handler n Resp}
    {input : Input Resp} {es : List (Event n)}
    (hstep : h.step deps inner t input = some (es, inner', h')) (hes : .picked t' blocks d ∈ es) :
    ∃ hashes, h.picksFor = some hashes ∧
      inner.scheduler.pick hashes = some (.ok d, inner'.scheduler) := by
  rcases step_inv hstep with ⟨pc, pc', rfl, rfl, hpc⟩ | ⟨s, s', rfl, rfl, hs⟩
  · cases UnaryPc.step_inv hpc with
    | picked hashes att d' sched hpick =>
      obtain ⟨-, -, rfl⟩ : t' = t ∧ blocks = hashes.length ∧ d = d' := by simpa using hes
      exact ⟨hashes, rfl, hpick⟩
    | _ => simp at hes
  · have heff := StreamTask.step_inv hs
    obtain ⟨pc, out, rxOpen⟩ := s
    cases heff with
    | picked hashes d' sched hpick =>
      obtain ⟨-, -, rfl⟩ : t' = t ∧ blocks = hashes.length ∧ d = d' := by simpa using hes
      exact ⟨hashes, rfl, hpick⟩
    | _ => simp at hes

end Handler

namespace Cluster

variable {n : ℕ}

/-- The task of the router that takes its own next step. -/
def Action.ticked : Action n → Option ℕ
  | .router act => act.ticked
  | _ => none

/-- The load yields to the match at a pick. -/
def Yielding (s : Cluster ℚ n) (a : Action n) : Prop :=
  ∀ t ∈ a.ticked, ∀ hashes ∈ (s.handler t).bind Handler.picksFor, s.router.sched.Yields hashes

/-- Whether it does can be decided. -/
instance (s : Cluster ℚ n) (a : Action n) : Decidable (Yielding s a) :=
  inferInstanceAs (Decidable (∀ t ∈ a.ticked, ∀ hashes ∈ (s.handler t).bind Handler.picksFor, _))

variable {deps : ClusterDeps} {B : Finset UInt64} {C : Set (List UInt64)} {cfg : SchedulerConfig ℚ}
  {mocks : Fin n → MockConfig} {τ : List (Action n × Seen n)} {s s' : Cluster ℚ n} {a : Action n}
  {e : Seen n} {Q Q' : Queues n} {G V : Fin n → List (List UInt64)}

/-- Whether it yields depends on the router. -/
theorem Yielding.congr {c c' : Cluster ℚ n} (heq : c.router = c'.router) (h : c.Yielding a) :
    c'.Yielding a := by
  unfold Yielding at h ⊢
  simpa only [handler, heq] using h

/-- A step that picks a replica.

**Proof sketch.** The step of the router is a tick of its task, so that the load yields to the match of
the chain that the handler picks for; and that is the chain of the request that the task is at. -/
theorem pick_of_step {t blocks : ℕ} {d : RouteDecision n} (hsound : s.Sound deps.toDeps)
    (hyields : Yielding s a)
    (hstep : (lts ℚ n deps).step s a (.router (.run t .tick) [.picked t blocks d]) s') :
    ∃ req hashes, s.requests t = some req ∧ RouterInner.promptHashes deps.toDeps req = .ok hashes ∧
      s.router.sched.Yields hashes ∧
      s.router.sched.pick hashes = some (.ok d, s'.router.sched) := by
  have hrouter := router_step hstep rfl
  have hticked : t ∈ a.ticked := by
    generalize he : (Seen.router (Act.run t .tick) [Event.picked t blocks d] : Seen n) = e at hstep
    cases step_inv hstep with
    | routed act es => cases he; rfl
    | served | servedStray => cases he
    | delivered i hd input wire es router hi htakes =>
      cases he
      have htaken := Handler.taken_of_takes htakes
      generalize s.wires t = w at htaken
      cases htaken
    | failed i hd status input es router hi hfailure =>
      cases he
      cases (Handler.failure_inv hfailure).1
  generalize s'.router = router at hrouter
  cases System.step_inv hrouter with
  | ran _ _ _ inner h h' hget hrun =>
    obtain ⟨hashes, hpicks, hpick⟩ := Handler.picksFor_of_step hrun (List.mem_singleton_self _)
    obtain ⟨req, hreq, hprompt⟩ := (hsound.task t h hget).chain hashes (Handler.chain_of_picksFor hpicks)
    exact ⟨req, hashes, hreq, hprompt,
      hyields t hticked hashes (Option.bind_eq_some_iff.mpr ⟨h, hget, hpicks⟩), hpick⟩

/-- The router believes that a replica has what was picked for it, if it was never taken out of routing. -/
theorem picture_eq (hpictured : Pictured B mocks τ s Q) (haccount : Account C cfg τ s Q G V) {r : Fin n}
    (hmarked : NeverMarked τ r) : s.picture r = (G r).flatten.toFinset := by
  rw [← haccount.union_eq r]
  exact (hpictured.picture r).antisymm (hpictured.complete r hmarked)

/-- **The pictures stay disjoint** at a pick where the load yields.

**Proof sketch.** The chain goes to a replica that matches it, if some replica does
(`Scheduler.Yields.lookup_pos`), that is to its owner (`disjoint_update_union`). -/
theorem disjoint_of_pick {hashes : List UInt64} {d : RouteDecision n} (hC : CollisionFree C)
    (hroom : Roomy B cfg mocks)
    (hs : s.Orderly deps.toDeps (Sharing deps.toDeps B C) .cacheAware cfg)
    (hpictured : Pictured B mocks τ s Q) (haccount : Account C cfg τ s Q G V)
    (hdisjoint : ∀ r r', r ≠ r' → Disjoint (s.picture r) (s.picture r'))
    (hmarked : ∀ r, NeverMarked τ r) (hyields : s.router.sched.Yields hashes) (hchain : hashes ∈ C)
    (hsub : hashes.toFinset ⊆ B)
    (hpick : s.router.sched.pick hashes = some (.ok d, s'.router.sched)) :
    ∀ r r', r ≠ r' → Disjoint (s'.picture r) (s'.picture r') := by
  have hpicture := picture_of_pick hs.policy (hs.cfg ▸ hroom.budget) hpick hsub
    ((hpictured.picture _).trans (Finset.union_subset (hpictured.cached _) (hpictured.queued _)))
  have hlookup : ∀ r, (s.router.sched.replicas r).cache.lookup hashes = leadingIn (s.picture r) hashes :=
    fun r => LazyLru.leading_eq_leadingIn _ _
  rw [hpicture]
  refine disjoint_update_union hdisjoint (fun r => ?_) hchain fun r hr => ?_
  · rw [picture_eq hpictured haccount (hmarked r)]
    exact prefixClosed_flatten hC (haccount.chain r)
  · rw [← hlookup] at hr ⊢
    exact hyields.lookup_pos hs.policy hpick hr

/-- The pictures are disjoint along every calm run in which the load yields.

**Proof sketch.** By induction on the run. A step of a calm run picks a replica, serves a request, or
leaves the pictures alone. A pick is `disjoint_of_pick`; the other steps do not change what the router
believes, as no replica is taken out of routing. -/
theorem disjoint_of_run (hC : CollisionFree C) (hroom : Roomy B cfg mocks)
    (hrun : (lts ℚ n deps).Run (fun _ s a => Calm (Sharing deps.toDeps B C) a ∧ Yielding s a)
      (new .cacheAware cfg mocks) τ s) :
    (∀ r, NeverMarked τ r) → ∀ r r', r ≠ r' → Disjoint (s.picture r) (s.picture r') := by
  induction hrun with
  | nil => exact fun _ _ _ _ => Finset.disjoint_empty_left _
  | @snoc τ s s' a e hrun ha hs ih =>
    intro hmarked
    have hold : ∀ r, NeverMarked τ r := fun r => (hmarked r).of_concat.1
    have hcalm : (lts ℚ n deps).Run (fun _ _ a => Calm (Sharing deps.toDeps B C) a)
        (new .cacheAware cfg mocks) τ s := hrun.mono fun _ _ _ h => h.1
    obtain ⟨Q, G, V, hQ, hpictured, haccount⟩ := account_of_run hroom hcalm
    have horderly := orderly_of_run (fun _ _ _ h => h) hcalm
    have horderly' := orderly_of_run (fun _ _ _ h => h) (hcalm.snoc ha.1 hs)
    obtain ⟨Q', -, hstep⟩ := calmStep_of_step (fun _ hreq => hreq.within.same) horderly horderly' hQ
      ha.1.1 (flow_of_step horderly.sound hs)
    cases hstep with
    | picked t hashes d =>
      obtain ⟨req, hashes', hreq, hprompt, hyields, hpick⟩ := pick_of_step horderly.sound ha.2 hs
      have hsharing := horderly.requests t req hreq
      exact disjoint_of_pick hC hroom horderly hpictured haccount (ih hold) hold hyields
        (hsharing.chain hashes' hprompt) (hsharing.within.subset hashes' hprompt) hpick
    | served t r hashes req p _ _ _ _ _ _ hrouter =>
      have hpicture : s'.picture = s.picture := by
        funext i
        rw [picture, hrouter, picture]
      rw [hpicture]
      exact ih hold
    | quiet act es _ _ hcaches =>
      have hpicture : s'.picture = s.picture := by
        funext i
        rw [picture, (hcaches i).resolve_right fun h => (hmarked i).of_concat.2 act es rfl h.1, picture]
      rw [hpicture]
      exact ih hold

/-- **What the replicas do not find cached, they cache.** -/
theorem Account.total_eq (h : Account C cfg τ s Q G V) (hC : CollisionFree C) (r : Fin n) :
    (s.replicas r).metrics.totalBlocksTotal =
      (s.replicas r).metrics.cachedBlocksTotal + (s.cached r).card := by
  have hmem : ∀ l ∈ V r, l ∈ C := fun l hl =>
    h.chain r l ((h.perm r).mem_iff.mp (List.mem_append_left _ hl))
  have hhits := hits_add_card hC (prefixClosed_empty C) hmem
  rw [Finset.empty_union, Finset.card_empty, Nat.zero_add] at hhits
  rw [h.total, h.found, h.cached, hhits]

/-- **The caches stay disjoint**, as a replica has no more than the router believes. -/
theorem disjoint_cached_of_run (hC : CollisionFree C) (hroom : Roomy B cfg mocks)
    (hrun : (lts ℚ n deps).Run (fun _ s a => Calm (Sharing deps.toDeps B C) a ∧ Yielding s a)
      (new .cacheAware cfg mocks) τ s) (hmarked : ∀ r, NeverMarked τ r) :
    ∀ r r', r ≠ r' → Disjoint (s.cached r) (s.cached r') := fun r r' hr => by
  obtain ⟨Q, G, V, -, hpictured, -⟩ := account_of_run hroom (hrun.mono fun _ _ _ h => h.1)
  have hsub : ∀ r, s.cached r ⊆ s.picture r := fun r =>
    Finset.subset_union_left.trans (hpictured.complete r (hmarked r))
  exact (disjoint_of_run hC hroom hrun hmarked r r' hr).mono (hsub r) (hsub r')

/-- Replicas with disjoint caches count each block as a miss once. -/
theorem sum_total_eq (hC : CollisionFree C) (hroom : Roomy B cfg mocks)
    (hrun : (lts ℚ n deps).Run (fun _ _ a => Calm (Sharing deps.toDeps B C) a)
      (new .cacheAware cfg mocks) τ s)
    (hdisjoint : ∀ r r', r ≠ r' → Disjoint (s.cached r) (s.cached r')) :
    ∑ r, (s.replicas r).metrics.totalBlocksTotal =
      ∑ r, (s.replicas r).metrics.cachedBlocksTotal + (Finset.univ.biUnion s.cached).card := by
  obtain ⟨Q, G, V, -, -, haccount⟩ := account_of_run hroom hrun
  rw [Finset.card_biUnion fun r _ r' _ hr => hdisjoint r r' hr, ← Finset.sum_add_distrib]
  exact Finset.sum_congr rfl fun r _ => haccount.total_eq hC r

end Cluster

/-! ## Each block once -/

namespace Deployment

variable {n : ℕ} {deps : ClusterDeps} {B : Finset UInt64} {C : Set (List UInt64)} {cfg : SchedulerConfig ℚ}
  {mocks : Fin n → MockConfig} {τ : List (Action n × Option (Cluster.Seen n))} {d : Deployment ℚ n}

/-- The guard of a run in which no task of the router gives up its call, a request that arrives has the
property `P`, and the load yields to the match at every pick. -/
def Yielding (P : ModelInferRequest → Prop) (d : Deployment ℚ n) (a : Action n) : Prop :=
  ∀ a' ∈ a.toCluster, Cluster.Calm P a' ∧ Cluster.Yielding d.view a'

/-- Whether a step meets it can be decided. -/
instance (P : ModelInferRequest → Prop) [DecidablePred P] (d : Deployment ℚ n) (a : Action n) :
    Decidable (d.Yielding P a) :=
  inferInstanceAs (Decidable (∀ a' ∈ a.toCluster, Cluster.Calm P a' ∧ Cluster.Yielding d.view a'))

/-- Replica `r` has not been taken out of routing. -/
def NeverMarked (τ : List (Action n × Option (Cluster.Seen n))) (r : Fin n) : Prop :=
  ∀ x ∈ (seen τ).filterMap Cluster.Seen.routed, .unhealthy r ∉ x.2

/-- Nor has it in a run of a cluster in which the same is seen. -/
theorem NeverMarked.of_seen {r : Fin n} (h : NeverMarked τ r)
    {τ' : List (Cluster.Action n × Cluster.Seen n)} (hseen : τ'.map Prod.snd = seen τ) :
    Cluster.NeverMarked τ' r := by
  have htrace : Cluster.routerTrace τ' = (seen τ).filterMap Cluster.Seen.routed := by
    rw [← hseen, List.filterMap_map]
    rfl
  rw [Cluster.NeverMarked, htrace]
  exact h

/-- **Each block is computed once.** In every run of the router and its replicas, one step of a task at a
time, in which no call is given up, all blocks fit, prompts are hashed without collisions, no replica is
taken out of routing, and the load yields to the match at every pick, at every point: no block is cached by
two replicas, and the blocks that the replicas did not find cached are as many as there are blocks in their
caches, each counted once, if what tasks have looked up and not counted is added. However many requests
there are at a time.

**Proof sketch.** The cluster that shows the same (`cluster_of_run`) has the same caches, which are disjoint
(`Cluster.disjoint_cached_of_run`), and has counted what the replicas have counted or will count
(`Refines.service`); and it counts as many misses as there are blocks (`Cluster.sum_total_eq`). -/
theorem computed_once_of_run (hC : CollisionFree C) (hroom : Cluster.Roomy B cfg mocks)
    (hrun : (lts ℚ n deps).Run (fun _ d a => d.Yielding (Cluster.Sharing deps.toDeps B C) a)
      (new .cacheAware cfg mocks) τ d) (hmarked : ∀ r, NeverMarked τ r) :
    (∀ r r', r ≠ r' → Disjoint (d.cached r) (d.cached r')) ∧
    ∑ r, ((d.replicas r).service.metrics.totalBlocksTotal + d.uncountedTotal r) =
      ∑ r, ((d.replicas r).service.metrics.cachedBlocksTotal + d.uncountedCached r) +
        (Finset.univ.biUnion d.cached).card ∧
    ((∀ r, ∀ w ∈ (d.replicas r).workers, w.settled) →
      ∑ r, (d.replicas r).service.metrics.totalBlocksTotal =
        ∑ r, (d.replicas r).service.metrics.cachedBlocksTotal + (Finset.univ.biUnion d.cached).card) := by
  have hrouter : ∀ (c c' : Cluster ℚ n) (a : Cluster.Action n), c.router = c'.router →
      (Cluster.Calm (Cluster.Sharing deps.toDeps B C) a ∧ Cluster.Yielding c a) →
        Cluster.Calm (Cluster.Sharing deps.toDeps B C) a ∧ Cluster.Yielding c' a :=
    fun _ _ _ heq => And.imp_right (Cluster.Yielding.congr heq)
  obtain ⟨τ', c, hcluster, hseen, T, O, hR⟩ := cluster_of_run hrouter
    (fun c t => ⟨⟨rfl, fun _ h => by cases h⟩, fun _ ht => by cases ht⟩)
    (fun c i => ⟨⟨rfl, fun _ h => by cases h⟩, fun _ ht => by cases ht⟩) hrun
  have hmarked' : ∀ r, Cluster.NeverMarked τ' r := fun r => (hmarked r).of_seen hseen
  have hcached : d.cached = c.cached := by
    funext r
    rw [cached, Cluster.cached, (hR.service r).1]
  have hdisjoint := Cluster.disjoint_cached_of_run hC hroom hcluster hmarked'
  have hsum := Cluster.sum_total_eq hC hroom (hcluster.mono fun _ _ _ h => h.1) hdisjoint
  have hall : ∑ r, ((d.replicas r).service.metrics.totalBlocksTotal + d.uncountedTotal r) =
      ∑ r, ((d.replicas r).service.metrics.cachedBlocksTotal + d.uncountedCached r) +
        (Finset.univ.biUnion d.cached).card := by
    simp only [(hR.service _).2.1, (hR.service _).2.2, hcached, hsum]
  refine ⟨hcached ▸ hdisjoint, hall, fun hsettled => ?_⟩
  simpa only [(uncounted_of_settled (hsettled _)).1, (uncounted_of_settled (hsettled _)).2, Nat.add_zero]
    using hall

/-- Three prompts of three blocks, one block, and three blocks, of which the first and the last one share
two. -/
def threePrompts : List ModelInferRequest :=
  [Cluster.promptOf "aaaaaaaaaaaaaaaabbbbbbbbbbbbbbbbcccccccccccccccc", Cluster.promptOf "eeeeeeeeeeeeeeee",
    Cluster.promptOf "aaaaaaaaaaaaaaaabbbbbbbbbbbbbbbbdddddddddddddddd"]

/-- Their chains. -/
def threeChains : List (List UInt64) :=
  threePrompts.map fun req => (RouterInner.promptHashes charDeps req).toOption.getD []

/-- The steps of three calls that are all under way before the first of them reaches its replica. The last
one arrives first, and takes the mutex second. The second one is at replica `r'`, the others are at `r`. -/
def threeCalls (r r' : Fin n) : List (Action n) :=
  List.flatten
    [threePrompts.map fun req => .router (.spawnUnary req), List.replicate 3 (.router (.run 0 .tick)),
      List.replicate 3 (.router (.run 1 .tick)), List.replicate 3 (.router (.run 2 .tick)),
      [.arrive 2, .arrive 0, .arrive 1], List.replicate 4 (.work r' 0 .tick),
      [.work r 0 .tick, .work r 1 .tick, .work r 1 .tick, .work r 0 .tick, .work r 0 .tick]]

/-- The steps in which replica `r` counts what it has looked up for them. -/
def threeCounts (r : Fin n) : List (Action n) := [.work r 0 .tick, .work r 1 .tick, .work r 1 .tick]

/-- The guard of these calls. -/
def threeGuard (d : Deployment ℚ 2) (a : Action 2) : Prop :=
  d.Yielding (Cluster.Sharing charDeps threeChains.flatten.toFinset {l | l ∈ threeChains}) a

/-- The guard can be decided. -/
instance (d : Deployment ℚ 2) (a : Action 2) : Decidable (threeGuard d a) :=
  inferInstanceAs (Decidable (d.Yielding _ a))

/-- What these calls reach. -/
def threeRun (as : List (Action 2)) : Option (List (Action 2 × Option (Cluster.Seen 2)) × Deployment ℚ 2) :=
  Lts.run? (step Cluster.charNet) (fun _ d a => threeGuard d a)
    ([], new .cacheAware .default fun _ => .default) as

/-- The third prompt goes to the replica of the first one, though it is not the idle one. Five of the seven
blocks are computed; before the two tasks of this replica have counted them, it lacks six blocks. -/
theorem computed_once_of_run_three : ∃ τ d τ' d',
    (lts ℚ 2 Cluster.charNet).Run (fun _ d a => threeGuard d a) (new .cacheAware .default fun _ => .default)
        τ d ∧
      ((d.uncountedCached 0, d.uncountedTotal 0) = (0, 6) ∧ (Finset.univ.biUnion d.cached).card = 5) ∧
      Disjoint (d.cached 0) (d.cached 1) ∧
      ∑ r, ((d.replicas r).service.metrics.totalBlocksTotal + d.uncountedTotal r) =
        ∑ r, ((d.replicas r).service.metrics.cachedBlocksTotal + d.uncountedCached r) +
          (Finset.univ.biUnion d.cached).card ∧
    (lts ℚ 2 Cluster.charNet).Run (fun _ d a => threeGuard d a) (new .cacheAware .default fun _ => .default)
        τ' d' ∧
      ∑ r, (d'.replicas r).service.metrics.totalBlocksTotal =
        ∑ r, (d'.replicas r).service.metrics.cachedBlocksTotal + (Finset.univ.biUnion d'.cached).card := by
  have hC : CollisionFree {l | l ∈ threeChains} := by decide +kernel
  have hroom : Cluster.Roomy (n := 2) threeChains.flatten.toFinset (.default : SchedulerConfig ℚ)
      fun _ => .default := ⟨by decide +kernel, fun _ => by decide +kernel⟩
  have hfacts : ∃ x ∈ threeRun (threeCalls 0 1), (∀ r, NeverMarked x.1 r) ∧
      (x.2.uncountedCached 0, x.2.uncountedTotal 0) = (0, 6) ∧
        (Finset.univ.biUnion x.2.cached).card = 5 := by
    unfold NeverMarked
    decide +kernel
  have hfacts' : ∃ x ∈ threeRun (threeCalls 0 1 ++ threeCounts 0), (∀ r, NeverMarked x.1 r) ∧
      ∀ r, ∀ w ∈ (x.2.replicas r).workers, w.settled := by
    unfold NeverMarked
    decide +kernel
  obtain ⟨⟨τ, d⟩, hget, hmarked, hd⟩ := hfacts
  obtain ⟨⟨τ', d'⟩, hget', hmarked', hsettled⟩ := hfacts'
  have hrun := Lts.run_of_run? .nil hget
  have hrun' := Lts.run_of_run? .nil hget'
  obtain ⟨hdisjoint, hall, -⟩ := computed_once_of_run hC hroom hrun hmarked
  obtain ⟨-, -, hrest⟩ := computed_once_of_run hC hroom hrun' hmarked'
  exact ⟨τ, d, τ', d', hrun, hd, hdisjoint 0 1 (by decide), hall, hrun', hrest hsettled⟩

end Deployment

/-! ## The benchmark -/

namespace Benchmark

variable {n : ℕ} {deps : ClusterDeps} {concurrency : ℕ} {convs : List Conversation} {B : Finset UInt64}
  {C : Set (List UInt64)} {cfg : SchedulerConfig ℚ} {mocks : Fin n → MockConfig}
  {τ : List (Action n × Seen n)} {b : Benchmark ℚ n}

/-- Nothing breaks, and the load yields to the match at a pick. -/
def Steady (b : Benchmark ℚ n) : Action n → Prop
  | .cluster a => a.loses = false ∧ Cluster.Yielding b.cluster a
  | .lose _ _ => False
  | _ => True

/-- Whether a step is of this kind can be decided. -/
instance (b : Benchmark ℚ n) (a : Action n) : Decidable (b.Steady a) :=
  match a with
  | .cluster a => inferInstanceAs (Decidable (a.loses = false ∧ Cluster.Yielding b.cluster a))
  | .lose _ _ => inferInstanceAs (Decidable False)
  | .gen _ => inferInstanceAs (Decidable True)
  | .respond _ => inferInstanceAs (Decidable True)

/-- Then nothing breaks. -/
theorem Steady.unbroken {a : Action n} (h : b.Steady a) : a.Unbroken := by
  cases a with
  | cluster => exact h.1
  | lose => exact h
  | gen | respond => trivial

/-- The cluster's part of a run in which the load yields. -/
theorem yielding_of_run {P : ModelInferRequest → Prop}
    (hP : ∀ conv ∈ convs, ∀ text ∈ conv.turns, P (inferRequest text))
    (h : (lts ℚ n deps).Run (fun _ b a => b.Steady a) (new concurrency convs .cacheAware cfg mocks) τ b) :
    (Cluster.lts ℚ n deps).Run (fun _ s a => Cluster.Calm P a ∧ Cluster.Yielding s a)
      (.new .cacheAware cfg mocks) (clusterTrace τ) b.cluster :=
  cluster_of_run
    (fun _ _ _ _ hok hclient => ⟨⟨hok.1, fun req hreq => by
      rw [Cluster.Action.brings_eq_none hclient] at hreq
      cases hreq⟩, hok.2⟩)
    (fun _ _ conv hconv text htext => ⟨⟨rfl, fun req hreq => by
      obtain rfl := Option.some_inj.mp hreq
      exact hP conv hconv text htext⟩, fun _ ht => by cases ht⟩) h

/-- **The report of a benchmark that computes each block once.** In every run of a benchmark in which
nothing breaks, all blocks fit, prompts are hashed without collisions, no replica is taken out of routing,
and the load yields to the match at every pick: when the replay is over, the blocks that the load generator
prints as not cached are, within 64 bits, as many as there are different blocks in the caches, however many
conversations there are at a time.

**Proof sketch.** The load generator was answered what the replicas counted (`reported_eq_counted`), which
is each block as a miss once (`Cluster.sum_total_eq`). -/
theorem reports_once_of_run (hC : CollisionFree C) (hroom : Cluster.Roomy B cfg mocks)
    (hsharing : ∀ conv ∈ convs, ∀ text ∈ conv.turns,
      Cluster.Sharing deps.toDeps B C (inferRequest text))
    (h : (lts ℚ n deps).Run (fun _ b a => b.Steady a) (new concurrency convs .cacheAware cfg mocks) τ b)
    (hmarked : ∀ r, Cluster.NeverMarked (clusterTrace τ) r) (hall : b.gen.collected = convs.length) :
    b.gen.summary.total =
      b.gen.summary.cached + Int64.ofNat (Finset.univ.biUnion b.cluster.cached).card := by
  have hcluster := yielding_of_run hsharing h
  have hunbroken := h.mono fun _ _ _ hsteady => Steady.unbroken hsteady
  obtain ⟨hcached, htotal⟩ := (Replay.inv_of_run (gen_of_run h)).printed hall
  obtain ⟨hcounted, hcounted'⟩ := reported_eq_counted hunbroken hall
  have hdisjoint := Cluster.disjoint_cached_of_run hC hroom hcluster hmarked
  rw [hcached, htotal, hcounted, hcounted',
    Cluster.sum_total_eq hC hroom (hcluster.mono fun _ _ _ h => h.1) hdisjoint, Int64.ofNat_add]

/-- Two conversations; the second turn of the first one shares two blocks with its first turn. -/
def threeTurns : List Conversation :=
  [⟨"a", ["aaaaaaaaaaaaaaaabbbbbbbbbbbbbbbbcccccccccccccccc",
      "aaaaaaaaaaaaaaaabbbbbbbbbbbbbbbbdddddddddddddddd"]⟩, ⟨"e", ["eeeeeeeeeeeeeeee"]⟩]

/-- The chains of the prompts. -/
def turnChains : List (List UInt64) :=
  threeTurns.flatMap fun conv => conv.turns.map fun text =>
    (RouterInner.promptHashes charDeps (inferRequest text)).toOption.getD []

/-- The second conversation is under way while the first one takes both its turns. -/
def threeAnswers : List (Action 2) :=
  [.gen (.acquire 0), .gen (.acquire 1)] ++ picking 0 0 ++ picking 1 1 ++ serving 0 0 ++ picking 0 2 ++
    serving 0 2 ++ serving 1 1 ++ [.gen (.next 0), .gen (.next 1), .gen .collect, .gen .collect]

/-- Two of seven blocks are found, and five are computed, on two replicas. -/
theorem reports_once_of_run_three : ∃ τ b,
    (lts ℚ 2 Cluster.charNet).Run (fun _ b a => b.Steady a)
      (new 2 threeTurns .cacheAware .default fun _ => .default) τ b ∧
      b.gen.summary.cached = 2 ∧ b.gen.summary.total = 7 ∧
      b.gen.summary.total =
        b.gen.summary.cached + Int64.ofNat (Finset.univ.biUnion b.cluster.cached).card := by
  have hC : CollisionFree {l | l ∈ turnChains} := by decide +kernel
  have hrun := Lts.run_get (step Cluster.charNet)
    (new (F := ℚ) (n := 2) 2 threeTurns .cacheAware .default fun _ => .default)
    (fun _ b a => b.Steady a) threeAnswers (by decide +kernel)
  have hroom : Cluster.Roomy (n := 2) turnChains.flatten.toFinset (.default : SchedulerConfig ℚ)
      fun _ => .default := ⟨by decide +kernel, fun _ => by decide +kernel⟩
  have hsharing : ∀ conv ∈ threeTurns, ∀ text ∈ conv.turns, Cluster.Sharing charDeps
      turnChains.flatten.toFinset {l | l ∈ turnChains} (inferRequest text) := by decide +kernel
  exact ⟨_, _, hrun, by decide +kernel, by decide +kernel,
    reports_once_of_run hC hroom hsharing hrun (by unfold Cluster.NeverMarked; decide +kernel)
      (by decide +kernel)⟩

end Benchmark
