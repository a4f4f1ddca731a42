import DynamoRouter.Cluster.Benchmark
import DynamoRouter.Router.Health

set_option relaxedAutoImplicit false
set_option autoImplicit false

/-!
# The load of a benchmark

The load generator has at most `concurrency` requests under way. If nothing breaks, this bounds the load of
the router: the requests that it counts as in flight are those of calls that a conversation waits for. So
with a cap of `concurrency` requests at each replica, no call is ever refused as saturated.

## Main definitions

* `System.unended` — the number of calls that have not ended.

## Main results

* `Benchmark.load_le_of_run` — the load of the router is at most `concurrency`.
* `Benchmark.not_saturated_of_run` — no call is refused as saturated.
-/

open Protocol Loadgen

/-! ## The router -/

/-- A handler whose pick was refused had not ended. -/
theorem Handler.ended_of_refused {F : Type} {n : ℕ} {Resp : Type} [Mul F] [Sub F] [LT F] [DecidableLT F]
    [ScoreArith F] {deps : Deps} {inner inner' : RouterInner F n} {t t' : ℕ} {e : PickError}
    {h h' : Handler n Resp} {input : Input Resp} {es : List (Event n)}
    (hstep : h.step deps inner t input = some (es, inner', h')) (hes : .refused t' e ∈ es) :
    h.ended = false := by
  rcases step_inv hstep with ⟨pc, pc', rfl, rfl, hpc⟩ | ⟨s, s', rfl, rfl, hs⟩
  · cases pc with
    | done result => simp [UnaryPc.step] at hpc
    | dropped => simp [UnaryPc.step] at hpc
    | _ => rfl
  · obtain ⟨pc, out, rxOpen⟩ := s
    cases pc with
    | finished =>
      cases StreamTask.step_inv hs
      simp at hes
    | _ => rfl

namespace System

variable {F : Type} {n : ℕ} {Resp : Type}

/-- The number of calls that have not ended. -/
def unended (s : System F n Resp) : ℕ := s.handlers.countP fun h => !h.ended

/-- A handler that holds a pick has not ended. -/
theorem ended_of_holds {h : Handler n Resp} (hholds : h.holds.isSome = true) : (!h.ended) = true := by
  cases hended : h.ended with
  | false => rfl
  | true =>
    rw [Handler.holds_of_ended hended] at hholds
    cases hholds

/-- A pick is held by a call that has not ended. -/
theorem sum_holders_le (s : System F n Resp) : ∑ r, s.holders r ≤ s.unended := by
  simp only [holders, sum_countP_eq_some]
  exact List.countP_mono_left fun h _ => ended_of_holds

/-- A call that has not ended, and holds no pick, adds to the picks that are held. -/
theorem holders_lt (s : System F n Resp) {t : ℕ} {h : Handler n Resp} (hget : s.handlers[t]? = some h)
    (hended : h.ended = false) (hholds : h.holds = none) (r : Fin n) : s.holders r < s.unended := by
  refine countP_lt_countP (fun x _ hx => ended_of_holds ?_) (List.mem_of_getElem? hget) ?_ ?_
  · rw [of_decide_eq_true hx]
    rfl
  · simp [hholds]
  · simp [hended]

section Step

variable [Mul F] [Sub F] [LT F] [DecidableLT F] [ScoreArith F]

/-- **A router with room for all its calls refuses none as saturated**: if no slot is leaked, and no more
calls are under way than a replica may have in flight.

**Proof sketch.** A pick is refused as saturated only if a healthy replica is at its cap. Its slots are
held by calls under way, and the call that picks is one more. -/
theorem not_saturated_of_step {deps : Deps} {s s' : System F n Resp} {act : Act n Resp}
    {es : List (Event n)} (hleak : s.NoLeak) (hroom : s.unended ≤ s.sched.cfg.maxInflight)
    (hstep : (lts F n Resp deps).step s act es s') (t : ℕ) : .refused t .allSaturated ∉ es := by
  intro hes
  cases step_inv hstep with
  | spawned => simp at hes
  | probed => exact not_refused_probeEvents _ _ _ _ hes
  | published => simp at hes
  | ran i input es inner h h' hget hrun =>
    have hended := Handler.ended_of_refused hrun hes
    have hmove := Handler.move_of_step hrun
    generalize inner.scheduler = sched' at hmove
    cases hmove with
    | refused hashes e _ hpick hholds =>
      obtain ⟨-, hnone, herr⟩ := Scheduler.pick_error_inv hpick
      obtain ⟨rfl, rfl⟩ : i = t ∧ e = .allSaturated := by simpa using (List.mem_singleton.mp hes).symm
      obtain ⟨r, hr⟩ : ∃ r, s.sched.isHealthy r = true := by
        refine Scheduler.anyHealthy_iff.mp ?_
        by_contra hnot
        rw [if_neg (show ¬ s.inner.scheduler.anyHealthy = true from hnot)] at herr
        cases herr
      have hcap := maxInflight_le_of_saturated hstep hes ⟨.tick, rfl⟩ hr
      have hlt := s.holders_lt hget hended hholds r
      have := hleak r
      omega
    | _ => simp at hes

end Step

end System

/-! ## The cluster -/

namespace Cluster

variable {F : Type} {n : ℕ} [Mul F] [Sub F] [LT F] [DecidableLT F] [ScoreArith F]
  {deps : ClusterDeps} {s s' : Cluster F n} {a : Action n} {e : Seen n}

/-- What is seen of a step of the router is a step of the router. -/
theorem router_step (hstep : (lts F n deps).step s a e s') {act : Act n MockResponse}
    {es : List (Event n)} (he : e.routed = some (act, es)) :
    (System.lts F n MockResponse deps.toDeps).step s.router act es s'.router := by
  cases step_inv hstep with
  | routed act' es' router _ hrouter => cases he; exact hrouter
  | served | servedStray => cases he
  | delivered _ _ _ _ _ _ _ _ hrouter => cases he; exact hrouter
  | failed _ _ _ _ _ _ _ _ hrouter => cases he; exact hrouter

/-- The router's part of a run in which no call is given up: no future is dropped. -/
theorem noDrops_of_run {policy : Policy} {cfg : SchedulerConfig F} {mocks : Fin n → MockConfig}
    {ok : List (Action n × Seen n) → Cluster F n → Action n → Prop} {τ : List (Action n × Seen n)}
    (hok : ∀ τ s a, ok τ s a → a.loses = false) (h : (lts F n deps).Run ok (new policy cfg mocks) τ s) :
    (System.lts F n MockResponse deps.toDeps).Run System.NoDrops (System.new n MockResponse policy cfg)
      (routerTrace τ) s.router :=
  Lts.Run.project_on (M := lts F n deps) Cluster.router (fun x => x.2.routed)
    (fun τ s a _ _ _ hguard hstep => by
      have hloses := hok τ s a hguard
      cases step_inv hstep with
      | routed act es router _ hrouter =>
        refine .inl ⟨act, es, rfl, ?_, hrouter⟩
        cases act with
        | run t input => cases input <;> first | rfl | cases hloses
        | _ => rfl
      | served | servedStray => exact .inr ⟨rfl, rfl⟩
      | delivered t hd input wire es router _ htakes hrouter =>
        refine .inl ⟨.run t input, es, rfl, ?_, hrouter⟩
        have htaken := Handler.taken_of_takes htakes
        generalize s.wires t = w at htaken
        cases htaken <;> rfl
      | failed => cases hloses) h

end Cluster

/-! ## The benchmark -/

namespace Benchmark

variable {F : Type} {n : ℕ} [Mul F] [Sub F] [LT F] [DecidableLT F] [ScoreArith F]
  {deps : ClusterDeps} {concurrency : ℕ} {convs : List Conversation} {policy : Policy}
  {cfg : SchedulerConfig F} {mocks : Fin n → MockConfig} {τ : List (Action n × Seen n)}
  {b : Benchmark F n}

/-- **A conversation waits for each call under way**, so there are no more than permits.

**Proof sketch.** A call that has answered is over, so a conversation waits for any other one
(`unbroken_of_run`); it waits for one call only, and holds a permit. -/
theorem unended_le
    (h : (lts F n deps).Run (fun _ _ a => a.Unbroken) (new concurrency convs policy cfg mocks) τ b) :
    b.cluster.router.unended ≤ concurrency := by
  have hinv := inv_of_run h
  have hgen := Replay.inv_of_run (gen_of_run h)
  let waiting := (Finset.range b.gen.tasks.length).filter fun i => (b.calls i).isSome
  have hsurj : Set.SurjOn (fun i => (b.calls i).getD 0) waiting
      ((Finset.range b.cluster.router.handlers.length).filter fun t =>
        (b.cluster.router.handlers[t]?).any fun h => !h.ended) := by
    intro t ht
    obtain ⟨hlt, hopen⟩ := Finset.mem_filter.mp ht
    obtain ⟨hd, hget, hended⟩ := Option.any_eq_true _ _ |>.mp hopen
    rcases unbroken_of_run h t (Finset.mem_range.mp hlt) with hmem | ⟨i, hi⟩
    · obtain ⟨x, hx, rfl⟩ := List.mem_map.mp hmem
      obtain rfl := Option.some_inj.mp (hget.symm.trans (hinv.done x hx))
      cases hended
    · obtain ⟨task, k, htask, -⟩ := (hinv.calls i t hi).2.2
      have hlt := (List.getElem?_eq_some_iff.mp htask).1
      exact ⟨i, by simp [waiting, hlt, hi], by simp [hi]⟩
  calc b.cluster.router.unended = _ := countP_eq_card _ _
    _ ≤ waiting.card := Finset.card_le_card_of_surjOn _ hsurj
    _ ≤ concurrency := hgen.card_awaits_le waiting fun i hi => by
      obtain ⟨t, ht⟩ := Option.isSome_iff_exists.mp (Finset.mem_filter.mp hi).2
      exact (hinv.calls i t ht).2.2

/-- No slot of the router is leaked. -/
theorem noLeak_of_run
    (h : (lts F n deps).Run (fun _ _ a => a.Unbroken) (new concurrency convs policy cfg mocks) τ b) :
    b.cluster.router.NoLeak :=
  System.noLeak_of_run (System.dropsReleased_of_noDrops
    (Cluster.noDrops_of_run (fun _ _ _ hcalm => hcalm.1) (samePrompt_of_run h)))

/-- **The load of the router.** In every run of a benchmark in which nothing breaks, at every point, no
more than `concurrency` calls are under way at the router, and it counts no more than `concurrency`
requests as in flight, over all replicas.

**Proof sketch.** `unended_le`; and the requests in flight are held by calls under way. -/
theorem load_le_of_run
    (h : (lts F n deps).Run (fun _ _ a => a.Unbroken) (new concurrency convs policy cfg mocks) τ b) :
    b.cluster.router.unended ≤ concurrency ∧
      ∑ r, b.cluster.router.sched.inflight r ≤ concurrency := by
  refine ⟨unended_le h, ?_⟩
  calc ∑ r, b.cluster.router.sched.inflight r
      ≤ ∑ r, b.cluster.router.holders r := Finset.sum_le_sum fun r _ => noLeak_of_run h r
    _ ≤ b.cluster.router.unended := b.cluster.router.sum_holders_le
    _ ≤ concurrency := unended_le h

/-- **Nothing is saturated**, in any run of a benchmark in which nothing breaks, if a replica may have as
many requests in flight as there are permits: whatever replicas are taken out of routing, no call is ever
refused as saturated.

**Proof sketch.** `System.not_saturated_of_step` at every step of the router, by `unended_le`. -/
theorem not_saturated_of_run
    (h : (lts F n deps).Run (fun _ _ a => a.Unbroken) (new concurrency convs policy cfg mocks) τ b)
    (hcap : concurrency ≤ cfg.maxInflight) :
    ∀ x ∈ Cluster.routerTrace (clusterTrace τ), ∀ t, .refused t .allSaturated ∉ x.2 := by
  induction h with
  | nil => exact fun x hx => by cases hx
  | @snoc τ b b' a e hrun hok hstep ih =>
    have hcfg : b.cluster.router.sched.cfg = cfg :=
      System.cfg_of_run (Cluster.router_of_run (clusterExec_of_run hrun))
    have hroom : b.cluster.router.unended ≤ b.cluster.router.sched.cfg.maxInflight :=
      hcfg ▸ (unended_le hrun).trans hcap
    -- a step of the cluster, if there is one
    have hnew : ∀ {a' e'}, e.cluster = some (a', e') →
        ∀ x ∈ e'.routed, ∀ t, .refused t .allSaturated ∉ x.2 := fun {a' e'} he x hx t => by
      have hcluster : (Cluster.lts F n deps).step b.cluster a' e' b'.cluster := by
        cases step_inv hstep with
        | sent _ _ _ _ _ _ _ _ hcluster => cases he; exact hcluster
        | worked _ _ _ _ hcluster => cases he; exact hcluster
        | moved | responded | lost => cases he
      exact System.not_saturated_of_step (noLeak_of_run hrun) hroom (Cluster.router_step hcluster hx) t
    intro x hx
    rw [clusterTrace_snoc, Cluster.routerTrace, List.filterMap_append, List.mem_append] at hx
    rcases hx with hx | hx
    · exact ih x hx
    · obtain ⟨⟨a', e'⟩, he, hrouted⟩ := List.mem_filterMap.mp hx
      exact hnew (Option.mem_toList.mp he) x hrouted

/-- Conversation `i` sends a request, which is picked for. -/
def picking (i t : ℕ) : List (Action 2) :=
  [.gen (.next i)] ++ List.replicate 3 (.cluster (.router (.run t .tick)))

/-- A call reaches its replica, and its response comes back to conversation `i`. -/
def serving (i t : ℕ) : List (Action 2) :=
  [.cluster (.serve t), .cluster (.deliver t)] ++ List.replicate 5 (.cluster (.router (.run t .tick))) ++
    [.respond i]

/-- A conversation of two turns, and one of a single turn. -/
def twoConversations : List Conversation :=
  [⟨"a", ["aaaaaaaaaaaaaaaabbbbbbbbbbbbbbbb", "aaaaaaaaaaaaaaaacccccccccccccccc"]⟩,
    ⟨"b", ["aaaaaaaaaaaaaaaadddddddddddddddd"]⟩]

/-- A configuration with room for two requests at each replica. -/
def capTwo : SchedulerConfig ℚ := { System.capOne with maxInflight := 2 }

/-- A pass of the prober. -/
def probing (results : List (Fin 2 × Bool)) : List (Action 2) :=
  [.cluster (.router (.probe results)), .cluster (.router .publish)]

/-- Both conversations have a call at the first replica, as the second one is out of routing. The prober
then takes the first replica out of routing and the second one back; the first call comes back, and the
next turn goes to the second replica; and the first replica comes back too. -/
def probedCalls : List (Action 2) :=
  [.gen (.acquire 0), .gen (.acquire 1)] ++ probing [(1, false)] ++ picking 0 0 ++ picking 1 1 ++
    probing [(0, false), (1, true)] ++ serving 0 0 ++ picking 0 2 ++ probing [(0, true)]

/-- Two permits, and two calls under way: one is counted as in flight, and one is not, as its replica was
taken out of routing and back. -/
theorem load_le_of_run_probed : ∃ τ b,
    (lts ℚ 2 Cluster.charNet).Run (fun _ _ a => a.Unbroken)
      (new 2 twoConversations .cacheAware capTwo fun _ => .default) τ b ∧
      [0, 1, 2].map (System.attempts (Cluster.routerTrace (clusterTrace τ))) = [[0], [0], [1]] ∧
      (b.cluster.router.unended = 2 ∧ b.cluster.router.unended ≤ 2) ∧
      ([0, 1].map b.cluster.router.sched.inflight = [0, 1] ∧
        ∑ r, b.cluster.router.sched.inflight r ≤ 2) := by
  have hrun := Lts.run_get (step Cluster.charNet)
    (new (F := ℚ) (n := 2) 2 twoConversations .cacheAware capTwo fun _ => .default)
    (fun _ _ a => a.Unbroken) probedCalls (by decide +kernel)
  obtain ⟨hunended, hinflight⟩ := load_le_of_run hrun
  exact ⟨_, _, hrun, by decide +kernel, ⟨by decide +kernel, hunended⟩, by decide +kernel, hinflight⟩

/-- The same run, with a cap of two requests, which the first replica is at: no call is refused. -/
theorem not_saturated_of_run_probed : ∃ τ b,
    (lts ℚ 2 Cluster.charNet).Run (fun _ _ a => a.Unbroken)
      (new 2 twoConversations .cacheAware capTwo fun _ => .default) τ b ∧
      b.cluster.router.handlers.length = 3 ∧
      ∀ x ∈ Cluster.routerTrace (clusterTrace τ), ∀ t, .refused t .allSaturated ∉ x.2 := by
  have hrun := Lts.run_get (step Cluster.charNet)
    (new (F := ℚ) (n := 2) 2 twoConversations .cacheAware capTwo fun _ => .default)
    (fun _ _ a => a.Unbroken) probedCalls (by decide +kernel)
  exact ⟨_, _, hrun, by decide +kernel, not_saturated_of_run hrun le_rfl⟩

end Benchmark
