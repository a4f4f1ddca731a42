import DynamoRouter.Cluster.HitRate

set_option relaxedAutoImplicit false
set_option autoImplicit false

/-!
# What the clients are told

A unary call may be retried, and its request may be executed by two replicas, of which the first one may
execute it last. Still the response that the client gets is one that the replica of the last pick computed
for this very request. So the blocks that the responses report as cached are blocks that replicas counted,
each once; and if nothing fails, all that the replicas counted is reported.

## Main definitions

* `Cluster.prefills`, `Cluster.prefillsBy` — the requests that were executed for a task, and by a replica.
* `Cluster.Answered` — a response that the last replica picked computed for the task.
* `Cluster.reported` — what the responses to the unary calls add up to.

## Main results

* `Cluster.answered_of_run` — every response is such a response.
* `Cluster.reported_le_of_run` — what the responses report was counted.
* `Cluster.reported_eq_of_run` — in calm runs of unary calls, at rest, it is all that was counted.
-/

open Protocol

namespace Handler

variable {F : Type} {n : ℕ} {Resp : Type}

/-- The response that a unary call has taken from its replica. -/
def response : Handler n Resp → Option Resp
  | .unary (.completing _ _ _ (.ok resp)) => some resp
  | .unary (.gaugeCompleted _ _ _ (.ok resp) _) => some resp
  | .unary (.recording _ _ resp _) => some resp
  | .unary (.done (.ok resp)) => some resp
  | _ => none

/-- The response that a client was told. -/
def told : Handler n Resp → Option Resp
  | .unary (.done (.ok resp)) => some resp
  | _ => none

/-- A client was told a response, if its call is over. -/
theorem told_eq_some {h : Handler n Resp} {resp : Resp} (htold : h.told = some resp) :
    h = .unary (.done (.ok resp)) := by
  cases h with
  | unary pc =>
    cases pc with
    | done result =>
      cases result
      · cases htold
      · cases htold
        rfl
    | _ => cases htold
  | stream => cases htold

/-- A response that a client was told, the handler has taken from its replica. -/
theorem response_of_told {h : Handler n Resp} {resp : Resp} (htold : h.told = some resp) :
    h.response = some resp := by
  rw [told_eq_some htold]
  rfl

/-- A unary call at rest, none of whose calls failed, made one decision if its client was told a response,
and none otherwise. -/
theorem Smooth.length_eq {h : Handler n Resp} {picks : ℕ} (hs : h.Smooth picks)
    (hunary : h.isUnary = true) (hholds : h.holds = none) (hcurrent : h.current = none) :
    picks = if h.told.isSome then 1 else 0 := by
  cases h with
  | unary pc =>
    cases pc with
    | done result => cases result <;> exact hs
    | start => exact hs
    | picking => exact hs
    | marking => exact hs.elim
    | dropped => exact hs.elim
    | _ => cases hcurrent
  | stream => cases hunary

section Step

variable [Mul F] [Sub F] [LT F] [DecidableLT F] [ScoreArith F]

/-- **Where a response comes from**: the handler had it before, and made no decision since; or it is the
answer that the handler waited for.

**Proof sketch.** By the effects of a step of a unary call; a stream has no response. Of those that leave
the call with a response, one has just taken it, and the others had it, and none of them is a pick. -/
theorem response_step {deps : Deps} {inner inner' : RouterInner F n} {t : ℕ}
    {h h' : Handler n Resp} {input : Input Resp} {es : List (Event n)}
    (hstep : h.step deps inner t input = some (es, inner', h')) {resp : Resp}
    (hresp : h'.response = some resp) :
    es.filterMap (Event.decisionOf t) = [] ∧
      (h.response = some resp ∨ input = .reply (.ok resp)) := by
  rcases step_inv hstep with ⟨pc, pc', rfl, rfl, hpc⟩ | ⟨s, s', rfl, rfl, -⟩
  · cases UnaryPc.step_inv hpc with
    | replied hashes att d result =>
      cases result with
      | error => cases hresp
      | ok => exact ⟨rfl, .inr (by rw [Option.some_inj.mp hresp])⟩
    | completed hashes att d result =>
      cases result with
      | error => cases hresp
      | ok => exact ⟨rfl, .inl hresp⟩
    | succeeded | recorded | served => exact ⟨rfl, .inl hresp⟩
    | _ => cases hresp
  · cases hresp

end Step

end Handler

namespace Cluster

variable {F : Type} {n : ℕ}

/-- The execution of a request of task `t`: the replica, and what it found. -/
def Seen.prefillOf (t : ℕ) : Seen n → Option (Fin n × Prefill)
  | .served t' r (.ok p) => if t' = t then some (r, p) else none
  | _ => none

/-- The execution of a request by replica `r`. -/
def Seen.prefillBy (r : Fin n) : Seen n → Option (Fin n × Prefill)
  | .served _ r' (.ok p) => if r' = r then some (r', p) else none
  | _ => none

/-- The requests of task `t` that were executed, in order. -/
def prefills (τ : List (Action n × Seen n)) (t : ℕ) : List (Fin n × Prefill) :=
  τ.filterMap fun x => x.2.prefillOf t

/-- The requests that replica `r` executed, in order. -/
def prefillsBy (τ : List (Action n × Seen n)) (r : Fin n) : List (Fin n × Prefill) :=
  τ.filterMap fun x => x.2.prefillBy r

/-- A response to task `t` that the replica picked last computed for it. -/
def Answered (τ : List (Action n × Seen n)) (t : ℕ) (resp : MockResponse) : Prop :=
  ∃ r p, (picks τ t).getLast? = some r ∧ (r, p) ∈ prefills τ t ∧
    resp = MockTriton.makeResponse p.cached p.total "mock-completion"

/-- One more step of a trace. -/
theorem prefills_snoc (τ : List (Action n × Seen n)) (a : Action n) (e : Seen n) (t : ℕ) :
    prefills (τ ++ [(a, e)]) t = prefills τ t ++ (e.prefillOf t).toList := by
  rw [prefills, List.filterMap_append, prefills]
  cases he : e.prefillOf t <;> simp [he]

/-- One more step of a trace. -/
theorem prefillsBy_snoc (τ : List (Action n × Seen n)) (a : Action n) (e : Seen n) (r : Fin n) :
    prefillsBy (τ ++ [(a, e)]) r = prefillsBy τ r ++ (e.prefillBy r).toList := by
  rw [prefillsBy, List.filterMap_append, prefillsBy]
  cases he : e.prefillBy r <;> simp [he]

/-- A response that answers a task, answers it until its next pick. -/
theorem Answered.snoc {τ : List (Action n × Seen n)} {t : ℕ} {resp : MockResponse}
    (h : Answered τ t resp) {a : Action n} {e : Seen n} (hpicks : picks (τ ++ [(a, e)]) t = picks τ t) :
    Answered (τ ++ [(a, e)]) t resp := by
  obtain ⟨r, p, hlast, hmem, hresp⟩ := h
  refine ⟨r, p, hpicks ▸ hlast, ?_, hresp⟩
  rw [prefills_snoc]
  exact List.mem_append_left _ hmem

/-- A handler's response, and the one on its wire, answer the task. -/
structure AllAnswered (τ : List (Action n × Seen n)) (s : Cluster F n) : Prop where
  /-- The responses that were taken. -/
  handler : ∀ t h resp, s.handler t = some h → h.response = some resp → Answered τ t resp
  /-- The responses on the wires. -/
  wire : ∀ t resp, s.wires t = .reply (.ok resp) → Answered τ t resp

section Step

variable [Mul F] [Sub F] [LT F] [DecidableLT F] [ScoreArith F]

variable {deps : ClusterDeps} {policy : Policy} {cfg : SchedulerConfig F} {mocks : Fin n → MockConfig}
  {τ : List (Action n × Seen n)} {s s' : Cluster F n} {a : Action n} {e : Seen n}

/-- A step of the router that makes no decision for a task keeps its picks. -/
theorem picks_router_of_nil {act : Act n MockResponse} {es : List (Event n)} {t : ℕ}
    (hes : es.filterMap (Event.decisionOf t) = []) (a : Action n) :
    picks (τ ++ [(a, .router act es)]) t = picks τ t := by
  rw [picks_snoc, hes, List.map_nil, List.append_nil]

omit [Mul F] [Sub F] [LT F] [DecidableLT F] [ScoreArith F] in
/-- The response on the wire after a unary call was answered. -/
theorem reply_of_answer {h : Handler n MockResponse} {req : ModelInferRequest}
    {service : MockTritonService} {resp : MockResponse}
    (heq : MockTriton.answer deps service req h = .reply (.ok resp)) :
    h.isUnary = true ∧ ∃ p, (service.prefill deps.encode req).1 = .ok p ∧
      resp = MockTriton.makeResponse p.cached p.total "mock-completion" := by
  cases h with
  | unary pc =>
    refine ⟨rfl, ?_⟩
    simp only [MockTriton.answer, MockTritonService.modelInfer, Wire.reply.injEq] at heq
    cases hp : (service.prefill deps.encode req).1 with
    | error => simp [hp, Except.map] at heq
    | ok p =>
      rw [hp] at heq
      exact ⟨p, rfl, (Except.ok.inj heq).symm⟩
  | stream => cases heq

/-- A step of one task keeps the answers.

**Proof sketch.** A handler that takes its answer makes no decision, and one that makes a decision has no
answer, and nothing on its wire. -/
theorem AllAnswered.ran {t : ℕ} {input : Input MockResponse} {h h' : Handler n MockResponse}
    {wire : Wire} {inner : RouterInner F n} {es : List (Event n)} (hall : AllAnswered τ s)
    (hsound : s.Sound deps.toDeps) (hran : Ran s s' t input h h' wire)
    (hrun : h.step deps.toDeps s.router.inner t input = some (es, inner, h'))
    (hreply : ∀ resp, input = .reply (.ok resp) → s.wires t = .reply (.ok resp))
    (hwire : ∀ resp, wire = .reply (.ok resp) → s.wires t = .reply (.ok resp)) (a : Action n) :
    AllAnswered (τ ++ [(a, .router (.run t input) es)]) s' := by
  have hother : ∀ i, i ≠ t → picks (τ ++ [(a, .router (.run t input) es)]) i = picks τ i := fun i hi =>
    picks_router_of_nil (System.decisionOf_move hi (Handler.move_of_step hrun)) a
  refine ⟨fun i hd resp hi hresp => ?_, fun i resp heq => ?_⟩
  · rw [hran.handler_eq] at hi
    split_ifs at hi with hit
    · subst hit
      obtain rfl : h' = hd := Option.some_inj.mp hi
      obtain ⟨hes, hold | hinput⟩ := Handler.response_step hrun hresp
      · exact (hall.handler i h resp hran.get hold).snoc (picks_router_of_nil hes a)
      · exact (hall.wire i resp (hreply resp hinput)).snoc (picks_router_of_nil hes a)
    · exact (hall.handler i hd resp hi hresp).snoc (hother i hit)
  · rw [hran.wires] at heq
    by_cases hit : i = t
    · subst hit
      rw [Function.update_self] at heq
      have hbefore := hwire resp heq
      refine (hall.wire i resp hbefore).snoc (picks_router_of_nil ?_ a)
      cases Handler.ask_of_step hrun with
      | picked hashes d sched' h' hpick hchain hun =>
        rw [(hsound.task i h hran.get).unanswered hun] at hbefore
        cases hbefore
      | released => rfl
      | kept _ _ _ _ hes => exact hes i
    · rw [Function.update_of_ne hit] at heq
      exact (hall.wire i resp heq).snoc (hother i hit)

/-- **One step keeps the answers.**

**Proof sketch.** By the effects of a step. A step of a task is `AllAnswered.ran`, whatever moved it. A
request that reaches its replica puts an answer on the wire: the task has called the replica that it
picked last (`System.Tallies.current`), and the execution is the one that the answer reports. No other
step changes an answer or the picks of a task. -/
theorem AllAnswered.step (hsound : s.Sound deps.toDeps)
    (htallies : System.Tallies (routerTrace τ) s.router) (hall : AllAnswered τ s)
    (hstep : (lts F n deps).step s a e s') : AllAnswered (τ ++ [(a, e)]) s' := by
  have hquiet : ∀ {act : Act n MockResponse} {es : List (Event n)},
      (∀ t, es.filterMap (Event.decisionOf t) = []) → ∀ {t : ℕ} {resp : MockResponse},
      Answered τ t resp → Answered (τ ++ [(a, .router act es)]) t resp := fun hes _ _ h =>
    h.snoc (picks_router_of_nil (hes _) a)
  cases step_inv hstep with
  | routed act es router hact hrouter =>
    cases System.step_inv hrouter with
    | spawned _ hd hspawns =>
      have hwires : s.wiresAfter act = s.wires := by cases act <;> cases hspawns <;> rfl
      refine ⟨fun t h resp hget hresp => ?_, fun t resp heq => ?_⟩
      · rcases System.getElem?_concat_inv hget with hold | ⟨rfl, rfl⟩
        · exact hquiet (fun _ => rfl) (hall.handler t h resp hold hresp)
        · cases act <;> cases hspawns <;> cases hresp
      · simp only [hwires] at heq
        exact hquiet (fun _ => rfl) (hall.wire t resp heq)
    | ran t input _ inner h h' hget hrun =>
      refine hall.ran hsound (ran_routed hget hact _) hrun (fun resp heq => ?_) (fun resp heq => ?_) _
      · subst heq
        cases hact
      · cases input with
        | recv | drop => cases heq
        | _ => exact heq
    | probed results =>
      refine ⟨fun t h resp hget hresp => ?_, fun t resp heq => ?_⟩
      · exact hquiet (fun i => System.filterMap_decisionOf_eq_nil (System.pickOf_probeEvents i _ _))
          (hall.handler t h resp hget hresp)
      · exact hquiet (fun i => System.filterMap_decisionOf_eq_nil (System.pickOf_probeEvents i _ _))
          (hall.wire t resp heq)
    | published =>
      exact ⟨fun t h resp hget hresp => hquiet (fun _ => rfl) (hall.handler t h resp hget hresp),
        fun t resp heq => hquiet (fun _ => rfl) (hall.wire t resp heq)⟩
  | served t h r req hget hcallee hreq hwire =>
    have hpicks : ∀ i, picks (τ ++ [(.serve t, .served t r ((s.replicas r).prefill deps.encode req).1)]) i =
        picks τ i := picks_served τ _ t r _
    refine ⟨fun i hd resp hi hresp => (hall.handler i hd resp hi hresp).snoc (hpicks i),
      fun i resp heq => ?_⟩
    by_cases hi : i = t
    · subst hi
      simp only [Function.update_self] at heq
      obtain ⟨hunary, p, hp, hresp⟩ := reply_of_answer heq
      refine ⟨r, p, ?_, ?_, hresp⟩
      · -- the replica that is asked is the one that was picked last
        cases h with
        | stream => cases hunary
        | unary pc =>
          cases pc with
          | upstream hashes att d =>
            cases hcallee
            obtain ⟨l, hl⟩ := htallies.current i _ (hashes.length, d) hget rfl
            rw [hpicks, picks, hl, List.map_append]
            exact List.getLast?_concat
          | _ => cases hcallee
      · rw [prefills_snoc, hp]
        simp [Seen.prefillOf]
    · simp only [Function.update_of_ne hi] at heq
      exact (hall.wire i resp heq).snoc (hpicks i)
  | servedStray i t r req hget =>
    have hpicks := picks_served τ (.serveStray i) t r ((s.replicas r).prefill deps.encode req).1
    exact ⟨fun i hd resp hi hresp => (hall.handler i hd resp hi hresp).snoc (hpicks i),
      fun i resp heq => (hall.wire i resp heq).snoc (hpicks i)⟩
  | delivered t h input wire es router hget htakes hrouter =>
    obtain ⟨inner, h', hrun, rfl⟩ := run_inv hget hrouter
    have htaken := Handler.taken_of_takes htakes
    refine hall.ran hsound (ran_delivered hget htaken) hrun (fun resp heq => ?_) (fun resp heq => ?_) _
    · generalize s.wires t = w at htaken ⊢
      cases htaken <;> cases heq
      rfl
    · generalize s.wires t = w at htaken ⊢
      cases htaken with
      | opened => exact heq
      | _ => cases heq
  | failed t h status input es router hget hfailure hrouter =>
    obtain ⟨inner, h', hrun, rfl⟩ := run_inv hget hrouter
    refine hall.ran hsound (ran_failed hget hfailure _) hrun (fun resp heq => ?_) (fun resp heq => ?_) _
    · subst heq
      cases h with
      | unary pc => cases pc <;> cases hfailure
      | stream task =>
        obtain ⟨pc, out, rxOpen⟩ := task
        cases pc <;> cases hfailure
    · cases heq

/-- The answers along every run. -/
theorem allAnswered_of_run (h : (lts F n deps).Exec (new policy cfg mocks) τ s) : AllAnswered τ s := by
  induction h with
  | nil =>
    exact ⟨fun t h resp hget => by simp [handler, new, System.new] at hget, fun _ _ heq => by cases heq⟩
  | snoc hrun _ hs ih =>
    exact ih.step (sound_of_run hrun) (System.tallies_of_run (router_of_run hrun)) hs

/-- **Every response that a client is told** was computed for its request by the replica that was picked
for it last, whatever failed and whatever was executed twice.

**Proof sketch.** `AllAnswered` along the run: a replica that serves a unary call is the one that was
picked last, and while its answer is on the way, or is kept by the handler, nothing more is picked. -/
theorem answered_of_run (hrun : (lts F n deps).Exec (new policy cfg mocks) τ s) {t : ℕ}
    {resp : MockResponse} (hget : s.handler t = some (.unary (.done (.ok resp)))) :
    Answered τ t resp :=
  (allAnswered_of_run hrun).handler t _ resp hget rfl

end Step

/-! ## What the responses add up to -/

/-- What the responses that the clients were told add up to. -/
def reported (w : MockResponse → ℕ) (s : Cluster F n) : ℕ :=
  (s.router.handlers.map fun h => h.told.elim 0 w).sum

/-- A step of the router executes nothing. -/
@[simp] theorem prefillBy_router (act : Act n MockResponse) (es : List (Event n)) (r : Fin n) :
    (Seen.router act es).prefillBy r = none := rfl

/-- Of the executions of a task, some found a prompt. -/
theorem length_prefills_le (τ : List (Action n × Seen n)) (t : ℕ) :
    (prefills τ t).length ≤ (executions τ t).length := by
  rw [prefills, executions, List.length_filterMap_eq_countP, List.length_filterMap_eq_countP]
  refine List.countP_mono_left fun x _ hx => ?_
  rcases x with ⟨a, act | ⟨t', r, _ | p⟩⟩
  · cases hx
  · cases hx
  · by_cases ht : t' = t
    · simp [Seen.servedFor, ht]
    · simp [Seen.prefillOf, ht] at hx

/-- What a replica finds for a request, it counts.

**Proof sketch.** A request that is rejected counts nothing; any other one counts the leading blocks that
were cached, and all its blocks, which is what it finds (`MockTritonService.prefill_eq`). -/
theorem counted_of_prefill (encode : String → Except String (List UInt32)) (service : MockTritonService)
    (req : ModelInferRequest) :
    (service.prefill encode req).2.metrics.cachedBlocksTotal = service.metrics.cachedBlocksTotal +
        (service.prefill encode req).1.toOption.elim 0 Prefill.cached ∧
      (service.prefill encode req).2.metrics.totalBlocksTotal = service.metrics.totalBlocksTotal +
        (service.prefill encode req).1.toOption.elim 0 Prefill.total := by
  obtain ⟨herr, hok⟩ := service.prefill_eq encode req
  cases hprompt : MockTriton.promptHashes encode req with
  | error status =>
    rw [herr status hprompt]
    exact ⟨rfl, rfl⟩
  | ok hashes =>
    obtain ⟨p, hp, hcached, htotal⟩ := hok hashes hprompt
    rw [hp]
    refine ⟨?_, ?_⟩
    · simp only [MockTritonService.served, Except.toOption, Option.elim_some, hcached]
      rfl
    · simp only [MockTritonService.served, Except.toOption, Option.elim_some, htotal]

/-- The replicas' counters are those of the requests that they executed. -/
structure Counted (τ : List (Action n × Seen n)) (s : Cluster F n) : Prop where
  /-- The blocks that were cached. -/
  cached : ∀ r, (s.replicas r).metrics.cachedBlocksTotal =
    ((prefillsBy τ r).map fun x => x.2.cached).sum
  /-- All blocks. -/
  total : ∀ r, (s.replicas r).metrics.totalBlocksTotal = ((prefillsBy τ r).map fun x => x.2.total).sum

section Counted

variable {τ : List (Action n × Seen n)} {s s' : Cluster F n} {a : Action n}

/-- A request that reaches a replica is counted. -/
theorem Counted.served (h : Counted τ s) {t : ℕ} {r : Fin n} {req : ModelInferRequest}
    {encode : String → Except String (List UInt32)}
    (hreplicas : s'.replicas = Function.update s.replicas r ((s.replicas r).prefill encode req).2) :
    Counted (τ ++ [(a, .served t r ((s.replicas r).prefill encode req).1)]) s' := by
  obtain ⟨hcached, htotal⟩ := counted_of_prefill encode (s.replicas r) req
  refine ⟨fun i => ?_, fun i => ?_⟩
  · rw [prefillsBy_snoc, List.map_append, List.sum_append, ← h.cached, hreplicas]
    by_cases hi : i = r
    · subst hi
      rw [Function.update_self, hcached]
      cases ((s.replicas i).prefill encode req).1 <;> simp [Seen.prefillBy, Except.toOption]
    · rw [Function.update_of_ne hi]
      cases ((s.replicas r).prefill encode req).1 <;> simp [Seen.prefillBy, Ne.symm hi]
  · rw [prefillsBy_snoc, List.map_append, List.sum_append, ← h.total, hreplicas]
    by_cases hi : i = r
    · subst hi
      rw [Function.update_self, htotal]
      cases ((s.replicas i).prefill encode req).1 <;> simp [Seen.prefillBy, Except.toOption]
    · rw [Function.update_of_ne hi]
      cases ((s.replicas r).prefill encode req).1 <;> simp [Seen.prefillBy, Ne.symm hi]

/-- A step of the router counts nothing at the replicas. -/
theorem Counted.router (h : Counted τ s) (hreplicas : s'.replicas = s.replicas)
    {act : Act n MockResponse} {es : List (Event n)} : Counted (τ ++ [(a, .router act es)]) s' := by
  refine ⟨fun r => ?_, fun r => ?_⟩
  · rw [prefillsBy_snoc, prefillBy_router, Option.toList_none, List.append_nil, hreplicas]
    exact h.cached r
  · rw [prefillsBy_snoc, prefillBy_router, Option.toList_none, List.append_nil, hreplicas]
    exact h.total r

end Counted

section Runs

variable [Mul F] [Sub F] [LT F] [DecidableLT F] [ScoreArith F]

variable {deps : ClusterDeps} {policy : Policy} {cfg : SchedulerConfig F} {mocks : Fin n → MockConfig}
  {τ : List (Action n × Seen n)} {s : Cluster F n}

/-- The replicas' counters along every run.

**Proof sketch.** By what a step does to the calls on their way (`flow_of_step`): only a request that
reaches its replica changes a counter (`Counted.served`). -/
theorem counted_of_run (h : (lts F n deps).Exec (new policy cfg mocks) τ s) : Counted τ s := by
  induction h with
  | nil => exact ⟨fun _ => rfl, fun _ => rfl⟩
  | snoc hrun _ hs ih =>
    cases flow_of_step (sound_of_run hrun) hs with
    | picked _ _ _ _ _ _ _ _ _ hreplicas => exact ih.router hreplicas
    | served _ _ _ _ _ _ _ hreplicas => exact ih.served hreplicas
    | servedStray _ _ _ _ _ _ _ _ hreplicas => exact ih.served hreplicas
    | lost _ _ _ _ _ _ _ _ hreplicas => exact ih.router hreplicas
    | quiet _ _ _ _ _ _ hreplicas => exact ih.router hreplicas

/-- Nothing is executed for a task that has not arrived. -/
theorem prefills_of_length_le (h : (lts F n deps).Exec (new policy cfg mocks) τ s) {t : ℕ}
    (ht : s.router.handlers.length ≤ t) : prefills τ t = [] := by
  have hnone : picks τ t = [] := by
    rw [picks, (System.tallies_of_run (router_of_run h)).fresh t ht, List.map_nil]
  have hexec : executions τ t = [] := List.eq_nil_iff_forall_not_mem.mpr fun r hr => by
    have hcount := picks_eq_of_run h t r
    rw [hnone, List.count_nil] at hcount
    have := List.count_pos_iff.mpr hr
    omega
  rw [← List.length_eq_zero_iff]
  exact Nat.le_zero.mp ((length_prefills_le τ t).trans_eq (by rw [hexec, List.length_nil]))

/-- Each request is executed for one task and by one replica, so that sums over all executions may be
taken over the tasks or over the replicas. -/
theorem sum_prefills (h : (lts F n deps).Exec (new policy cfg mocks) τ s) (w : Fin n × Prefill → ℕ) :
    ∑ t ∈ Finset.range s.router.handlers.length, ((prefills τ t).map w).sum =
      ∑ r, ((prefillsBy τ r).map w).sum := by
  have hfresh : ∀ t, s.router.handlers.length ≤ t → prefills τ t = [] := fun t =>
    prefills_of_length_le h
  refine sum_filterMap_owners w fun x hx => ?_
  rcases x with ⟨a, act | ⟨t, r, _ | p⟩⟩
  · exact .inl ⟨fun _ => rfl, fun _ => rfl⟩
  · exact .inl ⟨fun i => by simp [Seen.prefillOf], fun i => by simp [Seen.prefillBy]⟩
  · have ht : t < s.router.handlers.length := by
      by_contra hle
      have hnone := List.filterMap_eq_nil_iff.mp (hfresh t (not_lt.mp hle)) _ hx
      rw [Seen.prefillOf, if_pos rfl] at hnone
      cases hnone
    refine .inr ⟨t, Finset.mem_range.mpr ht, r, Finset.mem_univ r, (r, p), ⟨?_, fun i hi => ?_⟩, ?_,
      fun i hi => ?_⟩
    · simp [Seen.prefillOf]
    · simp [Seen.prefillOf, Ne.symm hi]
    · simp [Seen.prefillBy]
    · simp [Seen.prefillBy, Ne.symm hi]

omit [Mul F] [Sub F] [LT F] [DecidableLT F] [ScoreArith F] in
/-- What the clients were told, as a sum over the tasks. -/
theorem reported_eq_sum (w : MockResponse → ℕ) (s : Cluster F n) : s.reported w =
    ∑ t ∈ Finset.range s.router.handlers.length,
      ((s.handler t).bind Handler.told).elim 0 w := by
  have hsum : ∀ l : List (Handler n MockResponse), (l.map fun h => h.told.elim 0 w).sum =
      System.sumOver l fun _ h => h.told.elim 0 w := by
    intro l
    induction l using List.reverseRecOn with
    | nil => rfl
    | append_singleton l h ih =>
      rw [List.map_append, List.sum_append, ih, System.sumOver_snoc fun _ _ => rfl, List.map_singleton,
        List.sum_singleton]
  rw [reported, hsum, System.sumOver]
  refine Finset.sum_congr rfl fun t _ => ?_
  rw [handler]
  cases s.router.handlers[t]? <;> rfl

/-- What a client was told is what an execution of its request found. -/
theorem exists_prefill_of_told (h : (lts F n deps).Exec (new policy cfg mocks) τ s) {t : ℕ}
    {resp : MockResponse} (htold : (s.handler t).bind Handler.told = some resp) :
    ∃ x ∈ prefills τ t, resp = MockTriton.makeResponse x.2.cached x.2.total "mock-completion" := by
  obtain ⟨hd, hget, htold⟩ := Option.bind_eq_some_iff.mp htold
  obtain ⟨r, p, -, hmem, hresp⟩ :=
    (allAnswered_of_run h).handler t hd resp hget (Handler.response_of_told htold)
  exact ⟨(r, p), hmem, hresp⟩

/-- The responses that the clients were told add up to no more than what was executed. -/
theorem reported_le_executed (hrun : (lts F n deps).Exec (new policy cfg mocks) τ s)
    {w : MockResponse → ℕ} {w' : Prefill → ℕ}
    (hw : ∀ p, w (MockTriton.makeResponse p.cached p.total "mock-completion") = w' p) :
    s.reported w ≤ ∑ r, ((prefillsBy τ r).map fun x => w' x.2).sum := by
  rw [← sum_prefills hrun, reported_eq_sum]
  refine Finset.sum_le_sum fun t _ => ?_
  cases htold : (s.handler t).bind Handler.told with
  | none => exact Nat.zero_le _
  | some resp =>
    obtain ⟨x, hx, rfl⟩ := exists_prefill_of_told hrun htold
    rw [Option.elim_some, hw]
    exact List.le_sum_of_mem (List.mem_map.mpr ⟨x, hx, rfl⟩)

/-- **What the responses report was counted**: at every point of every run, whatever calls fail, the blocks
that the responses to unary calls report as cached are at most those that the replicas counted as cached,
and likewise for all blocks.

**Proof sketch.** The response to a task is one of the executions for the task
(`exists_prefill_of_told`); and the replicas counted all executions, each for one task
(`sum_prefills`). -/
theorem reported_le_of_run (hrun : (lts F n deps).Exec (new policy cfg mocks) τ s) :
    s.reported MockResponse.cachedBlocks ≤ ∑ r, (s.replicas r).metrics.cachedBlocksTotal ∧
    s.reported MockResponse.totalBlocks ≤ ∑ r, (s.replicas r).metrics.totalBlocksTotal := by
  have hcounted := counted_of_run hrun
  refine ⟨(reported_le_executed hrun fun _ => rfl).trans_eq ?_,
    (reported_le_executed hrun fun _ => rfl).trans_eq ?_⟩
  · exact Finset.sum_congr rfl fun r _ => (hcounted.cached r).symm
  · exact Finset.sum_congr rfl fun r _ => (hcounted.total r).symm

/-- In a calm run of unary calls, at rest, each request that was executed is the one that its client was
told of. -/
theorem told_of_prefill (hrun : (lts F n deps).Run (fun _ _ a => Calm (SamePrompt deps.toDeps) a)
      (new policy cfg mocks) τ s) (hrest : s.AtRest)
    (hunary : ∀ h ∈ s.router.handlers, h.isUnary = true) (t : ℕ) :
    (prefills τ t).length ≤ if ((s.handler t).bind Handler.told).isSome then 1 else 0 := by
  have hexec := hrun.exec
  cases hget : s.handler t with
  | none =>
    rw [prefills_of_length_le hexec (List.getElem?_eq_none_iff.mp hget)]
    exact Nat.zero_le _
  | some h =>
    have hmem := List.mem_of_getElem? hget
    obtain ⟨hholds, hcurrent⟩ := hrest h hmem
    have hsmooth := (smooth_of_run (fun _ _ _ ha => ha) (fun _ hreq => hreq) hrun).handler t h hget
    -- as many executions as picks, since none is on its way, and none has gone astray
    have hperm : (executions τ t).Perm (picks τ t) := List.perm_iff_count.mpr fun r => by
      have hstrays := (orderly_of_run (fun _ _ _ ha => ha) hrun).strays
      rw [picks_eq_of_run hexec, straysOf, hstrays, List.countP_nil,
        waitingOf_none (waiting_eq_none_of_asks hget (Handler.asks_of_holds hholds)), Nat.add_zero]
    rw [Option.bind_some, ← hsmooth.length_eq (hunary h hmem) hholds hcurrent]
    refine (length_prefills_le τ t).trans_eq ?_
    rw [hperm.length_eq, picks, List.length_map]

/-- In a calm run of unary calls, at rest, the responses that the clients were told add up to what was
executed.

**Proof sketch.** `told_of_prefill`: a task has at most one execution, and one only if its client was told
a response, which then reports it. -/
theorem reported_eq_executed (hrun : (lts F n deps).Run (fun _ _ a => Calm (SamePrompt deps.toDeps) a)
      (new policy cfg mocks) τ s) (hrest : s.AtRest)
    (hunary : ∀ h ∈ s.router.handlers, h.isUnary = true) {w : MockResponse → ℕ} {w' : Prefill → ℕ}
    (hw : ∀ p, w (MockTriton.makeResponse p.cached p.total "mock-completion") = w' p) :
    s.reported w = ∑ r, ((prefillsBy τ r).map fun x => w' x.2).sum := by
  rw [← sum_prefills hrun.exec, reported_eq_sum]
  refine Finset.sum_congr rfl fun t _ => ?_
  have hlen := told_of_prefill hrun hrest hunary t
  cases htold : (s.handler t).bind Handler.told with
  | none =>
    rw [htold] at hlen
    rw [List.length_eq_zero_iff.mp (Nat.le_zero.mp hlen)]
    rfl
  | some resp =>
    obtain ⟨x, hx, rfl⟩ := exists_prefill_of_told hrun.exec htold
    rw [htold] at hlen
    obtain ⟨y, hy⟩ := List.length_eq_one_iff.mp (le_antisymm hlen (List.length_pos_of_mem hx))
    rw [hy, List.mem_singleton] at hx
    subst hx
    rw [hy, Option.elim_some, hw, List.map_singleton, List.sum_singleton]

/-- **All that the replicas counted is reported**: in every calm run of unary calls, at every point at
which no request is under way, the blocks that the responses report add up to what the replicas counted;
whatever is evicted, and however the requests overtake each other.

**Proof sketch.** `reported_eq_executed`, and the counters of the replicas (`counted_of_run`). -/
theorem reported_eq_of_run (hrun : (lts F n deps).Run (fun _ _ a => Calm (SamePrompt deps.toDeps) a)
      (new policy cfg mocks) τ s) (hrest : s.AtRest)
    (hunary : ∀ h ∈ s.router.handlers, h.isUnary = true) :
    s.reported MockResponse.cachedBlocks = ∑ r, (s.replicas r).metrics.cachedBlocksTotal ∧
    s.reported MockResponse.totalBlocks = ∑ r, (s.replicas r).metrics.totalBlocksTotal := by
  have hcounted := counted_of_run hrun.exec
  refine ⟨(reported_eq_executed hrun hrest hunary fun _ => rfl).trans ?_,
    (reported_eq_executed hrun hrest hunary fun _ => rfl).trans ?_⟩
  · exact Finset.sum_congr rfl fun r _ => (hcounted.cached r).symm
  · exact Finset.sum_congr rfl fun r _ => (hcounted.total r).symm

/-- The steps of a call whose first attempt fails on its way, is retried, and is executed once more by the
first replica when all is over. -/
def straying : List (Action 2) :=
  (twoPrompts.take 1).map (fun req => .router (.spawnUnary req)) ++
    List.replicate 3 (.router (.run 0 .tick)) ++
    [.fail 0 (.unavailable "reset")] ++ List.replicate 5 (.router (.run 0 .tick)) ++
    [.serve 0, .deliver 0] ++ List.replicate 5 (.router (.run 0 .tick)) ++ [.serveStray 0]

/-- The client is told what the second replica found. -/
theorem answered_of_run_stray : ∃ τ s resp,
    (lts ℚ 2 charNet).Exec (new .cacheAware .default fun _ => .default) τ s ∧
      executions τ 0 = [1, 0] ∧ Answered τ 0 resp := by
  obtain ⟨τ, s, hrun, hexec, htold⟩ : ∃ τ s,
      (lts ℚ 2 charNet).Exec (new .cacheAware .default fun _ => .default) τ s ∧
        executions τ 0 = [1, 0] ∧ ((s.handler 0).bind Handler.told).isSome :=
    ⟨_, _, Lts.exec_get (step charNet) _ straying (by decide +kernel), by decide +kernel,
      by decide +kernel⟩
  obtain ⟨resp, hresp⟩ := Option.isSome_iff_exists.mp htold
  obtain ⟨h, hget, heq⟩ := Option.bind_eq_some_iff.mp hresp
  rw [Handler.told_eq_some heq] at hget
  exact ⟨τ, s, resp, hrun, hexec, answered_of_run hrun hget⟩

/-- The responses report the two blocks of one execution, and the replicas counted those of two. -/
theorem reported_le_of_run_stray : ∃ τ s,
    (lts ℚ 2 charNet).Exec (new .cacheAware .default fun _ => .default) τ s ∧
      s.reported MockResponse.totalBlocks = 2 ∧ ∑ r, (s.replicas r).metrics.totalBlocksTotal = 4 ∧
      s.reported MockResponse.totalBlocks ≤ ∑ r, (s.replicas r).metrics.totalBlocksTotal := by
  have hrun := Lts.exec_get (step charNet) (new (F := ℚ) (n := 2) .cacheAware .default fun _ => .default)
    straying (by decide +kernel)
  exact ⟨_, _, hrun, by decide +kernel, by decide +kernel, (reported_le_of_run hrun).2⟩

/-- Two calls, of which the second one overtakes the first one. -/
theorem reported_eq_of_run_two : ∃ τ s,
    (lts ℚ 1 charNet).Run (fun _ _ a => Calm (SamePrompt charDeps) a)
      (new .cacheAware .default fun _ => .default) τ s ∧
      s.reported MockResponse.cachedBlocks = 1 ∧
      s.reported MockResponse.cachedBlocks = ∑ r, (s.replicas r).metrics.cachedBlocksTotal := by
  have hrun := Lts.run_get (step charNet) (new (F := ℚ) (n := 1) .cacheAware .default fun _ => .default)
    (fun _ _ a => Calm (SamePrompt charDeps) a) overtaking (by decide +kernel)
  exact ⟨_, _, hrun, by decide +kernel,
    (reported_eq_of_run hrun (by unfold AtRest; decide +kernel) (by decide +kernel)).1⟩

end Runs

end Cluster
