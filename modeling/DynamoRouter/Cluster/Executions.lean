import DynamoRouter.Cluster.Calls

set_option relaxedAutoImplicit false
set_option autoImplicit false

/-!
# How often a request is executed

Every retry may execute a request once more: a call that fails may have reached its replica, or reach it
later. Still each execution of a request is due to a pick of its own, of the same replica. So a unary call
is executed at most twice, and a message of a client stream at most once, whatever fails and whenever.

## Main definitions

* `Cluster.executions` — the replicas that executed the requests of a task.
* `Cluster.picks` — the replicas that were picked for the requests of a task.
* `Handler.picksLeft` — how often a handler may still pick without a new request.

## Main results

* `Cluster.picks_eq_of_run` — every pick was executed once, or is on its way, or has gone astray.
* `Cluster.executions_subperm` — what follows for the number of executions.
-/

open Protocol

namespace Handler

variable {F : Type} {n : ℕ} {Resp : Type}

/-- The picks that an attempt of a unary call leaves for later. -/
def picksAfter : Attempt n → ℕ
  | .first => 1
  | .second _ => 0

/-- How often a handler may still pick without a new request. -/
def picksLeft : Handler n Resp → ℕ
  | .unary (.start _) => 2
  | .unary (.picking _ att) => picksAfter att + 1
  | .unary (.gaugePicked _ att _) => picksAfter att
  | .unary (.upstream _ att _) => picksAfter att
  | .unary (.completing _ att _ _) => picksAfter att
  | .unary (.gaugeCompleted _ att _ _ _) => picksAfter att
  | .unary (.marking _ att _ _) => picksAfter att
  | .unary _ => 0
  | .stream s =>
    match s.pc with
    | .preparing _ => 1
    | .picking _ => 1
    | _ => 0

/-- Whether an input is a request of a client. -/
def receives : Input Resp → Bool
  | .recv (some (.ok _)) => true
  | _ => false

variable [Mul F] [Sub F] [LT F] [DecidableLT F] [ScoreArith F]

/-- A step picks at most as often as the handler may, unless it receives a request. -/
theorem picksLeft_step {deps : Deps} {inner inner' : RouterInner F n} {t : ℕ}
    {h h' : Handler n Resp} {input : Input Resp} {es : List (Event n)}
    (hstep : h.step deps inner t input = some (es, inner', h')) :
    (es.filterMap (Event.decisionOf t)).length + h'.picksLeft ≤
      h.picksLeft + if receives input then 1 else 0 := by
  rcases step_inv hstep with ⟨pc, pc', rfl, rfl, hpc⟩ | ⟨s, s', rfl, rfl, hs⟩
  · cases UnaryPc.step_inv hpc with
    | picked hashes att d =>
      simp only [Event.decisionOf, picksLeft, List.filterMap_cons, List.filterMap_nil, if_pos,
        List.length_cons, List.length_nil]
      omega
    | _ =>
      simp [Event.decisionOf, picksLeft, picksAfter, List.filterMap_cons]
  · have heff := StreamTask.step_inv hs
    obtain ⟨pc, out, rxOpen⟩ := s
    cases heff with
    | disconnected => simp [picksLeft]
    | settled d exit => cases exit <;> exact Nat.zero_le _
    | _ =>
      simp [Event.decisionOf, picksLeft, StreamTask.goto, receives, List.filterMap_cons]

end Handler

namespace System

variable {F : Type} {n : ℕ} {Resp : Type}

/-- Whether a step brings a request of its client to task `t`. -/
def brings (t : ℕ) : Act n Resp → Bool
  | .run t' input => decide (t' = t) && Handler.receives input
  | _ => false

/-- The number of requests that task `t` received on its stream. -/
def received (τ : List (Act n Resp × List (Event n))) (t : ℕ) : ℕ := τ.countP fun x => brings t x.1

/-- How often a handler may pick: a unary call twice, a client stream once for each request received. -/
def allowance (received : ℕ) : Handler n Resp → ℕ
  | .unary _ => 2
  | .stream _ => received

/-- The requests received with one more step. -/
theorem received_snoc (τ : List (Act n Resp × List (Event n))) (act : Act n Resp)
    (es : List (Event n)) (t : ℕ) :
    received (τ ++ [(act, es)]) t = received τ t + if brings t act then 1 else 0 := by
  rw [received, List.countP_append, List.countP_singleton, received]

variable [Mul F] [Sub F] [LT F] [DecidableLT F] [ScoreArith F]

/-- A step of a handler keeps to what it may pick. -/
theorem allowance_step {deps : Deps} {inner inner' : RouterInner F n} {t : ℕ}
    {h h' : Handler n Resp} {input : Input Resp} {es : List (Event n)} {picked received : ℕ}
    (hstep : h.step deps inner t input = some (es, inner', h'))
    (hle : picked + h.picksLeft ≤ allowance received h) :
    picked + (es.filterMap (Event.decisionOf t)).length + h'.picksLeft ≤
      allowance (received + if Handler.receives input then 1 else 0) h' := by
  have hleft := Handler.picksLeft_step hstep
  rcases Handler.step_inv hstep with ⟨pc, pc', rfl, rfl, hpc⟩ | ⟨s, s', rfl, rfl, hs⟩
  · -- a unary call receives no further request
    have hnot : Handler.receives input = false := by cases UnaryPc.step_inv hpc <;> rfl
    rw [hnot] at hleft
    simp only [allowance] at hle ⊢
    simp only [Bool.false_eq_true, if_false] at hleft
    omega
  · simp only [allowance] at hle ⊢
    omega

/-- **How often a task picks**: a unary call at most twice, a client stream at most once for each request
that it received.

**Proof sketch.** By induction on the run, for all tasks. A step of a task keeps its account
(`Handler.allowance_step`), and makes no decision for the others; a new task has made none, and the prober
and the gauges make none. -/
theorem decisions_le_allowance {deps : Deps} {policy : Policy} {cfg : SchedulerConfig F}
    {τ : List (Act n Resp × List (Event n))} {s : System F n Resp}
    (hrun : (lts F n Resp deps).Exec (new n Resp policy cfg) τ s) {t : ℕ} {h : Handler n Resp}
    (hget : s.handlers[t]? = some h) :
    (decisions τ t).length + h.picksLeft ≤ allowance (received τ t) h := by
  have hinv : ∀ t h, s.handlers[t]? = some h →
      (decisions τ t).length + h.picksLeft ≤ allowance (received τ t) h := by
    clear hget h t
    induction hrun with
    | nil => exact fun t h hget => by simp [new] at hget
    | @snoc τ s s' act es hrun _ hstep ih =>
      have hquiet : ∀ t, es.filterMap (Event.decisionOf t) = [] → brings t act = false →
          (decisions (τ ++ [(act, es)]) t = decisions τ t) ∧
            received (τ ++ [(act, es)]) t = received τ t := fun t hes hbrings => by
        rw [decisions_snoc, hes, List.append_nil, received_snoc, hbrings]
        exact ⟨rfl, rfl⟩
      cases step_inv hstep with
      | spawned act hd hact =>
        intro t h hget
        have hbrings : brings t act = false := by cases act <;> first | rfl | cases hact
        rw [(hquiet t rfl hbrings).1, (hquiet t rfl hbrings).2]
        rcases getElem?_concat_inv hget with hold | ⟨rfl, rfl⟩
        · exact ih t h hold
        · rw [(tallies_of_run hrun).fresh _ le_rfl]
          cases act <;> cases hact
          · exact le_rfl
          · exact Nat.zero_le _
      | ran i input _ inner h h' hget hhandler =>
        intro t hd hi
        rcases getElem?_set_inv hget hi with ⟨rfl, rfl⟩ | ⟨hne, hold⟩
        · have hbrings : brings t (.run t input : Act n Resp) = Handler.receives input := by
            simp [brings]
          rw [decisions_snoc, List.length_append, received_snoc, hbrings]
          exact allowance_step hhandler (ih t h hget)
        · have hbrings : brings t (.run i input : Act n Resp) = false := by
            simp [brings, Ne.symm hne]
          have hsame := hquiet t (decisionOf_move hne (Handler.move_of_step hhandler)) hbrings
          rw [hsame.1, hsame.2]
          exact ih t hd hold
      | probed results =>
        intro t h hget
        have hsame := hquiet t (filterMap_decisionOf_eq_nil (pickOf_probeEvents t _ _)) rfl
        rw [hsame.1, hsame.2]
        exact ih t h hget
      | published =>
        intro t h hget
        rw [(hquiet t rfl rfl).1, (hquiet t rfl rfl).2]
        exact ih t h hget
  exact hinv t h hget

end System

namespace Cluster

variable {F : Type} {n : ℕ}

/-- The replica that served a request of task `t`. -/
def Seen.servedFor (t : ℕ) : Seen n → Option (Fin n)
  | .router _ _ => none
  | .served t' r _ => if t' = t then some r else none

/-- **The executions of task `t`**: the replicas that served its requests, in order. -/
def executions (τ : List (Action n × Seen n)) (t : ℕ) : List (Fin n) :=
  τ.filterMap fun x => x.2.servedFor t

/-- The replicas that were picked for the requests of task `t`, in order. -/
def picks (τ : List (Action n × Seen n)) (t : ℕ) : List (Fin n) :=
  (System.decisions (routerTrace τ) t).map fun x => x.2.replica

/-- The requests of task `t` for replica `r` that have gone astray. -/
def straysOf (s : Cluster F n) (t : ℕ) (r : Fin n) : ℕ :=
  s.strays.countP fun x => decide (x.1 = t ∧ x.2.1 = r)

/-- One if the call of task `t` to replica `r` is on its way. -/
def waitingOf (s : Cluster F n) (t : ℕ) (r : Fin n) : ℕ :=
  if (s.waiting t).map Prod.fst = some r then 1 else 0

/-- The executions with one more step. -/
theorem executions_snoc (τ : List (Action n × Seen n)) (a : Action n) (e : Seen n) (t : ℕ) :
    executions (τ ++ [(a, e)]) t = executions τ t ++ (e.servedFor t).toList := by
  rw [executions, List.filterMap_append, executions]
  cases hserved : e.servedFor t <;> simp [hserved]

/-- The picks with one more step of the router. -/
theorem picks_snoc (τ : List (Action n × Seen n)) (a : Action n) (act : Act n MockResponse)
    (es : List (Event n)) (t : ℕ) : picks (τ ++ [(a, .router act es)]) t =
      picks τ t ++ (es.filterMap (Event.decisionOf t)).map fun x => x.2.replica := by
  rw [picks, routerTrace_snoc, Seen.routed, Option.toList_some, System.decisions_snoc,
    List.map_append, picks]

/-- The picks with one more step of a replica. -/
theorem picks_served (τ : List (Action n × Seen n)) (a : Action n) (t' : ℕ) (r : Fin n)
    (result : Except Status Prefill) (t : ℕ) : picks (τ ++ [(a, .served t' r result)]) t = picks τ t := by
  rw [picks, routerTrace_snoc, Seen.routed, Option.toList_none, List.append_nil, picks]

/-- A task without a call on its way. -/
theorem waitingOf_none {s : Cluster F n} {t : ℕ} (h : s.waiting t = none) (r : Fin n) :
    s.waitingOf t r = 0 := by simp [waitingOf, h]

/-- The call that a task gives up goes astray. -/
theorem countP_stray (s : Cluster F n) (t i : ℕ) (r : Fin n) :
    (s.stray t).countP (fun x => decide (x.1 = i ∧ x.2.1 = r)) =
      if i = t then s.waitingOf t r else 0 := by
  rw [stray, waitingOf]
  rcases s.waiting t with _ | ⟨r', req⟩
  · simp
  · by_cases hi : i = t
    · subst hi
      simp [List.countP_cons]
    · simp [hi, Ne.symm hi]

/-- The account of the picks: each was executed once, or is on its way, or has gone astray. -/
def Accounted (τ : List (Action n × Seen n)) (s : Cluster F n) : Prop :=
  ∀ t r, (picks τ t).count r = (executions τ t).count r + s.straysOf t r + s.waitingOf t r

section Step

variable [Mul F] [Sub F] [LT F] [DecidableLT F] [ScoreArith F] {deps : ClusterDeps}

/-- **One step keeps the account.**

**Proof sketch.** By the flow of a step. A pick puts one request on its way, which is what it adds to both
sides. A request that is served leaves the way or the strays for the executions, and one that is lost
leaves the way for the strays; all else is as before. -/
theorem Accounted.step {τ : List (Action n × Seen n)} {s s' : Cluster F n} {a : Action n} {e : Seen n}
    (h : Accounted τ s) (hflow : Flow deps s a e s') : Accounted (τ ++ [(a, e)]) s' := by
  intro i r
  have hold := h i r
  have hstraysOf : s'.strays = s.strays → s'.straysOf i r = s.straysOf i r := fun heq => by
    rw [straysOf, straysOf, heq]
  have hwaitingOf : s'.waiting i = s.waiting i → s'.waitingOf i r = s.waitingOf i r := fun heq => by
    rw [waitingOf, waitingOf, heq]
  rw [executions_snoc]
  cases hflow with
  | picked t hashes d req _ _ _ hbefore hafter _ hstrays =>
    rw [picks_snoc, Seen.servedFor, Option.toList_none, List.append_nil, List.count_append, hold,
      hstraysOf hstrays]
    by_cases hi : i = t
    · subst hi
      rw [waitingOf_none hbefore, waitingOf, hafter, Function.update_self]
      simp [Event.decisionOf, List.count_singleton]
    · rw [hwaitingOf (by rw [hafter, Function.update_of_ne hi])]
      simp [Event.decisionOf, Ne.symm hi]
  | served t r' req _ hbefore hafter _ _ hstrays =>
    rw [picks_served, hold, hstraysOf hstrays, Seen.servedFor]
    by_cases hi : i = t
    · subst hi
      rw [waitingOf, hbefore, waitingOf_none (by rw [hafter, Function.update_self]), if_pos rfl,
        Option.toList_some, List.count_append, List.count_singleton]
      simp only [Option.map_some, Option.some_inj, beq_iff_eq]
      omega
    · rw [hwaitingOf (by rw [hafter, Function.update_of_ne hi]), if_neg (Ne.symm hi),
        Option.toList_none, List.append_nil]
  | servedStray j t r' req _ hget hafter _ _ hstrays =>
    obtain ⟨hj, heq⟩ := List.getElem?_eq_some_iff.mp hget
    have hcount := (List.getElem_cons_eraseIdx_perm hj).countP_eq
      fun x => decide (x.1 = i ∧ x.2.1 = r)
    rw [List.countP_cons, heq] at hcount
    rw [picks_served, hold, hwaitingOf (by rw [hafter]), Seen.servedFor, straysOf, straysOf, hstrays,
      ← hcount]
    by_cases hi : t = i
    · subst hi
      rw [if_pos rfl, Option.toList_some, List.count_append, List.count_singleton]
      simp only [true_and, decide_eq_true_eq, beq_iff_eq]
      omega
    · rw [if_neg hi, Option.toList_none, List.append_nil]
      simp [hi]
  | lost t _ _ _ _ hes _ hafter _ hstrays =>
    rw [picks_snoc, hes, Seen.servedFor, List.map_nil, Option.toList_none, List.append_nil,
      List.append_nil, hold, straysOf, straysOf, hstrays, List.countP_append, countP_stray]
    by_cases hi : i = t
    · subst hi
      rw [if_pos rfl, waitingOf_none (s := s') (by rw [hafter, Function.update_self])]
      omega
    · rw [if_neg hi, hwaitingOf (by rw [hafter, Function.update_of_ne hi])]
      omega
  | quiet _ _ _ hes _ hafter _ hstrays =>
    rw [picks_snoc, hes, Seen.servedFor, List.map_nil, Option.toList_none, List.append_nil,
      List.append_nil, hold, hstraysOf hstrays, hwaitingOf (by rw [hafter])]

variable {policy : Policy} {cfg : SchedulerConfig F} {mocks : Fin n → MockConfig}
  {τ : List (Action n × Seen n)} {s : Cluster F n}

/-- **No request is lost, and none is executed twice for one pick.** At every point of every run, whatever
fails: the picks of a replica for a task are as many as its executions for the task, and the requests of
the task for it that have gone astray, and the one that is on its way. -/
theorem picks_eq_of_run (h : (lts F n deps).Exec (new policy cfg mocks) τ s) (t : ℕ) (r : Fin n) :
    (picks τ t).count r = (executions τ t).count r + s.straysOf t r + s.waitingOf t r := by
  have hinv : Accounted τ s ∧ s.Sound deps.toDeps :=
    Lts.Run.invariant (I := fun τ s => Accounted τ s ∧ s.Sound deps.toDeps) h
      ⟨fun _ _ => rfl, sound_new _ policy cfg mocks⟩
      fun _ _ _ _ _ hI _ hstep => ⟨hI.1.step (flow_of_step hI.2 hstep), hI.2.step hstep⟩
  exact hinv.1 t r

/-- **How often a request is executed.** At every point of every run of the cluster, whatever fails and
whatever goes astray: each execution of a task has a pick of its own, of the replica that executed it; the
executions of a unary call are at most two, and those of a client stream at most the requests that it
received.

**Proof sketch.** By `picks_eq_of_run` the executions on a replica are at most its picks, and
`System.decisions_le_allowance` bounds the picks. -/
theorem executions_subperm (hrun : (lts F n deps).Exec (new policy cfg mocks) τ s) (t : ℕ) :
    (executions τ t).Subperm (picks τ t) ∧
    (∀ pc, s.handler t = some (.unary pc) → (executions τ t).length ≤ 2) ∧
    ∀ task, s.handler t = some (.stream task) →
      (executions τ t).length ≤ System.received (routerTrace τ) t := by
  have hsub : (executions τ t).Subperm (picks τ t) := by
    rw [List.subperm_ext_iff]
    intro r _
    rw [picks_eq_of_run hrun t r]
    omega
  have hpicks : ∀ h, s.handler t = some h →
      (executions τ t).length ≤ System.allowance (System.received (routerTrace τ) t) h := by
    intro h hget
    have hle := hsub.length_le
    rw [picks, List.length_map] at hle
    have := System.decisions_le_allowance (router_of_run hrun) hget
    omega
  exact ⟨hsub, fun pc hget => hpicks _ hget, fun task hget => hpicks _ hget⟩

/-- Libraries that have no tokens for the empty prompt. -/
def emptyPromptNet : ClusterDeps where
  toDeps := System.emptyPromptDeps
  statusText _ := ""

/-- A call whose first answer is lost on its way: it is executed on both replicas. -/
theorem executions_subperm_lost : ∃ τ s,
    (lts ℚ 2 emptyPromptNet).Exec (new .cacheAware System.capOne fun _ => .default) τ s ∧
      executions τ 0 = [0, 1] ∧ (executions τ 0).Subperm (picks τ 0) ∧
      (executions τ 0).length ≤ 2 := by
  have hrun := Lts.exec_get (step emptyPromptNet)
    (new (n := 2) .cacheAware System.capOne fun _ => .default)
    [.router (.spawnUnary System.emptyPrompt), .router (.run 0 .tick), .router (.run 0 .tick),
      .router (.run 0 .tick), .serve 0, .fail 0 (.unavailable "reset"), .router (.run 0 .tick),
      .router (.run 0 .tick), .router (.run 0 .tick), .router (.run 0 .tick), .router (.run 0 .tick),
      .serve 0, .deliver 0]
    (by decide +kernel)
  obtain ⟨hsub, -, -⟩ := executions_subperm hrun 0
  exact ⟨_, _, hrun, by decide +kernel, hsub, by decide +kernel⟩

end Step

end Cluster
