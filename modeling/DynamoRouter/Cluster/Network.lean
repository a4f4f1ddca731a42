import DynamoRouter.MockTriton.Replica
import DynamoRouter.Router.System

set_option relaxedAutoImplicit false
set_option autoImplicit false

/-!
# The router and its replicas

The router as a concurrent system, the mock replicas that it calls, and the network between them. A task
of the router sends its request to the replica it picked; the request reaches the replica at any time
later; the replica looks the prompt up, caches it and answers; the answer reaches the task at any time
after that, a stream item by item. A call may fail at any time, with any status. A request of a call that
failed, or whose caller was dropped, may still reach its replica: it has gone *astray*. No replica restarts:
its cache and its counters, which it keeps in memory, are those of one process.

The replica's part is one step, which is what its critical section makes of it; `Deployment` has the steps
of its tasks apart, and shows no more. Both sides load the same tokenizer.

## Main definitions

* `Cluster` — the router, the replicas, and what is on its way between them.
* `Cluster.step`, `Cluster.lts` — one step of any of them.
* `Cluster.waiting` — the calls on their way, from the pick until they reach their replica.

## Main results

* `Cluster.step_inv` — all that a step can do.
* `Cluster.router_of_run` — along every run of the cluster, the router takes a run of its own.
-/

open Protocol

/-- What the two sides take from their libraries. -/
structure ClusterDeps extends Deps where
  /-- The text of a status, with its code and its message. -/
  statusText : Status → String

/-- What is on its way to a task of the router from the replica that it called. -/
inductive Wire
  /-- Nothing: no call is made, or it has not reached its replica. -/
  | empty
  /-- The answer of a unary call. -/
  | reply (result : Except Status MockResponse)
  /-- The rest of a stream. -/
  | items (chunks : List (ModelStreamInferResponse MockResponse))

/-- The router, its replicas, and the network between them. -/
structure Cluster (F : Type) (n : ℕ) where
  /-- The router. -/
  router : System F n MockResponse
  /-- The replicas. -/
  replicas : Fin n → MockTritonService
  /-- The request that each task of the router is at. -/
  requests : ℕ → Option ModelInferRequest
  /-- What is on its way to each task of the router. -/
  wires : ℕ → Wire
  /-- The requests that have gone astray, with their tasks and replicas. -/
  strays : List (ℕ × Fin n × ModelInferRequest)

/-! ## The two ends of a call -/

namespace Handler

section Calls

variable {n : ℕ} {Resp : Type}

/-- The replica that a handler has called, and whose answer it awaits. -/
def callee : Handler n Resp → Option (Fin n)
  | .unary (.upstream _ _ d) => some d.replica
  | .unary _ => none
  | .stream s =>
    match s.pc with
    | .opening d => some d.replica
    | .relaying d => some d.replica
    | _ => none

/-- The replica that a handler asks: from its pick until it has the answer, or has given up. -/
def asks : Handler n Resp → Option (Fin n)
  | .unary (.gaugePicked _ _ d) => some d.replica
  | .unary (.upstream _ _ d) => some d.replica
  | .unary _ => none
  | .stream s =>
    match s.pc with
    | .gaugePicked _ d => some d.replica
    | .recording _ d _ => some d.replica
    | .opening d => some d.replica
    | .relaying d => some d.replica
    | .forwarding d _ => some d.replica
    | _ => none

/-- How a handler learns that its call failed. -/
def failure (status : Status) : Handler n Resp → Option (Input Resp)
  | .unary (.upstream _ _ _) => some (.reply (.error status))
  | .unary _ => none
  | .stream s =>
    match s.pc with
    | .opening _ => some (.opened (.error status))
    | .relaying _ => some (.message (.error status))
    | _ => none

end Calls

/-- What a handler takes off the wire next, and what is left on it. A stream is opened before its request
is read. -/
def takes {n : ℕ} : Handler n MockResponse → Wire → Option (Input MockResponse × Wire)
  | .unary (.upstream _ _ _), .reply result => some (.reply result, .empty)
  | .unary _, _ => none
  | .stream s, w =>
    match s.pc, w with
    | .opening _, w => some (.opened (.ok ()), w)
    | .relaying _, .items (chunk :: chunks) => some (.message (.ok (some chunk)), .items chunks)
    | .relaying _, .items [] => some (.message (.ok none), .empty)
    | _, _ => none

end Handler

namespace MockTriton

/-- What a replica answers to the call of a handler: a unary call gets one response, a stream its items. -/
def answer {n : ℕ} (deps : ClusterDeps) (service : MockTritonService) (req : ModelInferRequest) :
    Handler n MockResponse → Wire
  | .unary _ => .reply (service.modelInfer deps.encode req).1
  | .stream _ => .items (streamItems deps.statusText (service.streamInfer deps.encode req).1)

end MockTriton

/-- Whether a step of the router is the arrival of an answer. -/
def Act.fromUpstream {n : ℕ} {Resp : Type} : Act n Resp → Bool
  | .run _ (.reply _) => true
  | .run _ (.opened _) => true
  | .run _ (.message _) => true
  | _ => false

namespace Cluster

variable {F : Type} {n : ℕ}

/-- A step of the cluster. -/
inductive Action (n : ℕ)
  /-- The router takes a step of its own, or hears from a client or from the prober. -/
  | router (act : Act n MockResponse)
  /-- The request of task `t` reaches its replica. -/
  | serve (t : ℕ)
  /-- A request that has gone astray reaches its replica. -/
  | serveStray (i : ℕ)
  /-- Task `t` takes what is next on its wire. -/
  | deliver (t : ℕ)
  /-- The call of task `t` fails. -/
  | fail (t : ℕ) (status : Status)

/-- Whether a step makes a task give up its call: the call fails, or its future is dropped. -/
def Action.loses : Action n → Bool
  | .fail _ _ => true
  | .router (.run _ .drop) => true
  | _ => false

/-- The request that a client brings in a step. -/
def Action.brings : Action n → Option ModelInferRequest
  | .router (.spawnUnary req) => some req
  | .router (.run _ (.recv (some (.ok req)))) => some req
  | _ => none

/-- What is seen of a step of the cluster. -/
inductive Seen (n : ℕ)
  /-- The router took a step, with its events. -/
  | router (act : Act n MockResponse) (es : List (Event n))
  /-- A replica served a request of task `t`. -/
  | served (t : ℕ) (r : Fin n) (result : Except Status Prefill)

/-- The step of the router. -/
def Seen.routed : Seen n → Option (Act n MockResponse × List (Event n))
  | .router act es => some (act, es)
  | .served _ _ _ => none

/-- The cluster at the start. -/
def new (policy : Policy) (cfg : SchedulerConfig F) (mocks : Fin n → MockConfig) : Cluster F n where
  router := .new n MockResponse policy cfg
  replicas r := .new (mocks r)
  requests _ := none
  wires _ := .empty
  strays := []

/-- The handler of a task. -/
def handler (s : Cluster F n) (t : ℕ) : Option (Handler n MockResponse) := s.router.handlers[t]?

/-- A call that is on its way: a replica is asked for a request, and nothing has come back. -/
def onItsWay (asked : Option (Fin n)) : Wire → Option ModelInferRequest →
    Option (Fin n × ModelInferRequest)
  | .empty, req => asked.bind fun r => req.map fun req => (r, req)
  | _, _ => none

/-- **The call of task `t` that is on its way**, from its pick until it reaches its replica. -/
def waiting (s : Cluster F n) (t : ℕ) : Option (Fin n × ModelInferRequest) :=
  onItsWay ((s.handler t).bind Handler.asks) (s.wires t) (s.requests t)

/-- The request that goes astray when task `t` gives up. -/
def stray (s : Cluster F n) (t : ℕ) : List (ℕ × Fin n × ModelInferRequest) :=
  ((s.waiting t).map fun x => (t, x)).toList

/-- The requests of the tasks, after a step of the router. -/
def requestsAfter (s : Cluster F n) : Act n MockResponse → ℕ → Option ModelInferRequest
  | .spawnUnary req => Function.update s.requests s.router.handlers.length (some req)
  | .run t (.recv (some (.ok req))) => Function.update s.requests t (some req)
  | _ => s.requests

/-- The wires, after a step of the router: a task that reads its next request, or is dropped, has let go
of its call. -/
def wiresAfter (s : Cluster F n) : Act n MockResponse → ℕ → Wire
  | .run t (.recv _) => Function.update s.wires t .empty
  | .run t .drop => Function.update s.wires t .empty
  | _ => s.wires

/-- The requests that go astray in a step of the router. -/
def straysAfter (s : Cluster F n) : Act n MockResponse → List (ℕ × Fin n × ModelInferRequest)
  | .run t .drop => s.strays ++ s.stray t
  | _ => s.strays

section Step

variable [Mul F] [Sub F] [LT F] [DecidableLT F] [ScoreArith F]

/-- One step of the cluster. -/
def step (deps : ClusterDeps) (s : Cluster F n) : Action n → Option (Seen n × Cluster F n)
  | .router act =>
    if act.fromUpstream then none
    else (s.router.step deps.toDeps act).map fun r =>
      (.router act r.1,
        { s with
          router := r.2
          requests := s.requestsAfter act
          wires := s.wiresAfter act
          strays := s.straysAfter act })
  | .serve t =>
    match s.handler t, s.requests t, s.wires t with
    | some h, some req, .empty => h.callee.map fun r =>
        let service := s.replicas r
        (.served t r (service.prefill deps.encode req).1,
          { s with
            replicas := Function.update s.replicas r (service.prefill deps.encode req).2
            wires := Function.update s.wires t (MockTriton.answer deps service req h) })
    | _, _, _ => none
  | .serveStray i => s.strays[i]?.map fun x =>
      let service := s.replicas x.2.1
      (.served x.1 x.2.1 (service.prefill deps.encode x.2.2).1,
        { s with
          replicas := Function.update s.replicas x.2.1 (service.prefill deps.encode x.2.2).2
          strays := s.strays.eraseIdx i })
  | .deliver t =>
    match (s.handler t).bind fun h => h.takes (s.wires t) with
    | none => none
    | some (input, wire) => (s.router.step deps.toDeps (.run t input)).map fun r =>
        (.router (.run t input) r.1,
          { s with router := r.2, wires := Function.update s.wires t wire })
  | .fail t status =>
    match (s.handler t).bind fun h => h.failure status with
    | none => none
    | some input => (s.router.step deps.toDeps (.run t input)).map fun r =>
        (.router (.run t input) r.1,
          { s with
            router := r.2
            wires := Function.update s.wires t .empty
            strays := s.strays ++ s.stray t })

/-- The cluster as a transition system. -/
def lts (F : Type) (n : ℕ) [Mul F] [Sub F] [LT F] [DecidableLT F] [ScoreArith F]
    (deps : ClusterDeps) : Lts (Cluster F n) (Action n) (Seen n) := .ofFun (step deps)

/-! ## What a step can do -/

/-- All that one step of the cluster can do. -/
inductive Effect (deps : ClusterDeps) (s : Cluster F n) : Action n → Seen n → Cluster F n → Prop
  /-- The router takes a step that is not the arrival of an answer. -/
  | routed (act : Act n MockResponse) (es : List (Event n)) (router : System F n MockResponse)
      (hact : act.fromUpstream = false)
      (hstep : (System.lts F n MockResponse deps.toDeps).step s.router act es router) :
      Effect deps s (.router act) (.router act es)
        { s with
          router := router
          requests := s.requestsAfter act
          wires := s.wiresAfter act
          strays := s.straysAfter act }
  /-- A request reaches its replica. -/
  | served (t : ℕ) (h : Handler n MockResponse) (r : Fin n) (req : ModelInferRequest)
      (hget : s.handler t = some h) (hcallee : h.callee = some r) (hreq : s.requests t = some req)
      (hwire : s.wires t = .empty) :
      Effect deps s (.serve t) (.served t r ((s.replicas r).prefill deps.encode req).1)
        { s with
          replicas := Function.update s.replicas r ((s.replicas r).prefill deps.encode req).2
          wires := Function.update s.wires t (MockTriton.answer deps (s.replicas r) req h) }
  /-- A request that has gone astray reaches its replica. -/
  | servedStray (i t : ℕ) (r : Fin n) (req : ModelInferRequest)
      (hget : s.strays[i]? = some (t, r, req)) :
      Effect deps s (.serveStray i) (.served t r ((s.replicas r).prefill deps.encode req).1)
        { s with
          replicas := Function.update s.replicas r ((s.replicas r).prefill deps.encode req).2
          strays := s.strays.eraseIdx i }
  /-- A task takes what is next on its wire. -/
  | delivered (t : ℕ) (h : Handler n MockResponse) (input : Input MockResponse) (wire : Wire)
      (es : List (Event n)) (router : System F n MockResponse) (hget : s.handler t = some h)
      (htakes : h.takes (s.wires t) = some (input, wire))
      (hstep : (System.lts F n MockResponse deps.toDeps).step s.router (.run t input) es router) :
      Effect deps s (.deliver t) (.router (.run t input) es)
        { s with router := router, wires := Function.update s.wires t wire }
  /-- A call fails. -/
  | failed (t : ℕ) (h : Handler n MockResponse) (status : Status) (input : Input MockResponse)
      (es : List (Event n)) (router : System F n MockResponse) (hget : s.handler t = some h)
      (hfailure : h.failure status = some input)
      (hstep : (System.lts F n MockResponse deps.toDeps).step s.router (.run t input) es router) :
      Effect deps s (.fail t status) (.router (.run t input) es)
        { s with
          router := router
          wires := Function.update s.wires t .empty
          strays := s.strays ++ s.stray t }

/-- Every step of the cluster has one of the effects. -/
theorem step_inv {deps : ClusterDeps} {s s' : Cluster F n} {a : Action n} {e : Seen n}
    (h : (lts F n deps).step s a e s') : Effect deps s a e s' := by
  rw [lts, Lts.ofFun_step] at h
  cases a with
  | router act =>
    simp only [step] at h
    split_ifs at h with hact
    obtain ⟨⟨es, router⟩, hstep, heq⟩ := Option.map_eq_some_iff.mp h
    cases heq
    exact .routed act es router (Bool.eq_false_iff.mpr hact) hstep
  | serve t =>
    simp only [step] at h
    split at h
    · rename_i hd req hget hreq hwire
      obtain ⟨r, hcallee, heq⟩ := Option.map_eq_some_iff.mp h
      cases heq
      exact .served t hd r req hget hcallee hreq hwire
    · cases h
  | serveStray i =>
    obtain ⟨⟨t, r, req⟩, hget, heq⟩ := Option.map_eq_some_iff.mp h
    cases heq
    exact .servedStray i t r req hget
  | deliver t =>
    simp only [step] at h
    split at h
    · cases h
    · rename_i input wire hbind
      obtain ⟨hd, hget, htakes⟩ := Option.bind_eq_some_iff.mp hbind
      obtain ⟨⟨es, router⟩, hstep, heq⟩ := Option.map_eq_some_iff.mp h
      cases heq
      exact .delivered t hd input wire es router hget htakes hstep
  | fail t status =>
    simp only [step] at h
    split at h
    · cases h
    · rename_i input hbind
      obtain ⟨hd, hget, hfailure⟩ := Option.bind_eq_some_iff.mp hbind
      obtain ⟨⟨es, router⟩, hstep, heq⟩ := Option.map_eq_some_iff.mp h
      cases heq
      exact .failed t hd status input es router hget hfailure hstep

/-! ## The router's part of a run -/

/-- The router's part of a trace. -/
def routerTrace (τ : List (Action n × Seen n)) : List (Act n MockResponse × List (Event n)) :=
  τ.filterMap fun x => x.2.routed

/-- The router's part of a trace with one more step. -/
theorem routerTrace_snoc (τ : List (Action n × Seen n)) (a : Action n) (e : Seen n) :
    routerTrace (τ ++ [(a, e)]) = routerTrace τ ++ e.routed.toList := by
  rw [routerTrace, List.filterMap_append, routerTrace]
  cases e <;> rfl

variable {deps : ClusterDeps} {policy : Policy} {cfg : SchedulerConfig F}
  {mocks : Fin n → MockConfig} {ok : List (Action n × Seen n) → Cluster F n → Action n → Prop}
  {τ : List (Action n × Seen n)} {s : Cluster F n}

/-- **The router of a cluster is the router**: along every run of the cluster it takes a run of its own,
so that all that holds along its runs holds in a cluster. -/
theorem router_of_run (h : (lts F n deps).Run ok (new policy cfg mocks) τ s) :
    (System.lts F n MockResponse deps.toDeps).Exec (System.new n MockResponse policy cfg)
      (routerTrace τ) s.router :=
  Lts.Run.project (M := lts F n deps) Cluster.router (fun x => x.2.routed)
    (fun _ _ _ _ hstep => by
      cases step_inv hstep with
      | routed act es router _ hrouter => exact .inl ⟨act, es, rfl, hrouter⟩
      | served => exact .inr ⟨rfl, rfl⟩
      | servedStray => exact .inr ⟨rfl, rfl⟩
      | delivered t _ input _ es router _ _ hrouter => exact .inl ⟨.run t input, es, rfl, hrouter⟩
      | failed t _ _ input es router _ _ hrouter => exact .inl ⟨.run t input, es, rfl, hrouter⟩) h

end Step

end Cluster
