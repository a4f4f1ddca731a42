import DynamoRouter.Cluster.Calls
import DynamoRouter.MockTriton.Replica

set_option relaxedAutoImplicit false
set_option autoImplicit false

/-!
# The router and its replicas, one step of a task at a time

The cluster again, with the replicas as the concurrent systems that they are. A request that reaches its
replica starts a task there. The task takes the mutex, increments the two counters one at a time, sleeps
and answers, and any other task of the router or of a replica may step in between. The router takes from
an answer what the task has sent so far.

As in `Cluster`, a call may fail at any time, its request may go astray, and no replica restarts. A task
of a replica whose caller is gone runs on, unless it is dropped at its `await`.

## Main definitions

* `Deployment` — the router, the replicas with their tasks, and the calls that connect them.
* `Deployment.wire` — what has been sent of the answer that a task of the router awaits.
* `Deployment.step`, `Deployment.lts` — one step of any task.

## Main results

* `Deployment.step_inv` — all that a step can do.
-/

open Protocol

/-- What a replica takes from its libraries. -/
def ClusterDeps.replica (deps : ClusterDeps) : ReplicaDeps := ⟨deps.encode, deps.statusText⟩

/-- A call that has reached its replica. -/
structure Link (n : ℕ) where
  /-- The replica. -/
  replica : Fin n
  /-- The task of the replica that answers it. -/
  worker : ℕ
  /-- How many items of the answer the router has taken. -/
  taken : ℕ

/-- A link after its task took an input. -/
def Link.after {n : ℕ} (l : Link n) (input : Input MockResponse) : Link n :=
  { l with taken := l.taken + input.isItem.toNat }

/-- The router, its replicas with their tasks, and what connects them. -/
structure Deployment (F : Type) (n : ℕ) where
  /-- The router. -/
  router : System F n MockResponse
  /-- The replicas. -/
  replicas : Fin n → Replica
  /-- The request that each task of the router is at. -/
  requests : ℕ → Option ModelInferRequest
  /-- The call of each task of the router, once it has reached its replica. -/
  links : ℕ → Option (Link n)
  /-- The task of the router that each task of a replica was started for. -/
  callers : Fin n → ℕ → ℕ
  /-- The requests that have gone astray, with their tasks and replicas. -/
  strays : List (ℕ × Fin n × ModelInferRequest)

/-! ## The two ends of a call -/

/-- The task that a replica starts for the call of a handler. The only item of a stream comes with it. -/
def Handler.worker {n : ℕ} (req : ModelInferRequest) : Handler n MockResponse → Replica.Worker
  | .unary _ => .call req .start
  | .stream _ => .stream (.preparing req) [] true

namespace Replica

/-- What a task has sent of its answer, but for the first `taken` items. The end of a stream is seen when
its task is finished, unless the connection is gone. -/
def Worker.offers (taken : ℕ) : Worker → Wire
  | .call _ (.done result) => .reply result
  | .call _ _ => .empty
  | .stream pc out rx =>
    match out.drop taken, pc, rx with
    | chunk :: chunks, _, _ => .items (chunk :: chunks)
    | [], .finished, true => .items []
    | [], _, _ => .empty

/-- What can move a task of a replica. There is one request in a call, and it has arrived; what the router
sends breaks off only when it has let go of the call. -/
def Input.moves (linked : Bool) : Input → Bool
  | .recv (some (.ok _)) => false
  | .recv (some (.error _)) => !linked
  | _ => true

end Replica

namespace Deployment

variable {F : Type} {n : ℕ}

/-- A step of the deployment. -/
inductive Action (n : ℕ)
  /-- The router takes a step of its own, or hears from a client or from the prober. -/
  | router (act : Act n MockResponse)
  /-- The request of task `t` reaches its replica. -/
  | arrive (t : ℕ)
  /-- A request that has gone astray reaches its replica. -/
  | arriveStray (i : ℕ)
  /-- Task `k` of replica `r` steps. -/
  | work (r : Fin n) (k : ℕ) (input : Replica.Input)
  /-- Task `t` takes what is next of its answer. -/
  | deliver (t : ℕ)
  /-- The call of task `t` fails. -/
  | fail (t : ℕ) (status : Status)

/-- The deployment at the start. -/
def new (policy : Policy) (cfg : SchedulerConfig F) (mocks : Fin n → MockConfig) : Deployment F n where
  router := .new n MockResponse policy cfg
  replicas r := .new (mocks r)
  requests _ := none
  links _ := none
  callers _ _ := 0
  strays := []

/-- **What has been sent of the answer to task `t`**, and not been taken. -/
def wire (d : Deployment F n) (t : ℕ) : Wire :=
  match d.links t with
  | none => .empty
  | some l => ((d.replicas l.replica).workers[l.worker]?).elim .empty (Replica.Worker.offers l.taken)

/-- The deployment as a cluster, with what the replicas have counted and sent so far. -/
def view (d : Deployment F n) : Cluster F n where
  router := d.router
  replicas r := (d.replicas r).service
  requests := d.requests
  wires := d.wire
  strays := d.strays

/-- The handler of a task. -/
def handler (d : Deployment F n) (t : ℕ) : Option (Handler n MockResponse) := d.router.handlers[t]?

/-- Whether a task of the router awaits what task `k` of replica `r` answers. -/
def linked (d : Deployment F n) (r : Fin n) (k : ℕ) : Bool :=
  (d.links (d.callers r k)).any fun l => l.replica = r ∧ l.worker = k

/-- The request that goes astray when task `t` gives up: one that has not reached its replica. -/
def stray (d : Deployment F n) (t : ℕ) : List (ℕ × Fin n × ModelInferRequest) :=
  if (d.links t).isNone then d.view.stray t else []

/-- The requests that go astray in a step of the router. -/
def straysAfter (d : Deployment F n) : Act n MockResponse → List (ℕ × Fin n × ModelInferRequest)
  | .run t .drop => d.strays ++ d.stray t
  | _ => d.strays

/-- The links of the tasks that still ask their replica. -/
def kept (router : System F n MockResponse) (links : ℕ → Option (Link n)) (t : ℕ) : Option (Link n) :=
  if ((router.handlers[t]?).bind Handler.asks).isSome then links t else none

/-- The links after task `t` took an input. -/
def linksAfter (d : Deployment F n) (t : ℕ) (input : Input MockResponse) : ℕ → Option (Link n) :=
  Function.update d.links t ((d.links t).map fun l => l.after input)

/-- Replica `r` starts a task for task `t` of the router. -/
def accept (d : Deployment F n) (r : Fin n) (t : ℕ) (w : Replica.Worker) : Deployment F n :=
  { d with
    replicas := Function.update d.replicas r
      { d.replicas r with workers := (d.replicas r).workers ++ [w] }
    callers := Function.update d.callers r
      (Function.update (d.callers r) (d.replicas r).workers.length t) }

/-- What is seen of a step of replica `r`: the request that a task has taken with it, if it has. -/
def seenOf (deps : ClusterDeps) (d : Deployment F n) (r : Fin n) :
    Option (ℕ × Replica.ClientItem) → Option (Cluster.Seen n)
  | some (k, .ok req) =>
    some (.served (d.callers r k) r ((d.replicas r).service.prefill deps.encode req).1)
  | _ => none

section Step

variable [Mul F] [Sub F] [LT F] [DecidableLT F] [ScoreArith F]

/-- One step of the deployment. -/
def step (deps : ClusterDeps) (d : Deployment F n) :
    Action n → Option (Option (Cluster.Seen n) × Deployment F n)
  | .router act =>
    if act.fromUpstream then none
    else (d.router.step deps.toDeps act).map fun x =>
      (some (.router act x.1),
        { d with
          router := x.2
          requests := d.view.requestsAfter act
          links := kept x.2 d.links
          strays := d.straysAfter act })
  | .arrive t =>
    match d.handler t, d.requests t, d.links t with
    | some h, some req, none => h.callee.map fun r =>
        (none,
          { d.accept r t (h.worker req) with
            links := Function.update d.links t (some ⟨r, (d.replicas r).workers.length, 0⟩) })
    | _, _, _ => none
  | .arriveStray i =>
    match d.strays[i]? with
    | none => none
    | some (t, r, req) => (d.handler t).map fun h =>
        (none, { d.accept r t (h.worker req) with strays := d.strays.eraseIdx i })
  | .work r k input =>
    if input.moves (d.linked r k) then
      ((d.replicas r).step deps.replica (.run k input)).map fun x =>
        (d.seenOf deps r x.1, { d with replicas := Function.update d.replicas r x.2 })
    else none
  | .deliver t =>
    match (d.handler t).bind fun h => h.takes (d.wire t) with
    | none => none
    | some (input, _) => (d.router.step deps.toDeps (.run t input)).map fun x =>
        (some (.router (.run t input) x.1),
          { d with router := x.2, links := kept x.2 (d.linksAfter t input) })
  | .fail t status =>
    match (d.handler t).bind fun h => h.failure status with
    | none => none
    | some input => (d.router.step deps.toDeps (.run t input)).map fun x =>
        (some (.router (.run t input) x.1),
          { d with
            router := x.2
            links := kept x.2 d.links
            strays := d.strays ++ d.stray t })

/-- The deployment as a transition system. -/
def lts (F : Type) (n : ℕ) [Mul F] [Sub F] [LT F] [DecidableLT F] [ScoreArith F] (deps : ClusterDeps) :
    Lts (Deployment F n) (Action n) (Option (Cluster.Seen n)) := .ofFun (step deps)

/-! ## What a step can do -/

/-- All that one step of the deployment can do. -/
inductive Effect (deps : ClusterDeps) (d : Deployment F n) :
    Action n → Option (Cluster.Seen n) → Deployment F n → Prop
  /-- The router takes a step that is not the arrival of an answer. -/
  | routed (act : Act n MockResponse) (es : List (Event n)) (router : System F n MockResponse)
      (hact : act.fromUpstream = false)
      (hstep : (System.lts F n MockResponse deps.toDeps).step d.router act es router) :
      Effect deps d (.router act) (some (.router act es))
        { d with
          router := router
          requests := d.view.requestsAfter act
          links := kept router d.links
          strays := d.straysAfter act }
  /-- A request reaches its replica. -/
  | arrived (t : ℕ) (h : Handler n MockResponse) (r : Fin n) (req : ModelInferRequest)
      (hget : d.handler t = some h) (hcallee : h.callee = some r) (hreq : d.requests t = some req)
      (hlink : d.links t = none) :
      Effect deps d (.arrive t) none
        { d.accept r t (h.worker req) with
          links := Function.update d.links t (some ⟨r, (d.replicas r).workers.length, 0⟩) }
  /-- A request that has gone astray reaches its replica. -/
  | arrivedStray (i t : ℕ) (r : Fin n) (req : ModelInferRequest) (h : Handler n MockResponse)
      (hstray : d.strays[i]? = some (t, r, req)) :
      Effect deps d (.arriveStray i) none
        { d.accept r t (h.worker req) with strays := d.strays.eraseIdx i }
  /-- A task of a replica steps. -/
  | worked (r : Fin n) (k : ℕ) (input : Replica.Input) (e : Option (ℕ × Replica.ClientItem))
      (replica : Replica) (hmoves : input.moves (d.linked r k) = true)
      (hstep : (Replica.lts deps.replica).step (d.replicas r) (.run k input) e replica) :
      Effect deps d (.work r k input) (d.seenOf deps r e)
        { d with replicas := Function.update d.replicas r replica }
  /-- A task takes what is next of its answer. -/
  | delivered (t : ℕ) (h : Handler n MockResponse) (input : Input MockResponse) (wire : Wire)
      (es : List (Event n)) (router : System F n MockResponse) (hget : d.handler t = some h)
      (htakes : h.takes (d.wire t) = some (input, wire))
      (hstep : (System.lts F n MockResponse deps.toDeps).step d.router (.run t input) es router) :
      Effect deps d (.deliver t) (some (.router (.run t input) es))
        { d with router := router, links := kept router (d.linksAfter t input) }
  /-- A call fails. -/
  | failed (t : ℕ) (h : Handler n MockResponse) (status : Status) (input : Input MockResponse)
      (es : List (Event n)) (router : System F n MockResponse) (hget : d.handler t = some h)
      (hfailure : h.failure status = some input)
      (hstep : (System.lts F n MockResponse deps.toDeps).step d.router (.run t input) es router) :
      Effect deps d (.fail t status) (some (.router (.run t input) es))
        { d with
          router := router
          links := kept router d.links
          strays := d.strays ++ d.stray t }

/-- Every step of the deployment has one of the effects. -/
theorem step_inv {deps : ClusterDeps} {d d' : Deployment F n} {a : Action n}
    {e : Option (Cluster.Seen n)} (h : (lts F n deps).step d a e d') : Effect deps d a e d' := by
  rw [lts, Lts.ofFun_step] at h
  cases a with
  | router act =>
    simp only [step] at h
    split_ifs at h with hact
    obtain ⟨⟨es, router⟩, hstep, heq⟩ := Option.map_eq_some_iff.mp h
    cases heq
    exact .routed act es router (Bool.eq_false_iff.mpr hact) hstep
  | arrive t =>
    simp only [step] at h
    split at h
    · rename_i hd req hget hreq hlink
      obtain ⟨r, hcallee, heq⟩ := Option.map_eq_some_iff.mp h
      cases heq
      exact .arrived t hd r req hget hcallee hreq hlink
    · cases h
  | arriveStray i =>
    simp only [step] at h
    split at h
    · cases h
    · rename_i t r req hstray
      obtain ⟨hd, -, heq⟩ := Option.map_eq_some_iff.mp h
      cases heq
      exact .arrivedStray i t r req hd hstray
  | work r k input =>
    simp only [step] at h
    split_ifs at h with hmoves
    obtain ⟨⟨e, replica⟩, hstep, heq⟩ := Option.map_eq_some_iff.mp h
    cases heq
    exact .worked r k input e replica hmoves hstep
  | deliver t =>
    simp only [step] at h
    split at h
    · cases h
    · rename_i input wire hbind
      obtain ⟨hd, hget, htakes⟩ := Option.bind_eq_some_iff.mp hbind
      obtain ⟨⟨es, router⟩, hstep, heq⟩ := Option.map_eq_some_iff.mp h
      cases heq
      exact .delivered t hd input wire es router hget htakes hstep
  | fail t status =>
    simp only [step] at h
    split at h
    · cases h
    · rename_i input hbind
      obtain ⟨hd, hget, hfailure⟩ := Option.bind_eq_some_iff.mp hbind
      obtain ⟨⟨es, router⟩, hstep, heq⟩ := Option.map_eq_some_iff.mp h
      cases heq
      exact .failed t hd status input es router hget hfailure hstep

end Step

end Deployment
