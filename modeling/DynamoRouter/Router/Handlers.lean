import DynamoRouter.Router.Server

set_option relaxedAutoImplicit false
set_option autoImplicit false

/-!
# The handlers as step machines (`crates/router/src/server.rs`)

The two request handlers, `model_infer_attempts` and the task that `model_stream_infer` spawns. Between
two steps of a handler any other handler may run, so a step is what nothing can come between: a critical
section of the scheduler, one update of a metric, one `await`, or the code in between that touches
nothing shared. A handler that waits for its replica or its client steps when an input arrives.

A client that goes away drops the future of a unary call: it stops at the `await` it is at, and none of
its later code runs.

## Main definitions

* `UnaryPc`, `UnaryPc.step` — a unary call; `UnaryPc.Effect` — all that its steps can do.
* `StreamTask`, `StreamTask.step` — a client stream; `StreamTask.Effect` — all that its steps can do.
* `Handler`, `Handler.step` — a unary call or a client stream.
* `Handler.holds` — the replica on which a handler holds a pick that is not yet completed.

## Main results

* `UnaryPc.step_inv`, `StreamTask.step_inv`, `Handler.step_inv` — every step has one of the effects.
-/

open Protocol

/-- What happens to the scheduler: the events that the counts of in-flight requests depend on. -/
inductive Event (n : ℕ)
  /-- Task `t` picked a replica for a prompt of so many blocks. -/
  | picked (t promptBlocks : ℕ) (d : RouteDecision n)
  /-- The pick of task `t` was refused. -/
  | refused (t : ℕ) (e : PickError)
  /-- Task `t` completed its request on `r`. -/
  | completed (t : ℕ) (r : Fin n)
  /-- `mark_unhealthy`. -/
  | unhealthy (r : Fin n)
  /-- `mark_healthy`. -/
  | healthy (r : Fin n)
  deriving DecidableEq, Repr

/-- What moves a handler: its own code, or its replica or its client. -/
inductive Input (Resp : Type)
  /-- The handler's own next step. -/
  | tick
  /-- The replica answers a unary call. -/
  | reply (result : Except Status Resp)
  /-- The next item of the client's stream. -/
  | recv (item : Option (Except Status ModelInferRequest))
  /-- The replica opens a stream, or fails to. -/
  | opened (result : Except Status Unit)
  /-- The next item of the replica's stream. -/
  | message (item : Except Status (Option (ModelStreamInferResponse Resp)))
  /-- The client stops receiving. -/
  | disconnect
  /-- The future of the handler is dropped. -/
  | drop

/-- The stages of `record_served`. -/
inductive Served
  | requests
  | matched
  | prompt
  deriving DecidableEq, Repr

/-- One stage of `record_served`, and the next one. -/
def Served.record {F : Type} {n : ℕ} (inner : RouterInner F n) (promptBlocks : ℕ)
    (decision : RouteDecision n) : Served → RouterInner F n × Option Served
  | .requests => (inner.incRequests, some .matched)
  | .matched => (inner.incMatched decision, some .prompt)
  | .prompt => (inner.incPrompt promptBlocks, none)

/-- Whether the counter of one stage is incremented before another stage. -/
def Served.before : Served → Served → Bool
  | .requests, .matched => true
  | .requests, .prompt => true
  | .matched, .prompt => true
  | _, _ => false

/-! ## Unary calls -/

/-- Which attempt of a unary call is running. The second one remembers the replica that failed. -/
inductive Attempt (n : ℕ)
  | first
  | second (failed : Fin n)
  deriving DecidableEq, Repr

/-- Where a unary call is. -/
inductive UnaryPc (n : ℕ) (Resp : Type)
  /-- Before `extract_text`. -/
  | start (req : ModelInferRequest)
  /-- Before the critical section of `pick_replica`. -/
  | picking (hashes : List UInt64) (att : Attempt n)
  /-- Before `pick_replica` sets the gauge. -/
  | gaugePicked (hashes : List UInt64) (att : Attempt n) (decision : RouteDecision n)
  /-- At the `await` of the upstream call. -/
  | upstream (hashes : List UInt64) (att : Attempt n) (decision : RouteDecision n)
  /-- Before the critical section of `complete`. -/
  | completing (hashes : List UInt64) (att : Attempt n) (decision : RouteDecision n)
      (result : Except Status Resp)
  /-- Before `complete` sets the gauge. -/
  | gaugeCompleted (hashes : List UInt64) (att : Attempt n) (decision : RouteDecision n)
      (result : Except Status Resp) (inflight : ℕ)
  /-- In `record_served`. -/
  | recording (hashes : List UInt64) (decision : RouteDecision n) (resp : Resp) (stage : Served)
  /-- Before `mark_unhealthy`. -/
  | marking (hashes : List UInt64) (att : Attempt n) (decision : RouteDecision n) (status : Status)
  /-- Answered. -/
  | done (result : Except Status Resp)
  /-- The future was dropped. -/
  | dropped

section Step

variable {F : Type} {n : ℕ} {Resp : Type}
variable [Mul F] [Sub F] [LT F] [DecidableLT F] [ScoreArith F]

/-- One step of `model_infer_attempts`: the events, the shared state and the place after it. -/
def UnaryPc.step (deps : Deps) (inner : RouterInner F n) (t : ℕ) :
    UnaryPc n Resp → Input Resp → Option (List (Event n) × RouterInner F n × UnaryPc n Resp)
  | .start req, .tick =>
    match RouterInner.promptHashes deps req with
    | .error status => some ([], inner, .done (.error status))
    | .ok hashes => some ([], inner, .picking hashes .first)
  | .start _, .drop => some ([], inner, .dropped)
  | .picking hashes att, .tick =>
    match inner.pick hashes with
    | none => none
    | some (.error e, inner) => some ([.refused t e], inner, .done (.error e.status))
    | some (.ok d, inner) => some ([.picked t hashes.length d], inner, .gaugePicked hashes att d)
  | .gaugePicked hashes att d, .tick =>
    some ([], inner.setGauge d.replica d.inflightAfter, .upstream hashes att d)
  | .upstream hashes att d, .reply result => some ([], inner, .completing hashes att d result)
  | .upstream _ _ _, .drop => some ([], inner, .dropped)
  | .completing hashes att d result, .tick =>
    let (inflight, inner) := inner.complete d.replica
    some ([.completed t d.replica], inner, .gaugeCompleted hashes att d result inflight)
  | .gaugeCompleted hashes att d result inflight, .tick =>
    let inner := inner.setGauge d.replica inflight
    match result with
    | .ok resp => some ([], inner, .recording hashes d resp .requests)
    | .error status =>
      if isTransportFailure status then some ([], inner, .marking hashes att d status)
      else some ([], inner, .done (.error status))
  | .recording hashes d resp stage, .tick =>
    match stage.record inner hashes.length d with
    | (inner, some stage) => some ([], inner, .recording hashes d resp stage)
    | (inner, none) => some ([], inner, .done (.ok resp))
  | .marking hashes att d status, .tick =>
    let inner := inner.markUnhealthy d.replica
    match att with
    | .first => some ([.unhealthy d.replica], inner, .picking hashes (.second d.replica))
    | .second _ =>
      some ([.unhealthy d.replica], inner,
        .done (.error (.unavailable ("all attempts failed: " ++ fmtStatus deps status))))
  | _, _ => none

/-- The critical section of a pick, as the scheduler sees it. -/
theorem RouterInner.pick_inv {inner inner' : RouterInner F n} {hashes : List UInt64}
    {res : Except PickError (RouteDecision n)} (h : inner.pick hashes = some (res, inner')) :
    ∃ sched, inner.scheduler.pick hashes = some (res, sched) ∧
      inner' = { inner with scheduler := sched } := by
  obtain ⟨⟨res', sched⟩, hpick, heq⟩ := Option.map_eq_some_iff.mp h
  obtain ⟨rfl, rfl⟩ := Prod.mk.inj heq
  exact ⟨sched, hpick, rfl⟩

/-- The critical section of a refused pick changes nothing. -/
theorem RouterInner.pick_error_inv {inner inner' : RouterInner F n} {hashes : List UInt64}
    {e : PickError} (h : inner.pick hashes = some (.error e, inner')) :
    inner.scheduler.pick hashes = some (.error e, inner.scheduler) ∧ inner' = inner := by
  obtain ⟨sched, hpick, rfl⟩ := pick_inv h
  obtain rfl : sched = inner.scheduler := (Scheduler.pick_error_inv hpick).1
  exact ⟨hpick, rfl⟩

/-- All that a step of a unary call can do. -/
inductive UnaryPc.Effect (deps : Deps) (inner : RouterInner F n) (t : ℕ) :
    UnaryPc n Resp → Input Resp → List (Event n) → RouterInner F n → UnaryPc n Resp → Prop
  /-- The request has no prompt that can be tokenized. -/
  | rejected (req : ModelInferRequest) (status : Status)
      (hprompt : RouterInner.promptHashes deps req = .error status) :
      Effect deps inner t (.start req) .tick [] inner (.done (.error status))
  /-- The prompt was hashed. -/
  | prepared (req : ModelInferRequest) (hashes : List UInt64)
      (hprompt : RouterInner.promptHashes deps req = .ok hashes) :
      Effect deps inner t (.start req) .tick [] inner (.picking hashes .first)
  /-- The future was dropped before it did anything. -/
  | droppedEarly (req : ModelInferRequest) :
      Effect deps inner t (.start req) .drop [] inner .dropped
  /-- The pick was refused. -/
  | refused (hashes : List UInt64) (att : Attempt n) (e : PickError)
      (hpick : inner.scheduler.pick hashes = some (.error e, inner.scheduler)) :
      Effect deps inner t (.picking hashes att) .tick [.refused t e] inner (.done (.error e.status))
  /-- A replica was picked. -/
  | picked (hashes : List UInt64) (att : Attempt n) (d : RouteDecision n) (sched : Scheduler F n)
      (hpick : inner.scheduler.pick hashes = some (.ok d, sched)) :
      Effect deps inner t (.picking hashes att) .tick [.picked t hashes.length d]
        { inner with scheduler := sched } (.gaugePicked hashes att d)
  /-- The gauge was set after the pick. -/
  | called (hashes : List UInt64) (att : Attempt n) (d : RouteDecision n) :
      Effect deps inner t (.gaugePicked hashes att d) .tick []
        (inner.setGauge d.replica d.inflightAfter) (.upstream hashes att d)
  /-- The replica answered. -/
  | replied (hashes : List UInt64) (att : Attempt n) (d : RouteDecision n)
      (result : Except Status Resp) :
      Effect deps inner t (.upstream hashes att d) (.reply result) [] inner
        (.completing hashes att d result)
  /-- The future was dropped at the `await`. -/
  | dropped (hashes : List UInt64) (att : Attempt n) (d : RouteDecision n) :
      Effect deps inner t (.upstream hashes att d) .drop [] inner .dropped
  /-- The request was completed. -/
  | completed (hashes : List UInt64) (att : Attempt n) (d : RouteDecision n)
      (result : Except Status Resp) :
      Effect deps inner t (.completing hashes att d result) .tick [.completed t d.replica]
        (inner.complete d.replica).2
        (.gaugeCompleted hashes att d result (inner.complete d.replica).1)
  /-- The gauge was set after a call that succeeded. -/
  | succeeded (hashes : List UInt64) (att : Attempt n) (d : RouteDecision n) (resp : Resp)
      (inflight : ℕ) :
      Effect deps inner t (.gaugeCompleted hashes att d (.ok resp) inflight) .tick []
        (inner.setGauge d.replica inflight) (.recording hashes d resp .requests)
  /-- The gauge was set after a call whose transport failed. -/
  | failed (hashes : List UInt64) (att : Attempt n) (d : RouteDecision n) (status : Status)
      (inflight : ℕ) (hstatus : isTransportFailure status = true) :
      Effect deps inner t (.gaugeCompleted hashes att d (.error status) inflight) .tick []
        (inner.setGauge d.replica inflight) (.marking hashes att d status)
  /-- The gauge was set after a call that failed in the application. -/
  | propagated (hashes : List UInt64) (att : Attempt n) (d : RouteDecision n) (status : Status)
      (inflight : ℕ) (hstatus : isTransportFailure status = false) :
      Effect deps inner t (.gaugeCompleted hashes att d (.error status) inflight) .tick []
        (inner.setGauge d.replica inflight) (.done (.error status))
  /-- One of the counters was incremented, and there are more. -/
  | recorded (hashes : List UInt64) (d : RouteDecision n) (resp : Resp) (stage stage' : Served)
      (hstage : (stage.record inner hashes.length d).2 = some stage') :
      Effect deps inner t (.recording hashes d resp stage) .tick []
        (stage.record inner hashes.length d).1 (.recording hashes d resp stage')
  /-- The last counter was incremented. -/
  | served (hashes : List UInt64) (d : RouteDecision n) (resp : Resp) (stage : Served)
      (hstage : (stage.record inner hashes.length d).2 = none) :
      Effect deps inner t (.recording hashes d resp stage) .tick []
        (stage.record inner hashes.length d).1 (.done (.ok resp))
  /-- The replica of the first attempt was marked. -/
  | retried (hashes : List UInt64) (d : RouteDecision n) (status : Status) :
      Effect deps inner t (.marking hashes .first d status) .tick [.unhealthy d.replica]
        (inner.markUnhealthy d.replica) (.picking hashes (.second d.replica))
  /-- The replica of the second attempt was marked. -/
  | gaveUp (hashes : List UInt64) (failed : Fin n) (d : RouteDecision n) (status : Status) :
      Effect deps inner t (.marking hashes (.second failed) d status) .tick [.unhealthy d.replica]
        (inner.markUnhealthy d.replica)
        (.done (.error (.unavailable ("all attempts failed: " ++ fmtStatus deps status))))

/-- Every step of a unary call has one of the effects. -/
theorem UnaryPc.step_inv {deps : Deps} {inner inner' : RouterInner F n} {t : ℕ}
    {pc pc' : UnaryPc n Resp} {input : Input Resp} {es : List (Event n)}
    (h : pc.step deps inner t input = some (es, inner', pc')) :
    pc.Effect deps inner t input es inner' pc' := by
  cases pc with
  | start req =>
    cases input with
    | tick =>
      simp only [step] at h
      split at h <;> rename_i hprompt <;> cases h
      · exact .rejected _ _ hprompt
      · exact .prepared _ _ hprompt
    | drop =>
      cases h
      exact .droppedEarly _
    | _ => simp [step] at h
  | picking hashes att =>
    cases input with
    | tick =>
      simp only [step] at h
      split at h <;> rename_i hpick <;> cases h
      · obtain ⟨hpick, rfl⟩ := RouterInner.pick_error_inv hpick
        exact .refused _ _ _ hpick
      · obtain ⟨sched, hsched, rfl⟩ := RouterInner.pick_inv hpick
        exact .picked _ _ _ _ hsched
    | _ => simp [step] at h
  | gaugePicked hashes att d =>
    cases input with
    | tick =>
      cases h
      exact .called _ _ _
    | _ => simp [step] at h
  | upstream hashes att d =>
    cases input with
    | reply result =>
      cases h
      exact .replied _ _ _ _
    | drop =>
      cases h
      exact .dropped _ _ _
    | _ => simp [step] at h
  | completing hashes att d result =>
    cases input with
    | tick =>
      cases h
      exact .completed _ _ _ _
    | _ => simp [step] at h
  | gaugeCompleted hashes att d result inflight =>
    cases input with
    | tick =>
      rcases result with status | resp
      · simp only [step] at h
        split_ifs at h with hstatus <;> cases h
        · exact .failed _ _ _ _ _ hstatus
        · exact .propagated _ _ _ _ _ (Bool.eq_false_iff.mpr hstatus)
      · cases h
        exact .succeeded _ _ _ _ _
    | _ => simp [step] at h
  | recording hashes d resp stage =>
    cases input with
    | tick =>
      cases stage <;> cases h
      · exact .recorded _ _ _ .requests _ rfl
      · exact .recorded _ _ _ .matched _ rfl
      · exact .served _ _ _ .prompt rfl
    | _ => simp [step] at h
  | marking hashes att d status =>
    cases input with
    | tick =>
      cases att <;> cases h
      · exact .retried _ _ _
      · exact .gaveUp _ _ _ _
    | _ => simp [step] at h
  | done result => simp [step] at h
  | dropped => simp [step] at h

/-! ## Client streams -/

/-- Where the task of a client stream is. -/
inductive StreamPc (n : ℕ) (Resp : Type)
  /-- Waiting for the next item of the client. -/
  | reading
  /-- Before forwarding a receive error of the client. -/
  | forwardingError (status : Status)
  /-- Before `extract_text`. -/
  | preparing (req : ModelInferRequest)
  /-- Before reporting an error of a request that was not routed. -/
  | replying (message : String)
  /-- Before the critical section of `pick_replica`. -/
  | picking (hashes : List UInt64)
  /-- Before `pick_replica` sets the gauge. -/
  | gaugePicked (hashes : List UInt64) (decision : RouteDecision n)
  /-- In `record_served`. -/
  | recording (hashes : List UInt64) (decision : RouteDecision n) (stage : Served)
  /-- Waiting for the replica to open the stream. -/
  | opening (decision : RouteDecision n)
  /-- Before `mark_unhealthy`. -/
  | marking (decision : RouteDecision n) (status : Status)
  /-- Before reporting an error of a request that was routed. -/
  | reporting (decision : RouteDecision n) (message : String)
  /-- Waiting for the next item of the replica. -/
  | relaying (decision : RouteDecision n)
  /-- Before forwarding a chunk. -/
  | forwarding (decision : RouteDecision n) (chunk : ModelStreamInferResponse Resp)
  /-- Before the critical section of `complete`; `exit` if the client is gone. -/
  | completing (decision : RouteDecision n) (exit : Bool)
  /-- Before `complete` sets the gauge. -/
  | gaugeCompleted (decision : RouteDecision n) (exit : Bool) (inflight : ℕ)
  /-- The task ended. -/
  | finished

/-- The task of a client stream. -/
structure StreamTask (n : ℕ) (Resp : Type) where
  /-- Where the task is. -/
  pc : StreamPc n Resp
  /-- What was sent to the client. -/
  out : List (Except Status (ModelStreamInferResponse Resp))
  /-- Whether the client still receives. -/
  rxOpen : Bool

/-- A response that only reports an error. -/
def errorResponse (message : String) : ModelStreamInferResponse Resp :=
  { errorMessage := message, inferResponse := none }

namespace StreamTask

/-- `tx.send`: whether it succeeded, and the task after it. -/
def send (s : StreamTask n Resp) (item : Except Status (ModelStreamInferResponse Resp)) :
    Bool × StreamTask n Resp :=
  if s.rxOpen then (true, { s with out := s.out ++ [item] }) else (false, s)

/-- The task at another place. -/
def goto (s : StreamTask n Resp) (pc : StreamPc n Resp) : StreamTask n Resp := { s with pc := pc }

/-- One step of the task: the events, the shared state and the task after it. -/
def step (deps : Deps) (inner : RouterInner F n) (t : ℕ) (s : StreamTask n Resp)
    (input : Input Resp) : Option (List (Event n) × RouterInner F n × StreamTask n Resp) :=
  match s.pc, input with
  | _, .disconnect => some ([], inner, { s with rxOpen := false })
  | .reading, .recv none => some ([], inner, s.goto .finished)
  | .reading, .recv (some (.error status)) => some ([], inner, s.goto (.forwardingError status))
  | .reading, .recv (some (.ok req)) => some ([], inner, s.goto (.preparing req))
  | .forwardingError status, .tick => some ([], inner, (s.send (.error status)).2.goto .finished)
  | .preparing req, .tick =>
    match RouterInner.promptHashes deps req with
    | .error status => some ([], inner, s.goto (.replying (fmtStatus deps status)))
    | .ok hashes => some ([], inner, s.goto (.picking hashes))
  | .replying message, .tick =>
    some ([], inner, (s.send (.ok (errorResponse message))).2.goto .reading)
  | .picking hashes, .tick =>
    match inner.pick hashes with
    | none => none
    | some (.error e, inner) =>
      some ([.refused t e], inner, s.goto (.replying (fmtStatus deps e.status)))
    | some (.ok d, inner) =>
      some ([.picked t hashes.length d], inner, s.goto (.gaugePicked hashes d))
  | .gaugePicked hashes d, .tick =>
    some ([], inner.setGauge d.replica d.inflightAfter, s.goto (.recording hashes d .requests))
  | .recording hashes d stage, .tick =>
    match stage.record inner hashes.length d with
    | (inner, some stage) => some ([], inner, s.goto (.recording hashes d stage))
    | (inner, none) => some ([], inner, s.goto (.opening d))
  | .opening d, .opened (.ok ()) => some ([], inner, s.goto (.relaying d))
  | .opening d, .opened (.error status) =>
    if isTransportFailure status then some ([], inner, s.goto (.marking d status))
    else some ([], inner, s.goto (.reporting d ("upstream connect: " ++ fmtStatus deps status)))
  | .marking d status, .tick =>
    some ([.unhealthy d.replica], inner.markUnhealthy d.replica,
      s.goto (.reporting d ("upstream connect: " ++ fmtStatus deps status)))
  | .reporting d message, .tick =>
    some ([], inner, (s.send (.ok (errorResponse message))).2.goto (.completing d false))
  | .relaying d, .message (.ok (some chunk)) => some ([], inner, s.goto (.forwarding d chunk))
  | .relaying d, .message (.ok none) => some ([], inner, s.goto (.completing d false))
  | .relaying d, .message (.error status) =>
    some ([], inner, s.goto (.reporting d ("upstream: " ++ fmtStatus deps status)))
  | .forwarding d chunk, .tick =>
    match s.send (.ok chunk) with
    | (true, s) => some ([], inner, s.goto (.relaying d))
    | (false, s) => some ([], inner, s.goto (.completing d true))
  | .completing d exit, .tick =>
    let (inflight, inner) := inner.complete d.replica
    some ([.completed t d.replica], inner, s.goto (.gaugeCompleted d exit inflight))
  | .gaugeCompleted d exit inflight, .tick =>
    some ([], inner.setGauge d.replica inflight, s.goto (if exit then .finished else .reading))
  | _, _ => none

/-- All that a step of the task of a client stream can do. -/
inductive Effect (deps : Deps) (inner : RouterInner F n) (t : ℕ) (s : StreamTask n Resp) :
    StreamPc n Resp → Input Resp → List (Event n) → RouterInner F n → StreamTask n Resp → Prop
  /-- The client stopped receiving. -/
  | disconnected (pc : StreamPc n Resp) :
      Effect deps inner t s pc .disconnect [] inner { s with rxOpen := false }
  /-- The stream of the client ended. -/
  | ended : Effect deps inner t s .reading (.recv none) [] inner (s.goto .finished)
  /-- The stream of the client broke. -/
  | broken (status : Status) :
      Effect deps inner t s .reading (.recv (some (.error status))) [] inner
        (s.goto (.forwardingError status))
  /-- A request arrived. -/
  | received (req : ModelInferRequest) :
      Effect deps inner t s .reading (.recv (some (.ok req))) [] inner (s.goto (.preparing req))
  /-- The error of the client's stream was forwarded. -/
  | forwardedError (status : Status) :
      Effect deps inner t s (.forwardingError status) .tick [] inner
        ((s.send (.error status)).2.goto .finished)
  /-- The request has no prompt that can be tokenized. -/
  | rejected (req : ModelInferRequest) (status : Status)
      (hprompt : RouterInner.promptHashes deps req = .error status) :
      Effect deps inner t s (.preparing req) .tick [] inner
        (s.goto (.replying (fmtStatus deps status)))
  /-- The prompt was hashed. -/
  | prepared (req : ModelInferRequest) (hashes : List UInt64)
      (hprompt : RouterInner.promptHashes deps req = .ok hashes) :
      Effect deps inner t s (.preparing req) .tick [] inner (s.goto (.picking hashes))
  /-- The error of a request that was not routed was reported. -/
  | replied (message : String) :
      Effect deps inner t s (.replying message) .tick [] inner
        ((s.send (.ok (errorResponse message))).2.goto .reading)
  /-- The pick was refused. -/
  | refused (hashes : List UInt64) (e : PickError)
      (hpick : inner.scheduler.pick hashes = some (.error e, inner.scheduler)) :
      Effect deps inner t s (.picking hashes) .tick [.refused t e] inner
        (s.goto (.replying (fmtStatus deps e.status)))
  /-- A replica was picked. -/
  | picked (hashes : List UInt64) (d : RouteDecision n) (sched : Scheduler F n)
      (hpick : inner.scheduler.pick hashes = some (.ok d, sched)) :
      Effect deps inner t s (.picking hashes) .tick [.picked t hashes.length d]
        { inner with scheduler := sched } (s.goto (.gaugePicked hashes d))
  /-- The gauge was set after the pick. -/
  | routed (hashes : List UInt64) (d : RouteDecision n) :
      Effect deps inner t s (.gaugePicked hashes d) .tick []
        (inner.setGauge d.replica d.inflightAfter) (s.goto (.recording hashes d .requests))
  /-- One of the counters was incremented, and there are more. -/
  | recorded (hashes : List UInt64) (d : RouteDecision n) (stage stage' : Served)
      (hstage : (stage.record inner hashes.length d).2 = some stage') :
      Effect deps inner t s (.recording hashes d stage) .tick []
        (stage.record inner hashes.length d).1 (s.goto (.recording hashes d stage'))
  /-- The last counter was incremented. -/
  | called (hashes : List UInt64) (d : RouteDecision n) (stage : Served)
      (hstage : (stage.record inner hashes.length d).2 = none) :
      Effect deps inner t s (.recording hashes d stage) .tick []
        (stage.record inner hashes.length d).1 (s.goto (.opening d))
  /-- The replica opened the stream. -/
  | opened (d : RouteDecision n) :
      Effect deps inner t s (.opening d) (.opened (.ok ())) [] inner (s.goto (.relaying d))
  /-- The replica could not be reached. -/
  | unreachable (d : RouteDecision n) (status : Status)
      (hstatus : isTransportFailure status = true) :
      Effect deps inner t s (.opening d) (.opened (.error status)) [] inner
        (s.goto (.marking d status))
  /-- The replica refused to open the stream. -/
  | declined (d : RouteDecision n) (status : Status)
      (hstatus : isTransportFailure status = false) :
      Effect deps inner t s (.opening d) (.opened (.error status)) [] inner
        (s.goto (.reporting d ("upstream connect: " ++ fmtStatus deps status)))
  /-- The replica was marked. -/
  | marked (d : RouteDecision n) (status : Status) :
      Effect deps inner t s (.marking d status) .tick [.unhealthy d.replica]
        (inner.markUnhealthy d.replica)
        (s.goto (.reporting d ("upstream connect: " ++ fmtStatus deps status)))
  /-- The error of a request that was routed was reported. -/
  | reported (d : RouteDecision n) (message : String) :
      Effect deps inner t s (.reporting d message) .tick [] inner
        ((s.send (.ok (errorResponse message))).2.goto (.completing d false))
  /-- A chunk arrived. -/
  | chunk (d : RouteDecision n) (c : ModelStreamInferResponse Resp) :
      Effect deps inner t s (.relaying d) (.message (.ok (some c))) [] inner
        (s.goto (.forwarding d c))
  /-- The stream of the replica ended. -/
  | relayed (d : RouteDecision n) :
      Effect deps inner t s (.relaying d) (.message (.ok none)) [] inner
        (s.goto (.completing d false))
  /-- The stream of the replica broke. -/
  | interrupted (d : RouteDecision n) (status : Status) :
      Effect deps inner t s (.relaying d) (.message (.error status)) [] inner
        (s.goto (.reporting d ("upstream: " ++ fmtStatus deps status)))
  /-- A chunk was forwarded. -/
  | forwarded (d : RouteDecision n) (c : ModelStreamInferResponse Resp)
      (hopen : (s.send (.ok c)).1 = true) :
      Effect deps inner t s (.forwarding d c) .tick [] inner
        ((s.send (.ok c)).2.goto (.relaying d))
  /-- A chunk could not be forwarded, as the client is gone. -/
  | abandoned (d : RouteDecision n) (c : ModelStreamInferResponse Resp)
      (hclosed : (s.send (.ok c)).1 = false) :
      Effect deps inner t s (.forwarding d c) .tick [] inner
        ((s.send (.ok c)).2.goto (.completing d true))
  /-- The request was completed. -/
  | completed (d : RouteDecision n) (exit : Bool) :
      Effect deps inner t s (.completing d exit) .tick [.completed t d.replica]
        (inner.complete d.replica).2 (s.goto (.gaugeCompleted d exit (inner.complete d.replica).1))
  /-- The gauge was set after the completion. -/
  | settled (d : RouteDecision n) (exit : Bool) (inflight : ℕ) :
      Effect deps inner t s (.gaugeCompleted d exit inflight) .tick []
        (inner.setGauge d.replica inflight) (s.goto (if exit then .finished else .reading))

/-- Every step of the task of a client stream has one of the effects. -/
theorem step_inv {deps : Deps} {inner inner' : RouterInner F n} {t : ℕ} {s s' : StreamTask n Resp}
    {input : Input Resp} {es : List (Event n)}
    (h : s.step deps inner t input = some (es, inner', s')) :
    s.Effect deps inner t s.pc input es inner' s' := by
  obtain ⟨pc, out, rxOpen⟩ := s
  cases input with
  | disconnect =>
    cases pc <;> cases h <;> exact .disconnected _
  | reply result => simp [step] at h
  | drop => simp [step] at h
  | recv item =>
    cases pc with
    | reading =>
      rcases item with _ | status | req <;> cases h
      · exact .ended
      · exact .broken _
      · exact .received _
    | _ => simp [step] at h
  | opened result =>
    cases pc with
    | opening d =>
      rcases result with status | _
      · simp only [step] at h
        split_ifs at h with hstatus <;> cases h
        · exact .unreachable _ _ hstatus
        · exact .declined _ _ (Bool.eq_false_iff.mpr hstatus)
      · cases h
        exact .opened _
    | _ => simp [step] at h
  | message item =>
    cases pc with
    | relaying d =>
      rcases item with status | _ | c <;> cases h
      · exact .interrupted _ _
      · exact .relayed _
      · exact .chunk _ _
    | _ => simp [step] at h
  | tick =>
    cases pc with
    | reading => simp [step] at h
    | forwardingError status =>
      cases h
      exact .forwardedError _
    | preparing req =>
      simp only [step] at h
      split at h <;> rename_i hprompt <;> cases h
      · exact .rejected _ _ hprompt
      · exact .prepared _ _ hprompt
    | replying message =>
      cases h
      exact .replied _
    | picking hashes =>
      simp only [step] at h
      split at h <;> rename_i hpick <;> cases h
      · obtain ⟨hpick, rfl⟩ := RouterInner.pick_error_inv hpick
        exact .refused _ _ hpick
      · obtain ⟨sched, hsched, rfl⟩ := RouterInner.pick_inv hpick
        exact .picked _ _ _ hsched
    | gaugePicked hashes d =>
      cases h
      exact .routed _ _
    | recording hashes d stage =>
      cases stage <;> cases h
      · exact .recorded _ _ .requests _ rfl
      · exact .recorded _ _ .matched _ rfl
      · exact .called _ _ .prompt rfl
    | opening d => simp [step] at h
    | marking d status =>
      cases h
      exact .marked _ _
    | reporting d message =>
      cases h
      exact .reported _ _
    | relaying d => simp [step] at h
    | forwarding d c =>
      cases rxOpen <;> cases h
      · exact .abandoned _ _ rfl
      · exact .forwarded _ _ rfl
    | completing d exit =>
      cases h
      exact .completed _ _
    | gaugeCompleted d exit inflight =>
      cases h
      exact .settled _ _ _
    | finished => simp [step] at h

end StreamTask

/-! ## Handlers -/

/-- A handler: a unary call or a client stream. -/
inductive Handler (n : ℕ) (Resp : Type)
  | unary (pc : UnaryPc n Resp)
  | stream (s : StreamTask n Resp)

namespace Handler

/-- One step of a handler. -/
def step (deps : Deps) (inner : RouterInner F n) (t : ℕ) :
    Handler n Resp → Input Resp → Option (List (Event n) × RouterInner F n × Handler n Resp)
  | .unary pc, input => (pc.step deps inner t input).map fun r => (r.1, r.2.1, .unary r.2.2)
  | .stream s, input => (s.step deps inner t input).map fun r => (r.1, r.2.1, .stream r.2.2)

/-- A step of a handler is a step of its unary call or of its task. -/
theorem step_inv {deps : Deps} {inner inner' : RouterInner F n} {t : ℕ} {h h' : Handler n Resp}
    {input : Input Resp} {es : List (Event n)}
    (hstep : h.step deps inner t input = some (es, inner', h')) :
    (∃ pc pc', h = .unary pc ∧ h' = .unary pc' ∧
      pc.step deps inner t input = some (es, inner', pc')) ∨
    ∃ s s', h = .stream s ∧ h' = .stream s' ∧ s.step deps inner t input = some (es, inner', s') := by
  cases h with
  | unary pc =>
    obtain ⟨⟨es', inner'', pc'⟩, hpc, heq⟩ := Option.map_eq_some_iff.mp hstep
    cases heq
    exact .inl ⟨pc, pc', rfl, rfl, hpc⟩
  | stream s =>
    obtain ⟨⟨es', inner'', s'⟩, hs, heq⟩ := Option.map_eq_some_iff.mp hstep
    cases heq
    exact .inr ⟨s, s', rfl, rfl, hs⟩

/-- The replica on which a handler holds a pick: from the critical section of `pick_replica` to that of
`complete`. -/
def holds : Handler n Resp → Option (Fin n)
  | .unary (.gaugePicked _ _ d) => some d.replica
  | .unary (.upstream _ _ d) => some d.replica
  | .unary (.completing _ _ d _) => some d.replica
  | .unary _ => none
  | .stream s =>
    match s.pc with
    | .gaugePicked _ d => some d.replica
    | .recording _ d _ => some d.replica
    | .opening d => some d.replica
    | .marking d _ => some d.replica
    | .reporting d _ => some d.replica
    | .relaying d => some d.replica
    | .forwarding d _ => some d.replica
    | .completing d _ => some d.replica
    | _ => none

/-- The replica whose pick the next step of a handler completes. -/
def completes : Handler n Resp → Option (Fin n)
  | .unary (.completing _ _ d _) => some d.replica
  | .stream ⟨.completing d _, _, _⟩ => some d.replica
  | _ => none

/-- Whether a handler has ended: answered, dropped, or at the end of its stream. -/
def ended : Handler n Resp → Bool
  | .unary (.done _) => true
  | .unary .dropped => true
  | .unary _ => false
  | .stream s =>
    match s.pc with
    | .finished => true
    | _ => false

/-- A handler that has ended holds no pick. -/
theorem holds_of_ended {h : Handler n Resp} (hended : h.ended = true) : h.holds = none := by
  cases h with
  | unary pc => cases pc <;> first | rfl | simp [ended] at hended
  | stream s =>
    obtain ⟨pc, out, rxOpen⟩ := s
    cases pc <;> first | rfl | simp [ended] at hended

end Handler

end Step
