import DynamoRouter.Router.Inflight

set_option relaxedAutoImplicit false
set_option autoImplicit false

/-!
# The relay of a client stream

The task of a client stream reads a request, routes it, relays what the replica sends, and completes the
request, one request after the other. Here it is run against a *script*: the items of the client's
stream, each request with what its replica will do with it. The client keeps receiving. The shared state
is an arbitrary one at every step, so that other handlers may do anything in between.

## Main definitions

* `Relay`, `Relay.step` — the task with the script that is left.
* `Relay.Doing` — what is seen of the task: its events, its upstream calls and what it sends.
* `Relay.Handled`, `Relay.Relayed` — what should be seen of a request, and of a whole stream.
* `Relay.Future` — what is yet to be seen of the task.

## Main results

* `Relay.move_of_step` — all that a step of the task can do.
* `Relay.Future.of_move` — a step is the first part of what is yet to be seen.
* `Relay.relayed_of_exec` — the task ends, and what is seen of it is what should be.
-/

open Protocol

/-- What a replica does with a request: it fails to open the stream, or it sends chunks and then ends the
stream, with an error or without. -/
abbrev Upstream (Resp : Type) := Except Status (List (ModelStreamInferResponse Resp) × Option Status)

/-- An item of the client's stream: a receive error, or a request with what its replica will do. -/
abbrev ClientItem (Resp : Type) := Except Status (ModelInferRequest × Upstream Resp)

/-- The task of a client stream with the script that is left. -/
structure Relay (n : ℕ) (Resp : Type) where
  /-- The task. -/
  task : StreamTask n Resp
  /-- The items that the client has yet to send. -/
  items : List (ClientItem Resp)
  /-- What the replica has yet to do with the request that is being handled. -/
  upstream : Upstream Resp

namespace Relay

variable {F : Type} {n : ℕ} {Resp : Type}

/-- What is seen of a task. -/
inductive Doing (n : ℕ) (Resp : Type)
  /-- It picked, completed or marked a replica. -/
  | event (e : Event n)
  /-- It called a replica. -/
  | called (r : Fin n)
  /-- It sent an item to the client. -/
  | sent (item : Except Status (ModelStreamInferResponse Resp))

/-- What is sent to the client. -/
def Doing.item : Doing n Resp → Option (Except Status (ModelStreamInferResponse Resp))
  | .sent item => some item
  | _ => none

/-- A task that starts on a stream of the client. -/
def start (n : ℕ) (items : List (ClientItem Resp)) : Relay n Resp where
  task := { pc := .reading, out := [], rxOpen := true }
  items := items
  upstream := .ok ([], none)

/-- What moves the task next, and the script after it. -/
def input (r : Relay n Resp) : Input Resp × List (ClientItem Resp) × Upstream Resp :=
  match r.task.pc with
  | .reading =>
    match r.items with
    | [] => (.recv none, [], r.upstream)
    | .error status :: items => (.recv (some (.error status)), items, r.upstream)
    | .ok (req, upstream) :: items => (.recv (some (.ok req)), items, upstream)
  | .opening _ =>
    match r.upstream with
    | .error status => (.opened (.error status), r.items, r.upstream)
    | .ok _ => (.opened (.ok ()), r.items, r.upstream)
  | .relaying _ =>
    match r.upstream with
    | .error status => (.message (.error status), r.items, r.upstream)
    | .ok (chunk :: chunks, fin) => (.message (.ok (some chunk)), r.items, .ok (chunks, fin))
    | .ok ([], some status) => (.message (.error status), r.items, r.upstream)
    | .ok ([], none) => (.message (.ok none), r.items, r.upstream)
  | _ => (.tick, r.items, r.upstream)

/-- The replica that the next step calls. -/
def calls (r : Relay n Resp) : List (Doing n Resp) :=
  match r.task.pc with
  | .opening d => [.called d.replica]
  | _ => []

/-! ## What should be seen -/

/-- What should be seen once the replica opened its stream: all chunks, in order, an error if the stream
ended with one, and the completion. -/
def relayed (deps : Deps) (t : ℕ) (d : RouteDecision n)
    (x : List (ModelStreamInferResponse Resp) × Option Status) : List (Doing n Resp) :=
  x.1.map (fun chunk => .sent (.ok chunk)) ++
    x.2.toList.map (fun status =>
      .sent (.ok (errorResponse ("upstream: " ++ fmtStatus deps status)))) ++
    [.event (.completed t d.replica)]

/-- What should be seen after a replica was called. -/
def answered (deps : Deps) (t : ℕ) (d : RouteDecision n) : Upstream Resp → List (Doing n Resp)
  | .error status =>
    (if isTransportFailure status then [.event (.unhealthy d.replica)] else []) ++
      [.sent (.ok (errorResponse ("upstream connect: " ++ fmtStatus deps status))),
        .event (.completed t d.replica)]
  | .ok x => relayed deps t d x

/-- What should be seen of a request: one error if it has no prompt or is not routed; and otherwise one
pick, one call of the replica picked, what follows from it, and the completion. -/
inductive Handled (deps : Deps) (t : ℕ) (req : ModelInferRequest) (upstream : Upstream Resp) :
    List (Doing n Resp) → Prop
  /-- The request has no prompt that can be tokenized. -/
  | rejected (status : Status) (hprompt : RouterInner.promptHashes deps req = .error status) :
      Handled deps t req upstream [.sent (.ok (errorResponse (fmtStatus deps status)))]
  /-- The pick was refused. -/
  | refused (hashes : List UInt64) (e : PickError)
      (hprompt : RouterInner.promptHashes deps req = .ok hashes) :
      Handled deps t req upstream
        [.event (.refused t e), .sent (.ok (errorResponse (fmtStatus deps e.status)))]
  /-- A replica was picked and called. -/
  | routed (hashes : List UInt64) (d : RouteDecision n)
      (hprompt : RouterInner.promptHashes deps req = .ok hashes) :
      Handled deps t req upstream
        (.event (.picked t hashes.length d) :: .called d.replica :: answered deps t d upstream)

/-- What is sent for a request: one error, or the chunks of the replica, in order, and an error exactly
if its stream ended with one. -/
theorem Handled.sent {deps : Deps} {t : ℕ} {req : ModelInferRequest} {upstream : Upstream Resp}
    {l : List (Doing n Resp)} (h : Handled deps t req upstream l) :
    (∃ message, l.filterMap Doing.item = [.ok (errorResponse message)]) ∨
    ∃ x, upstream = .ok x ∧ l.filterMap Doing.item = x.1.map .ok ++ x.2.toList.map fun status =>
      .ok (errorResponse ("upstream: " ++ fmtStatus deps status)) := by
  cases h with
  | rejected status => exact .inl ⟨_, rfl⟩
  | refused hashes e => exact .inl ⟨_, rfl⟩
  | routed hashes d =>
    rcases upstream with status | x
    · refine .inl ⟨"upstream connect: " ++ fmtStatus deps status, ?_⟩
      by_cases hstatus : isTransportFailure status = true <;>
        simp [answered, hstatus, Doing.item, List.filterMap_cons]
    · refine .inr ⟨x, rfl, ?_⟩
      simp [answered, relayed, Doing.item, List.filterMap_cons, List.filterMap_append,
        List.filterMap_map, Function.comp_def]

/-- What should be seen of a stream, and the items that stay unread: what should be seen of each request,
in order, up to the end of the stream or the first receive error, which is forwarded. -/
inductive Relayed (deps : Deps) (t : ℕ) :
    List (ClientItem Resp) → List (Doing n Resp) → List (ClientItem Resp) → Prop
  /-- The stream ended. -/
  | ended : Relayed deps t [] [] []
  /-- The stream broke. -/
  | broken (status : Status) (items : List (ClientItem Resp)) :
      Relayed deps t (.error status :: items) [.sent (.error status)] items
  /-- A request was handled, and then the rest of the stream. -/
  | request {req : ModelInferRequest} {upstream : Upstream Resp} {items rest : List (ClientItem Resp)}
      {l l' : List (Doing n Resp)} (hhandled : Handled deps t req upstream l)
      (hrest : Relayed deps t items l' rest) :
      Relayed deps t (.ok (req, upstream) :: items) (l ++ l') rest

/-! ## What is yet to be seen -/

/-- What is yet to be seen of the request that is being handled. -/
inductive Remains (deps : Deps) (t : ℕ) :
    StreamPc n Resp → Upstream Resp → List (Doing n Resp) → Prop
  /-- Before `extract_text`. -/
  | preparing {req : ModelInferRequest} {upstream : Upstream Resp} {l : List (Doing n Resp)}
      (hhandled : Handled deps t req upstream l) : Remains deps t (.preparing req) upstream l
  /-- The request was not routed, and its error is to be reported. -/
  | replying (message : String) (upstream : Upstream Resp) :
      Remains deps t (.replying message) upstream [.sent (.ok (errorResponse message))]
  /-- The pick will be refused. -/
  | refused (hashes : List UInt64) (e : PickError) (upstream : Upstream Resp) :
      Remains deps t (.picking hashes) upstream
        [.event (.refused t e), .sent (.ok (errorResponse (fmtStatus deps e.status)))]
  /-- The pick will succeed. -/
  | picked (hashes : List UInt64) (d : RouteDecision n) (upstream : Upstream Resp) :
      Remains deps t (.picking hashes) upstream
        (.event (.picked t hashes.length d) :: .called d.replica :: answered deps t d upstream)
  /-- The gauge is to be set. -/
  | gaugePicked (hashes : List UInt64) (d : RouteDecision n) (upstream : Upstream Resp) :
      Remains deps t (.gaugePicked hashes d) upstream
        (.called d.replica :: answered deps t d upstream)
  /-- The counters are to be incremented. -/
  | recording (hashes : List UInt64) (d : RouteDecision n) (stage : Served)
      (upstream : Upstream Resp) :
      Remains deps t (.recording hashes d stage) upstream
        (.called d.replica :: answered deps t d upstream)
  /-- The replica is to be called. -/
  | opening (d : RouteDecision n) (upstream : Upstream Resp) :
      Remains deps t (.opening d) upstream (.called d.replica :: answered deps t d upstream)
  /-- The replica could not be reached, and is to be marked. -/
  | marking (d : RouteDecision n) (status : Status) (upstream : Upstream Resp) :
      Remains deps t (.marking d status) upstream
        [.event (.unhealthy d.replica),
          .sent (.ok (errorResponse ("upstream connect: " ++ fmtStatus deps status))),
          .event (.completed t d.replica)]
  /-- The error of a request that was routed is to be reported. -/
  | reporting (d : RouteDecision n) (message : String) (upstream : Upstream Resp) :
      Remains deps t (.reporting d message) upstream
        [.sent (.ok (errorResponse message)), .event (.completed t d.replica)]
  /-- The rest of the stream of the replica is to be relayed. -/
  | relaying (d : RouteDecision n)
      (x : List (ModelStreamInferResponse Resp) × Option Status) :
      Remains deps t (.relaying d) (.ok x) (relayed deps t d x)
  /-- A chunk is to be forwarded, and then the rest of the stream. -/
  | forwarding (d : RouteDecision n) (chunk : ModelStreamInferResponse Resp)
      (x : List (ModelStreamInferResponse Resp) × Option Status) :
      Remains deps t (.forwarding d chunk) (.ok x) (.sent (.ok chunk) :: relayed deps t d x)
  /-- The request is to be completed. -/
  | completing (d : RouteDecision n) (upstream : Upstream Resp) :
      Remains deps t (.completing d false) upstream [.event (.completed t d.replica)]
  /-- The request was completed. -/
  | gaugeCompleted (d : RouteDecision n) (inflight : ℕ) (upstream : Upstream Resp) :
      Remains deps t (.gaugeCompleted d false inflight) upstream []

/-- What is yet to be seen of a task, and the items that will stay unread. -/
inductive Future (deps : Deps) (t : ℕ) :
    StreamPc n Resp → List (ClientItem Resp) → Upstream Resp → List (Doing n Resp) →
      List (ClientItem Resp) → Prop
  /-- The stream is to be read. -/
  | reading {items rest : List (ClientItem Resp)} {l : List (Doing n Resp)}
      (upstream : Upstream Resp) (hrelayed : Relayed deps t items l rest) :
      Future deps t .reading items upstream l rest
  /-- The error of the client's stream is to be forwarded. -/
  | forwardingError (status : Status) (items : List (ClientItem Resp)) (upstream : Upstream Resp) :
      Future deps t (.forwardingError status) items upstream [.sent (.error status)] items
  /-- The request that is being handled, and then the rest of the stream. -/
  | handling {pc : StreamPc n Resp} {items rest : List (ClientItem Resp)}
      {upstream : Upstream Resp} {l l' : List (Doing n Resp)}
      (hremains : Remains deps t pc upstream l) (hrest : Relayed deps t items l' rest) :
      Future deps t pc items upstream (l ++ l') rest
  /-- The task has ended. -/
  | finished (items : List (ClientItem Resp)) (upstream : Upstream Resp) :
      Future deps t .finished items upstream [] items

/-- Where the task can get while the client receives: it does not leave its loop on a failed send, and it
relays a stream that was opened. -/
def Stays : StreamPc n Resp → Upstream Resp → Prop
  | .completing _ exit, _ => exit = false
  | .gaugeCompleted _ exit _, _ => exit = false
  | .relaying _, upstream => ∃ x, upstream = .ok x
  | .forwarding _ _, upstream => ∃ x, upstream = .ok x
  | _, _ => True

/-- The client receives, and the task is where it can get. -/
def Receives (r : Relay n Resp) : Prop := r.task.rxOpen = true ∧ Stays r.task.pc r.upstream

/-- A bound on the steps that a replica's stream is still worth. -/
def upstreamWork : Upstream Resp → ℕ
  | .error _ => 0
  | .ok x => 2 * x.1.length

/-- A bound on the steps that an item of the client is still worth. -/
def itemWork : ClientItem Resp → ℕ
  | .error _ => 1
  | .ok x => upstreamWork x.2 + 12

/-- A bound on the steps that the request being handled is still worth. -/
def requestWork : StreamPc n Resp → Upstream Resp → ℕ
  | .preparing _, up => upstreamWork up + 11
  | .picking _, up => upstreamWork up + 10
  | .gaugePicked _ _, up => upstreamWork up + 9
  | .recording _ _ .requests, up => upstreamWork up + 8
  | .recording _ _ .matched, up => upstreamWork up + 7
  | .recording _ _ .prompt, up => upstreamWork up + 6
  | .opening _, up => upstreamWork up + 5
  | .forwarding _ _, up => upstreamWork up + 5
  | .relaying _, up => upstreamWork up + 4
  | .marking _ _, _ => 4
  | .reporting _ _, _ => 3
  | .completing _ _, _ => 2
  | .gaugeCompleted _ _ _, _ => 1
  | .replying _, _ => 1
  | .reading, _ | .forwardingError _, _ | .finished, _ => 0

/-- A bound on the steps of a task. -/
def work : StreamPc n Resp → List (ClientItem Resp) → Upstream Resp → ℕ
  | .finished, _, _ => 0
  | pc, items, up => requestWork pc up + 1 + (items.map itemWork).sum

section Step

variable [Mul F] [Sub F] [LT F] [DecidableLT F] [ScoreArith F]

/-- One step of the task in the shared state `inner`: what is seen of it, and the task after it. -/
def step (deps : Deps) (t : ℕ) (r : Relay n Resp) (inner : RouterInner F n) :
    Option (List (Doing n Resp) × Relay n Resp) :=
  (r.task.step deps inner t r.input.1).map fun x =>
    (r.calls ++ x.1.map .event ++ (x.2.2.out.drop r.task.out.length).map .sent,
      { task := x.2.2, items := r.input.2.1, upstream := r.input.2.2 })

/-- The task as a transition system, whose actions are the shared states that it finds. -/
def lts (F : Type) {n : ℕ} {Resp : Type} [Mul F] [Sub F] [LT F] [DecidableLT F] [ScoreArith F]
    (deps : Deps) (t : ℕ) : Lts (Relay n Resp) (RouterInner F n) (List (Doing n Resp)) :=
  .ofFun (step deps t)

/-- All that a step of a task can do while the client receives: the place, the script and the upstream
before the step, what is seen of it, and the three after it. -/
inductive Move (deps : Deps) (t : ℕ) : StreamPc n Resp → List (ClientItem Resp) → Upstream Resp →
    List (Doing n Resp) → StreamPc n Resp → List (ClientItem Resp) → Upstream Resp → Prop
  /-- The stream of the client ended. -/
  | ended (up : Upstream Resp) : Move deps t .reading [] up [] .finished [] up
  /-- The stream of the client broke. -/
  | broken (status : Status) (items : List (ClientItem Resp)) (up : Upstream Resp) :
      Move deps t .reading (.error status :: items) up [] (.forwardingError status) items up
  /-- A request arrived. -/
  | received (req : ModelInferRequest) (items : List (ClientItem Resp)) (up up' : Upstream Resp) :
      Move deps t .reading (.ok (req, up') :: items) up [] (.preparing req) items up'
  /-- The error of the client's stream was forwarded. -/
  | forwardedError (status : Status) (items : List (ClientItem Resp)) (up : Upstream Resp) :
      Move deps t (.forwardingError status) items up [.sent (.error status)] .finished items up
  /-- The request has no prompt that can be tokenized. -/
  | rejected (req : ModelInferRequest) (status : Status) (items : List (ClientItem Resp))
      (up : Upstream Resp) (hprompt : RouterInner.promptHashes deps req = .error status) :
      Move deps t (.preparing req) items up [] (.replying (fmtStatus deps status)) items up
  /-- The prompt was hashed. -/
  | prepared (req : ModelInferRequest) (hashes : List UInt64) (items : List (ClientItem Resp))
      (up : Upstream Resp) (hprompt : RouterInner.promptHashes deps req = .ok hashes) :
      Move deps t (.preparing req) items up [] (.picking hashes) items up
  /-- The error of a request that was not routed was reported. -/
  | replied (message : String) (items : List (ClientItem Resp)) (up : Upstream Resp) :
      Move deps t (.replying message) items up [.sent (.ok (errorResponse message))] .reading items up
  /-- The pick was refused. -/
  | refused (hashes : List UInt64) (e : PickError) (items : List (ClientItem Resp))
      (up : Upstream Resp) :
      Move deps t (.picking hashes) items up [.event (.refused t e)]
        (.replying (fmtStatus deps e.status)) items up
  /-- A replica was picked. -/
  | picked (hashes : List UInt64) (d : RouteDecision n) (items : List (ClientItem Resp))
      (up : Upstream Resp) :
      Move deps t (.picking hashes) items up [.event (.picked t hashes.length d)]
        (.gaugePicked hashes d) items up
  /-- The gauge was set after the pick. -/
  | routed (hashes : List UInt64) (d : RouteDecision n) (items : List (ClientItem Resp))
      (up : Upstream Resp) :
      Move deps t (.gaugePicked hashes d) items up [] (.recording hashes d .requests) items up
  /-- One of the counters was incremented, and there are more. -/
  | recorded (hashes : List UInt64) (d : RouteDecision n) (stage stage' : Served)
      (items : List (ClientItem Resp)) (up : Upstream Resp) (hstage : stage.before stage' = true) :
      Move deps t (.recording hashes d stage) items up [] (.recording hashes d stage') items up
  /-- The last counter was incremented. -/
  | calling (hashes : List UInt64) (d : RouteDecision n) (stage : Served)
      (items : List (ClientItem Resp)) (up : Upstream Resp) :
      Move deps t (.recording hashes d stage) items up [] (.opening d) items up
  /-- The replica was called, and opened its stream. -/
  | opened (d : RouteDecision n) (x : List (ModelStreamInferResponse Resp) × Option Status)
      (items : List (ClientItem Resp)) :
      Move deps t (.opening d) items (.ok x) [.called d.replica] (.relaying d) items (.ok x)
  /-- The replica was called, and could not be reached. -/
  | unreachable (d : RouteDecision n) (status : Status) (items : List (ClientItem Resp))
      (hstatus : isTransportFailure status = true) :
      Move deps t (.opening d) items (.error status) [.called d.replica] (.marking d status) items
        (.error status)
  /-- The replica was called, and refused to open its stream. -/
  | declined (d : RouteDecision n) (status : Status) (items : List (ClientItem Resp))
      (hstatus : isTransportFailure status = false) :
      Move deps t (.opening d) items (.error status) [.called d.replica]
        (.reporting d ("upstream connect: " ++ fmtStatus deps status)) items (.error status)
  /-- The replica was marked. -/
  | marked (d : RouteDecision n) (status : Status) (items : List (ClientItem Resp))
      (up : Upstream Resp) :
      Move deps t (.marking d status) items up [.event (.unhealthy d.replica)]
        (.reporting d ("upstream connect: " ++ fmtStatus deps status)) items up
  /-- The error of a request that was routed was reported. -/
  | reported (d : RouteDecision n) (message : String) (items : List (ClientItem Resp))
      (up : Upstream Resp) :
      Move deps t (.reporting d message) items up [.sent (.ok (errorResponse message))]
        (.completing d false) items up
  /-- A chunk arrived. -/
  | chunk (d : RouteDecision n) (c : ModelStreamInferResponse Resp)
      (chunks : List (ModelStreamInferResponse Resp)) (fin : Option Status)
      (items : List (ClientItem Resp)) :
      Move deps t (.relaying d) items (.ok (c :: chunks, fin)) [] (.forwarding d c) items
        (.ok (chunks, fin))
  /-- The stream of the replica ended. -/
  | relayed (d : RouteDecision n) (items : List (ClientItem Resp)) :
      Move deps t (.relaying d) items (.ok ([], none)) [] (.completing d false) items (.ok ([], none))
  /-- The stream of the replica broke. -/
  | interrupted (d : RouteDecision n) (status : Status) (items : List (ClientItem Resp)) :
      Move deps t (.relaying d) items (.ok ([], some status)) []
        (.reporting d ("upstream: " ++ fmtStatus deps status)) items (.ok ([], some status))
  /-- A chunk was forwarded. -/
  | forwarded (d : RouteDecision n) (c : ModelStreamInferResponse Resp)
      (x : List (ModelStreamInferResponse Resp) × Option Status) (items : List (ClientItem Resp)) :
      Move deps t (.forwarding d c) items (.ok x) [.sent (.ok c)] (.relaying d) items (.ok x)
  /-- The request was completed. -/
  | completed (d : RouteDecision n) (inflight : ℕ) (items : List (ClientItem Resp))
      (up : Upstream Resp) :
      Move deps t (.completing d false) items up [.event (.completed t d.replica)]
        (.gaugeCompleted d false inflight) items up
  /-- The gauge was set after the completion. -/
  | settled (d : RouteDecision n) (inflight : ℕ) (items : List (ClientItem Resp))
      (up : Upstream Resp) :
      Move deps t (.gaugeCompleted d false inflight) items up [] .reading items up

variable {deps : Deps} {t : ℕ} {r r' : Relay n Resp} {inner : RouterInner F n}
  {doings : List (Doing n Resp)}

/-- **Every step of a task is a move**, and what is sent to the client is seen.

**Proof sketch.** By cases on the place of the task, with the script deciding its input. That the client
receives excludes the failed sends, and that the task is where it can get then excludes the ways out of
its loop. -/
theorem move_of_step (hrec : r.Receives) (hstep : step deps t r inner = some (doings, r')) :
    Move deps t r.task.pc r.items r.upstream doings r'.task.pc r'.items r'.upstream ∧
      r'.task.rxOpen = true ∧ r'.task.out = r.task.out ++ doings.filterMap Doing.item := by
  obtain ⟨⟨pc, out, rxOpen⟩, items, upstream⟩ := r
  obtain ⟨hopen, hat⟩ := hrec
  obtain ⟨⟨es, inner', s'⟩, hs, heq⟩ := Option.map_eq_some_iff.mp hstep
  cases heq
  simp only at hopen hat
  subst hopen
  cases pc with
  | reading =>
    rcases items with _ | ⟨status | ⟨req, upstream'⟩, items⟩ <;> cases hs
    · simpa [calls, input, StreamTask.goto] using Move.ended _
    · simpa [calls, input, StreamTask.goto] using Move.broken _ _ _
    · simpa [calls, input, StreamTask.goto] using Move.received _ _ _ _
  | forwardingError status =>
    cases hs
    simpa [calls, input, StreamTask.goto, StreamTask.send, Doing.item] using Move.forwardedError _ _ _
  | preparing req =>
    simp only [input, StreamTask.step] at hs
    split at hs <;> rename_i hprompt <;> cases hs
    · simpa [calls, input, StreamTask.goto] using Move.rejected _ _ _ _ hprompt
    · simpa [calls, input, StreamTask.goto] using Move.prepared _ _ _ _ hprompt
  | replying message =>
    cases hs
    simpa [calls, input, StreamTask.goto, StreamTask.send, Doing.item] using Move.replied _ _ _
  | picking hashes =>
    simp only [input, StreamTask.step] at hs
    split at hs <;> cases hs
    · simpa [calls, input, StreamTask.goto, Doing.item] using Move.refused _ _ _ _
    · simpa [calls, input, StreamTask.goto, Doing.item] using Move.picked _ _ _ _
  | gaugePicked hashes d =>
    cases hs
    simpa [calls, input, StreamTask.goto] using Move.routed _ _ _ _
  | recording hashes d stage =>
    cases stage <;> cases hs
    · simpa [calls, input, StreamTask.goto] using Move.recorded _ _ _ _ _ _ rfl
    · simpa [calls, input, StreamTask.goto] using Move.recorded _ _ _ _ _ _ rfl
    · simpa [calls, input, StreamTask.goto] using Move.calling _ _ _ _ _
  | opening d =>
    rcases upstream with status | x
    · simp only [input, StreamTask.step] at hs
      split_ifs at hs with hstatus <;> cases hs
      · simpa [calls, input, StreamTask.goto, Doing.item] using Move.unreachable _ _ _ hstatus
      · simpa [calls, input, StreamTask.goto, Doing.item] using
          Move.declined _ _ _ (Bool.eq_false_iff.mpr hstatus)
    · cases hs
      simpa [calls, input, StreamTask.goto, Doing.item] using Move.opened _ _ _
  | marking d status =>
    cases hs
    simpa [calls, input, StreamTask.goto, Doing.item] using Move.marked _ _ _ _
  | reporting d message =>
    cases hs
    simpa [calls, input, StreamTask.goto, StreamTask.send, Doing.item] using Move.reported _ _ _ _
  | relaying d =>
    obtain ⟨⟨chunks, fin⟩, rfl⟩ := hat
    rcases chunks with _ | ⟨c, chunks⟩
    · rcases fin with _ | status <;> cases hs
      · simpa [calls, input, StreamTask.goto] using Move.relayed _ _
      · simpa [calls, input, StreamTask.goto] using Move.interrupted _ _ _
    · cases hs
      simpa [calls, input, StreamTask.goto] using Move.chunk _ _ _ _ _
  | forwarding d c =>
    obtain ⟨x, rfl⟩ := hat
    cases hs
    simpa [calls, input, StreamTask.goto, StreamTask.send, Doing.item] using Move.forwarded _ _ _ _
  | completing d exit =>
    subst hat
    cases hs
    simpa [calls, input, StreamTask.goto, Doing.item] using Move.completed _ _ _ _
  | gaugeCompleted d exit inflight =>
    subst hat
    cases hs
    simpa [calls, input, StreamTask.goto] using Move.settled _ _ _ _
  | finished => cases hs

/-- **The task does not get stuck**: up to its end it steps in every shared state.

**Proof sketch.** By cases on the place of the task: the script has an input wherever one is awaited, and
no pick panics (`Scheduler.pick_isSome`). -/
theorem step_isSome (hpc : r.task.pc ≠ .finished) (inner : RouterInner F n) :
    (step deps t r inner).isSome := by
  obtain ⟨⟨pc, out, rxOpen⟩, items, upstream⟩ := r
  rw [step, Option.isSome_map]
  cases pc with
  | finished => exact absurd rfl hpc
  | reading => rcases items with _ | ⟨_ | _, _⟩ <;> rfl
  | preparing req =>
    simp only [input, StreamTask.step]
    split <;> rfl
  | picking hashes =>
    obtain ⟨⟨res, sched⟩, hpick⟩ :=
      Option.isSome_iff_exists.mp (inner.scheduler.pick_isSome hashes)
    simp only [input, StreamTask.step, RouterInner.pick, hpick, Option.map_some]
    cases res <;> rfl
  | recording hashes d stage => cases stage <;> rfl
  | opening d =>
    rcases upstream with status | x
    · simp only [input, StreamTask.step]
      split_ifs <;> rfl
    · rfl
  | relaying d => rcases upstream with status | ⟨_ | _, _ | _⟩ <;> rfl
  | forwarding d c => cases rxOpen <;> rfl
  | _ => rfl

end Step

variable {deps : Deps} {t : ℕ} {pc pc' : StreamPc n Resp} {items items' : List (ClientItem Resp)}
  {up up' : Upstream Resp} {doings : List (Doing n Resp)}

/-- While the client receives, the task stays where it can get. -/
theorem Move.stays (h : Move deps t pc items up doings pc' items' up') : Stays pc' up' := by
  cases h <;> first | trivial | rfl | exact ⟨_, rfl⟩

/-- Every move takes the task closer to its end. -/
theorem Move.work_lt (h : Move deps t pc items up doings pc' items' up') :
    work pc' items' up' < work pc items up := by
  cases h with
  | recorded hashes d stage stage' _ _ hstage =>
    cases stage <;> cases stage' <;> simp [Served.before, work, requestWork] at hstage ⊢
  | calling hashes d stage => cases stage <;> simp [work, requestWork]
  | _ => simp [work, requestWork, upstreamWork, itemWork] <;> omega

/-- A move within a request is the first part of what is yet to be seen of the request.

**Proof sketch.** By cases on the move, and then on what remains after it, which the place after the move
determines. What the move does comes first in what remained before. -/
theorem Remains.of_move {l : List (Doing n Resp)} (h : Remains deps t pc' up' l)
    (hmove : Move deps t pc items up doings pc' items' up') (hpc : pc ≠ .reading) :
    Remains deps t pc up (doings ++ l) := by
  cases hmove with
  | received => exact absurd rfl hpc
  | rejected _ _ _ _ hprompt =>
    cases h
    exact .preparing (.rejected _ hprompt)
  | prepared _ _ _ _ hprompt =>
    cases h with
    | refused => exact .preparing (.refused _ _ hprompt)
    | picked => exact .preparing (.routed _ _ hprompt)
  | refused =>
    cases h
    exact .refused _ _ _
  | picked =>
    cases h
    exact .picked _ _ _
  | routed =>
    cases h
    exact .gaugePicked _ _ _
  | recorded | calling =>
    cases h
    exact .recording _ _ _ _
  | opened =>
    cases h
    exact .opening _ _
  | unreachable d status _ hstatus =>
    cases h
    have hopening : Remains deps t (.opening d) (.error status)
        (.called d.replica :: answered deps t d (.error status : Upstream Resp)) := .opening _ _
    rwa [answered, if_pos hstatus] at hopening
  | declined d status _ hstatus =>
    cases h
    have hopening : Remains deps t (.opening d) (.error status)
        (.called d.replica :: answered deps t d (.error status : Upstream Resp)) := .opening _ _
    rwa [answered, if_neg (Bool.eq_false_iff.mp hstatus)] at hopening
  | marked =>
    cases h
    exact .marking _ _ _
  | reported =>
    cases h
    exact .reporting _ _ _
  | chunk | relayed | interrupted =>
    cases h
    exact .relaying _ _
  | forwarded =>
    cases h
    exact .forwarding _ _ _
  | completed =>
    cases h
    exact .completing _ _
  | ended | broken | forwardedError | replied | settled => cases h

/-- **A move is the first part of what is yet to be seen.**

**Proof sketch.** A move that starts or ends the handling of a request turns the page in what should be
seen of the stream; any other move is within a request (`Remains.of_move`). -/
theorem Future.of_move (hmove : Move deps t pc items up doings pc' items' up')
    {l : List (Doing n Resp)} {rest : List (ClientItem Resp)}
    (h : Future deps t pc' items' up' l rest) : Future deps t pc items up (doings ++ l) rest := by
  have hwithin := hmove
  cases hmove with
  | ended =>
    cases h with
    | finished => exact .reading _ .ended
    | handling hremains => cases hremains
  | broken =>
    cases h with
    | forwardingError => exact .reading _ (.broken _ _)
    | handling hremains => cases hremains
  | received =>
    cases h with
    | handling hremains hrest =>
      cases hremains with
      | preparing hhandled =>
        rw [List.nil_append]
        exact .reading _ (.request hhandled hrest)
  | forwardedError =>
    cases h with
    | finished => exact .forwardingError _ _ _
    | handling hremains => cases hremains
  | replied =>
    cases h with
    | reading _ hrelayed => exact .handling (.replying _ _) hrelayed
    | handling hremains => cases hremains
  | settled =>
    cases h with
    | reading _ hrelayed => exact .handling (.gaugeCompleted _ _ _) hrelayed
    | handling hremains => cases hremains
  | _ =>
    cases h with
    | handling hremains hrest =>
      rw [← List.append_assoc]
      exact .handling (hremains.of_move hwithin (by simp)) hrest

/-! ## Runs -/

section Runs

variable [Mul F] [Sub F] [LT F] [DecidableLT F] [ScoreArith F]

/-- The step of the task of a client stream among all the others is one of its steps here, in the shared
state that it finds. -/
theorem step_of_system {s s' : System F n Resp} {r : Relay n Resp} {es : List (Event n)}
    (hget : s.handlers[t]? = some (.stream r.task))
    (hstep : (System.lts F n Resp deps).step s (.run t r.input.1) es s') :
    ∃ doings r', (lts F deps t).step r s.inner doings r' ∧
      s'.handlers[t]? = some (.stream r'.task) := by
  cases System.step_inv hstep with
  | spawned _ _ hact => cases hact
  | ran _ _ es inner hd hd' hget' hrun =>
    obtain rfl := Option.some_inj.mp (hget.symm.trans hget')
    obtain ⟨⟨es', inner', task'⟩, htask, heq⟩ := Option.map_eq_some_iff.mp hrun
    cases heq
    obtain ⟨doings, hnext⟩ : ∃ doings, step deps t r s.inner =
        some (doings, { task := task', items := r.input.2.1, upstream := r.input.2.2 }) := by
      rw [step, htask]
      exact ⟨_, rfl⟩
    exact ⟨doings, _, hnext, (System.getElem?_set_handlers hget t).trans (if_pos rfl)⟩

variable {r : Relay n Resp} {τ : List (RouterInner F n × List (Doing n Resp))}

/-- **The relay is lossless and ordered.** For every script and every shared state that the task finds at
each of its steps, while the client receives: the task takes a bounded number of steps, and it takes the
next one up to its end; at its end, what was seen of it is what should be seen of each request, one after
the other, up to the end of the stream or its first error (`Relayed`), and what was sent to the client is
what is seen of it.

**Proof sketch.** A step is the first part of what is yet to be seen (`Future.of_move`), so what was seen
and what is yet to be seen is, at every point, what should be seen. -/
theorem relayed_of_exec (h : (lts F deps t).Exec (start n items) τ r) :
    τ.length + work r.task.pc r.items r.upstream ≤ 1 + (items.map itemWork).sum ∧
    (r.task.pc ≠ .finished → ∀ inner : RouterInner F n, ∃ doings r',
      (lts F deps t).step r inner doings r') ∧
    (r.task.pc = .finished → Relayed deps t items (τ.flatMap Prod.snd) r.items ∧
      r.task.out = (τ.flatMap Prod.snd).filterMap Doing.item) := by
  have hinv : r.Receives ∧ r.task.out = (τ.flatMap Prod.snd).filterMap Doing.item ∧
      τ.length + work r.task.pc r.items r.upstream ≤ 1 + (items.map itemWork).sum ∧
      ∀ l rest, Future deps t r.task.pc r.items r.upstream l rest →
        Relayed deps t items (τ.flatMap Prod.snd ++ l) rest := by
    refine Lts.Run.invariant (I := fun τ r => r.Receives ∧
      r.task.out = (τ.flatMap Prod.snd).filterMap Doing.item ∧
      τ.length + work r.task.pc r.items r.upstream ≤ 1 + (items.map itemWork).sum ∧
      ∀ l rest, Future deps t r.task.pc r.items r.upstream l rest →
        Relayed deps t items (τ.flatMap Prod.snd ++ l) rest) h ?_ ?_
    · refine ⟨⟨rfl, trivial⟩, rfl, ?_, fun l rest hl => ?_⟩
      · simp [start, work, requestWork]
      · cases hl with
        | reading _ hrelayed => exact hrelayed
        | handling hremains => cases hremains
    · rintro τ r inner doings r' ⟨hrec, hout, hwork, hfuture⟩ - hstep
      obtain ⟨hmove, hopen, hsent⟩ := move_of_step hrec hstep
      refine ⟨⟨hopen, hmove.stays⟩, ?_, ?_, fun l rest hl => ?_⟩
      · rw [hsent, hout, List.flatMap_append, List.filterMap_append]
        simp
      · have hlt := hmove.work_lt
        rw [List.length_append, List.length_singleton]
        omega
      · rw [List.flatMap_append, List.append_assoc]
        simpa using hfuture _ _ (hl.of_move hmove)
  obtain ⟨hrec, hout, hwork, hfuture⟩ := hinv
  refine ⟨hwork, fun hpc inner => ?_, fun hpc => ⟨?_, hout⟩⟩
  · obtain ⟨⟨doings, r'⟩, hstep⟩ := Option.isSome_iff_exists.mp (step_isSome hpc inner)
    exact ⟨doings, r', hstep⟩
  · have hlast := hfuture [] r.items
    rw [hpc, List.append_nil] at hlast
    exact hlast (.finished _ _)

/-- A task that has ended is at its last place. -/
theorem pc_of_ended {s : StreamTask n Resp} (hended : (Handler.stream s).ended = true) :
    s.pc = .finished := by
  obtain ⟨pc, out, rxOpen⟩ := s
  cases pc <;> first | rfl | cases hended

/-- A stream of the client: a request whose replica breaks its stream after a chunk, a request without a
prompt, a receive error, and a request that is not read any more. -/
def fourItems : List (ClientItem Unit) :=
  [.ok (System.emptyPrompt, .ok ([errorResponse "chunk"], some (.unavailable "down"))),
    .ok ({ inputs := [] }, .ok ([], none)), .error (.unavailable "gone"),
    .ok (System.emptyPrompt, .ok ([], none))]

/-- The task on a stream with a request that is relayed, one that fails, and a receive error. -/
theorem relayed_of_exec_four : ∃ τ r,
    (lts ℚ System.emptyPromptDeps 0).Exec (start 1 fourItems) τ r ∧ r.task.out.length = 4 ∧
      Relayed System.emptyPromptDeps 0 fourItems (τ.flatMap Prod.snd) r.items ∧
      r.items.length = 1 := by
  have hrun := Lts.exec_get (step System.emptyPromptDeps 0) (start 1 fourItems)
    (List.replicate 19 (.new 1 .cacheAware System.capOne)) (by decide +kernel)
  exact ⟨_, _, hrun, by decide +kernel,
    ((relayed_of_exec hrun).2.2 (pc_of_ended (by decide +kernel))).1, by decide +kernel⟩

end Runs

end Relay
