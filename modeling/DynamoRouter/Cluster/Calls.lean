import DynamoRouter.Cluster.Network
import DynamoRouter.Router.Counters

set_option relaxedAutoImplicit false
set_option autoImplicit false

/-!
# The calls on their way

Of all that happens in a cluster, the replicas' caches depend on what is picked and on what reaches its
replica. Seen from there a step of the cluster picks a replica for a request, or lets a request reach its
replica, or loses a call, or leaves all calls on their way.

A task keeps its request and its hashes in variables of its own. What it does to them is its *trail*; with
it goes the request and the wire that the network keeps for the task.

## Main definitions

* `Handler.Trail` — what a step of a handler can do to the request, the hashes and the call that it has.
* `Cluster.Sound` — the requests and the wires of the network belong to the tasks.
* `Cluster.Flow` — what a step of the cluster can do to the calls on their way.

## Main results

* `Cluster.sound_of_run` — the network belongs to the tasks along every run.
* `Cluster.flow_of_step` — every step of a sound cluster is of one of the kinds.
-/

open Protocol

/-- Whether an input leaves alone what is on its way to a task. -/
def Input.keepsWire {Resp : Type} : Input Resp → Bool
  | .tick => true
  | .disconnect => true
  | .opened (.ok ()) => true
  | _ => false

/-- Whether an input is an item of a replica's stream. -/
def Input.isItem {Resp : Type} : Input Resp → Bool
  | .message (.ok (some _)) => true
  | _ => false

namespace Handler

section Trail

variable {n : ℕ} {Resp : Type}

/-- The request that a handler has not hashed yet. -/
def request : Handler n Resp → Option ModelInferRequest
  | .unary (.start req) => some req
  | .unary _ => none
  | .stream s =>
    match s.pc with
    | .preparing req => some req
    | _ => none

/-- The chain that a handler keeps: the hashes of its request. -/
def chain : Handler n Resp → Option (List UInt64)
  | .unary (.picking hashes _) => some hashes
  | .unary (.gaugePicked hashes _ _) => some hashes
  | .unary (.upstream hashes _ _) => some hashes
  | .unary (.completing hashes _ _ _) => some hashes
  | .unary (.gaugeCompleted hashes _ _ _ _) => some hashes
  | .unary (.marking hashes _ _ _) => some hashes
  | .unary _ => none
  | .stream s =>
    match s.pc with
    | .picking hashes => some hashes
    | .gaugePicked hashes _ => some hashes
    | .recording hashes _ _ => some hashes
    | _ => none

/-- Whether nothing can be on its way to a handler. -/
def unanswered : Handler n Resp → Bool
  | .unary (.upstream _ _ _) => false
  | .unary _ => true
  | .stream s =>
    match s.pc with
    | .preparing _ => true
    | .picking _ => true
    | .gaugePicked _ _ => true
    | .recording _ _ _ => true
    | _ => false

/-- Whether a handler is about to forward an item. -/
def forwards : Handler n Resp → Bool
  | .unary _ => false
  | .stream s =>
    match s.pc with
    | .forwarding _ _ => true
    | _ => false

/-- What a step of a handler can do to the request, the hashes and the call that it has. -/
structure Trail (deps : Deps) (input : Input Resp) (h h' : Handler n Resp) : Prop where
  /-- A request is the one before, or the one that is received. -/
  request : ∀ req, h'.request = some req → h.request = some req ∨ input = .recv (some (.ok req))
  /-- A chain is the one before, or the hashes of the request before. -/
  chain : ∀ hashes, h'.chain = some hashes → h.chain = some hashes ∨
    ∃ req, h.request = some req ∧ RouterInner.promptHashes deps req = .ok hashes
  /-- A replica is asked as before, or for a chain. -/
  asks : h'.asks.isSome → h.asks.isSome ∨ h.chain.isSome
  /-- Nothing is on its way if nothing was, or if the input lets go of it. -/
  unanswered : h'.unanswered = true → input.isItem = false ∧ (input.keepsWire = true → h.unanswered = true)
  /-- An item to forward was one before, or is the input. -/
  forwards : h'.forwards = true → input.isItem = true ∨ input.keepsWire = true ∧ h.forwards = true
  /-- A handler that receives has nothing. -/
  idle : ∀ item, input = .recv item → h.request = none ∧ h.chain = none ∧ h.asks = none
  /-- An input that lets go of the wire lets go of the replica. -/
  clear : input.keepsWire = false → input.isItem = false → h'.asks = none

section Step

variable {F : Type} [Mul F] [Sub F] [LT F] [DecidableLT F] [ScoreArith F]

/-- The trail of a step of a unary call.

**Proof sketch.** One case for each effect of a unary step. Only the hashing of the prompt makes a chain,
and it makes it of the request that the call had. -/
theorem trail_of_unary_step {deps : Deps} {inner inner' : RouterInner F n} {t : ℕ}
    {pc pc' : UnaryPc n Resp} {input : Input Resp} {es : List (Event n)}
    (h : pc.step deps inner t input = some (es, inner', pc')) :
    Trail deps input (.unary pc) (.unary pc') := by
  cases UnaryPc.step_inv h with
  | prepared req hashes hprompt =>
    refine ⟨by simp [Handler.request], fun x hx => .inr ⟨req, rfl, ?_⟩, by simp [Handler.asks],
      by simp [Handler.unanswered, Input.isItem], by simp [Handler.forwards], by simp,
      by simp [Handler.asks]⟩
    obtain rfl : hashes = x := Option.some_inj.mp hx
    exact hprompt
  | _ =>
    constructor <;>
      simp [Handler.request, Handler.chain, Handler.asks, Handler.unanswered, Handler.forwards,
        Input.isItem, Input.keepsWire]

/-- The trail of a step of the task of a client stream.

**Proof sketch.** One case for each effect of a stream's step, as for a unary call. The end of a relay
returns to different places, by the way it ended; none of them has a request or a chain. -/
theorem trail_of_stream_step {deps : Deps} {inner inner' : RouterInner F n} {t : ℕ}
    {s s' : StreamTask n Resp} {input : Input Resp} {es : List (Event n)}
    (h : s.step deps inner t input = some (es, inner', s')) :
    Trail deps input (.stream s) (.stream s') := by
  have heff := StreamTask.step_inv h
  obtain ⟨pc, out, rxOpen⟩ := s
  cases heff with
  | prepared req hashes hprompt =>
    refine ⟨by simp [Handler.request, StreamTask.goto], fun x hx => .inr ⟨req, rfl, ?_⟩,
      by simp [Handler.asks, StreamTask.goto], by simp [Handler.unanswered, Input.isItem],
      by simp [Handler.forwards, StreamTask.goto], by simp,
      by simp [Handler.asks, StreamTask.goto]⟩
    obtain rfl : hashes = x := Option.some_inj.mp hx
    exact hprompt
  | disconnected =>
    exact ⟨fun req hh => .inl hh, fun hashes hh => .inl hh, fun hh => .inl hh, fun hh => ⟨rfl, fun _ => hh⟩,
      fun hh => .inr ⟨rfl, hh⟩, by simp, by simp [Input.keepsWire]⟩
  | settled d exit =>
    cases exit <;> constructor <;>
      simp [Handler.request, Handler.chain, Handler.asks, Handler.unanswered, Handler.forwards,
        Input.isItem, Input.keepsWire, StreamTask.goto]
  | _ =>
    constructor <;>
      simp [Handler.request, Handler.chain, Handler.asks, Handler.unanswered, Handler.forwards,
        Input.isItem, Input.keepsWire, StreamTask.goto]

/-- **The trail of a step of a handler.** -/
theorem trail_of_step {deps : Deps} {inner inner' : RouterInner F n} {t : ℕ}
    {h h' : Handler n Resp} {input : Input Resp} {es : List (Event n)}
    (hstep : h.step deps inner t input = some (es, inner', h')) : Trail deps input h h' := by
  rcases step_inv hstep with ⟨pc, pc', rfl, rfl, hpc⟩ | ⟨s, s', rfl, rfl, hs⟩
  · exact trail_of_unary_step hpc
  · exact trail_of_stream_step hs

/-- What a step of task `t` can do to the replica that it asks. -/
inductive Ask (t : ℕ) (sched : Scheduler F n) (h : Handler n Resp) :
    Input Resp → List (Event n) → Scheduler F n → Handler n Resp → Prop
  /-- A replica was picked, and is asked from now on. -/
  | picked (hashes : List UInt64) (d : RouteDecision n) (sched' : Scheduler F n)
      (h' : Handler n Resp) (hpick : sched.pick hashes = some (.ok d, sched'))
      (hchain : h.chain = some hashes) (hun : h.unanswered = true) (hbefore : h.asks = none)
      (hafter : h'.asks = some d.replica) :
      Ask t sched h .tick [.picked t hashes.length d] sched' h'
  /-- A replica is no longer asked: an answer arrived, or the handler was dropped, or it has let go. -/
  | released (input : Input Resp) (sched' : Scheduler F n) (h' : Handler n Resp)
      (hcause : input.keepsWire = false ∨ h.forwards = true) (hafter : h'.asks = none) :
      Ask t sched h input [] sched' h'
  /-- The same replica is asked, if any. -/
  | kept (input : Input Resp) (es : List (Event n)) (sched' : Scheduler F n) (h' : Handler n Resp)
      (hes : ∀ i, es.filterMap (Event.decisionOf i) = []) (hasks : h'.asks = h.asks) :
      Ask t sched h input es sched' h'

/-- What a step of a unary call does to the replica that it asks. -/
theorem ask_of_unary_step {deps : Deps} {inner inner' : RouterInner F n} {t : ℕ}
    {pc pc' : UnaryPc n Resp} {input : Input Resp} {es : List (Event n)}
    (h : pc.step deps inner t input = some (es, inner', pc')) :
    Ask t inner.scheduler (.unary pc) input es inner'.scheduler (.unary pc') := by
  cases UnaryPc.step_inv h with
  | picked hashes att d sched hpick => exact .picked hashes d _ _ hpick rfl rfl rfl rfl
  | replied | dropped => exact .released _ _ _ (.inl rfl) rfl
  | _ => exact .kept _ _ _ _ (fun _ => rfl) rfl

/-- What a step of the task of a client stream does to the replica that it asks.

**Proof sketch.** A pick starts to ask a replica; a failure, an answer that declines, the end of a relay
and a client that is gone stop it; any other step asks the same replica, if any. -/
theorem ask_of_stream_step {deps : Deps} {inner inner' : RouterInner F n} {t : ℕ}
    {s s' : StreamTask n Resp} {input : Input Resp} {es : List (Event n)}
    (h : s.step deps inner t input = some (es, inner', s')) :
    Ask t inner.scheduler (.stream s) input es inner'.scheduler (.stream s') := by
  have heff := StreamTask.step_inv h
  obtain ⟨pc, out, rxOpen⟩ := s
  cases heff with
  | picked hashes d sched hpick => exact .picked hashes d _ _ hpick rfl rfl rfl rfl
  | unreachable | declined | relayed | interrupted => exact .released _ _ _ (.inl rfl) rfl
  | abandoned => exact .released _ _ _ (.inr rfl) rfl
  | settled d exit => cases exit <;> exact .kept _ _ _ _ (fun _ => rfl) rfl
  | _ => exact .kept _ _ _ _ (fun _ => rfl) rfl

/-- **What a step of a handler does to the replica that it asks.** -/
theorem ask_of_step {deps : Deps} {inner inner' : RouterInner F n} {t : ℕ}
    {h h' : Handler n Resp} {input : Input Resp} {es : List (Event n)}
    (hstep : h.step deps inner t input = some (es, inner', h')) :
    Ask t inner.scheduler h input es inner'.scheduler h' := by
  rcases step_inv hstep with ⟨pc, pc', rfl, rfl, hpc⟩ | ⟨s, s', rfl, rfl, hs⟩
  · exact ask_of_unary_step hpc
  · exact ask_of_stream_step hs

end Step

end Trail

end Handler

/-! ## The network belongs to the tasks -/

/-- A request with its hashes. -/
def Carries (deps : Deps) (req : Option ModelInferRequest) (hashes : List UInt64) : Prop :=
  ∃ rq, req = some rq ∧ RouterInner.promptHashes deps rq = .ok hashes

/-- The request of a task after an input. -/
def Input.requestAfter {Resp : Type} (input : Input Resp) (req : Option ModelInferRequest) :
    Option ModelInferRequest :=
  match input with
  | .recv (some (.ok rq)) => some rq
  | _ => req

/-- The request and the wire that the network keeps for a task belong to its handler. -/
structure TaskOk {n : ℕ} (deps : Deps) (h : Handler n MockResponse) (req : Option ModelInferRequest)
    (wire : Wire) : Prop where
  /-- The request is the one that the handler has not hashed. -/
  request : ∀ rq, h.request = some rq → req = some rq
  /-- The chain of the handler is that of the request. -/
  chain : ∀ hashes, h.chain = some hashes → Carries deps req hashes
  /-- A replica is asked for a request that has hashes. -/
  asks : h.asks.isSome → ∃ hashes, Carries deps req hashes
  /-- Nothing is on its way where nothing can be. -/
  unanswered : h.unanswered = true → wire = .empty
  /-- A handler that forwards an item is on the way through a stream. -/
  forwards : h.forwards = true → wire ≠ .empty

namespace TaskOk

variable {n : ℕ} {deps : Deps} {h h' : Handler n MockResponse} {req : Option ModelInferRequest}
  {wire wire' : Wire} {input : Input MockResponse}

/-- A step of a handler keeps what the network keeps for it, if the wire follows the input.

**Proof sketch.** If the input is an item of the client, the handler was idle (`Trail.idle`), so that its
request is the one it receives. Otherwise the request is the same, and a new chain is the hashes of it.
The wire follows the input: it is kept, or an item is taken off it, or it is let go. -/
theorem step (hok : TaskOk deps h req wire) (htrail : h.Trail deps input h')
    (hkeep : input.keepsWire = true → wire' = wire) (hitem : input.isItem = true → wire' ≠ .empty)
    (hclear : input.keepsWire = false → input.isItem = false → wire' = .empty) :
    TaskOk deps h' (input.requestAfter req) wire' := by
  have hsame : (∀ item, input ≠ .recv item) → input.requestAfter req = req := fun hne => by
    cases input <;> first | rfl | exact absurd rfl (hne _)
  have hunanswered : h'.unanswered = true → wire' = .empty := fun hun => by
    obtain ⟨hnot, hbefore⟩ := htrail.unanswered hun
    cases hk : input.keepsWire with
    | true => rw [hkeep hk, hok.unanswered (hbefore hk)]
    | false => exact hclear hk hnot
  have hforwards : h'.forwards = true → wire' ≠ .empty := fun hfw => by
    rcases htrail.forwards hfw with hi | ⟨hk, hbefore⟩
    · exact hitem hi
    · rw [hkeep hk]
      exact hok.forwards hbefore
  by_cases hrecv : ∃ item, input = .recv item
  · obtain ⟨item, rfl⟩ := hrecv
    obtain ⟨hreq, hchain, hasks⟩ := htrail.idle item rfl
    refine ⟨fun rq hrq => ?_, fun hashes hh => ?_, fun hh => ?_, hunanswered, hforwards⟩
    · rcases htrail.request rq hrq with hold | heq
      · rw [hreq] at hold
        cases hold
      · cases heq
        rfl
    · rcases htrail.chain hashes hh with hold | ⟨rq, hold, -⟩
      · rw [hchain] at hold
        cases hold
      · rw [hreq] at hold
        cases hold
    · rcases htrail.asks hh with hold | hold
      · simp [hasks] at hold
      · simp [hchain] at hold
  · push Not at hrecv
    rw [hsame hrecv]
    refine ⟨fun rq hrq => ?_, fun hashes hh => ?_, fun hh => ?_, hunanswered, hforwards⟩
    · rcases htrail.request rq hrq with hold | heq
      · exact hok.request rq hold
      · exact absurd heq (hrecv _)
    · rcases htrail.chain hashes hh with hold | ⟨rq, hold, hprompt⟩
      · exact hok.chain hashes hold
      · exact ⟨rq, hok.request rq hold, hprompt⟩
    · rcases htrail.asks hh with hold | hold
      · exact hok.asks hold
      · obtain ⟨hashes, hchain⟩ := Option.isSome_iff_exists.mp hold
        exact ⟨hashes, hok.chain hashes hchain⟩

end TaskOk

/-! ## What a task takes off its wire -/

/-- What a handler can take off its wire. -/
inductive Taken : Input MockResponse → Wire → Wire → Prop
  /-- The answer of a unary call. -/
  | reply (result : Except Status MockResponse) : Taken (.reply result) (.reply result) .empty
  /-- The opening of a stream. -/
  | opened (wire : Wire) : Taken (.opened (.ok ())) wire wire
  /-- An item of a stream. -/
  | item (chunk : ModelStreamInferResponse MockResponse)
      (chunks : List (ModelStreamInferResponse MockResponse)) :
      Taken (.message (.ok (some chunk))) (.items (chunk :: chunks)) (.items chunks)
  /-- The end of a stream. -/
  | ended : Taken (.message (.ok none)) (.items []) .empty

/-- What a handler takes off its wire is one of these. -/
theorem Handler.taken_of_takes {n : ℕ} {h : Handler n MockResponse} {wire wire' : Wire}
    {input : Input MockResponse} (htakes : h.takes wire = some (input, wire')) :
    Taken input wire wire' := by
  cases h with
  | unary pc =>
    cases pc <;> cases wire <;> cases htakes
    exact .reply _
  | stream s =>
    obtain ⟨pc, out, rxOpen⟩ := s
    cases pc with
    | opening d =>
      cases htakes
      exact .opened _
    | relaying d =>
      rcases wire with _ | _ | ⟨_ | _⟩ <;> cases htakes
      · exact .ended
      · exact .item _ _
    | _ => cases htakes

/-- The failure of a call lets go of the wire. -/
theorem Handler.failure_inv {n : ℕ} {Resp : Type} {h : Handler n Resp} {status : Status}
    {input : Input Resp} (hfailure : h.failure status = some input) :
    input.keepsWire = false ∧ input.isItem = false ∧ ∀ req, input.requestAfter req = req := by
  cases h with
  | unary pc =>
    cases pc <;> cases hfailure
    exact ⟨rfl, rfl, fun _ => rfl⟩
  | stream s =>
    obtain ⟨pc, out, rxOpen⟩ := s
    cases pc <;> cases hfailure <;> exact ⟨rfl, rfl, fun _ => rfl⟩

/-- A handler that has called a replica asks it. -/
theorem Handler.asks_of_callee {n : ℕ} {Resp : Type} {h : Handler n Resp} {r : Fin n}
    (hcallee : h.callee = some r) :
    h.asks = some r ∧ h.unanswered = false ∧ h.forwards = false := by
  cases h with
  | unary pc =>
    cases pc <;> cases hcallee
    exact ⟨rfl, rfl, rfl⟩
  | stream s =>
    obtain ⟨pc, out, rxOpen⟩ := s
    cases pc <;> cases hcallee <;> exact ⟨rfl, rfl, rfl⟩

/-- An answer is on its way. -/
theorem MockTriton.answer_ne_empty {n : ℕ} (deps : ClusterDeps) (service : MockTritonService)
    (req : ModelInferRequest) (h : Handler n MockResponse) :
    MockTriton.answer deps service req h ≠ .empty := by
  cases h <;> simp [MockTriton.answer]

namespace Cluster

variable {F : Type} {n : ℕ}

/-- The requests and the wires that the network keeps belong to the tasks. -/
structure Sound (deps : Deps) (s : Cluster F n) : Prop where
  /-- Those of a task belong to its handler. -/
  task : ∀ t h, s.handler t = some h → TaskOk deps h (s.requests t) (s.wires t)
  /-- Nothing is on its way to a task that has not arrived. -/
  fresh : ∀ t, s.handler t = none → s.wires t = .empty

/-- The network at the start. -/
theorem sound_new (deps : Deps) (policy : Policy) (cfg : SchedulerConfig F)
    (mocks : Fin n → MockConfig) : (new policy cfg mocks).Sound deps where
  task t h hget := by simp [handler, new, System.new] at hget
  fresh _ _ := rfl

/-- A step of task `t` on some input, as far as the network is concerned. -/
structure Ran (s s' : Cluster F n) (t : ℕ) (input : Input MockResponse)
    (h h' : Handler n MockResponse) (wire : Wire) : Prop where
  /-- The handler before. -/
  get : s.handler t = some h
  /-- The handlers after. -/
  handlers : s'.router.handlers = s.router.handlers.set t h'
  /-- The requests after. -/
  requests : s'.requests = Function.update s.requests t (input.requestAfter (s.requests t))
  /-- The wires after. -/
  wires : s'.wires = Function.update s.wires t wire
  /-- A wire that is kept. -/
  keep : input.keepsWire = true → wire = s.wires t
  /-- A wire that an item is taken off. -/
  item : input.isItem = true → wire ≠ .empty ∧ s.wires t ≠ .empty
  /-- A wire that is let go of. -/
  clear : input.keepsWire = false → input.isItem = false → wire = .empty

namespace Ran

variable {s s' : Cluster F n} {t : ℕ} {input : Input MockResponse} {h h' : Handler n MockResponse}
  {wire : Wire}

/-- The handlers after a step of one task. -/
theorem handler_eq (hran : Ran s s' t input h h' wire) (i : ℕ) :
    s'.handler i = if i = t then some h' else s.handler i := by
  rw [handler, hran.handlers]
  exact System.getElem?_set_handlers hran.get i

/-- A step of one task keeps the network sound.

**Proof sketch.** The task that steps is `TaskOk.step`; the others are as before, with their requests and
their wires. -/
theorem sound {deps : Deps} (hran : Ran s s' t input h h' wire) (hs : s.Sound deps)
    (htrail : h.Trail deps input h') : s'.Sound deps := by
  refine ⟨fun i hd hi => ?_, fun i hi => ?_⟩
  · rw [hran.handler_eq] at hi
    split_ifs at hi with hit
    · obtain rfl : h' = hd := Option.some_inj.mp hi
      rw [hit, hran.requests, hran.wires, Function.update_self, Function.update_self]
      exact (hs.task t h hran.get).step htrail hran.keep (fun hi => (hran.item hi).1) hran.clear
    · rw [hran.requests, hran.wires, Function.update_of_ne hit, Function.update_of_ne hit]
      exact hs.task i hd hi
  · rw [hran.handler_eq] at hi
    split_ifs at hi with hit
    rw [hran.wires, Function.update_of_ne hit]
    exact hs.fresh i hi

/-- The calls on their way are those before, but for that of the task. -/
theorem waiting_eq (hran : Ran s s' t input h h' wire) :
    s'.waiting = Function.update s.waiting t (s'.waiting t) := by
  funext i
  by_cases hit : i = t
  · subst hit
    rw [Function.update_self]
  · rw [Function.update_of_ne hit, waiting, waiting, hran.handler_eq, if_neg hit, hran.requests,
      hran.wires, Function.update_of_ne hit, Function.update_of_ne hit]

/-- The call of the task after its step. -/
theorem waiting_self (hran : Ran s s' t input h h' wire) :
    s'.waiting t = onItsWay h'.asks wire (input.requestAfter (s.requests t)) := by
  rw [waiting, hran.handler_eq, if_pos rfl, hran.requests, hran.wires, Function.update_self,
    Function.update_self, Option.bind_some]

end Ran

/-- Nothing is on its way where something has come back. -/
theorem onItsWay_of_wire {wire : Wire} (h : wire ≠ .empty) (asked : Option (Fin n))
    (req : Option ModelInferRequest) : onItsWay asked wire req = none := by
  cases wire <;> first | rfl | contradiction

/-- Nothing is on its way where no replica is asked. -/
theorem onItsWay_none (wire : Wire) (req : Option ModelInferRequest) :
    onItsWay (none : Option (Fin n)) wire req = none := by
  cases wire <;> rfl

/-- A task that asks no replica has no call on its way. -/
theorem waiting_eq_none_of_asks {s : Cluster F n} {t : ℕ} {h : Handler n MockResponse}
    (hget : s.handler t = some h) (hasks : h.asks = none) : s.waiting t = none := by
  rw [waiting, hget, Option.bind_some, hasks, onItsWay_none]

/-- The call of a task that asks a replica, and has nothing on its wire. -/
theorem waiting_eq_some {s : Cluster F n} {t : ℕ} {h : Handler n MockResponse} {r : Fin n}
    {req : ModelInferRequest} (hget : s.handler t = some h) (hasks : h.asks = some r)
    (hwire : s.wires t = .empty) (hreq : s.requests t = some req) :
    s.waiting t = some (r, req) := by
  rw [waiting, hget, Option.bind_some, hasks, hwire, hreq]
  rfl

/-! ## The steps of one task -/

section Tasks

/-- The wire of a task after an input that is not an answer. -/
def ownWire (wire : Wire) : Input MockResponse → Wire
  | .recv _ => .empty
  | .drop => .empty
  | _ => wire

/-- The requests after a step of one task. -/
theorem requestsAfter_run (s : Cluster F n) (t : ℕ) (input : Input MockResponse) :
    s.requestsAfter (.run t input) =
      Function.update s.requests t (input.requestAfter (s.requests t)) := by
  unfold requestsAfter
  split
  · rename_i heq
    cases heq
  · rename_i heq
    cases heq
    rfl
  · rename_i hnot
    have hsame : input.requestAfter (s.requests t) = s.requests t := by
      cases input with
      | recv item =>
        rcases item with _ | _ | req
        · rfl
        · rfl
        · exact absurd rfl (hnot t req)
      | _ => rfl
    rw [hsame, Function.update_eq_self]

/-- The wires after a step of one task. -/
theorem wiresAfter_run (s : Cluster F n) (t : ℕ) (input : Input MockResponse) :
    s.wiresAfter (.run t input) = Function.update s.wires t (ownWire (s.wires t) input) := by
  cases input with
  | recv | drop => rfl
  | _ => exact (Function.update_eq_self t s.wires).symm

variable {s : Cluster F n} {t : ℕ} {input : Input MockResponse} {h h' : Handler n MockResponse}
  {inner : RouterInner F n}

/-- A step of a task that is not the arrival of an answer. -/
theorem ran_routed (hget : s.handler t = some h)
    (hact : (Act.run t input : Act n MockResponse).fromUpstream = false)
    (strays : List (ℕ × Fin n × ModelInferRequest)) :
    Ran s { s with
      router := { s.router with inner := inner, handlers := s.router.handlers.set t h' }
      requests := s.requestsAfter (.run t input)
      wires := s.wiresAfter (.run t input)
      strays := strays } t input h h' (ownWire (s.wires t) input) where
  get := hget
  handlers := rfl
  requests := requestsAfter_run s t input
  wires := wiresAfter_run s t input
  keep hk := by cases input <;> first | rfl | simp [Input.keepsWire] at hk
  item hi := by cases input <;> simp [Input.isItem, Act.fromUpstream] at hi hact
  clear hk hi := by
    cases input <;> first | rfl | simp [Input.keepsWire, Act.fromUpstream] at hk hact

/-- A step of a task that takes what is on its wire. -/
theorem ran_delivered {wire : Wire} (hget : s.handler t = some h)
    (htaken : Taken input (s.wires t) wire) :
    Ran s { s with
      router := { s.router with inner := inner, handlers := s.router.handlers.set t h' }
      wires := Function.update s.wires t wire } t input h h' wire where
  get := hget
  handlers := rfl
  requests := by
    have hsame : input.requestAfter (s.requests t) = s.requests t := by
      generalize s.wires t = w at htaken
      cases htaken <;> rfl
    rw [hsame, Function.update_eq_self]
  wires := rfl
  keep hk := by
    generalize s.wires t = w at htaken
    cases htaken <;> first | rfl | simp [Input.keepsWire] at hk
  item hi := by
    generalize s.wires t = w at htaken ⊢
    cases htaken <;> simp [Input.isItem] at hi ⊢
  clear hk hi := by
    generalize s.wires t = w at htaken
    cases htaken <;> first | rfl | simp [Input.keepsWire, Input.isItem] at hk hi

/-- A step of a task whose call fails. -/
theorem ran_failed {status : Status} (hget : s.handler t = some h)
    (hfailure : h.failure status = some input) (strays : List (ℕ × Fin n × ModelInferRequest)) :
    Ran s { s with
      router := { s.router with inner := inner, handlers := s.router.handlers.set t h' }
      wires := Function.update s.wires t .empty
      strays := strays } t input h h' .empty where
  get := hget
  handlers := rfl
  requests := by rw [(Handler.failure_inv hfailure).2.2, Function.update_eq_self]
  wires := rfl
  keep hk := by simp [(Handler.failure_inv hfailure).1] at hk
  item hi := by simp [(Handler.failure_inv hfailure).2.1] at hi
  clear _ _ := rfl

end Tasks

/-! ## What a step does to the calls on their way -/

/-- Every cache is as before, unless its replica was taken out of routing. -/
def CachesKept (sched sched' : Scheduler F n) (es : List (Event n)) : Prop :=
  ∀ r, (sched'.replicas r).cache = (sched.replicas r).cache ∨
    .unhealthy r ∈ es ∧ (sched'.replicas r).cache = .new

/-- Nothing happened to the caches. -/
theorem CachesKept.refl (sched : Scheduler F n) (es : List (Event n)) : CachesKept sched sched es :=
  fun _ => .inl rfl

/-- A replica taken out of routing starts with a new cache. -/
theorem cachesKept_markUnhealthy (sched : Scheduler F n) (r : Fin n) {es : List (Event n)}
    (hmem : .unhealthy r ∈ es) : CachesKept sched (sched.markUnhealthy r) es := fun i => by
  by_cases hi : i = r
  · subst hi
    exact .inr ⟨hmem, by rw [Scheduler.markUnhealthy, Scheduler.replicas_setReplica_self]⟩
  · exact .inl (by rw [Scheduler.markUnhealthy, Scheduler.replicas_setReplica_of_ne _ _ hi])

/-- One more change that keeps the caches. -/
theorem CachesKept.trans {s₁ s₂ s₃ : Scheduler F n} {es es' : List (Event n)}
    (h : CachesKept s₁ s₂ es) (h' : CachesKept s₂ s₃ es') : CachesKept s₁ s₃ (es ++ es') := fun r => by
  rcases h' r with heq | ⟨hmem, hnew⟩
  · rcases h r with heq' | ⟨hmem, hnew⟩
    · exact .inl (heq.trans heq')
    · exact .inr ⟨List.mem_append_left _ hmem, heq.trans hnew⟩
  · exact .inr ⟨List.mem_append_right _ hmem, hnew⟩

/-- A pass of the prober keeps the caches.

**Proof sketch.** By induction on the results of the pass (`System.probe_induction`): a mark as healthy
keeps all caches, and a mark as unhealthy clears one and is an event of the pass. -/
theorem cachesKept_applyProbes (sched : Scheduler F n) (results : List (Fin n × Bool)) :
    CachesKept sched (RouterInner.applyProbes sched results).1
      (System.probeEvents sched results) :=
  System.probe_induction (P := fun es s => CachesKept sched s es)
    (fun _ s r h => h.trans (show CachesKept s (s.markHealthy r) _ from fun i =>
      .inl (Scheduler.cache_markHealthy s r i)))
    (fun _ s r h => h.trans (cachesKept_markUnhealthy s r (List.mem_singleton_self _)))
    (CachesKept.refl sched []) results

section Step

variable [Mul F] [Sub F] [LT F] [DecidableLT F] [ScoreArith F]

/-- A step that makes no decision keeps the caches. -/
theorem cachesKept_of_move {t : ℕ} {sched sched' : Scheduler F n} {h h' : Handler n MockResponse}
    {input : Input MockResponse} {es : List (Event n)} (hmove : h.Move t sched input es sched' h')
    (hes : es.filterMap (Event.decisionOf t) = []) : CachesKept sched sched' es := by
  cases hmove with
  | quiet => exact .refl _ _
  | refused => exact .refl _ _
  | picked hashes d => simp [Event.decisionOf] at hes
  | completed r => exact fun i => .inl (Scheduler.cache_complete _ r i)
  | marked r => exact cachesKept_markUnhealthy _ r (List.mem_singleton_self _)
  | dropped => exact .refl _ _

/-- What a step of the cluster can do to the calls on their way. -/
inductive Flow (deps : ClusterDeps) (s : Cluster F n) (a : Action n) : Seen n → Cluster F n → Prop
  /-- A replica was picked for a request, which is on its way from now on. -/
  | picked (t : ℕ) (hashes : List UInt64) (d : RouteDecision n) (req : ModelInferRequest)
      (s' : Cluster F n) (hprompt : RouterInner.promptHashes deps.toDeps req = .ok hashes)
      (hpick : s.router.sched.pick hashes = some (.ok d, s'.router.sched))
      (hbefore : s.waiting t = none)
      (hafter : s'.waiting = Function.update s.waiting t (some (d.replica, req)))
      (hreplicas : s'.replicas = s.replicas) (hstrays : s'.strays = s.strays) :
      Flow deps s a (.router (.run t .tick) [.picked t hashes.length d]) s'
  /-- A request reached its replica. -/
  | served (t : ℕ) (r : Fin n) (req : ModelInferRequest) (s' : Cluster F n)
      (hbefore : s.waiting t = some (r, req)) (hafter : s'.waiting = Function.update s.waiting t none)
      (hrouter : s'.router = s.router)
      (hreplicas : s'.replicas =
        Function.update s.replicas r ((s.replicas r).prefill deps.encode req).2)
      (hstrays : s'.strays = s.strays) :
      Flow deps s a (.served t r ((s.replicas r).prefill deps.encode req).1) s'
  /-- A request that had gone astray reached its replica. -/
  | servedStray (i t : ℕ) (r : Fin n) (req : ModelInferRequest) (s' : Cluster F n)
      (hget : s.strays[i]? = some (t, r, req)) (hafter : s'.waiting = s.waiting)
      (hrouter : s'.router = s.router)
      (hreplicas : s'.replicas =
        Function.update s.replicas r ((s.replicas r).prefill deps.encode req).2)
      (hstrays : s'.strays = s.strays.eraseIdx i) :
      Flow deps s a (.served t r ((s.replicas r).prefill deps.encode req).1) s'
  /-- A task gave up its call. -/
  | lost (t : ℕ) (act : Act n MockResponse) (es : List (Event n)) (s' : Cluster F n)
      (hloses : a.loses = true) (hes : ∀ i, es.filterMap (Event.decisionOf i) = [])
      (hcaches : CachesKept s.router.sched s'.router.sched es)
      (hafter : s'.waiting = Function.update s.waiting t none)
      (hreplicas : s'.replicas = s.replicas) (hstrays : s'.strays = s.strays ++ s.stray t) :
      Flow deps s a (.router act es) s'
  /-- The calls on their way are the same. -/
  | quiet (act : Act n MockResponse) (es : List (Event n)) (s' : Cluster F n)
      (hes : ∀ i, es.filterMap (Event.decisionOf i) = [])
      (hcaches : CachesKept s.router.sched s'.router.sched es) (hafter : s'.waiting = s.waiting)
      (hreplicas : s'.replicas = s.replicas) (hstrays : s'.strays = s.strays) :
      Flow deps s a (.router act es) s'

namespace Ran

variable {deps : ClusterDeps} {s s' : Cluster F n} {t : ℕ} {input : Input MockResponse}
  {h h' : Handler n MockResponse} {wire : Wire} {es : List (Event n)} {inner : RouterInner F n}
  {a : Action n}

/-- A step that makes no decision for its own task makes none. -/
theorem no_decision (hstep : h.step deps.toDeps s.router.inner t input = some (es, inner, h'))
    (hself : es.filterMap (Event.decisionOf t) = []) (i : ℕ) :
    es.filterMap (Event.decisionOf i) = [] := by
  by_cases hi : i = t
  · rw [hi, hself]
  · exact System.decisionOf_move hi (Handler.move_of_step hstep)

/-- A step that leaves the wire alone.

**Proof sketch.** By what the step does to the replica that the handler asks. A pick had nothing on its
wire, so that its call is on its way from now on. A handler that lets go without an input was forwarding
an item, so that its wire was not empty and nothing was on its way. In any other case neither the replica
nor the wire changes. -/
theorem flow_keep (hran : Ran s s' t input h h' wire) (hs : s.Sound deps.toDeps)
    (hstep : h.step deps.toDeps s.router.inner t input = some (es, inner, h'))
    (hinner : s'.router.inner = inner) (hreplicas : s'.replicas = s.replicas)
    (hstrays : s'.strays = s.strays) (hkeep : input.keepsWire = true) :
    Flow deps s a (.router (.run t input) es) s' := by
  have htask := hs.task t h hran.get
  have hmove := Handler.move_of_step hstep
  have hself := hran.waiting_self
  rw [hran.keep hkeep] at hself
  have hreq : input.requestAfter (s.requests t) = s.requests t := by
    cases input <;> first | rfl | simp [Input.keepsWire] at hkeep
  rw [hreq] at hself
  have hsched : s'.router.sched = inner.scheduler := by rw [System.sched, hinner]
  cases Handler.ask_of_step hstep with
  | picked hashes d _ _ hpick hchain hun hbefore hafter =>
    obtain ⟨req, hrq, hprompt⟩ := htask.chain hashes hchain
    rw [hafter, htask.unanswered hun, hrq] at hself
    exact .picked t hashes d req s' hprompt (hsched ▸ hpick)
      (waiting_eq_none_of_asks hran.get hbefore) (by rw [hran.waiting_eq, hself]; rfl) hreplicas
      hstrays
  | released _ _ _ hcause hafter =>
    have hforwards : h.forwards = true := hcause.resolve_left (by simp [hkeep])
    have hbefore : s.waiting t = none := onItsWay_of_wire (htask.forwards hforwards) _ _
    rw [hafter, onItsWay_none] at hself
    refine .quiet _ _ _ (fun _ => rfl) (hsched ▸ cachesKept_of_move hmove rfl) ?_ hreplicas hstrays
    rw [hran.waiting_eq, hself, ← hbefore, Function.update_eq_self]
  | kept _ _ _ _ hes hasks =>
    refine .quiet _ _ _ hes (hsched ▸ cachesKept_of_move hmove (hes t)) ?_ hreplicas hstrays
    have hbefore : s.waiting t = onItsWay h.asks (s.wires t) (s.requests t) := by
      rw [waiting, hran.get, Option.bind_some]
    rw [hran.waiting_eq, hself, hasks, ← hbefore, Function.update_eq_self]

/-- A step that takes no decision, as the wire is not left alone. -/
theorem no_decision_of_not_keep (hkeep : input.keepsWire = false)
    (hstep : h.step deps.toDeps s.router.inner t input = some (es, inner, h')) :
    ∀ i, es.filterMap (Event.decisionOf i) = [] := by
  refine no_decision hstep ?_
  cases Handler.ask_of_step hstep with
  | picked => simp [Input.keepsWire] at hkeep
  | released => rfl
  | kept _ _ _ _ hes => exact hes t

/-- A step that takes an item off the wire. -/
theorem flow_item (hran : Ran s s' t input h h' wire)
    (hstep : h.step deps.toDeps s.router.inner t input = some (es, inner, h'))
    (hinner : s'.router.inner = inner) (hreplicas : s'.replicas = s.replicas)
    (hstrays : s'.strays = s.strays) (hkeep : input.keepsWire = false)
    (hitem : input.isItem = true) : Flow deps s a (.router (.run t input) es) s' := by
  have hes := no_decision_of_not_keep hkeep hstep
  have hsched : s'.router.sched = inner.scheduler := by rw [System.sched, hinner]
  have hbefore : s.waiting t = none := onItsWay_of_wire (hran.item hitem).2 _ _
  have hself : s'.waiting t = none := by
    rw [hran.waiting_self, onItsWay_of_wire (hran.item hitem).1]
  refine .quiet _ _ _ hes (hsched ▸ cachesKept_of_move (Handler.move_of_step hstep) (hes t)) ?_
    hreplicas hstrays
  rw [hran.waiting_eq, hself, ← hbefore, Function.update_eq_self]

/-- A step that lets go of the wire.

**Proof sketch.** No replica is asked afterwards (`Trail.clear`), so that nothing is on its way to the
task. What was on its way before has gone astray, if it was given up; otherwise there was nothing. -/
theorem flow_clear (hran : Ran s s' t input h h' wire)
    (hstep : h.step deps.toDeps s.router.inner t input = some (es, inner, h'))
    (hinner : s'.router.inner = inner) (hreplicas : s'.replicas = s.replicas)
    (hkeep : input.keepsWire = false) (hitem : input.isItem = false)
    (hstrays : a.loses = true ∧ s'.strays = s.strays ++ s.stray t ∨
      s.waiting t = none ∧ s'.strays = s.strays) :
    Flow deps s a (.router (.run t input) es) s' := by
  have hes := no_decision_of_not_keep hkeep hstep
  have hsched : s'.router.sched = inner.scheduler := by rw [System.sched, hinner]
  have hcaches : CachesKept s.router.sched s'.router.sched es :=
    hsched ▸ cachesKept_of_move (Handler.move_of_step hstep) (hes t)
  have hself : s'.waiting t = none := by
    rw [hran.waiting_self, (Handler.trail_of_step hstep).clear hkeep hitem, onItsWay_none]
  rcases hstrays with ⟨hloses, hstrays⟩ | ⟨hbefore, hstrays⟩
  · exact .lost t _ _ _ hloses hes hcaches (hself ▸ hran.waiting_eq) hreplicas hstrays
  · refine .quiet _ _ _ hes hcaches ?_ hreplicas hstrays
    rw [hran.waiting_eq, hself, ← hbefore, Function.update_eq_self]

end Ran

variable {deps : ClusterDeps} {s : Cluster F n} {t : ℕ} {input : Input MockResponse}
  {h h' : Handler n MockResponse} {inner : RouterInner F n}

/-- A step of the router by one task is a step of its handler. -/
theorem run_inv {router : System F n MockResponse} {es : List (Event n)}
    (hget : s.handler t = some h)
    (hstep : (System.lts F n MockResponse deps.toDeps).step s.router (.run t input) es router) :
    ∃ inner h', h.step deps.toDeps s.router.inner t input = some (es, inner, h') ∧
      router = { s.router with inner := inner, handlers := s.router.handlers.set t h' } := by
  cases System.step_inv hstep with
  | spawned _ _ hact => cases hact
  | ran _ _ _ inner hd h' hget' hrun =>
    obtain rfl : hd = h := Option.some_inj.mp (hget'.symm.trans hget)
    exact ⟨inner, h', hrun, rfl⟩

/-- **One step keeps the network sound.**

**Proof sketch.** By the effects of a step. A new task has its request, and nothing on its wire. A step of
a task is `Ran.sound`, whatever moved it: its own code, an answer on its wire, or a failure. A request
that reaches its replica fills the wire of a handler that has called, where a wire may be full. -/
theorem Sound.step {a : Action n} {e : Seen n} {s' : Cluster F n} (hs : s.Sound deps.toDeps)
    (hstep : (lts F n deps).step s a e s') : s'.Sound deps.toDeps := by
  cases step_inv hstep with
  | routed act es router hact hrouter =>
    cases System.step_inv hrouter with
    | spawned _ hd hspawns =>
      -- the new task starts with its request, and nothing on its wire
      have hlast : s.handler s.router.handlers.length = none := List.getElem?_eq_none le_rfl
      have hwires : s.wiresAfter act = s.wires := by cases act <;> cases hspawns <;> rfl
      refine ⟨fun i h hi => ?_, fun i hi => ?_⟩
      · rcases System.getElem?_concat_inv hi with hold | ⟨rfl, rfl⟩
        · have hne : i ≠ s.router.handlers.length := by
            rintro rfl
            rw [show s.router.handlers[s.router.handlers.length]? = none from hlast] at hold
            cases hold
          have hreq : s.requestsAfter act i = s.requests i := by
            cases act <;> cases hspawns
            · exact Function.update_of_ne hne _ _
            · rfl
          simp only [hwires, hreq]
          exact hs.task i h hold
        · simp only [hwires, hs.fresh _ hlast]
          cases act <;> cases hspawns
          · refine ⟨fun rq hrq => ?_, by simp [Handler.chain], by simp [Handler.asks], fun _ => rfl,
              by simp [Handler.forwards]⟩
            rw [← hrq]
            exact Function.update_self _ _ _
          · exact ⟨by simp [Handler.request], by simp [Handler.chain], by simp [Handler.asks],
              fun _ => rfl, by simp [Handler.forwards]⟩
      · simp only [hwires]
        refine hs.fresh i ?_
        rw [handler, List.getElem?_eq_none_iff] at hi ⊢
        rw [List.length_append] at hi
        omega
    | ran t input _ inner h h' hget hrun =>
      exact (ran_routed hget hact _).sound hs (Handler.trail_of_step hrun)
    | probed => exact ⟨hs.task, hs.fresh⟩
    | published => exact ⟨hs.task, hs.fresh⟩
  | served t h r req hget hcallee hreq hwire =>
    obtain ⟨-, hun, hfw⟩ := Handler.asks_of_callee hcallee
    refine ⟨fun i hd hi => ?_, fun i hi => ?_⟩
    · have hold := hs.task i hd hi
      by_cases hit : i = t
      · subst hit
        obtain rfl : h = hd := Option.some_inj.mp (hget.symm.trans hi)
        exact ⟨hold.request, hold.chain, hold.asks, by simp [hun], by simp [hfw]⟩
      · simp only [Function.update_of_ne hit]
        exact hold
    · have hit : i ≠ t := by
        rintro rfl
        rw [handler] at hget hi
        simp [hi] at hget
      simp only [Function.update_of_ne hit]
      exact hs.fresh i hi
  | servedStray => exact ⟨hs.task, hs.fresh⟩
  | delivered t h input wire es router hget htakes hrouter =>
    obtain ⟨inner, h', hrun, rfl⟩ := run_inv hget hrouter
    exact (ran_delivered hget (Handler.taken_of_takes htakes)).sound hs (Handler.trail_of_step hrun)
  | failed t h status input es router hget hfailure hrouter =>
    obtain ⟨inner, h', hrun, rfl⟩ := run_inv hget hrouter
    exact (ran_failed hget hfailure _).sound hs (Handler.trail_of_step hrun)

/-- **The network belongs to the tasks** along every run. -/
theorem sound_of_run {policy : Policy} {cfg : SchedulerConfig F} {mocks : Fin n → MockConfig}
    {ok : List (Action n × Seen n) → Cluster F n → Action n → Prop} {τ : List (Action n × Seen n)}
    (h : (lts F n deps).Run ok (new policy cfg mocks) τ s) : s.Sound deps.toDeps :=
  Lts.Run.invariant (I := fun _ s => s.Sound deps.toDeps) h (sound_new _ policy cfg mocks)
    fun _ _ _ _ _ hI _ hstep => hI.step hstep

/-- **What a step of a sound cluster does to the calls on their way.**

**Proof sketch.** By the effects of a step. A new task asks no replica. A step of a task that leaves its
wire alone is `Ran.flow_keep`; one that takes an item is `Ran.flow_item`; and one that lets go of the wire
is `Ran.flow_clear`, which loses a call exactly when the task is dropped or its call fails. A request that
reaches its replica was on its way, as the handler had called and its wire was empty. -/
theorem flow_of_step {a : Action n} {e : Seen n} {s' : Cluster F n} (hs : s.Sound deps.toDeps)
    (hstep : (lts F n deps).step s a e s') : Flow deps s a e s' := by
  cases step_inv hstep with
  | routed act es router hact hrouter =>
    cases System.step_inv hrouter with
    | spawned _ hd hspawns =>
      refine .quiet act _ _ (fun _ => rfl) (.refl _ _) ?_ rfl ?_
      · -- the new task asks no replica
        have hasks : hd.asks = none := by cases act <;> cases hspawns <;> rfl
        have hwires : s.wiresAfter act = s.wires := by cases act <;> cases hspawns <;> rfl
        funext i
        by_cases hi : i = s.router.handlers.length
        · subst hi
          have hnone : s.handler s.router.handlers.length = none := List.getElem?_eq_none le_rfl
          rw [waiting, waiting, handler, List.getElem?_concat_length, hnone, Option.bind_some, hasks,
            Option.bind_none, onItsWay_none, onItsWay_none]
        · have hreq : s.requestsAfter act i = s.requests i := by
            cases act <;> cases hspawns
            · exact Function.update_of_ne hi _ _
            · rfl
          have hsame : (s.router.handlers ++ [hd])[i]? = s.router.handlers[i]? := by
            rcases Nat.lt_or_gt_of_ne hi with hlt | hgt
            · exact List.getElem?_append_left hlt
            · rw [List.getElem?_eq_none (by rw [List.length_append]; exact hgt),
                List.getElem?_eq_none hgt.le]
          rw [waiting, waiting, handler, handler, hsame]
          simp only [hwires, hreq]
      · cases act <;> cases hspawns <;> rfl
    | ran t input _ inner h h' hget hrun =>
      have hran := @ran_routed F n s t input h h' inner hget hact (s.straysAfter (.run t input))
      cases hk : input.keepsWire with
      | true =>
        refine hran.flow_keep hs hrun rfl rfl ?_ hk
        cases input <;> first | rfl | simp [Input.keepsWire] at hk
      | false =>
        cases input with
        | recv item =>
          obtain ⟨-, -, hasks⟩ := (Handler.trail_of_step hrun).idle item rfl
          exact hran.flow_clear hrun rfl rfl rfl rfl
            (.inr ⟨waiting_eq_none_of_asks hget hasks, rfl⟩)
        | drop => exact hran.flow_clear hrun rfl rfl rfl rfl (.inl ⟨rfl, rfl⟩)
        | _ => simp [Input.keepsWire, Act.fromUpstream] at hk hact
    | probed results =>
      refine .quiet (.probe results) _ _ (fun i => ?_) (cachesKept_applyProbes _ _) rfl rfl rfl
      exact System.filterMap_decisionOf_eq_nil (System.pickOf_probeEvents i _ _)
    | published => exact .quiet .publish _ _ (fun _ => rfl) (.refl _ _) rfl rfl rfl
  | served t h r req hget hcallee hreq hwire =>
    obtain ⟨hasks, -, -⟩ := Handler.asks_of_callee hcallee
    refine .served t r req _ (waiting_eq_some hget hasks hwire hreq) ?_ rfl rfl rfl
    funext i
    by_cases hi : i = t
    · subst hi
      rw [Function.update_self]
      exact onItsWay_of_wire (by simp [MockTriton.answer_ne_empty]) _ _
    · rw [Function.update_of_ne hi, waiting, waiting]
      simp only [Function.update_of_ne hi]
      rfl
  | servedStray i t r req hget => exact .servedStray i t r req _ hget rfl rfl rfl rfl
  | delivered t h input wire es router hget htakes hrouter =>
    obtain ⟨inner, h', hrun, rfl⟩ := run_inv hget hrouter
    have htaken := Handler.taken_of_takes htakes
    have hran := @ran_delivered F n s t input h h' inner wire hget htaken
    cases hk : input.keepsWire with
    | true => exact hran.flow_keep hs hrun rfl rfl rfl hk
    | false =>
      cases hi : input.isItem with
      | true => exact hran.flow_item hrun rfl rfl rfl hk hi
      | false =>
        refine hran.flow_clear hrun rfl rfl hk hi (.inr ⟨onItsWay_of_wire ?_ _ _, rfl⟩)
        generalize s.wires t = w at htaken ⊢
        cases htaken <;> simp [Input.keepsWire, Input.isItem] at hk hi ⊢
  | failed t h status input es router hget hfailure hrouter =>
    obtain ⟨inner, h', hrun, rfl⟩ := run_inv hget hrouter
    obtain ⟨hk, hi, -⟩ := Handler.failure_inv hfailure
    exact (ran_failed hget hfailure _).flow_clear hrun rfl rfl hk hi (.inl ⟨rfl, rfl⟩)

end Step

end Cluster
