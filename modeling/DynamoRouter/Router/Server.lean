import DynamoRouter.Protocol.Blocks
import DynamoRouter.Protocol.Infer
import DynamoRouter.Router.Scheduler

set_option relaxedAutoImplicit false
set_option autoImplicit false

/-!
# The shared state of the router (`crates/router/src/server.rs`)

`RouterInner` and its operations, each of which is one critical section or one update of a metric, and
the pure functions that the handlers are made of.

The tokenizer and the text of a status code come from libraries; they are the parameter `Deps`.

## Main definitions

* `RouterInner` — the scheduler, the counters and the gauges.
* `RouterInner.promptHashes` — `extract_text` followed by `hash_prompt`.
* `RouterInner.applyProbes` — the critical section of a pass of the health prober.

## Main results

* `RouterInner.applyProbes_induction` — what every mark of a pass preserves, a pass preserves.
-/

open Protocol

/-- What the router takes from its libraries. -/
structure Deps where
  /-- `Tokenizer::encode`, without special tokens: the token ids, or an error text. -/
  encode : String → Except String (List UInt32)
  /-- The text of a status code. -/
  codeText : Code → String

/-- `PromptTokenizer::tokenize`. -/
def Deps.tokenize (deps : Deps) (text : String) : Except String (List UInt32) :=
  match deps.encode text with
  | .ok ids => .ok ids
  | .error e => .error ("tokenize: " ++ e)

/-- `fmt_status`. -/
def fmtStatus (deps : Deps) (status : Status) : String :=
  deps.codeText status.code ++ ": " ++ status.message

/-- `is_transport_failure`. -/
def isTransportFailure (status : Status) : Bool :=
  match status.code with
  | .unavailable | .unknown | .internal | .cancelled => true
  | _ => false

/-- The status that a refused pick is reported with. -/
def PickError.status : PickError → Status
  | .noHealthyReplicas => .unavailable "no healthy replicas"
  | .allSaturated => .resourceExhausted "all replicas saturated"

/-- The counters and the gauge of `Metrics` that the handlers and the prober write. -/
structure Metrics where
  /-- `requests_total`. -/
  requestsTotal : ℕ
  /-- `matched_blocks_total`. -/
  matchedBlocksTotal : ℕ
  /-- `prompt_blocks_total`. -/
  promptBlocksTotal : ℕ
  /-- `healthy_replicas`. -/
  healthyReplicas : ℕ
  deriving DecidableEq, Repr

/-- `RouterInner`: the state that all handlers share. -/
structure RouterInner (F : Type) (n : ℕ) where
  /-- The scheduler, behind its mutex. -/
  scheduler : Scheduler F n
  /-- The counters. -/
  metrics : Metrics
  /-- The in-flight gauges; `none` for a gauge that was never set. -/
  replicaInflightGauges : Fin n → Option ℕ

namespace RouterInner

variable {F : Type} {n : ℕ}

/-- `RouterInner::new`, over a new scheduler. -/
def new (n : ℕ) (policy : Policy) (cfg : SchedulerConfig F) : RouterInner F n where
  scheduler := .new n policy cfg
  metrics := ⟨0, 0, 0, 0⟩
  replicaInflightGauges _ := none

/-! ## From a request to its hashes -/

/-- `extract_text`: the tensor named `text_input`, or else the first tensor. -/
def extractText (req : ModelInferRequest) : Except Status String :=
  let tensor := (req.inputs.find? fun i => i.name == "text_input").or req.inputs.head?
  match (tensor.bind fun i => i.contents).bind fun c => c.bytesContents.head? with
  | none => .error (.invalidArgument "missing text_input bytes tensor")
  | some bytes =>
    match String.fromUTF8? bytes with
    | none => .error (.invalidArgument "text_input not utf8")
    | some text => .ok text

/-- `hash_prompt`. -/
def hashPrompt (deps : Deps) (text : String) : Except Status (List UInt64) :=
  match deps.tokenize text with
  | .ok tokens => .ok (blockHashes tokens)
  | .error e => .error (.invalidArgument e)

/-- `extract_text`, then `hash_prompt`. -/
def promptHashes (deps : Deps) (req : ModelInferRequest) : Except Status (List UInt64) :=
  match extractText req with
  | .ok text => hashPrompt deps text
  | .error status => .error status

/-! ## The atomic steps -/

/-- `replica_inflight_gauges[replica].set(value)`. -/
def setGauge (inner : RouterInner F n) (replica : Fin n) (value : ℕ) : RouterInner F n :=
  { inner with
    replicaInflightGauges := Function.update inner.replicaInflightGauges replica (some value) }

/-- The first increment of `record_served`. -/
def incRequests (inner : RouterInner F n) : RouterInner F n :=
  { inner with
    metrics := { inner.metrics with requestsTotal := inner.metrics.requestsTotal + 1 } }

/-- The second increment of `record_served`. -/
def incMatched (inner : RouterInner F n) (decision : RouteDecision n) : RouterInner F n :=
  { inner with
    metrics := { inner.metrics with
      matchedBlocksTotal := inner.metrics.matchedBlocksTotal + decision.matchedBlocks } }

/-- The third increment of `record_served`. -/
def incPrompt (inner : RouterInner F n) (promptBlocks : ℕ) : RouterInner F n :=
  { inner with
    metrics := { inner.metrics with
      promptBlocksTotal := inner.metrics.promptBlocksTotal + promptBlocks } }

/-- The critical section of `pick_replica`; `none` if it panics. -/
def pick (inner : RouterInner F n) (hashes : List UInt64) [Mul F] [Sub F] [LT F] [DecidableLT F]
    [ScoreArith F] : Option (Except PickError (RouteDecision n) × RouterInner F n) :=
  (inner.scheduler.pick hashes).map fun r => (r.1, { inner with scheduler := r.2 })

/-- The critical section of `complete`: the in-flight count it reads, and the state. -/
def complete (inner : RouterInner F n) (replica : Fin n) : ℕ × RouterInner F n :=
  let sched := inner.scheduler.complete replica
  (sched.inflight replica, { inner with scheduler := sched })

/-- `mark_unhealthy`. -/
def markUnhealthy (inner : RouterInner F n) (replica : Fin n) : RouterInner F n :=
  { inner with scheduler := inner.scheduler.markUnhealthy replica }

/-- One result of a pass of the prober: the scheduler and the count of live replicas. -/
def applyProbe (acc : Scheduler F n × ℕ) (result : Fin n × Bool) : Scheduler F n × ℕ :=
  if result.2 then (acc.1.markHealthy result.1, acc.2 + 1)
  else if acc.1.isHealthy result.1 then (acc.1.markUnhealthy result.1, acc.2)
  else acc

/-- The critical section of a pass of the prober. -/
def applyProbes (sched : Scheduler F n) (results : List (Fin n × Bool)) : Scheduler F n × ℕ :=
  results.foldl applyProbe (sched, 0)

/-- What `mark_healthy` and `mark_unhealthy` preserve, a pass of the prober preserves. -/
theorem applyProbes_induction {P : Scheduler F n → Prop} {sched : Scheduler F n} (h0 : P sched)
    (hhealthy : ∀ s r, P s → P (s.markHealthy r)) (hunhealthy : ∀ s r, P s → P (s.markUnhealthy r))
    (results : List (Fin n × Bool)) : P (applyProbes sched results).1 := by
  have hfold : ∀ (results : List (Fin n × Bool)) (acc : Scheduler F n × ℕ), P acc.1 →
      P (results.foldl applyProbe acc).1 := by
    intro results
    induction results with
    | nil => exact fun _ h => h
    | cons x results ih =>
      intro acc h
      refine ih _ ?_
      unfold applyProbe
      split_ifs
      · exact hhealthy _ _ h
      · exact hunhealthy _ _ h
      · exact h
  exact hfold results _ h0

end RouterInner
