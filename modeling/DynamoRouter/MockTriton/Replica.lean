import DynamoRouter.Lib.Lts
import DynamoRouter.MockTriton.Service

set_option relaxedAutoImplicit false
set_option autoImplicit false

/-!
# The mock replica as a concurrent system (`crates/mock-triton/src/service.rs`)

Any number of unary calls and streams share the cache of a replica, which is behind a mutex, and its two
counters, which are atomic. The code holds the mutex only for `lookup_insert`: the counters are
incremented after that, one at a time, and the sleep comes last. A unary call may be dropped while it
sleeps; the task of a stream is spawned, and runs on when its client is gone.

A task takes an item when it holds the mutex for it, or rejects it; this is what is seen of a step.

## Main definitions

* `Replica.PrefillPc.step`, `Replica.Worker.step` — one step of `simulate_prefill`, and of a task.
* `Replica.step`, `Replica.lts` — the replica, one step of one task at a time.

## Main results

* `Replica.Worker.step_inv`, `Replica.step_inv` — all that a step can do.
-/

open Protocol MockTriton

/-- What the replica takes from its libraries. -/
structure ReplicaDeps where
  /-- The tokenizer. -/
  encode : String → Except String (List UInt32)
  /-- The text of a status. -/
  statusText : Status → String

namespace MockTriton

/-- The items of the stream that answers one request. An error is reported in an item. -/
def streamItems (statusText : Status → String) :
    Except Status (List MockResponse) → List (ModelStreamInferResponse MockResponse)
  | .error status => [{ errorMessage := statusText status, inferResponse := none }]
  | .ok chunks => chunks.map fun chunk => { errorMessage := "", inferResponse := some chunk }

end MockTriton

namespace Replica

/-- An item of a client's stream: a request, or the error that ends the stream. -/
abbrev ClientItem := Except Status ModelInferRequest

/-- An item of the answer to a stream. -/
abbrev StreamItem := ModelStreamInferResponse MockResponse

/-- What `simulate_prefill` has found out before it locks the cache: the number of tokens and the chain. -/
structure Work where
  /-- The number of tokens. -/
  tokens : ℕ
  /-- The chain. -/
  hashes : List UInt64

/-- `extract_text`, then the tokenizer and `block_hashes`. -/
def prepare (encode : String → Except String (List UInt32)) (req : ModelInferRequest) :
    Except Status Work :=
  match extractText req with
  | .error status => .error status
  | .ok text =>
    match tokenIds encode text with
    | .error status => .error status
    | .ok ids => .ok ⟨ids.length, blockHashes ids⟩

/-- Where `simulate_prefill` is. -/
inductive PrefillPc
  /-- Before the critical section. -/
  | locking (work : Work)
  /-- Before `cached_blocks_total` is incremented. -/
  | countingCached (work : Work) (cached : ℕ)
  /-- Before `total_blocks_total` is incremented. -/
  | countingTotal (work : Work) (cached : ℕ)
  /-- At the `await` of the sleep. -/
  | sleeping (p : Prefill)

/-- Where a unary call is. -/
inductive CallPc
  /-- Before `extract_text`. -/
  | start
  /-- In `simulate_prefill`. -/
  | prefill (pc : PrefillPc)
  /-- Answered. -/
  | done (result : Except Status MockResponse)
  /-- The future was dropped. -/
  | dropped

/-- Where the task of a stream is. -/
inductive TaskPc
  /-- Waiting for the next item of the client. -/
  | reading
  /-- Before `extract_text`. -/
  | preparing (req : ModelInferRequest)
  /-- In `simulate_prefill`. -/
  | prefill (req : ModelInferRequest) (pc : PrefillPc)
  /-- In the decode loop, before chunk number `chunk`. -/
  | decoding (p : Prefill) (chunk : ℕ)
  /-- Before reporting an error of a request. -/
  | replying (message : String)
  /-- Before reporting an error of the client's stream. -/
  | closing (message : String)
  /-- The task ended. -/
  | finished

/-- A task of the replica. -/
inductive Worker
  /-- A unary call. -/
  | call (req : ModelInferRequest) (pc : CallPc)
  /-- A stream, with what was sent to the client, and whether the client still receives. -/
  | stream (pc : TaskPc) (out : List StreamItem) (rxOpen : Bool)

/-- What moves a task: its own code or a timer, or its client. -/
inductive Input
  /-- The task's own next step. -/
  | tick
  /-- The next item of the client's stream. -/
  | recv (item : Option ClientItem)
  /-- The client stops receiving. -/
  | disconnect
  /-- The future of a unary call is dropped. -/
  | drop

/-- The chunk number `chunk` of the decode loop. -/
def chunkItem (cfg : MockConfig) (cached total chunk : ℕ) : StreamItem where
  errorMessage := ""
  inferResponse := some (if chunk = cfg.decodeChunks - 1 then makeResponse cached total "mock-final"
    else makeResponse 0 0 "mock-chunk")

/-- An item that only reports an error. -/
def errorItem (message : String) : StreamItem := { errorMessage := message, inferResponse := none }

/-- What is sent to a client, if it still receives. -/
def sent (out : List StreamItem) (item : StreamItem) (rxOpen : Bool) : List StreamItem :=
  if rxOpen then out ++ [item] else out

/-- One step of `simulate_prefill`: the next place, or what it answers. -/
def PrefillPc.step (service : MockTritonService) : PrefillPc → MockTritonService × (PrefillPc ⊕ Prefill)
  | .locking work =>
    let (cached, cache) := service.cache.lookupInsert work.hashes
    ({ service with cache := cache }, .inl (.countingCached work cached))
  | .countingCached work cached =>
    ({ service with metrics :=
        { service.metrics with cachedBlocksTotal := service.metrics.cachedBlocksTotal + cached } },
      .inl (.countingTotal work cached))
  | .countingTotal work cached =>
    ({ service with metrics :=
        { service.metrics with
          totalBlocksTotal := service.metrics.totalBlocksTotal + work.hashes.length } },
      .inl (.sleeping ⟨cached, work.hashes.length,
        (work.tokens - cached * blockSize) * service.cfg.prefillUsPerToken⟩))
  | .sleeping p => (service, .inr p)

/-- Whether `simulate_prefill` is before its critical section. -/
def PrefillPc.locks : PrefillPc → Bool
  | .locking _ => true
  | _ => false

/-- One step of a task: the item that it has taken with this step, if it has, and the service and the task
after it. A request is taken in the critical section, or when it is rejected. -/
def Worker.step (deps : ReplicaDeps) (service : MockTritonService) :
    Worker → Input → Option (Option ClientItem × MockTritonService × Worker)
  | .call req .start, .tick =>
    match prepare deps.encode req with
    | .error status => some (some (.ok req), service, .call req (.done (.error status)))
    | .ok work => some (none, service, .call req (.prefill (.locking work)))
  | .call req .start, .drop => some (none, service, .call req .dropped)
  | .call req (.prefill pc), .tick =>
    match pc.step service with
    | (service, .inl pc') =>
      some (if pc.locks then some (.ok req) else none, service, .call req (.prefill pc'))
    | (service, .inr p) =>
      some (none, service, .call req (.done (.ok (makeResponse p.cached p.total "mock-completion"))))
  | .call req (.prefill (.sleeping _)), .drop => some (none, service, .call req .dropped)
  | .stream pc out _, .disconnect => some (none, service, .stream pc out false)
  | .stream .reading out rx, .recv none => some (none, service, .stream .finished out rx)
  | .stream .reading out rx, .recv (some (.error status)) =>
    some (some (.error status), service,
      .stream (.closing ("stream recv: " ++ deps.statusText status)) out rx)
  | .stream .reading out rx, .recv (some (.ok req)) =>
    some (none, service, .stream (.preparing req) out rx)
  | .stream (.preparing req) out rx, .tick =>
    match prepare deps.encode req with
    | .error status =>
      some (some (.ok req), service, .stream (.replying (deps.statusText status)) out rx)
    | .ok work => some (none, service, .stream (.prefill req (.locking work)) out rx)
  | .stream (.prefill req pc) out rx, .tick =>
    match pc.step service with
    | (service, .inl pc') =>
      some (if pc.locks then some (.ok req) else none, service, .stream (.prefill req pc') out rx)
    | (service, .inr p) => some (none, service, .stream (.decoding p 0) out rx)
  | .stream (.decoding p chunk) out rx, .tick =>
    if chunk < service.cfg.decodeChunks then
      if rx then
        some (none, service,
          .stream (.decoding p (chunk + 1)) (sent out (chunkItem service.cfg p.cached p.total chunk) rx) rx)
      else some (none, service, .stream .finished out rx)
    else some (none, service, .stream .reading out rx)
  | .stream (.replying message) out rx, .tick =>
    some (none, service, .stream .reading (sent out (errorItem message) rx) rx)
  | .stream (.closing message) out rx, .tick =>
    some (none, service, .stream .finished (sent out (errorItem message) rx) rx)
  | _, _ => none

/-- All that a step of a task can do. -/
inductive Worker.Effect (deps : ReplicaDeps) (service : MockTritonService) :
    Worker → Input → Option ClientItem → MockTritonService → Worker → Prop
  /-- The request of a call has no prompt that can be tokenized. -/
  | refused (req : ModelInferRequest) (status : Status)
      (hprepare : prepare deps.encode req = .error status) :
      Effect deps service (.call req .start) .tick (some (.ok req)) service
        (.call req (.done (.error status)))
  /-- The prompt of a call was hashed. -/
  | started (req : ModelInferRequest) (work : Work) (hprepare : prepare deps.encode req = .ok work) :
      Effect deps service (.call req .start) .tick none service (.call req (.prefill (.locking work)))
  /-- A call was dropped before it did anything. -/
  | droppedEarly (req : ModelInferRequest) :
      Effect deps service (.call req .start) .drop none service (.call req .dropped)
  /-- A call took a step of `simulate_prefill`. -/
  | called (req : ModelInferRequest) (pc pc' : PrefillPc) (service' : MockTritonService)
      (hpc : pc.step service = (service', .inl pc')) :
      Effect deps service (.call req (.prefill pc)) .tick
        (if pc.locks then some (.ok req) else none) service' (.call req (.prefill pc'))
  /-- A call was answered. -/
  | answered (req : ModelInferRequest) (p : Prefill) :
      Effect deps service (.call req (.prefill (.sleeping p))) .tick none service
        (.call req (.done (.ok (makeResponse p.cached p.total "mock-completion"))))
  /-- A call was dropped while it slept. -/
  | dropped (req : ModelInferRequest) (p : Prefill) :
      Effect deps service (.call req (.prefill (.sleeping p))) .drop none service (.call req .dropped)
  /-- The client of a stream stopped receiving. -/
  | disconnected (pc : TaskPc) (out : List StreamItem) (rx : Bool) :
      Effect deps service (.stream pc out rx) .disconnect none service (.stream pc out false)
  /-- The stream of the client ended. -/
  | ended (out : List StreamItem) (rx : Bool) :
      Effect deps service (.stream .reading out rx) (.recv none) none service (.stream .finished out rx)
  /-- The stream of the client broke. -/
  | broken (status : Status) (out : List StreamItem) (rx : Bool) :
      Effect deps service (.stream .reading out rx) (.recv (some (.error status)))
        (some (.error status)) service
        (.stream (.closing ("stream recv: " ++ deps.statusText status)) out rx)
  /-- A request arrived. -/
  | received (req : ModelInferRequest) (out : List StreamItem) (rx : Bool) :
      Effect deps service (.stream .reading out rx) (.recv (some (.ok req))) none service
        (.stream (.preparing req) out rx)
  /-- A request has no prompt that can be tokenized. -/
  | rejected (req : ModelInferRequest) (status : Status) (out : List StreamItem) (rx : Bool)
      (hprepare : prepare deps.encode req = .error status) :
      Effect deps service (.stream (.preparing req) out rx) .tick (some (.ok req)) service
        (.stream (.replying (deps.statusText status)) out rx)
  /-- The prompt of a request was hashed. -/
  | prepared (req : ModelInferRequest) (work : Work) (out : List StreamItem) (rx : Bool)
      (hprepare : prepare deps.encode req = .ok work) :
      Effect deps service (.stream (.preparing req) out rx) .tick none service
        (.stream (.prefill req (.locking work)) out rx)
  /-- A stream took a step of `simulate_prefill`. -/
  | prefilling (req : ModelInferRequest) (pc pc' : PrefillPc) (service' : MockTritonService)
      (out : List StreamItem) (rx : Bool) (hpc : pc.step service = (service', .inl pc')) :
      Effect deps service (.stream (.prefill req pc) out rx) .tick
        (if pc.locks then some (.ok req) else none) service' (.stream (.prefill req pc') out rx)
  /-- The decode loop starts. -/
  | prefilled (req : ModelInferRequest) (p : Prefill) (out : List StreamItem) (rx : Bool) :
      Effect deps service (.stream (.prefill req (.sleeping p)) out rx) .tick none service
        (.stream (.decoding p 0) out rx)
  /-- A chunk was sent. -/
  | chunk (p : Prefill) (chunk : ℕ) (out : List StreamItem) (hlt : chunk < service.cfg.decodeChunks) :
      Effect deps service (.stream (.decoding p chunk) out true) .tick none service
        (.stream (.decoding p (chunk + 1)) (out ++ [chunkItem service.cfg p.cached p.total chunk]) true)
  /-- A chunk could not be sent, as the client is gone. -/
  | abandoned (p : Prefill) (chunk : ℕ) (out : List StreamItem)
      (hlt : chunk < service.cfg.decodeChunks) :
      Effect deps service (.stream (.decoding p chunk) out false) .tick none service
        (.stream .finished out false)
  /-- The decode loop is over. -/
  | decoded (p : Prefill) (chunk : ℕ) (out : List StreamItem) (rx : Bool)
      (hge : service.cfg.decodeChunks ≤ chunk) :
      Effect deps service (.stream (.decoding p chunk) out rx) .tick none service
        (.stream .reading out rx)
  /-- The error of a request was reported. -/
  | replied (message : String) (out : List StreamItem) (rx : Bool) :
      Effect deps service (.stream (.replying message) out rx) .tick none service
        (.stream .reading (sent out (errorItem message) rx) rx)
  /-- The error of the client's stream was reported. -/
  | closed (message : String) (out : List StreamItem) (rx : Bool) :
      Effect deps service (.stream (.closing message) out rx) .tick none service
        (.stream .finished (sent out (errorItem message) rx) rx)

/-- `simulate_prefill` answers when it has slept. -/
theorem PrefillPc.step_inr {service service' : MockTritonService} {pc : PrefillPc} {p : Prefill}
    (h : pc.step service = (service', .inr p)) : pc = .sleeping p ∧ service' = service := by
  cases pc <;> cases h
  exact ⟨rfl, rfl⟩

/-- Every step of a task has one of the effects. -/
theorem Worker.step_inv {deps : ReplicaDeps} {service service' : MockTritonService} {w w' : Worker}
    {input : Input} {item : Option ClientItem}
    (h : w.step deps service input = some (item, service', w')) :
    w.Effect deps service input item service' w' := by
  cases w with
  | call req pc =>
    cases pc with
    | start =>
      cases input with
      | tick =>
        simp only [step] at h
        split at h <;> rename_i hprepare <;> cases h
        · exact .refused _ _ hprepare
        · exact .started _ _ hprepare
      | drop =>
        cases h
        exact .droppedEarly _
      | _ => simp [step] at h
    | prefill pc =>
      cases input with
      | tick =>
        simp only [step] at h
        split at h <;> rename_i hpc <;> cases h
        · exact .called _ _ _ _ hpc
        · obtain ⟨rfl, rfl⟩ := PrefillPc.step_inr hpc
          exact .answered _ _
      | drop =>
        cases pc with
        | sleeping p =>
          cases h
          exact .dropped _ _
        | _ => simp [step] at h
      | _ => simp [step] at h
    | _ => simp [step] at h
  | stream pc out rx =>
    cases input with
    | disconnect =>
      cases pc <;> cases h <;> exact .disconnected _ _ _
    | drop => simp [step] at h
    | recv item =>
      cases pc with
      | reading =>
        rcases item with _ | status | req <;> cases h
        · exact .ended _ _
        · exact .broken _ _ _
        · exact .received _ _ _
      | _ => simp [step] at h
    | tick =>
      cases pc with
      | preparing req =>
        simp only [step] at h
        split at h <;> rename_i hprepare <;> cases h
        · exact .rejected _ _ _ _ hprepare
        · exact .prepared _ _ _ _ hprepare
      | prefill req pc =>
        simp only [step] at h
        split at h <;> rename_i hpc <;> cases h
        · exact .prefilling _ _ _ _ _ _ hpc
        · obtain ⟨rfl, rfl⟩ := PrefillPc.step_inr hpc
          exact .prefilled _ _ _ _
      | decoding p chunk =>
        simp only [step] at h
        by_cases hlt : chunk < service.cfg.decodeChunks
        · rw [if_pos hlt] at h
          cases rx <;> cases h
          · exact .abandoned _ _ _ hlt
          · exact .chunk _ _ _ hlt
        · rw [if_neg hlt] at h
          cases h
          exact .decoded _ _ _ _ (not_lt.mp hlt)
      | replying message =>
        cases h
        exact .replied _ _ _
      | closing message =>
        cases h
        exact .closed _ _ _
      | _ => simp [step] at h

end Replica

/-- The replica: what the tasks share, and the tasks in the order of their arrival. -/
structure Replica where
  /-- The configuration, the cache and the counters. -/
  service : MockTritonService
  /-- The tasks; a task is known by its index. -/
  workers : List Replica.Worker

namespace Replica

/-- A step of the replica. -/
inductive Action
  /-- A unary call arrives. -/
  | spawnCall (req : ModelInferRequest)
  /-- A stream is opened. -/
  | spawnStream
  /-- Task `t` steps. -/
  | run (t : ℕ) (input : Input)

/-- The replica at the start. -/
def new (cfg : MockConfig) : Replica := ⟨.new cfg, []⟩

/-- One step of the replica, with the item that a task has taken. -/
def step (deps : ReplicaDeps) (s : Replica) : Action → Option (Option (ℕ × ClientItem) × Replica)
  | .spawnCall req => some (none, { s with workers := s.workers ++ [.call req .start] })
  | .spawnStream => some (none, { s with workers := s.workers ++ [.stream .reading [] true] })
  | .run t input =>
    match s.workers[t]? with
    | none => none
    | some w => (w.step deps s.service input).map fun r =>
        (r.1.map fun item => (t, item), ⟨r.2.1, s.workers.set t r.2.2⟩)

/-- The replica as a transition system. -/
def lts (deps : ReplicaDeps) : Lts Replica Action (Option (ℕ × ClientItem)) := .ofFun (step deps)

/-! ## What a step can do -/

/-- The new task of an action. -/
def Action.spawns : Action → Option Worker
  | .spawnCall req => some (.call req .start)
  | .spawnStream => some (.stream .reading [] true)
  | .run _ _ => none

/-- All that a step of the replica can do. -/
inductive Effect (deps : ReplicaDeps) (s : Replica) : Action → Option (ℕ × ClientItem) → Replica → Prop
  /-- A task arrives. -/
  | spawned (a : Action) (w : Worker) (ha : a.spawns = some w) :
      Effect deps s a none { s with workers := s.workers ++ [w] }
  /-- A task steps. -/
  | ran (t : ℕ) (input : Input) (item : Option ClientItem) (service : MockTritonService)
      (w w' : Worker) (hget : s.workers[t]? = some w)
      (hstep : w.step deps s.service input = some (item, service, w')) :
      Effect deps s (.run t input) (item.map fun item => (t, item)) ⟨service, s.workers.set t w'⟩

/-- Every step of the replica has one of the effects. -/
theorem step_inv {deps : ReplicaDeps} {s s' : Replica} {a : Action} {e : Option (ℕ × ClientItem)}
    (h : (lts deps).step s a e s') : Effect deps s a e s' := by
  rw [lts, Lts.ofFun_step] at h
  cases a with
  | spawnCall req =>
    cases h
    exact .spawned _ _ rfl
  | spawnStream =>
    cases h
    exact .spawned _ _ rfl
  | run t input =>
    simp only [step] at h
    split at h
    · cases h
    · rename_i w hget
      obtain ⟨⟨item, service, w'⟩, hstep, heq⟩ := Option.map_eq_some_iff.mp h
      cases heq
      exact .ran t input item service w w' hget hstep

end Replica
