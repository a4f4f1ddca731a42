import DynamoRouter.Cluster.Deployment
import DynamoRouter.MockTriton.Atomic

set_option relaxedAutoImplicit false
set_option autoImplicit false

/-!
# A call, and the task that answers it

Where a task of a replica takes its request, in the critical section or when it rejects it, the replica of
a cluster serves the request in one step, and the whole answer is on its way from then on. What a task of a
deployment has sent so far is the first part of this answer.

## Main definitions

* `Wire.Shows` — what is sent so far of an answer.
* `Replica.Worker.pending`, `Replica.Worker.reply` — what a task has not taken, and the answer to what it
  has.
* `Deployment.Carried` — how a task of a replica stands to the call that it was started for.
* `Deployment.Refines` — the relation between a deployment and a cluster that shows the same.

## Main results

* `Replica.Worker.offers_shows` — what a task has sent is the first part of its answer.
* `Deployment.Refines.wire_shows` — so what a task of the router can take, it can take in the cluster.
-/

open Protocol

namespace Wire

/-- An answer, but for the first items of a stream. -/
def drop (j : ℕ) : Wire → Wire
  | .items chunks => .items (chunks.drop j)
  | w => w

/-- What is sent so far of an answer. -/
inductive Shows : Wire → Wire → Prop
  /-- Nothing is sent. -/
  | nothing (whole : Wire) : Shows .empty whole
  /-- The answer of a unary call. -/
  | reply (result : Except Status MockResponse) : Shows (.reply result) (.reply result)
  /-- The next item of a stream. -/
  | item (chunk : ModelStreamInferResponse MockResponse)
      (chunks rest : List (ModelStreamInferResponse MockResponse)) :
      Shows (.items (chunk :: chunks)) (.items (chunk :: rest))
  /-- The end of a stream. -/
  | ended : Shows (.items []) (.items [])

end Wire

/-- Nothing is left out. -/
theorem Wire.drop_zero (w : Wire) : w.drop 0 = w := by
  cases w <;> simp [drop]

/-- What a handler takes of the part that is sent, it can take of the whole.

**Proof sketch.** By the place of the handler. A call takes the one result that is sent. A stream that is
being opened does not look at the wire; later it takes the next item, or sees the end. -/
theorem Handler.takes_of_shows {n : ℕ} {h : Handler n MockResponse} {part whole wire : Wire}
    {input : Input MockResponse} (hshows : part.Shows whole)
    (htakes : h.takes part = some (input, wire)) :
    ∃ wire', h.takes whole = some (input, wire') ∧ (input.isItem = true → wire' = whole.drop 1) := by
  cases h with
  | unary pc =>
    cases hshows with
    | reply result =>
      refine ⟨wire, htakes, fun hitem => ?_⟩
      cases pc <;> cases htakes
      cases hitem
    | _ => cases pc <;> cases htakes
  | stream s =>
    obtain ⟨pc, out, rxOpen⟩ := s
    cases pc with
    | opening d =>
      cases htakes
      exact ⟨whole, rfl, fun hitem => by cases hitem⟩
    | relaying d =>
      cases hshows with
      | item chunk chunks rest =>
        cases htakes
        exact ⟨.items rest, rfl, fun _ => rfl⟩
      | ended =>
        cases htakes
        exact ⟨.empty, rfl, fun hitem => by cases hitem⟩
      | _ => cases htakes
    | _ => cases htakes

namespace Replica

/-! ## What a task has taken -/

/-- The request that a task has, and has not taken yet. -/
def Worker.pending : Worker → Option ModelInferRequest
  | .call req .start => some req
  | .call req (.prefill (.locking _)) => some req
  | .stream (.preparing req) _ _ => some req
  | .stream (.prefill req (.locking _)) _ _ => some req
  | _ => none

/-- What a step of a task does to the request that it has.

**Proof sketch.** By the effects of a step: only the critical section and a rejection take a request, and
they take the one that the task has. -/
theorem Worker.pending_step {deps : ReplicaDeps} {service service' : MockTritonService} {w w' : Worker}
    {input : Input} {item : Option ClientItem} (h : w.Effect deps service input item service' w') :
    (∀ req, item = some (.ok req) → w.pending = some req ∧ w'.pending = none) ∧
      (∀ status, item = some (.error status) → input = .recv (some (.error status)) ∧ w'.pending = none) ∧
      (item = none → ∀ req, w'.pending = some req →
        w.pending = some req ∨ input = .recv (some (.ok req))) := by
  cases h with
  | called req pc pc' _ hpc =>
    cases pc <;> cases hpc <;> simp [pending, PrefillPc.locks]
  | prefilling req pc pc' _ out rx hpc =>
    cases pc <;> cases hpc <;> simp [pending, PrefillPc.locks]
  | disconnected pc out rx =>
    refine ⟨by simp, by simp, fun _ req hreq => .inl ?_⟩
    rw [← hreq]
    rcases pc with _ | _ | ⟨_, _ | _ | _ | _⟩ | _ | _ | _ | _ <;> rfl
  | _ => simp [pending]

/-- What a prefill answers depends on the configuration and the cache. -/
theorem Alike.prefill_fst {cfg : MockConfig} {service S : MockTritonService} (h : Alike cfg service S)
    (encode : String → Except String (List UInt32)) (req : ModelInferRequest) :
    (service.prefill encode req).1 = (S.prefill encode req).1 := by
  rw [MockTritonService.prefill, MockTritonService.prefill]
  cases MockTriton.extractText req with
  | error status => rfl
  | ok text =>
    simp only [MockTritonService.simulatePrefill]
    cases MockTriton.tokenIds encode text with
    | error status => rfl
    | ok ids => simp only [h.cfg_left, h.cfg_right, h.cache]

section Reply

variable {deps : ReplicaDeps} {cfg : MockConfig} {τ : List (Action × Option (ℕ × ClientItem))}
  {k j : ℕ} {w w' : Worker} {a : Action} {e : Option (ℕ × ClientItem)}

/-- The whole answer of the sequential replica to task `k`, once this one has taken its request. -/
def Worker.reply (deps : ReplicaDeps) (cfg : MockConfig) (τ : List (Action × Option (ℕ × ClientItem)))
    (k : ℕ) : Worker → Wire
  | .call _ _ => (results deps cfg τ k).head?.elim .empty .reply
  | .stream _ _ _ =>
    if (Replay.of k (taken τ)).isEmpty then .empty else .items (replies deps cfg τ k)

/-- What a task has sent is the first part of its answer.

**Proof sketch.** A call that is answered has the result of the sequential replica. What a stream has sent
is a prefix of the items of the sequential replica; as long as the client receives, it is all of them when
the task is finished. -/
theorem Worker.offers_shows
    (hok : w.Ok deps cfg (Replay.of k (taken τ)) (received τ k) (results deps cfg τ k)
      (replies deps cfg τ k))
    (hreceived : ∀ pc out rx, w = .stream pc out rx → received τ k ≠ []) :
    (w.offers j).Shows ((w.reply deps cfg τ k).drop j) := by
  cases w with
  | call req pc =>
    cases pc with
    | done result =>
      rw [reply, hok.2]
      exact .reply result
    | _ => exact .nothing _
  | stream pc out rx =>
    obtain ⟨-, hitems, hprefix, hdue⟩ := hok
    simp only [offers]
    split
    · rename_i chunk chunks hdrop
      obtain ⟨rest, hrest⟩ := hprefix
      have hne : (Replay.of k (taken τ)).isEmpty = false := by
        -- a task that has taken nothing has no items to send
        by_contra hempty
        have hnone := Replay.ne_of_of_eq_nil k (by simpa using hempty)
        rw [replies, Replay.answers_eq_nil _ _ _ k hnone] at hrest
        simp [(List.append_eq_nil_iff.mp hrest).1] at hdrop
      have hle : j ≤ out.length := by
        by_contra hlt
        rw [List.drop_eq_nil_of_le (by omega)] at hdrop
        cases hdrop
      rw [reply, hne, ← hrest]
      simp only [Bool.false_eq_true, if_false, Wire.drop]
      rw [List.drop_append_of_le_length hle, hdrop]
      exact .item chunk chunks _
    · rename_i hdrop
      have hall := hdue rfl
      simp only [TaskPc.due, List.append_nil] at hall
      have hne : (Replay.of k (taken τ)).isEmpty = false := by
        simp only [TaskPc.pending, List.append_nil] at hitems
        rw [hitems, List.isEmpty_eq_false_iff]
        exact hreceived _ _ _ rfl
      rw [reply, hne, ← hall]
      simp only [Bool.false_eq_true, if_false, Wire.drop]
      rw [hdrop]
      exact .ended
    · exact .nothing _

/-- What another task takes leaves the answer alone. -/
theorem Worker.reply_concat_of_ne (hne : ∀ x ∈ e, x.1 ≠ k) :
    w.reply deps cfg (τ ++ [(a, e)]) k = w.reply deps cfg τ k := by
  have hnone : ∀ x ∈ e.toList, x.1 ≠ k := fun x hx => hne x (by simpa using hx)
  have hresults : results deps cfg (τ ++ [(a, e)]) k = results deps cfg τ k := by
    rw [results, taken_append, Replay.answers_append, Replay.answers_eq_nil _ _ _ k hnone,
      List.append_nil, results]
  have hreplies : replies deps cfg (τ ++ [(a, e)]) k = replies deps cfg τ k := by
    rw [replies, taken_append, Replay.answers_append, Replay.answers_eq_nil _ _ _ k hnone,
      List.append_nil, replies]
  have hof : Replay.of k (taken (τ ++ [(a, e)])) = Replay.of k (taken τ) := by
    rw [taken_append, Replay.of_append, Replay.of_eq_nil k hnone, List.append_nil]
  cases w with
  | call req pc => rw [reply, reply, hresults]
  | stream pc out rx => rw [reply, reply, hof, hreplies]

/-- A task that has its request pending has taken nothing, and there is no answer to it yet.

**Proof sketch.** By what the task has (`Worker.Ok`): a call before its critical section has taken nothing,
and neither has a stream that received one request, which is pending. -/
theorem Worker.untaken {req : ModelInferRequest}
    (hok : w.Ok deps cfg (Replay.of k (taken τ)) (received τ k) (results deps cfg τ k)
      (replies deps cfg τ k))
    (hreceived : ∀ pc out rx, w = .stream pc out rx → (received τ k).length = 1)
    (hpending : w.pending = some req) :
    Replay.of k (taken τ) = [] ∧ w.reply deps cfg τ k = .empty := by
  cases w with
  | call req' pc =>
    have hboth : Replay.of k (taken τ) = [] ∧ results deps cfg τ k = [] := by
      rcases pc with _ | ⟨work | _ | _ | _⟩ | _ | _
      · exact hok
      · exact ⟨hok.2.1, hok.2.2⟩
      all_goals cases hpending
    exact ⟨hboth.1, by rw [reply, hboth.2]; rfl⟩
  | stream pc out rx =>
    have hlen := congrArg List.length hok.2.1
    have hone : pc.pending.length = 1 := by
      rcases pc with _ | _ | ⟨_, _ | _ | _ | _⟩ | _ | _ | _ | _ <;> first | rfl | cases hpending
    rw [List.length_append, hone, hreceived pc out rx rfl] at hlen
    have hnil : Replay.of k (taken τ) = [] := List.eq_nil_of_length_eq_zero (by omega)
    exact ⟨hnil, by rw [reply, hnil]; rfl⟩

/-- The answer to a request that a task has taken: that of the sequential replica, at once. -/
theorem Worker.reply_concat_self {req : ModelInferRequest} (hof : Replay.of k (taken τ) = []) :
    w.reply deps cfg (τ ++ [(a, some (k, .ok req))]) k =
      match w with
      | .call _ _ => .reply ((sequential deps cfg τ).modelInfer deps.encode req).1
      | .stream _ _ _ =>
        .items (MockTriton.streamItems deps.statusText ((sequential deps cfg τ).streamInfer deps.encode req).1) := by
  have hnone := Replay.ne_of_of_eq_nil k hof
  cases w with
  | call req' pc =>
    rw [reply, results, taken_append, Replay.answers_append, Replay.answers_eq_nil _ _ _ k hnone]
    simp [Replay.answers, callAnswer, sequential]
  | stream pc out rx =>
    rw [reply, replies, taken_append, Replay.answers_append, Replay.answers_eq_nil _ _ _ k hnone,
      Replay.of_append]
    simp [Replay.answers, Replay.of, streamAnswer, sequential]

end Reply

end Replica

/-! ## One call -/

namespace Handler

variable {F : Type} {n : ℕ} {Resp : Type} {h h' : Handler n Resp} {r : Fin n} {input : Input Resp}

/-- A handler that awaits an answer goes on to await it until something comes or it is dropped. -/
theorem callee_of_step [Mul F] [Sub F] [LT F] [DecidableLT F] [ScoreArith F] {deps : Deps}
    {inner inner' : RouterInner F n} {t : ℕ} {es : List (Event n)} (hcallee : h.callee = some r)
    (hkeep : input.keepsWire = true) (hstep : h.step deps inner t input = some (es, inner', h')) :
    h'.callee = some r := by
  rcases step_inv hstep with ⟨pc, pc', rfl, rfl, hpc⟩ | ⟨s, s', rfl, rfl, hs⟩
  · cases UnaryPc.step_inv hpc <;> simp [callee, Input.keepsWire] at hcallee hkeep
  · have heff := StreamTask.step_inv hs
    obtain ⟨pc, out, rxOpen⟩ := s
    cases heff with
    | disconnected => exact hcallee
    | opened d => exact hcallee
    | _ => simp [callee, Input.keepsWire] at hcallee hkeep

end Handler

/-- A task of a replica is of the kind of the handler that it was started for. -/
inductive Handler.Starts {n : ℕ} : Handler n MockResponse → Replica.Worker → Prop
  /-- A unary call. -/
  | call (pc : UnaryPc n MockResponse) (req : ModelInferRequest) (pc' : Replica.CallPc) :
      Starts (.unary pc) (.call req pc')
  /-- A stream. -/
  | stream (s : StreamTask n MockResponse) (pc : Replica.TaskPc) (out : List Replica.StreamItem)
      (rx : Bool) : Starts (.stream s) (.stream pc out rx)

namespace Handler.Starts

variable {n : ℕ} {h h' : Handler n MockResponse} {w w' : Replica.Worker}

/-- The task that is started for a handler. -/
theorem worker (req : ModelInferRequest) (h : Handler n MockResponse) : h.Starts (h.worker req) := by
  cases h
  · exact .call _ _ _
  · exact .stream _ _ _ _

/-- A handler stays of its kind. -/
theorem step {F : Type} [Mul F] [Sub F] [LT F] [DecidableLT F] [ScoreArith F] {deps : Deps}
    {inner inner' : RouterInner F n} {t : ℕ} {input : Input MockResponse} {es : List (Event n)}
    (hstarts : h.Starts w) (hstep : h.step deps inner t input = some (es, inner', h')) : h'.Starts w := by
  rcases step_inv hstep with ⟨pc, pc', rfl, rfl, -⟩ | ⟨s, s', rfl, rfl, -⟩
  · cases hstarts
    exact .call _ _ _
  · cases hstarts
    exact .stream _ _ _ _

/-- A task of a replica stays of its kind. -/
theorem work {deps : ReplicaDeps} {service service' : MockTritonService} {input : Replica.Input}
    {item : Option Replica.ClientItem} (hstarts : h.Starts w)
    (heffect : w.Effect deps service input item service' w') : h.Starts w' := by
  cases heffect <;> cases hstarts <;> constructor

/-- Two tasks of one kind have the same answer. -/
theorem reply_eq (hw : h.Starts w) (hw' : h.Starts w') (deps : ReplicaDeps) (cfg : MockConfig)
    (τ : List (Replica.Action × Option (ℕ × Replica.ClientItem))) (k : ℕ) :
    w.reply deps cfg τ k = w'.reply deps cfg τ k := by
  cases hw <;> cases hw' <;> rfl

end Handler.Starts

namespace Deployment

variable {F : Type} {n : ℕ}

/-- The trace of a replica. -/
abbrev ReplicaTrace := List (Replica.Action × Option (ℕ × Replica.ClientItem))

/-- **How a task of a replica stands to its call**: `h` is the handler of the router that awaits the answer,
`req` the request that it is at, and `wire` is on the way to it in the cluster. -/
structure Carried (deps : ReplicaDeps) (cfg : MockConfig) (τ : ReplicaTrace) (l : Link n)
    (h : Handler n MockResponse) (req : Option ModelInferRequest) (wire : Wire) (w : Replica.Worker) :
    Prop where
  /-- The task is of the kind of the handler. -/
  starts : h.Starts w
  /-- The whole answer is on the way, but for what was taken of it. -/
  wire : wire = (w.reply deps cfg τ l.worker).drop l.taken
  /-- A stream received one request. -/
  received : ∀ pc out rx, w = .stream pc out rx → (Replica.received τ l.worker).length = 1
  /-- A request that the task has not taken is the one that the handler awaits the answer to. -/
  pending : ∀ rq, w.pending = some rq → req = some rq ∧ h.callee = some l.replica ∧ l.taken = 0

/-- **A cluster that shows what a deployment shows**: `T` are the traces of the replicas, and `O` has, for
the tasks that nobody awaits, the requests that are astray in the cluster. -/
structure Refines (deps : ClusterDeps) (mocks : Fin n → MockConfig) (T : Fin n → ReplicaTrace)
    (O : List ((Fin n × ℕ) × ℕ × Fin n × ModelInferRequest)) (d : Deployment F n) (c : Cluster F n) :
    Prop where
  /-- The router is the same. -/
  router : c.router = d.router
  /-- So are the requests of its tasks. -/
  requests : c.requests = d.requests
  /-- The replicas have taken runs of their own. -/
  exec : ∀ r, (Replica.lts deps.replica).Exec (.new (mocks r)) (T r) (d.replicas r)
  /-- The replicas of the cluster have served at once what was taken. -/
  replicas : ∀ r, c.replicas r = Replica.sequential deps.replica (mocks r) (T r)
  /-- Nothing is on the way to a task whose call has not arrived. -/
  unlinked : ∀ t h, d.handler t = some h → h.asks.isSome → d.links t = none → c.wires t = .empty
  /-- A call was made by one task. -/
  caller : ∀ t l, d.links t = some l → d.callers l.replica l.worker = t
  /-- A call that has arrived. -/
  carried : ∀ t l, d.links t = some l → ∃ h w, d.handler t = some h ∧ h.asks = some l.replica ∧
    (d.replicas l.replica).workers[l.worker]? = some w ∧
    Carried deps.replica (mocks l.replica) (T l.replica) l h (d.requests t) (c.wires t) w
  /-- A request that nobody awaits the answer to. -/
  orphans : ∀ r k w rq, (d.replicas r).workers[k]? = some w → w.pending = some rq →
    d.linked r k = false → ((r, k), d.callers r k, r, rq) ∈ O
  /-- What has gone astray. -/
  strays : (d.strays ++ O.map Prod.snd).Subperm c.strays

variable {deps : ClusterDeps} {mocks : Fin n → MockConfig} {T : Fin n → ReplicaTrace}
  {O : List ((Fin n × ℕ) × ℕ × Fin n × ModelInferRequest)} {d d' : Deployment F n} {c c' : Cluster F n}

/-- Nothing has happened at the start. -/
theorem refines_new (deps : ClusterDeps) (policy : Policy) (cfg : SchedulerConfig F)
    (mocks : Fin n → MockConfig) :
    Refines deps mocks (fun _ => []) [] (new policy cfg mocks) (Cluster.new policy cfg mocks) where
  router := rfl
  requests := rfl
  exec _ := .nil
  replicas _ := rfl
  unlinked _ _ _ _ _ := rfl
  caller t l hl := by cases hl
  carried t l hl := by cases hl
  orphans r k w rq hw := by simp [new, Replica.new] at hw
  strays := List.Subperm.refl _

/-- Whether a task is awaited. -/
theorem linked_eq_true_iff {r : Fin n} {k : ℕ} : d.linked r k = true ↔
    ∃ l, d.links (d.callers r k) = some l ∧ l.replica = r ∧ l.worker = k := by
  simp [linked, Option.any_eq_true]

namespace Refines

/-- The handlers are those of the deployment. -/
theorem handler_eq (hR : Refines deps mocks T O d c) (t : ℕ) : c.handler t = d.handler t := by
  rw [Cluster.handler, hR.router, handler]

/-- A task of a replica that is linked is awaited. -/
theorem linked_of_link (hR : Refines deps mocks T O d c) {t : ℕ} {l : Link n} (hl : d.links t = some l) :
    d.linked l.replica l.worker = true :=
  linked_eq_true_iff.mpr ⟨l, (hR.caller t l hl).symm ▸ hl, rfl, rfl⟩

/-- What the invariant of a replica says of its tasks. -/
theorem workers_ok (hR : Refines deps mocks T O d c) {r : Fin n} {k : ℕ} {w : Replica.Worker}
    (hw : (d.replicas r).workers[k]? = some w) :
    w.Ok deps.replica (mocks r) (Replay.of k (Replica.taken (T r))) (Replica.received (T r) k)
      (Replica.results deps.replica (mocks r) (T r) k) (Replica.replies deps.replica (mocks r) (T r) k) :=
  (Replica.linear_of_run (hR.exec r)).workers k w hw

/-- The call that a task has made. -/
theorem carried_of (hR : Refines deps mocks T O d c) {t : ℕ} {l : Link n} {w : Replica.Worker}
    (hl : d.links t = some l) (hw : (d.replicas l.replica).workers[l.worker]? = some w) :
    ∃ h, d.handler t = some h ∧ h.asks = some l.replica ∧
      Carried deps.replica (mocks l.replica) (T l.replica) l h (d.requests t) (c.wires t) w := by
  obtain ⟨h, w', hget, hasks, hw', hcarried⟩ := hR.carried t l hl
  obtain rfl : w' = w := Option.some_inj.mp (hw'.symm.trans hw)
  exact ⟨h, hget, hasks, hcarried⟩

/-- A request that is not taken has no answer. -/
theorem wire_of_pending (hR : Refines deps mocks T O d c) {t : ℕ} {l : Link n} {w : Replica.Worker}
    {rq : ModelInferRequest} (hl : d.links t = some l)
    (hw : (d.replicas l.replica).workers[l.worker]? = some w) (hpending : w.pending = some rq) :
    Replay.of l.worker (Replica.taken (T l.replica)) = [] ∧ c.wires t = .empty := by
  obtain ⟨h, -, -, hcarried⟩ := hR.carried_of hl hw
  obtain ⟨hof, hreply⟩ := Replica.Worker.untaken (hR.workers_ok hw) hcarried.received hpending
  exact ⟨hof, by rw [hcarried.wire, hreply]; rfl⟩

/-- **What is sent of an answer is the first part of it.** -/
theorem wire_shows (hR : Refines deps mocks T O d c) (t : ℕ) : (d.wire t).Shows (c.wires t) := by
  rw [wire]
  split
  · exact .nothing _
  · rename_i l hl
    obtain ⟨h, w, -, -, hw, hcarried⟩ := hR.carried t l hl
    rw [hw, Option.elim_some, hcarried.wire]
    refine Replica.Worker.offers_shows (hR.workers_ok hw) fun pc out rx heq hnil => ?_
    have hlen := hcarried.received pc out rx heq
    rw [hnil] at hlen
    cases hlen

end Refines

end Deployment
