import DynamoRouter.Router.Handlers

set_option relaxedAutoImplicit false
set_option autoImplicit false

/-!
# A unary call on its own

`model_infer_attempts` from beginning to end, with nothing in between: what the caller gets, which
replicas were called, and what is left in the scheduler, for every state it starts in, every request and
every two outcomes of the upstream calls.

## Main definitions

* `UnaryRun`, `UnaryRun.next`, `UnaryRun.run` — the call with the outcomes to come and the calls made.
* `UnaryRun.modelInfer` — a call from beginning to end.
* `UnaryRun.Outcome` — the courses that a call can take.
* `UnaryRun.Spec` — what the caller and the scheduler see.

## Main results

* `UnaryRun.outcome_modelInfer` — a call takes one of the courses.
* `UnaryRun.spec_modelInfer` — what the caller and the scheduler see of it.
-/

open Protocol

/-- A unary call that runs alone. -/
structure UnaryRun (F : Type) (n : ℕ) (Resp : Type) where
  /-- The shared state. -/
  inner : RouterInner F n
  /-- Where the call is. -/
  pc : UnaryPc n Resp
  /-- The outcomes of the upstream calls to come. -/
  script : List (Except Status Resp)
  /-- The upstream calls made, with their outcomes. -/
  calls : List (Fin n × Except Status Resp)

/-- The shared state after an attempt: picked, called and completed. -/
def RouterInner.attempted {F : Type} {n : ℕ} (inner : RouterInner F n) (sched : Scheduler F n)
    (d : RouteDecision n) : RouterInner F n :=
  let r := ({ inner with scheduler := sched }.setGauge d.replica d.inflightAfter).complete d.replica
  r.2.setGauge d.replica r.1

/-- The shared state after `record_served`. -/
def RouterInner.recorded {F : Type} {n : ℕ} (inner : RouterInner F n) (hashes : List UInt64)
    (d : RouteDecision n) : RouterInner F n :=
  ((inner.incRequests).incMatched d).incPrompt hashes.length

namespace UnaryRun

variable {F : Type} {n : ℕ} {Resp : Type}
variable [Mul F] [Sub F] [LT F] [DecidableLT F] [ScoreArith F]

/-- The next step: at the `await` of an upstream call the next outcome arrives. -/
def next (deps : Deps) (t : ℕ) (s : UnaryRun F n Resp) : Option (UnaryRun F n Resp) :=
  match s.pc, s.script with
  | .upstream hashes att d, result :: script =>
    ((UnaryPc.upstream hashes att d).step deps s.inner t (.reply result)).map fun r =>
      { inner := r.2.1, pc := r.2.2, script := script, calls := s.calls ++ [(d.replica, result)] }
  | pc, _ => (pc.step deps s.inner t .tick).map fun r => { s with inner := r.2.1, pc := r.2.2 }

/-- The next steps, as many as there are, but at most so many. -/
def run (deps : Deps) (t : ℕ) : ℕ → UnaryRun F n Resp → UnaryRun F n Resp
  | 0, s => s
  | k + 1, s =>
    match s.next deps t with
    | none => s
    | some s' => run deps t k s'

/-- A call from beginning to end. No course of it is longer than fifteen steps. -/
def modelInfer (deps : Deps) (t : ℕ) (inner : RouterInner F n) (req : ModelInferRequest)
    (first second : Except Status Resp) : UnaryRun F n Resp :=
  run deps t 15 { inner := inner, pc := .start req, script := [first, second], calls := [] }

/-! ## The parts of a call -/

variable {deps : Deps} {t : ℕ} {inner : RouterInner F n} {script : List (Except Status Resp)}
  {calls : List (Fin n × Except Status Resp)} {hashes : List UInt64} {att : Attempt n}

/-- A call that was answered does not go on. -/
theorem run_done (k : ℕ) (result : Except Status Resp) :
    run deps t k ⟨inner, .done result, script, calls⟩ = ⟨inner, .done result, script, calls⟩ := by
  cases k <;> rfl

/-- A request that has no prompt is answered at once. -/
theorem run_rejected {req : ModelInferRequest} {status : Status} (k : ℕ)
    (hprompt : RouterInner.promptHashes deps req = .error status) :
    run deps t (k + 1) ⟨inner, .start req, script, calls⟩ =
      ⟨inner, .done (.error status), script, calls⟩ := by
  have hstep : next deps t ⟨inner, .start req, script, calls⟩ =
      some ⟨inner, .done (.error status), script, calls⟩ := by
    simp [next, UnaryPc.step, hprompt]
  rw [run, hstep]
  exact run_done k _

/-- The prompt of a request is hashed before the first attempt. -/
theorem run_prepared {req : ModelInferRequest} (k : ℕ)
    (hprompt : RouterInner.promptHashes deps req = .ok hashes) :
    run deps t (k + 1) ⟨inner, .start req, script, calls⟩ =
      run deps t k ⟨inner, .picking hashes .first, script, calls⟩ := by
  have hstep : next deps t ⟨inner, .start req, script, calls⟩ =
      some ⟨inner, .picking hashes .first, script, calls⟩ := by
    simp [next, UnaryPc.step, hprompt]
  rw [run, hstep]

/-- The pick of an attempt is refused. -/
theorem run_refused {e : PickError} (k : ℕ)
    (hpick : inner.scheduler.pick hashes = some (.error e, inner.scheduler)) :
    run deps t (k + 1) ⟨inner, .picking hashes att, script, calls⟩ =
      ⟨inner, .done (.error e.status), script, calls⟩ := by
  have hstep : next deps t ⟨inner, .picking hashes att, script, calls⟩ =
      some ⟨inner, .done (.error e.status), script, calls⟩ := by
    simp [next, UnaryPc.step, RouterInner.pick, hpick]
  rw [run, hstep]
  exact run_done k _

section Attempt

variable {d : RouteDecision n} {sched : Scheduler F n}

variable (deps t script calls att) in
/-- An attempt up to the completion of its request: pick, set the gauge, call, complete. -/
theorem run_attempt (k : ℕ) (result : Except Status Resp)
    (hpick : inner.scheduler.pick hashes = some (.ok d, sched)) :
    ∃ inner' inflight, inner'.setGauge d.replica inflight = inner.attempted sched d ∧
      run deps t (k + 4) ⟨inner, .picking hashes att, result :: script, calls⟩ =
        run deps t k ⟨inner', .gaugeCompleted hashes att d result inflight, script,
          calls ++ [(d.replica, result)]⟩ := by
  have hstep : next deps t ⟨inner, .picking hashes att, result :: script, calls⟩ =
      some ⟨{ inner with scheduler := sched }, .gaugePicked hashes att d, result :: script, calls⟩ := by
    simp [next, UnaryPc.step, RouterInner.pick, hpick]
  rw [run, hstep]
  exact ⟨_, _, rfl, rfl⟩

/-- An attempt whose call succeeds. -/
theorem run_succeeded (k : ℕ) (resp : Resp)
    (hpick : inner.scheduler.pick hashes = some (.ok d, sched)) :
    run deps t (k + 8) ⟨inner, .picking hashes att, .ok resp :: script, calls⟩ =
      ⟨(inner.attempted sched d).recorded hashes d, .done (.ok resp), script,
        calls ++ [(d.replica, .ok resp)]⟩ := by
  obtain ⟨inner', inflight, heq, hrun⟩ := run_attempt deps t script calls att (k + 4) (.ok resp)
    hpick
  rw [hrun, ← heq]
  exact run_done k _

/-- An attempt whose call fails in the application. -/
theorem run_propagated (k : ℕ) {status : Status} (hstatus : isTransportFailure status = false)
    (hpick : inner.scheduler.pick hashes = some (.ok d, sched)) :
    run deps t (k + 5) ⟨inner, .picking hashes att, .error status :: script, calls⟩ =
      ⟨inner.attempted sched d, .done (.error status), script,
        calls ++ [(d.replica, .error status)]⟩ := by
  obtain ⟨inner', inflight, heq, hrun⟩ := run_attempt deps t script calls att (k + 1)
    (.error status) hpick
  rw [hrun, ← heq]
  simp only [run, next, UnaryPc.step, hstatus]
  exact run_done k _

/-- An attempt whose transport fails, up to the mark. -/
theorem run_failed (k : ℕ) {status : Status} (hstatus : isTransportFailure status = true)
    (hpick : inner.scheduler.pick hashes = some (.ok d, sched)) :
    run deps t (k + 5) ⟨inner, .picking hashes att, .error status :: script, calls⟩ =
      run deps t k ⟨inner.attempted sched d, .marking hashes att d status, script,
        calls ++ [(d.replica, .error status)]⟩ := by
  obtain ⟨inner', inflight, heq, hrun⟩ := run_attempt deps t script calls att (k + 1)
    (.error status) hpick
  rw [hrun, ← heq]
  simp only [run, next, UnaryPc.step, hstatus]
  rfl

/-- The replica of the first attempt is marked. -/
theorem run_retried (k : ℕ) {status : Status} :
    run deps t (k + 1) ⟨inner, .marking hashes .first d status, script, calls⟩ =
      run deps t k ⟨inner.markUnhealthy d.replica, .picking hashes (.second d.replica), script, calls⟩ :=
  rfl

/-- The replica of the second attempt is marked. -/
theorem run_gaveUp (k : ℕ) {failed : Fin n} {status : Status} :
    run deps t (k + 1) ⟨inner, .marking hashes (.second failed) d status, script, calls⟩ =
      ⟨inner.markUnhealthy d.replica,
        .done (.error (.unavailable ("all attempts failed: " ++ fmtStatus deps status))), script,
        calls⟩ :=
  run_done k _

end Attempt

/-! ## The courses of a call -/

/-- The scheduler after a call to the picked replica failed: its pick completed, and the replica taken
out of routing. -/
def failedAt (sched : Scheduler F n) (d : RouteDecision n) : Scheduler F n :=
  (sched.complete d.replica).markUnhealthy d.replica

/-- The courses of a call: its answer, the scheduler after it, and the upstream calls. -/
inductive Outcome (deps : Deps) (inner : RouterInner F n) (req : ModelInferRequest) :
    Except Status Resp → Except Status Resp →
      Except Status Resp → Scheduler F n → List (Fin n × Except Status Resp) → Prop
  /-- The request has no prompt that can be tokenized. -/
  | rejected (first second : Except Status Resp) (status : Status)
      (hprompt : RouterInner.promptHashes deps req = .error status) :
      Outcome deps inner req first second (.error status) inner.scheduler []
  /-- The pick is refused. -/
  | refused (first second : Except Status Resp) (hashes : List UInt64) (e : PickError)
      (hprompt : RouterInner.promptHashes deps req = .ok hashes)
      (hpick : inner.scheduler.pick hashes = some (.error e, inner.scheduler)) :
      Outcome deps inner req first second (.error e.status) inner.scheduler []
  /-- The call succeeds. -/
  | succeeded (resp : Resp) (second : Except Status Resp) (hashes : List UInt64)
      (d : RouteDecision n) (sched : Scheduler F n)
      (hprompt : RouterInner.promptHashes deps req = .ok hashes)
      (hpick : inner.scheduler.pick hashes = some (.ok d, sched)) :
      Outcome deps inner req (.ok resp) second (.ok resp) (sched.complete d.replica)
        [(d.replica, .ok resp)]
  /-- The call fails in the application. -/
  | propagated (status : Status) (second : Except Status Resp) (hashes : List UInt64)
      (d : RouteDecision n) (sched : Scheduler F n)
      (hprompt : RouterInner.promptHashes deps req = .ok hashes)
      (hpick : inner.scheduler.pick hashes = some (.ok d, sched))
      (hstatus : isTransportFailure status = false) :
      Outcome deps inner req (.error status) second (.error status) (sched.complete d.replica)
        [(d.replica, .error status)]
  /-- The transport fails, and the second pick is refused. -/
  | refusedAgain (status : Status) (second : Except Status Resp) (hashes : List UInt64)
      (d : RouteDecision n) (sched : Scheduler F n) (e : PickError)
      (hprompt : RouterInner.promptHashes deps req = .ok hashes)
      (hpick : inner.scheduler.pick hashes = some (.ok d, sched))
      (hstatus : isTransportFailure status = true)
      (hagain : (failedAt sched d).pick hashes = some (.error e, failedAt sched d)) :
      Outcome deps inner req (.error status) second (.error e.status) (failedAt sched d)
        [(d.replica, .error status)]
  /-- The transport fails, and the second call succeeds. -/
  | succeededAgain (status : Status) (resp : Resp) (hashes : List UInt64) (d d' : RouteDecision n)
      (sched sched' : Scheduler F n)
      (hprompt : RouterInner.promptHashes deps req = .ok hashes)
      (hpick : inner.scheduler.pick hashes = some (.ok d, sched))
      (hstatus : isTransportFailure status = true)
      (hagain : (failedAt sched d).pick hashes = some (.ok d', sched')) :
      Outcome deps inner req (.error status) (.ok resp) (.ok resp) (sched'.complete d'.replica)
        [(d.replica, .error status), (d'.replica, .ok resp)]
  /-- The transport fails, and the second call fails in the application. -/
  | propagatedAgain (status status' : Status) (hashes : List UInt64) (d d' : RouteDecision n)
      (sched sched' : Scheduler F n)
      (hprompt : RouterInner.promptHashes deps req = .ok hashes)
      (hpick : inner.scheduler.pick hashes = some (.ok d, sched))
      (hstatus : isTransportFailure status = true)
      (hagain : (failedAt sched d).pick hashes = some (.ok d', sched'))
      (hstatus' : isTransportFailure status' = false) :
      Outcome deps inner req (.error status) (.error status') (.error status')
        (sched'.complete d'.replica) [(d.replica, .error status), (d'.replica, .error status')]
  /-- The transport fails twice. -/
  | gaveUp (status status' : Status) (hashes : List UInt64) (d d' : RouteDecision n)
      (sched sched' : Scheduler F n)
      (hprompt : RouterInner.promptHashes deps req = .ok hashes)
      (hpick : inner.scheduler.pick hashes = some (.ok d, sched))
      (hstatus : isTransportFailure status = true)
      (hagain : (failedAt sched d).pick hashes = some (.ok d', sched'))
      (hstatus' : isTransportFailure status' = true) :
      Outcome deps inner req (.error status) (.error status')
        (.error (.unavailable ("all attempts failed: " ++ fmtStatus deps status')))
        (failedAt sched' d') [(d.replica, .error status), (d'.replica, .error status')]

/-- **A call takes one of the courses**, whatever the state it starts in.

**Proof sketch.** Step by step: the parts of a call are put together, each with the number of steps it
takes. -/
theorem outcome_modelInfer (deps : Deps) (t : ℕ) (inner : RouterInner F n) (req : ModelInferRequest)
    (first second : Except Status Resp) :
    ∃ result, (modelInfer deps t inner req first second).pc = .done result ∧
      Outcome deps inner req first second result
        (modelInfer deps t inner req first second).inner.scheduler
        (modelInfer deps t inner req first second).calls := by
  unfold modelInfer
  rcases hprompt : RouterInner.promptHashes deps req with status | hashes
  · rw [run_rejected 14 hprompt]
    exact ⟨_, rfl, .rejected _ _ _ hprompt⟩
  rw [run_prepared 14 hprompt]
  obtain ⟨⟨res, sched⟩, hpick⟩ := Option.isSome_iff_exists.mp (inner.scheduler.pick_isSome hashes)
  rcases res with e | d
  · obtain rfl := (Scheduler.pick_error_inv hpick).1
    rw [run_refused 13 hpick]
    exact ⟨_, rfl, .refused _ _ _ _ hprompt hpick⟩
  rcases first with status | resp
  · rcases hstatus : isTransportFailure status with _ | _
    · rw [run_propagated 9 hstatus hpick]
      exact ⟨_, rfl, .propagated _ _ _ _ _ hprompt hpick hstatus⟩
    rw [run_failed 9 hstatus hpick, run_retried 8]
    -- the second attempt, in the scheduler that the first one leaves
    obtain ⟨⟨res, sched'⟩, hagain⟩ :=
      Option.isSome_iff_exists.mp ((failedAt sched d).pick_isSome hashes)
    rcases res with e | d'
    · obtain rfl := (Scheduler.pick_error_inv hagain).1
      rw [run_refused 7 hagain]
      exact ⟨_, rfl, .refusedAgain _ _ _ _ _ _ hprompt hpick hstatus hagain⟩
    rcases second with status' | resp
    · rcases hstatus' : isTransportFailure status' with _ | _
      · rw [run_propagated 3 hstatus' hagain]
        exact ⟨_, rfl, .propagatedAgain _ _ _ _ _ _ _ hprompt hpick hstatus hagain hstatus'⟩
      · rw [run_failed 3 hstatus' hagain, run_gaveUp 2]
        exact ⟨_, rfl, .gaveUp _ _ _ _ _ _ _ hprompt hpick hstatus hagain hstatus'⟩
    · rw [run_succeeded 0 resp hagain]
      exact ⟨_, rfl, .succeededAgain _ _ _ _ _ _ _ hprompt hpick hstatus hagain⟩
  · rw [run_succeeded 6 resp hpick]
    exact ⟨_, rfl, .succeeded _ _ _ _ _ hprompt hpick⟩

/-! ## What is left in the scheduler -/

section Sched

omit [Mul F] [Sub F] [LT F] [DecidableLT F] [ScoreArith F] in
/-- A replica whose call failed is out of routing, as new. -/
theorem replicas_failedAt (sched : Scheduler F n) (d : RouteDecision n) :
    (failedAt sched d).replicas d.replica = { cache := .new, inflight := 0, healthy := false } :=
  Scheduler.replicas_setReplica_self _ _ _

variable {s sched : Scheduler F n} {d : RouteDecision n}

/-- A pick and its completion leave health and in-flight counts alone. -/
theorem complete_pick (h : s.pick hashes = some (.ok d, sched)) (r : Fin n) :
    (sched.complete d.replica).isHealthy r = s.isHealthy r ∧
      (sched.complete d.replica).inflight r = s.inflight r := by
  constructor
  · obtain ⟨rr, -, rfl, -⟩ := Scheduler.pick_ok_inv h
    rw [Scheduler.isHealthy_complete, Scheduler.isHealthy_commit]
  · rw [Scheduler.inflight_complete, Scheduler.inflight_pick h, Scheduler.inflight_pick h,
      if_pos rfl]
    split_ifs with hr
    · rw [hr, Nat.add_sub_cancel]
    · rfl

/-- A pick and its completion leave the other replicas alone. -/
theorem replicas_complete_of_ne (h : s.pick hashes = some (.ok d, sched)) {r : Fin n}
    (hr : r ≠ d.replica) : (sched.complete d.replica).replicas r = s.replicas r := by
  obtain ⟨rr, -, rfl, -⟩ := Scheduler.pick_ok_inv h
  rw [Scheduler.complete, Scheduler.replicas_setReplica_of_ne _ _ hr,
    Scheduler.replicas_commit_of_ne _ _ _ hr]

/-- A failed call leaves the other replicas alone. -/
theorem replicas_failedAt_of_ne (h : s.pick hashes = some (.ok d, sched)) {r : Fin n}
    (hr : r ≠ d.replica) : (failedAt sched d).replicas r = s.replicas r := by
  rw [failedAt, Scheduler.markUnhealthy, Scheduler.replicas_setReplica_of_ne _ _ hr]
  exact replicas_complete_of_ne h hr

/-- After a failed call the other replicas are as available as before. -/
theorem availMask_failedAt (h : s.pick hashes = some (.ok d, sched)) {r : Fin n} :
    (failedAt sched d).availMask r = true ↔ r ≠ d.replica ∧ s.availMask r = true := by
  have hcfg : (failedAt sched d).cfg = s.cfg := by
    obtain ⟨rr, -, rfl, -⟩ := Scheduler.pick_ok_inv h
    rfl
  rw [Scheduler.availMask_iff, Scheduler.availMask_iff, hcfg]
  by_cases hr : r = d.replica
  · subst hr
    rw [replicas_failedAt]
    simp
  · rw [replicas_failedAt_of_ne h hr, and_iff_right hr]

end Sched

/-! ## What the caller and the scheduler see -/

/-- The transport of an upstream call failed. -/
def Failed (call : Fin n × Except Status Resp) : Prop :=
  ∃ status, call.2 = .error status ∧ isTransportFailure status = true

/-- What the caller and the scheduler see of a call that starts in `inner`: its answer, the scheduler
after it, and the upstream calls. -/
structure Spec (deps : Deps) (inner : RouterInner F n) (req : ModelInferRequest)
    (first second result : Except Status Resp) (sched : Scheduler F n)
    (calls : List (Fin n × Except Status Resp)) : Prop where
  /-- There are at most two upstream calls, with the given outcomes. -/
  outcomes : calls.map Prod.snd <+: [first, second]
  /-- There is a second call only if the transport of the first one failed, and it goes to a different
  replica, one that is available. -/
  retry : ∀ c c', calls = [c, c'] →
    Failed c ∧ c'.1 ≠ c.1 ∧ inner.scheduler.availMask c'.1 = true
  /-- The answer is the response of a call that succeeded. -/
  ok_iff : ∀ resp, result = .ok resp ↔ ∃ c ∈ calls, c.2 = .ok resp
  /-- A failure of the last call in the application is answered as it is. -/
  application : ∀ c status, calls.getLast? = some c → c.2 = .error status →
    isTransportFailure status = false → result = .error status
  /-- A failure of the second transport is answered as unavailable. -/
  gaveUp : ∀ c c' status, calls = [c, c'] → c'.2 = .error status →
    isTransportFailure status = true →
    result = .error (.unavailable ("all attempts failed: " ++ fmtStatus deps status))
  /-- If there is no call for a prompt, then the pick was refused. -/
  refused : ∀ hashes, RouterInner.promptHashes deps req = .ok hashes → calls = [] →
    ∃ e, result = .error e.status ∧
      inner.scheduler.pick hashes = some (.error e, inner.scheduler)
  /-- If the transport of the only call failed, then no other replica was available, and the second pick
  was refused. -/
  refusedAgain : ∀ hashes c, RouterInner.promptHashes deps req = .ok hashes → calls = [c] →
    Failed c → (∀ r, r ≠ c.1 → inner.scheduler.availMask r = false) ∧
      ∃ e, result = .error e.status ∧ sched.pick hashes = some (.error e, sched)
  /-- The replicas whose transport failed are newly out of routing, as new. -/
  marked : ∀ c ∈ calls, Failed c → inner.scheduler.isHealthy c.1 = true ∧
    sched.replicas c.1 = { cache := .new, inflight := 0, healthy := false }
  /-- All others have their health and their in-flight count. -/
  others : ∀ r, (∀ c ∈ calls, Failed c → c.1 ≠ r) →
    sched.isHealthy r = inner.scheduler.isHealthy r ∧
      sched.inflight r = inner.scheduler.inflight r
  /-- Without a prompt nothing happens. -/
  rejected : ∀ status, RouterInner.promptHashes deps req = .error status →
    result = .error status ∧ calls = [] ∧ sched = inner.scheduler

/-- A call that succeeded did not fail. -/
@[simp] theorem not_failed_ok (r : Fin n) (resp : Resp) : ¬ Failed (r, .ok resp) := by
  simp [Failed]

/-- A call that did not succeed failed as its status says. -/
@[simp] theorem failed_error_iff (r : Fin n) (status : Status) :
    Failed ((r, .error status) : Fin n × Except Status Resp) ↔ isTransportFailure status = true := by
  simp [Failed]

/-- A picked replica was healthy. -/
theorem isHealthy_of_pick {s sched : Scheduler F n} {d : RouteDecision n}
    (h : s.pick hashes = some (.ok d, sched)) : s.isHealthy d.replica = true :=
  (Scheduler.availMask_iff.mp (Scheduler.availMask_of_pick h)).1

omit [Mul F] [Sub F] [LT F] [DecidableLT F] [ScoreArith F] in
/-- Health and in-flight count of a replica that was left alone. -/
theorem frame_of_replicas_eq {s s' : Scheduler F n} {r : Fin n} (h : s'.replicas r = s.replicas r) :
    s'.isHealthy r = s.isHealthy r ∧ s'.inflight r = s.inflight r := by
  rw [Scheduler.isHealthy, Scheduler.inflight, h]
  exact ⟨rfl, rfl⟩

/-- What is seen of a call whose transport failed, and that is not retried as no replica is available.

**Proof sketch.** What needs an argument is that no other replica was available: the second pick saw the
state after the first attempt, which differs from the one before it at the failed replica only. -/
theorem spec_refusedAgain {req : ModelInferRequest} {status : Status} {second : Except Status Resp}
    {d : RouteDecision n} {sched : Scheduler F n} {e : PickError}
    (hprompt : RouterInner.promptHashes deps req = .ok hashes)
    (hpick : inner.scheduler.pick hashes = some (.ok d, sched))
    (hstatus : isTransportFailure status = true)
    (hagain : (failedAt sched d).pick hashes = some (.error e, failedAt sched d)) :
    Spec deps inner req (.error status) second (.error e.status) (failedAt sched d)
      [(d.replica, .error status)] where
  outcomes := by simp
  retry := by simp
  ok_iff := by simp
  application := by
    rintro c status' hc hstatus' happ
    obtain rfl : (d.replica, .error status) = c := by simpa using hc
    obtain rfl : status = status' := by simpa using hstatus'
    simp [hstatus] at happ
  gaveUp := by simp
  refused := by simp
  refusedAgain := by
    rintro hashes' c hprompt' hc -
    obtain rfl : hashes = hashes' := Except.ok.inj (hprompt.symm.trans hprompt')
    obtain rfl := List.singleton_inj.mp hc
    refine ⟨fun r hr => ?_, e, rfl, hagain⟩
    have hnone := (Scheduler.pick_error_inv hagain).2.1 r
    rw [Bool.eq_false_iff] at hnone ⊢
    exact fun hr' => hnone ((availMask_failedAt hpick).mpr ⟨hr, hr'⟩)
  marked := by
    simp only [List.mem_singleton, forall_eq]
    exact fun _ => ⟨isHealthy_of_pick hpick, replicas_failedAt sched d⟩
  others r hr := by
    have hne : d.replica ≠ r := hr _ (List.mem_singleton_self _) ((failed_error_iff _ _).mpr hstatus)
    exact frame_of_replicas_eq (replicas_failedAt_of_ne hpick hne.symm)
  rejected := by simp [hprompt]

/-- What is seen of a call that is made once, and whose transport did not fail. -/
theorem spec_once {req : ModelInferRequest} {first second : Except Status Resp}
    {d : RouteDecision n} {sched : Scheduler F n}
    (hprompt : RouterInner.promptHashes deps req = .ok hashes)
    (hpick : inner.scheduler.pick hashes = some (.ok d, sched))
    (hfirst : ¬ Failed (d.replica, first)) :
    Spec deps inner req first second first (sched.complete d.replica) [(d.replica, first)] where
  outcomes := by simp
  retry := by simp
  ok_iff := by simp
  application := by
    rintro c status hc hstatus -
    obtain rfl : (d.replica, first) = c := by simpa using hc
    exact hstatus
  gaveUp := by simp
  refused := by simp
  refusedAgain := by
    rintro hashes' c - hc hfailed
    obtain rfl := List.singleton_inj.mp hc
    exact absurd hfailed hfirst
  marked c hc hfailed := by
    obtain rfl := List.mem_singleton.mp hc
    exact absurd hfailed hfirst
  others r _ := complete_pick hpick r
  rejected := by simp [hprompt]

/-- What is seen of a call that is not made. -/
theorem spec_never {req : ModelInferRequest} {first second : Except Status Resp} {status : Status}
    (hok : ∀ hashes, RouterInner.promptHashes deps req = .ok hashes → ∃ e : PickError,
      e.status = status ∧ inner.scheduler.pick hashes = some (.error e, inner.scheduler))
    (herr : ∀ status', RouterInner.promptHashes deps req = .error status' → status' = status) :
    Spec deps inner req first second (.error status) inner.scheduler [] where
  outcomes := List.nil_prefix
  retry := by simp
  ok_iff := by simp
  application := by simp
  gaveUp := by simp
  refused hashes hprompt _ := by
    obtain ⟨e, rfl, hpick⟩ := hok hashes hprompt
    exact ⟨e, rfl, hpick⟩
  refusedAgain := by simp
  marked := by simp
  others _ _ := ⟨rfl, rfl⟩
  rejected status' hprompt := ⟨by rw [herr status' hprompt], rfl, rfl⟩

/-- What is seen of a call whose transport failed, and that was made again.

**Proof sketch.** The second pick is for another replica, as the first one is out of routing
(`availMask_failedAt`). A replica that failed was reset when it was marked, and nothing touches it after
that; a replica that did not fail is as before, but for the pick and its completion. -/
theorem spec_twice {req : ModelInferRequest} {status : Status} {second result : Except Status Resp}
    {d d' : RouteDecision n} {sched sched' last : Scheduler F n}
    (hprompt : RouterInner.promptHashes deps req = .ok hashes)
    (hpick : inner.scheduler.pick hashes = some (.ok d, sched))
    (hstatus : isTransportFailure status = true)
    (hagain : (failedAt sched d).pick hashes = some (.ok d', sched'))
    (hresult : ∀ resp, result = .ok resp ↔ second = .ok resp)
    (happ : ∀ status', second = .error status' → isTransportFailure status' = false →
      result = .error status')
    (hgaveUp : ∀ status', second = .error status' → isTransportFailure status' = true →
      result = .error (.unavailable ("all attempts failed: " ++ fmtStatus deps status')))
    (hfailed : Failed (d'.replica, second) → last = failedAt sched' d')
    (hnot : ¬ Failed (d'.replica, second) → last = sched'.complete d'.replica) :
    Spec deps inner req (.error status) second result last
      [(d.replica, .error status), (d'.replica, second)] := by
  obtain ⟨hne, havail⟩ := (availMask_failedAt hpick).mp (Scheduler.availMask_of_pick hagain)
  -- the other replicas are left alone by the second call
  have hother : ∀ r, r ≠ d'.replica → last.replicas r = (failedAt sched d).replicas r := fun r hr => by
    by_cases h : Failed (d'.replica, second)
    · rw [hfailed h]
      exact replicas_failedAt_of_ne hagain hr
    · rw [hnot h]
      exact replicas_complete_of_ne hagain hr
  have hfirst : Failed ((d.replica, .error status) : Fin n × Except Status Resp) :=
    (failed_error_iff _ _).mpr hstatus
  refine ⟨by simp, ?_, by simp [hresult], ?_, ?_, by simp, by simp, ?_, ?_, by simp [hprompt]⟩
  · rintro c c' hc
    obtain ⟨rfl, rfl⟩ : (d.replica, .error status) = c ∧ (d'.replica, second) = c' := by
      simpa using hc
    exact ⟨hfirst, hne, havail⟩
  · rintro c status' hc hsecond hstatus'
    obtain rfl : (d'.replica, second) = c := by simpa using hc
    exact happ status' hsecond hstatus'
  · rintro c c' status' hc hsecond hstatus'
    obtain ⟨-, rfl⟩ : (d.replica, .error status) = c ∧ (d'.replica, second) = c' := by simpa using hc
    exact hgaveUp status' hsecond hstatus'
  · intro c hc h
    rcases List.mem_pair.mp hc with rfl | rfl
    · exact ⟨isHealthy_of_pick hpick, (hother _ hne.symm).trans (replicas_failedAt sched d)⟩
    · exact ⟨(Scheduler.availMask_iff.mp havail).1, by rw [hfailed h]; exact replicas_failedAt _ _⟩
  · intro r hr
    have hrd : r ≠ d.replica := (hr _ (by simp) hfirst).symm
    have hbefore := replicas_failedAt_of_ne hpick hrd
    by_cases h : Failed (d'.replica, second)
    · have hrd' : r ≠ d'.replica := (hr _ (by simp) h).symm
      exact frame_of_replicas_eq ((hother r hrd').trans hbefore)
    · obtain ⟨hhealthy, hinflight⟩ := complete_pick hagain r
      obtain ⟨hhealthy', hinflight'⟩ := frame_of_replicas_eq hbefore
      rw [hnot h, hhealthy, hinflight, hhealthy', hinflight']
      exact ⟨rfl, rfl⟩

/-- What is seen of each of the courses.

**Proof sketch.** By the courses that a call can take: those without a pick, those with one, and those
with two, of which the first one failed (`spec_never`, `spec_once`, `spec_refusedAgain`, `spec_twice`). -/
theorem Outcome.spec {req : ModelInferRequest} {first second result : Except Status Resp}
    {sched : Scheduler F n} (h : Outcome deps inner req first second result sched calls) :
    Spec deps inner req first second result sched calls := by
  cases h with
  | rejected _ _ status hprompt =>
    refine spec_never (fun hashes h => ?_) fun status' h => ?_
    · exact absurd (hprompt.symm.trans h) (by simp)
    · exact Except.error.inj (h.symm.trans hprompt)
  | refused _ _ hashes e hprompt hpick =>
    refine spec_never (fun hashes' h => ?_) fun status' h => ?_
    · obtain rfl : hashes = hashes' := Except.ok.inj (hprompt.symm.trans h)
      exact ⟨e, rfl, hpick⟩
    · exact absurd (hprompt.symm.trans h) (by simp)
  | succeeded resp _ hashes d sched' hprompt hpick =>
    exact spec_once hprompt hpick (not_failed_ok _ _)
  | propagated status _ hashes d sched' hprompt hpick hstatus =>
    exact spec_once hprompt hpick (by simp [hstatus])
  | refusedAgain status _ hashes d sched' e hprompt hpick hstatus hagain =>
    exact spec_refusedAgain hprompt hpick hstatus hagain
  | succeededAgain status resp hashes d d' sched sched' hprompt hpick hstatus hagain =>
    exact spec_twice hprompt hpick hstatus hagain (fun _ => Iff.rfl) (by simp) (by simp)
      (fun h => absurd h (not_failed_ok _ _)) fun _ => rfl
  | propagatedAgain status status' hashes d d' sched sched' hprompt hpick hstatus hagain hstatus' =>
    exact spec_twice hprompt hpick hstatus hagain (fun _ => Iff.rfl) (fun _ h _ => h)
      (by simp [hstatus']) (by simp [hstatus']) fun _ => rfl
  | gaveUp status status' hashes d d' sched sched' hprompt hpick hstatus hagain hstatus' =>
    exact spec_twice hprompt hpick hstatus hagain (by simp) (by simp [hstatus'])
      (by simp) (fun _ => rfl) (by simp [hstatus'])

/-- **A unary call on its own.** For every state of the scheduler under either policy, every request and
every two outcomes of the upstream calls, a call that nothing comes between is answered, and the caller
and the scheduler see of it what they should (`Spec`). -/
theorem spec_modelInfer (deps : Deps) (t : ℕ) (inner : RouterInner F n) (req : ModelInferRequest)
    (first second : Except Status Resp) :
    ∃ result, (modelInfer deps t inner req first second).pc = .done result ∧
      Spec deps inner req first second result
        (modelInfer deps t inner req first second).inner.scheduler
        (modelInfer deps t inner req first second).calls := by
  obtain ⟨result, hdone, houtcome⟩ := outcome_modelInfer deps t inner req first second
  exact ⟨result, hdone, houtcome.spec⟩

end UnaryRun
