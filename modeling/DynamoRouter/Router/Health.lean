import DynamoRouter.Router.Retry

set_option relaxedAutoImplicit false
set_option autoImplicit false

/-!
# Which replicas are in routing, and why (`crates/router/src/server.rs`)

A replica leaves routing when a call to it fails in transport, or a probe finds it dead, and comes back
when a probe finds it live. The handlers and the prober decide this at different times, from what they
heard before; and `server_ready` and `model_metadata` answer from what has become of it.

## Main definitions

* `RouterInner.serverReady`, `RouterInner.modelMetadata` — the two handlers that only read the health.
* `System.inRouting` — what the last mark of a replica says.
* `System.FailedCall`, `System.Evidence` — why a replica is taken out of routing.

## Main results

* `System.ready_of_run` — the answers of `server_ready` and `model_metadata`, and the refused picks.
* `System.evidence_of_run` — no replica is out of routing without evidence.
-/

open Protocol

/-! ## The handlers that read the health -/

namespace RouterInner

variable {F : Type} {n : ℕ}

/-- `server_ready`: whether a replica is healthy. -/
def serverReady (inner : RouterInner F n) : Bool := (List.finRange n).any inner.scheduler.isHealthy

/-- `model_metadata`: the replica that the call is forwarded to. -/
def modelMetadata (inner : RouterInner F n) : Except Status (Fin n) :=
  match (List.finRange n).find? inner.scheduler.isHealthy with
  | none => .error (.unavailable "no healthy replicas")
  | some idx => .ok idx

/-- `server_ready` is `any_healthy`. -/
theorem serverReady_iff {inner : RouterInner F n} :
    inner.serverReady = true ↔ ∃ r, inner.scheduler.isHealthy r = true := by
  simp [serverReady]

/-- The call is forwarded to the first healthy replica. -/
theorem modelMetadata_eq_ok_iff {inner : RouterInner F n} {r : Fin n} :
    inner.modelMetadata = .ok r ↔
      inner.scheduler.isHealthy r = true ∧ ∀ j < r, inner.scheduler.isHealthy j = false := by
  rw [modelMetadata]
  constructor
  · intro h
    split at h
    · cases h
    · rename_i idx hfind
      cases h
      refine ⟨List.find?_some hfind, fun j hj => ?_⟩
      obtain ⟨-, i, hi, hidx, hbefore⟩ := List.find?_eq_some_iff_getElem.mp hfind
      rw [List.getElem_finRange] at hidx
      have hji : (j : ℕ) < i := by
        rw [← hidx] at hj
        exact hj
      simpa using hbefore j hji
  · rintro ⟨hr, hbefore⟩
    have hfind : (List.finRange n).find? inner.scheduler.isHealthy = some r := by
      refine List.find?_eq_some_iff_getElem.mpr ⟨hr, r, by simp, by simp, fun j hj => ?_⟩
      simpa using hbefore ⟨j, hj.trans r.isLt⟩ hj
    rw [hfind]

end RouterInner

/-! ## Marks -/

/-- What a mark of replica `r` says. -/
def Event.markOf {n : ℕ} (r : Fin n) : Event n → Option Bool
  | .healthy r' => if r' = r then some true else none
  | .unhealthy r' => if r' = r then some false else none
  | _ => none

/-- What the last mark of a replica says, if there is one. -/
def lastMark {n : ℕ} (r : Fin n) (es : List (Event n)) : Option Bool :=
  (es.filterMap (Event.markOf r)).getLast?

/-- The last mark of more events. -/
theorem lastMark_append {n : ℕ} (r : Fin n) (es es' : List (Event n)) :
    lastMark r (es ++ es') = (lastMark r es').or (lastMark r es) := by
  rw [lastMark, List.filterMap_append, List.getLast?_append]
  rfl

/-- The last mark of one more event. -/
theorem lastMark_concat {n : ℕ} (r : Fin n) (es : List (Event n)) (e : Event n) :
    lastMark r (es ++ [e]) = (Event.markOf r e).or (lastMark r es) := by
  rw [lastMark_append]
  congr 1
  cases h : Event.markOf r e <;> simp [lastMark, h]

/-- A replica whose last mark takes it out of routing was marked. -/
theorem unhealthy_mem_of_lastMark {n : ℕ} {r : Fin n} {es : List (Event n)}
    (h : lastMark r es = some false) : .unhealthy r ∈ es := by
  obtain ⟨e, hmem, hmark⟩ := List.mem_filterMap.mp (List.mem_of_getLast? h)
  unfold Event.markOf at hmark
  split at hmark
  · split_ifs at hmark
    cases hmark
  · split_ifs at hmark with hr
    exact hr ▸ hmem
  · cases hmark

/-- A replica without a mark is not marked. -/
theorem healthy_notMem_of_lastMark {n : ℕ} {r : Fin n} {es : List (Event n)} (h : lastMark r es = none) :
    .healthy r ∉ es := fun hmem => by
  have hnone := List.filterMap_eq_nil_iff.mp (List.getLast?_eq_none_iff.mp h) _ hmem
  simp [Event.markOf] at hnone

namespace Scheduler

variable {F : Type} {n : ℕ}

/-- Marks make a replica as healthy as the last one says. -/
def Marked (sched : Scheduler F n) (es : List (Event n)) (sched' : Scheduler F n) : Prop :=
  ∀ r, sched'.isHealthy r = (lastMark r es).getD (sched.isHealthy r)

/-- No mark, no change. -/
theorem Marked.refl (sched : Scheduler F n) : Marked sched [] sched := fun _ => rfl

/-- One more mark. -/
theorem Marked.concat {sched s s' : Scheduler F n} {es : List (Event n)} {e : Event n}
    (h : Marked sched es s)
    (hmark : ∀ r, s'.isHealthy r = (Event.markOf r e).getD (s.isHealthy r)) :
    Marked sched (es ++ [e]) s' := fun r => by
  rw [hmark, h r, lastMark_concat]
  cases Event.markOf r e <;> rfl

/-- `mark_healthy` is a mark. -/
theorem isHealthy_markHealthy (s : Scheduler F n) (r i : Fin n) :
    (s.markHealthy r).isHealthy i = (Event.markOf i (.healthy r)).getD (s.isHealthy i) := by
  by_cases hi : r = i
  · subst hi
    simp [isHealthy, markHealthy, setReplica, Event.markOf]
  · simp [isHealthy, markHealthy, setReplica, Event.markOf, hi, Function.update_of_ne (Ne.symm hi)]

/-- `mark_unhealthy` is a mark. -/
theorem isHealthy_markUnhealthy (s : Scheduler F n) (r i : Fin n) :
    (s.markUnhealthy r).isHealthy i = (Event.markOf i (.unhealthy r)).getD (s.isHealthy i) := by
  by_cases hi : r = i
  · subst hi
    simp [isHealthy, markUnhealthy, setReplica, Event.markOf]
  · simp [isHealthy, markUnhealthy, setReplica, Event.markOf, hi,
      Function.update_of_ne (Ne.symm hi)]

end Scheduler

namespace System

variable {F : Type} {n : ℕ} {Resp : Type}

/-- Whether a replica is in routing, as its last mark says; at the start it is. -/
def inRouting (τ : List (Act n Resp × List (Event n))) (r : Fin n) : Bool :=
  (lastMark r (τ.flatMap Prod.snd)).getD true

/-- One more step of a trace. -/
theorem inRouting_snoc (τ : List (Act n Resp × List (Event n))) (act : Act n Resp)
    (es : List (Event n)) (r : Fin n) :
    inRouting (τ ++ [(act, es)]) r = (lastMark r es).getD (inRouting τ r) := by
  rw [inRouting, List.flatMap_append, lastMark_append, inRouting]
  simp only [List.flatMap_singleton]
  cases lastMark r es <;> rfl

/-- The prober takes a replica out of routing only if its probe found it dead. -/
theorem dead_of_unhealthy_mem {sched : Scheduler F n} {results : List (Fin n × Bool)} {r : Fin n}
    (h : .unhealthy r ∈ probeEvents sched results) : (r, false) ∈ results := by
  induction results generalizing sched with
  | nil => cases h
  | cons x results ih =>
    rw [probeEvents, List.mem_append] at h
    rcases h with h | h
    · obtain ⟨i, live⟩ := x
      cases live with
      | true => simp at h
      | false =>
        simp only [Bool.false_eq_true, if_false] at h
        split_ifs at h
        · obtain rfl : r = i := by simpa using h
          exact List.mem_cons_self
        · cases h
    · exact List.mem_cons_of_mem _ (ih h)

section Step

variable [Mul F] [Sub F] [LT F] [DecidableLT F] [ScoreArith F]

/-- **Every step marks what its events say.** -/
theorem marked_of_step {deps : Deps} {s s' : System F n Resp} {act : Act n Resp} {es : List (Event n)}
    (h : (lts F n Resp deps).step s act es s') : s.sched.Marked es s'.sched := by
  cases step_inv h with
  | spawned | published => exact .refl _
  | ran t input es inner hd hd' hget hrun =>
    have hmove := Handler.move_of_step hrun
    show s.inner.scheduler.Marked es inner.scheduler
    generalize inner.scheduler = sched' at hmove
    cases hmove with
    | quiet | dropped => exact .refl _
    | refused => exact fun _ => rfl
    | picked hashes d _ _ hpick =>
      obtain ⟨rr, -, rfl, -⟩ := Scheduler.pick_ok_inv hpick
      exact fun r => s.inner.scheduler.isHealthy_commit hashes d.replica r rr
    | completed r => exact fun i => s.inner.scheduler.isHealthy_complete r i
    | marked r => exact (Scheduler.Marked.refl _).concat (s.inner.scheduler.isHealthy_markUnhealthy r)
  | probed results =>
    exact probe_induction (P := fun es sched => s.sched.Marked es sched)
      (fun es sched r h => h.concat (sched.isHealthy_markHealthy r))
      (fun es sched r h => h.concat (sched.isHealthy_markUnhealthy r)) (.refl _) results

end Step

end System

/-! ## Why a handler marks -/

/-- An input that tells a handler that the transport to its replica failed. Where a stream breaks off in
the middle, the source does not mark. -/
def Input.isFailure {Resp : Type} : Input Resp → Bool
  | .reply (.error status) => isTransportFailure status
  | .opened (.error status) => isTransportFailure status
  | _ => false

namespace Handler

variable {F : Type} {n : ℕ} {Resp : Type}

/-- The replica that a handler is about to mark. -/
def suspects : Handler n Resp → Option (Fin n)
  | .unary (.completing _ _ d (.error status)) =>
    if isTransportFailure status then some d.replica else none
  | .unary (.gaugeCompleted _ _ d (.error status) _) =>
    if isTransportFailure status then some d.replica else none
  | .unary (.marking _ _ d _) => some d.replica
  | .unary _ => none
  | .stream s =>
    match s.pc with
    | .marking d _ => some d.replica
    | _ => none

/-- A new handler holds no pick, and suspects nothing. -/
theorem suspects_of_spawns {act : Act n Resp} {h : Handler n Resp} (hact : act.spawns = some h) :
    h.holds = none ∧ h.suspects = none := by
  cases act <;> cases hact <;> exact ⟨rfl, rfl⟩

variable [Mul F] [Sub F] [LT F] [DecidableLT F] [ScoreArith F]

variable {deps : Deps} {inner inner' : RouterInner F n} {t : ℕ} {h h' : Handler n Resp}
  {input : Input Resp} {es : List (Event n)} {r : Fin n}

/-- A pick that a handler holds after a step, it held before, or it is new. -/
theorem holds_step (hstep : h.step deps inner t input = some (es, inner', h'))
    (hr : h'.holds = some r) :
    h.holds = some r ∧ es.filterMap (Event.pickOf t) = [] ∨ es.filterMap (Event.pickOf t) = [r] := by
  have hmove := move_of_step hstep
  generalize inner'.scheduler = sched' at hmove
  cases hmove with
  | quiet _ _ _ hholds => exact .inl ⟨hholds ▸ hr, rfl⟩
  | picked _ d _ _ _ _ hafter =>
    obtain rfl := Option.some_inj.mp (hafter.symm.trans hr)
    exact .inr (by simp [Event.pickOf])
  | marked _ _ hholds => exact .inl ⟨hholds ▸ hr, rfl⟩
  | refused _ _ _ _ _ hafter => cases hafter.symm.trans hr
  | completed _ _ _ _ hafter => cases hafter.symm.trans hr
  | dropped => cases hr

/-- **A handler comes to suspect a replica** when it hears that the transport to it failed, and goes on to
suspect it until it marks it.

**Proof sketch.** Case split on the effects of a step; only a reply, or a stream that is not opened, leads
to a place at which a replica is suspected. -/
theorem suspects_step (hstep : h.step deps inner t input = some (es, inner', h'))
    (hr : h'.suspects = some r) :
    h.suspects = some r ∧ es.filterMap (Event.pickOf t) = [] ∨
      input.isFailure = true ∧ h.holds = some r ∧ es = [] := by
  rcases step_inv hstep with ⟨pc, pc', rfl, rfl, hpc⟩ | ⟨s, s', rfl, rfl, hs⟩
  · cases UnaryPc.step_inv hpc with
    | replied hashes att d result =>
      cases result with
      | ok => cases hr
      | error status =>
        simp only [suspects] at hr
        split_ifs at hr with hstatus
        exact .inr ⟨hstatus, hr, rfl⟩
    | completed hashes att d result =>
      cases result with
      | ok => cases hr
      | error => exact .inl ⟨hr, rfl⟩
    | failed hashes att d status inflight hstatus =>
      simp only [suspects, if_pos hstatus]
      exact .inl ⟨hr, rfl⟩
    | _ => cases hr
  · have heff := StreamTask.step_inv hs
    obtain ⟨pc, out, rxOpen⟩ := s
    cases heff with
    | disconnected => exact .inl ⟨hr, rfl⟩
    | unreachable d status hstatus => exact .inr ⟨hstatus, hr, rfl⟩
    | settled d exit => cases exit <;> cases hr
    | _ => cases hr

/-- A handler marks the replica that it suspects. -/
theorem suspects_of_mark (hstep : h.step deps inner t input = some (es, inner', h'))
    (hmem : .unhealthy r ∈ es) : input = .tick ∧ h.suspects = some r := by
  rcases step_inv hstep with ⟨pc, pc', rfl, rfl, hpc⟩ | ⟨s, s', rfl, rfl, hs⟩
  · cases UnaryPc.step_inv hpc with
    | retried | gaveUp =>
      obtain rfl : r = _ := by simpa using hmem
      exact ⟨rfl, rfl⟩
    | _ => simp at hmem
  · have heff := StreamTask.step_inv hs
    obtain ⟨pc, out, rxOpen⟩ := s
    cases heff with
    | marked d status =>
      obtain rfl : r = _ := by simpa using hmem
      exact ⟨rfl, rfl⟩
    | _ => simp at hmem

end Handler

/-! ## Evidence -/

namespace System

variable {F : Type} {n : ℕ} {Resp : Type}

/-- **A call of task `t` to replica `r` failed**: `r` is the replica that the task had picked last, when it
heard that the transport failed, and it has picked none since. -/
def FailedCall (τ : List (Act n Resp × List (Event n))) (t : ℕ) (r : Fin n) : Prop :=
  ∃ τ₀ input es τ₁, τ = τ₀ ++ (.run t input, es) :: τ₁ ∧ input.isFailure = true ∧
    (attempts τ₀ t).getLast? = some r ∧ attempts τ₁ t = []

/-- **Why a step takes a replica out of routing**: its probe found it dead, or a task whose call to it
failed marks it. -/
def Evidence (τ : List (Act n Resp × List (Event n))) (act : Act n Resp) (r : Fin n) : Prop :=
  (∃ results, act = .probe results ∧ (r, false) ∈ results) ∨
    ∃ t, act = .run t .tick ∧ FailedCall τ t r

/-- A failed call stays one while its task picks nothing. -/
theorem FailedCall.snoc {τ : List (Act n Resp × List (Event n))} {t : ℕ} {r : Fin n}
    (h : FailedCall τ t r) {es : List (Event n)} (hes : es.filterMap (Event.pickOf t) = [])
    (act : Act n Resp) : FailedCall (τ ++ [(act, es)]) t r := by
  obtain ⟨τ₀, input, es', τ₁, rfl, hinput, hlast, hnone⟩ := h
  refine ⟨τ₀, input, es', τ₁ ++ [(act, es)], by simp, hinput, hlast, ?_⟩
  rw [attempts_snoc, hnone, hes, List.append_nil]

/-- What the handlers hold they picked last, and what they suspect has failed them. -/
structure Traced (τ : List (Act n Resp × List (Event n))) (s : System F n Resp) : Prop where
  /-- The picks that are held. -/
  holds : ∀ t h r, s.handlers[t]? = some h → h.holds = some r → (attempts τ t).getLast? = some r
  /-- The replicas that are suspected. -/
  suspects : ∀ t h r, s.handlers[t]? = some h → h.suspects = some r → FailedCall τ t r

/-- A step that moves no handler and picks nothing leaves them as they are. -/
theorem Traced.of_no_picks {τ : List (Act n Resp × List (Event n))} {s s' : System F n Resp}
    {es : List (Event n)} (h : Traced τ s) (hes : ∀ t, es.filterMap (Event.pickOf t) = [])
    (hhandlers : s'.handlers = s.handlers) (act : Act n Resp) : Traced (τ ++ [(act, es)]) s' := by
  refine ⟨fun t hd r hget hr => ?_, fun t hd r hget hr => ?_⟩
  · rw [hhandlers] at hget
    rw [attempts_snoc, hes, List.append_nil]
    exact h.holds t hd r hget hr
  · rw [hhandlers] at hget
    exact (h.suspects t hd r hget hr).snoc (hes t) act

variable [Mul F] [Sub F] [LT F] [DecidableLT F] [ScoreArith F]

variable {deps : Deps} {policy : Policy} {cfg : SchedulerConfig F}
  {τ : List (Act n Resp × List (Event n))} {s s' : System F n Resp} {act : Act n Resp}
  {es : List (Event n)}

/-- **Every step keeps the trace of what the handlers know.**

**Proof sketch.** A new handler holds no replica and suspects none. A step of a task changes the picks of
this task only, and what it holds or suspects is what it held or suspected, or what it has just picked or
heard to fail (`Handler.holds_step`, `Handler.suspects_step`); the prober and the gauges pick nothing. -/
theorem Traced.step (h : Traced τ s) (hstep : (lts F n Resp deps).step s act es s') :
    Traced (τ ++ [(act, es)]) s' := by
  cases step_inv hstep with
  | spawned act hd hact =>
    have hold : Traced (τ ++ [(act, [])]) s := h.of_no_picks (fun _ => rfl) rfl act
    obtain ⟨hholds, hsuspects⟩ := Handler.suspects_of_spawns hact
    refine ⟨fun t hd' r hget hr => ?_, fun t hd' r hget hr => ?_⟩
    · rcases getElem?_concat_inv hget with hget | ⟨rfl, rfl⟩
      · exact hold.holds t hd' r hget hr
      · cases hholds.symm.trans hr
    · rcases getElem?_concat_inv hget with hget | ⟨rfl, rfl⟩
      · exact hold.suspects t hd' r hget hr
      · cases hsuspects.symm.trans hr
  | ran t input es inner hd hd' hget hrun =>
    have hother : ∀ {i}, i ≠ t → es.filterMap (Event.pickOf i) = [] := fun hne =>
      pickOf_move hne (Handler.move_of_step hrun)
    refine ⟨fun i hd₁ r hi hr => ?_, fun i hd₁ r hi hr => ?_⟩
    · rw [attempts_snoc]
      rcases getElem?_set_inv hget hi with ⟨rfl, rfl⟩ | ⟨hne, hi⟩
      · rcases Handler.holds_step hrun hr with ⟨hr, hes⟩ | hes
        · rw [hes, List.append_nil]
          exact h.holds i hd r hget hr
        · rw [hes, List.getLast?_concat]
      · rw [hother hne, List.append_nil]
        exact h.holds i hd₁ r hi hr
    · rcases getElem?_set_inv hget hi with ⟨rfl, rfl⟩ | ⟨hne, hi⟩
      · rcases Handler.suspects_step hrun hr with ⟨hr, hes⟩ | ⟨hinput, hr, rfl⟩
        · exact (h.suspects i hd r hget hr).snoc hes _
        · exact ⟨τ, input, [], [], rfl, hinput, h.holds i hd r hget hr, rfl⟩
      · exact (h.suspects i hd₁ r hi hr).snoc (hother hne) _
  | probed results =>
    refine h.of_no_picks ?_ ?_ _
    · exact fun t => pickOf_probeEvents t s.sched results
    · rfl
  | published =>
    refine h.of_no_picks ?_ ?_ _
    · exact fun _ => rfl
    · rfl

/-- It is kept in every run. -/
theorem traced_of_run (h : (lts F n Resp deps).Exec (new n Resp policy cfg) τ s) : Traced τ s :=
  Lts.Run.invariant (I := Traced) h
    ⟨fun _ _ _ hget => by simp [new] at hget, fun _ _ _ hget => by simp [new] at hget⟩
    fun _ _ _ _ _ hI _ hstep => hI.step hstep

/-- No step takes a replica out of routing without evidence. -/
theorem Traced.evidence (h : Traced τ s) (hstep : (lts F n Resp deps).step s act es s') {r : Fin n}
    (hmem : .unhealthy r ∈ es) : Evidence τ act r := by
  cases step_inv hstep with
  | spawned | published => cases hmem
  | ran t input es inner hd hd' hget hrun =>
    obtain ⟨rfl, hr⟩ := Handler.suspects_of_mark hrun hmem
    exact .inr ⟨t, rfl, h.suspects t hd r hget hr⟩
  | probed results => exact .inl ⟨results, rfl, dead_of_unhealthy_mem hmem⟩

/-- **No replica is out of routing without evidence.** At every point of every run of the router, however
calls, streams and the prober interleave: if a replica is out of routing, then there is a step that took it
out, after which it was not taken back; and at that step its probe had found it dead, or a task marked it
whose call to it had failed in transport, and which had not picked a replica since.

**Proof sketch.** What a handler is about to mark is the replica that it picked last, of which it heard the
failure (`Traced`). By induction on the run, the last mark of a replica that is out of routing is such a
step. -/
theorem evidence_of_run (h : (lts F n Resp deps).Exec (new n Resp policy cfg) τ s) {r : Fin n}
    (hdown : s.sched.isHealthy r = false) :
    ∃ τ₁ act es τ₂, τ = τ₁ ++ (act, es) :: τ₂ ∧ .unhealthy r ∈ es ∧
      (∀ x ∈ τ₂, .healthy r ∉ x.2) ∧ Evidence τ₁ act r := by
  induction h with
  | nil => cases hdown
  | @snoc τ s s' act es hrun _ hstep ih =>
    have hmark := marked_of_step hstep r
    rw [hdown] at hmark
    rcases hlast : lastMark r es with _ | live
    · rw [hlast] at hmark
      obtain ⟨τ₁, act₁, es₁, τ₂, rfl, hmem, hafter, hevidence⟩ := ih hmark.symm
      refine ⟨τ₁, act₁, es₁, τ₂ ++ [(act, es)], by simp, hmem, fun x hx => ?_, hevidence⟩
      rcases List.mem_append.mp hx with hx | hx
      · exact hafter x hx
      · rw [List.mem_singleton.mp hx]
        exact healthy_notMem_of_lastMark hlast
    · rw [hlast] at hmark
      obtain rfl : live = false := hmark.symm
      have hmem := unhealthy_mem_of_lastMark hlast
      exact ⟨τ, act, es, [], rfl, hmem, fun _ hx => (List.not_mem_nil hx).elim,
        (traced_of_run hrun).evidence hstep hmem⟩

/-! ## What `server_ready` says -/

omit [Mul F] [Sub F] [LT F] [DecidableLT F] [ScoreArith F] in
/-- A pass of the prober refuses nothing. -/
theorem not_refused_probeEvents (sched : Scheduler F n) (results : List (Fin n × Bool)) (t : ℕ)
    (e : PickError) : .refused t e ∉ probeEvents sched results :=
  probe_induction (P := fun es _ => .refused t e ∉ es) (fun es _ r h => by simpa using h)
    (fun es _ r h => by simpa using h) List.not_mem_nil results

/-- A refusal comes from the scheduler. -/
theorem pick_of_refused (hstep : (lts F n Resp deps).step s act es s') {t : ℕ} {e : PickError}
    (hes : .refused t e ∈ es) : ∃ hashes, s.sched.pick hashes = some (.error e, s.sched) := by
  cases step_inv hstep with
  | spawned | published => cases hes
  | ran t input es inner hd hd' hget hrun =>
    have hmove := Handler.move_of_step hrun
    generalize inner.scheduler = sched' at hmove
    cases hmove with
    | refused hashes e' _ hpick =>
      obtain ⟨-, rfl⟩ : _ ∧ e = e' := by simpa using hes
      exact ⟨hashes, hpick⟩
    | _ => simp at hes
  | probed results => exact absurd hes (not_refused_probeEvents _ _ _ _)

/-- A pick comes from the scheduler. -/
theorem pick_of_picked (hstep : (lts F n Resp deps).step s act es s') {t blocks : ℕ}
    {d : RouteDecision n} (hes : .picked t blocks d ∈ es) :
    ∃ hashes sched, s.sched.pick hashes = some (.ok d, sched) := by
  cases step_inv hstep with
  | spawned | published => cases hes
  | ran t input es inner hd hd' hget hrun =>
    have hmove := Handler.move_of_step hrun
    generalize inner.scheduler = sched' at hmove
    cases hmove with
    | picked hashes d' _ _ hpick =>
      obtain ⟨-, -, rfl⟩ : _ ∧ _ ∧ d = d' := by simpa using hes
      exact ⟨hashes, _, hpick⟩
    | _ => simp at hes
  | probed results =>
    have hnone := List.filterMap_eq_nil_iff.mp (pickOf_probeEvents t s.sched results) _ hes
    simp [Event.pickOf] at hnone

/-- A replica is in routing as its last mark says. -/
theorem isHealthy_of_run (h : (lts F n Resp deps).Exec (new n Resp policy cfg) τ s) (r : Fin n) :
    s.sched.isHealthy r = inRouting τ r := by
  induction h with
  | nil => rfl
  | snoc _ _ hstep ih => rw [inRouting_snoc, ← ih, marked_of_step hstep r]

/-- **Readiness is history.** At every point of every run of the router, however calls, streams and the
prober interleave:
* `server_ready` says yes exactly if some replica was never taken out of routing, or was taken back since;
* `model_metadata` goes to the first such replica, and fails if there is none;
* while `server_ready` says no, no pick succeeds, and every pick that is made is refused for want of a
  healthy replica; and a pick is refused for this reason only while `server_ready` says no.

**Proof sketch.** Every step marks what its events say (`marked_of_step`), so a replica is as healthy as
its last mark says; a refused pick says whether a replica is healthy (`Scheduler.pick_error_inv`). -/
theorem ready_of_run (h : (lts F n Resp deps).Exec (new n Resp policy cfg) τ s) :
    (s.inner.serverReady = true ↔ ∃ r, inRouting τ r = true) ∧
      (∀ r, s.inner.modelMetadata = .ok r ↔
        inRouting τ r = true ∧ ∀ j < r, inRouting τ j = false) ∧
      ∀ act es s', (lts F n Resp deps).step s act es s' → ∀ t,
        (.refused t .noHealthyReplicas ∈ es → s.inner.serverReady = false) ∧
        (s.inner.serverReady = false →
          .refused t .allSaturated ∉ es ∧ ∀ blocks d, .picked t blocks d ∉ es) := by
  have hhealthy : ∀ r, s.inner.scheduler.isHealthy r = inRouting τ r := isHealthy_of_run h
  refine ⟨?_, fun r => ?_, fun act es s' hstep t => ⟨fun hes => ?_, fun hnot => ⟨fun hes => ?_, ?_⟩⟩⟩
  · simp only [RouterInner.serverReady_iff, hhealthy]
  · simp only [RouterInner.modelMetadata_eq_ok_iff, hhealthy]
  · obtain ⟨hashes, hpick⟩ := pick_of_refused hstep hes
    have herr := (Scheduler.pick_error_inv hpick).2.2
    split_ifs at herr with hany
    · rw [Bool.eq_false_iff]
      exact fun hready => hany hready
  · obtain ⟨hashes, hpick⟩ := pick_of_refused hstep hes
    have herr := (Scheduler.pick_error_inv hpick).2.2
    split_ifs at herr with hany
    · exact Bool.false_ne_true (hnot.symm.trans hany)
  · intro blocks d hes
    obtain ⟨hashes, sched, hpick⟩ := pick_of_picked hstep hes
    have havail := Scheduler.availMask_iff.mp (Scheduler.availMask_of_pick hpick)
    have hready := RouterInner.serverReady_iff.mpr ⟨d.replica, havail.1⟩
    exact Bool.false_ne_true (hnot.symm.trans hready)

/-- The steps of a call whose replica fails, and is marked. -/
def failingCall : List (Act 2 Unit) :=
  [.spawnUnary emptyPrompt, .run 0 .tick, .run 0 .tick, .run 0 .tick,
    .run 0 (.reply (.error (.unavailable "down"))), .run 0 .tick, .run 0 .tick, .run 0 .tick]

/-- The first replica is out of routing, and the call to it had failed. -/
theorem evidence_of_run_two : ∃ τ s,
    (lts ℚ 2 Unit emptyPromptDeps).Exec (new 2 Unit .cacheAware capOne) τ s ∧
      ∃ τ₁ act es τ₂, τ = τ₁ ++ (act, es) :: τ₂ ∧ .unhealthy (0 : Fin 2) ∈ es ∧
        (∀ x ∈ τ₂, .healthy (0 : Fin 2) ∉ x.2) ∧ Evidence τ₁ act 0 := by
  have hrun := Lts.exec_get (step emptyPromptDeps) (new (F := ℚ) 2 Unit .cacheAware capOne) failingCall
    (by decide +kernel)
  exact ⟨_, _, hrun, evidence_of_run hrun (by decide +kernel)⟩

/-- The prober takes the first replica back, and finds the second one dead; a metadata call goes to the
first one. -/
theorem ready_of_run_two : ∃ τ s,
    (lts ℚ 2 Unit emptyPromptDeps).Exec (new 2 Unit .cacheAware capOne) τ s ∧
      inRouting τ 1 = false ∧ s.inner.serverReady = true ∧ s.inner.modelMetadata = .ok 0 := by
  have hrun := Lts.exec_get (step emptyPromptDeps) (new (F := ℚ) 2 Unit .cacheAware capOne)
    (failingCall ++ [.probe [(1, false), (0, true)]]) (by decide +kernel)
  obtain ⟨hready, hmetadata, -⟩ := ready_of_run hrun
  exact ⟨_, _, hrun, by decide +kernel, hready.mpr ⟨0, by decide +kernel⟩,
    (hmetadata 0).mpr ⟨by decide +kernel, fun j hj => absurd hj (Fin.not_lt_zero j)⟩⟩

end System
