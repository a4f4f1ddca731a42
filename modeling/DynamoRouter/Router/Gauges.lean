import DynamoRouter.Router.Inflight

set_option relaxedAutoImplicit false
set_option autoImplicit false

/-!
# The in-flight gauges

The gauge of a replica is to show its count of requests in flight. The value is read in the critical
section of `pick` or `complete`, and the gauge is set after the lock is released. A handler that set it
after its pick sets it again after its completion, so what counts is the last value that a completion
publishes: where two handlers leave their critical sections in one order and set the gauge in the
other, the value of the first one stays.

## Main definitions

* `Handler.owes` — the replica whose gauge a handler has yet to set for the last time.
* `System.PublishesFresh` — the guard: a completion publishes the present count, or not as the last one.
* `System.Settled` — where no handler has yet to set it, a gauge shows the count.

## Main results

* `System.gauges_at_rest` — under the guard the gauges are right when all handlers have finished.
* `System.settled_iff` — a run keeps its gauges settled exactly if it meets the guard.
-/

open Protocol

namespace Handler

variable {F : Type} {n : ℕ} {Resp : Type}

/-- The replica whose gauge a handler has yet to set for the last time: from the critical section of
`pick_replica` to the end of `complete`. -/
def owes : Handler n Resp → Option (Fin n)
  | .unary (.gaugeCompleted _ _ d _ _) => some d.replica
  | .stream ⟨.gaugeCompleted d _ _, _, _⟩ => some d.replica
  | h => h.holds

/-- The gauge that the next step of a handler sets at the end of `complete`, and the value. -/
def publishes : Handler n Resp → Option (Fin n × ℕ)
  | .unary (.gaugeCompleted _ _ d _ inflight) => some (d.replica, inflight)
  | .stream ⟨.gaugeCompleted d _ inflight, _, _⟩ => some (d.replica, inflight)
  | _ => none

/-- Whether a handler has finished: answered, or at the end of its stream. -/
def finished : Handler n Resp → Bool
  | .unary (.done _) => true
  | .unary _ => false
  | .stream s =>
    match s.pc with
    | .finished => true
    | _ => false

/-- Who holds a pick, owes a gauge. -/
theorem owes_of_holds {h : Handler n Resp} {r : Fin n} (hholds : h.holds = some r) :
    h.owes = some r := by
  cases h with
  | unary pc => cases pc <;> first | exact hholds | simp [holds] at hholds
  | stream s =>
    obtain ⟨pc, out, rxOpen⟩ := s
    cases pc <;> first | exact hholds | simp [holds] at hholds

/-- Who is about to publish a value, owes it. -/
theorem owes_of_publishes {h : Handler n Resp} {r : Fin n} {v : ℕ}
    (hpub : h.publishes = some (r, v)) : h.owes = some r := by
  cases h with
  | unary pc =>
    cases pc <;> simp only [publishes, reduceCtorEq] at hpub
    cases hpub
    rfl
  | stream s =>
    obtain ⟨pc, out, rxOpen⟩ := s
    cases pc <;> simp only [publishes, reduceCtorEq] at hpub
    cases hpub
    rfl

/-- A handler that has finished owes nothing. -/
theorem owes_of_finished {h : Handler n Resp} (hfin : h.finished = true) : h.owes = none := by
  cases h with
  | unary pc => cases pc <;> first | rfl | simp [finished] at hfin
  | stream s =>
    obtain ⟨pc, out, rxOpen⟩ := s
    cases pc <;> first | rfl | simp [finished] at hfin

/-- A handler that has finished was not dropped. -/
theorem ne_dropped_of_finished {h : Handler n Resp} (hfin : h.finished = true) :
    h ≠ .unary .dropped := by
  rintro rfl
  cases hfin

/-- What a step of a handler can do to the count of `r`, to its gauge, and to the part of the handler in
setting it. -/
inductive Gauged (r : Fin n) (inner : RouterInner F n) (h : Handler n Resp) :
    Input Resp → RouterInner F n → Handler n Resp → Prop
  /-- Nothing. -/
  | untouched (input : Input Resp) (inner' : RouterInner F n) (h' : Handler n Resp)
      (hinput : input ≠ .drop) (hpub : input = .tick → ∀ v, h.publishes ≠ some (r, v))
      (hcount : inner'.scheduler.inflight r = inner.scheduler.inflight r)
      (hgauge : inner'.replicaInflightGauges r = inner.replicaInflightGauges r)
      (howes : h'.owes = some r ↔ h.owes = some r) : Gauged r inner h input inner' h'
  /-- The handler has yet to set the gauge after the step. -/
  | owed (input : Input Resp) (inner' : RouterInner F n) (h' : Handler n Resp)
      (hinput : input ≠ .drop) (hpub : ∀ v, h.publishes ≠ some (r, v)) (howes : h'.owes = some r) :
      Gauged r inner h input inner' h'
  /-- A completion publishes its value. -/
  | published (v : ℕ) (inner' : RouterInner F n) (h' : Handler n Resp)
      (hpub : h.publishes = some (r, v))
      (hcount : inner'.scheduler.inflight r = inner.scheduler.inflight r)
      (hgauge : inner'.replicaInflightGauges r = some v) (howes : h'.owes = none) :
      Gauged r inner h .tick inner' h'
  /-- The replica is taken out of routing. -/
  | reset (inner' : RouterInner F n) (h' : Handler n Resp) (hpub : ∀ v, h.publishes ≠ some (r, v))
      (hcount : inner'.scheduler.inflight r = 0)
      (hgauge : inner'.replicaInflightGauges r = inner.replicaInflightGauges r)
      (howes : h'.owes = some r ↔ h.owes = some r) : Gauged r inner h .tick inner' h'
  /-- The future is dropped. -/
  | dropped : Gauged r inner h .drop inner (.unary .dropped)

variable {r : Fin n} {inner : RouterInner F n} {h h' : Handler n Resp}

/-- A step that only changes the place of the handler. -/
theorem gauged_quiet {input : Input Resp} (hinput : input ≠ .drop) (hpub : h.publishes = none)
    (howes : h'.owes = h.owes) : Gauged r inner h input inner h' :=
  .untouched _ _ _ hinput (by simp [hpub]) rfl rfl (by rw [howes])

/-- A gauge that is set after a pick. -/
theorem gauged_setGauge {i : Fin n} {v : ℕ} (hpub : h.publishes = none) (hbefore : h.owes = some i)
    (hafter : h'.owes = some i) : Gauged r inner h .tick (inner.setGauge i v) h' := by
  by_cases hr : r = i
  · exact .owed _ _ _ (by simp) (by simp [hpub]) (hr ▸ hafter)
  · refine .untouched _ _ _ (by simp) (by simp [hpub]) rfl (Function.update_of_ne hr _ _) ?_
    rw [hbefore, hafter]

/-- The critical section of a completion. -/
theorem gauged_complete {i : Fin n} (hpub : h.publishes = none) (hbefore : h.owes = some i)
    (hafter : h'.owes = some i) : Gauged r inner h .tick (inner.complete i).2 h' := by
  by_cases hr : r = i
  · exact .owed _ _ _ (by simp) (by simp [hpub]) (hr ▸ hafter)
  · refine .untouched _ _ _ (by simp) (by simp [hpub]) ?_ rfl ?_
    · exact (Scheduler.inflight_complete _ _ _).trans (if_neg hr)
    · rw [hbefore, hafter]

/-- A gauge that is set after a completion. -/
theorem gauged_publish {i : Fin n} {v : ℕ} (hpub : h.publishes = some (i, v))
    (hafter : h'.owes = none) : Gauged r inner h .tick (inner.setGauge i v) h' := by
  by_cases hr : r = i
  · subst hr
    exact .published v _ _ hpub rfl (Function.update_self _ _ _) hafter
  · refine .untouched _ _ _ (by simp) (by simp [hpub, Ne.symm hr]) rfl
      (Function.update_of_ne hr _ _) ?_
    simp [owes_of_publishes hpub, hafter, Ne.symm hr]

/-- A mark. -/
theorem gauged_mark {i : Fin n} (hpub : h.publishes = none) (howes : h'.owes = h.owes) :
    Gauged r inner h .tick (inner.markUnhealthy i) h' := by
  have hcount := Scheduler.inflight_markUnhealthy inner.scheduler i r
  by_cases hr : r = i
  · rw [if_pos hr] at hcount
    exact .reset _ _ (by simp [hpub]) hcount rfl (by rw [howes])
  · rw [if_neg hr] at hcount
    exact .untouched _ _ _ (by simp) (by simp [hpub]) hcount rfl (by rw [howes])

/-- A counter. -/
theorem gauged_record {hashes : List UInt64} {d : RouteDecision n} {stage : Served}
    (hpub : h.publishes = none) (howes : h'.owes = h.owes) :
    Gauged r inner h .tick (stage.record inner hashes.length d).1 h' := by
  cases stage <;> exact .untouched _ _ _ (by simp) (by simp [hpub]) rfl rfl (by rw [howes])

section Step

variable [Mul F] [Sub F] [LT F] [DecidableLT F] [ScoreArith F]

/-- A pick. -/
theorem gauged_pick {hashes : List UInt64} {d : RouteDecision n} {sched : Scheduler F n}
    (hpick : inner.scheduler.pick hashes = some (.ok d, sched)) (hpub : h.publishes = none)
    (hbefore : h.owes = none) (hafter : h'.owes = some d.replica) :
    Gauged r inner h .tick { inner with scheduler := sched } h' := by
  by_cases hr : r = d.replica
  · exact .owed _ _ _ (by simp) (by simp [hpub]) (hr ▸ hafter)
  · refine .untouched _ _ _ (by simp) (by simp [hpub]) ?_ rfl ?_
    · rw [Scheduler.inflight_pick hpick, if_neg hr]
    · simp [hbefore, hafter, Ne.symm hr]

/-- What a step of a unary call can do to a gauge. -/
theorem gauged_of_unary_step {deps : Deps} {inner' : RouterInner F n} {t : ℕ}
    {pc pc' : UnaryPc n Resp} {input : Input Resp} {es : List (Event n)}
    (h : pc.step deps inner t input = some (es, inner', pc')) :
    Gauged r inner (.unary pc) input inner' (.unary pc') := by
  cases UnaryPc.step_inv h with
  | droppedEarly | dropped => exact .dropped
  | picked hashes att d sched hpick => exact gauged_pick hpick rfl rfl rfl
  | called => exact gauged_setGauge rfl rfl rfl
  | completed => exact gauged_complete rfl rfl rfl
  | succeeded | failed | propagated => exact gauged_publish rfl rfl
  | retried | gaveUp => exact gauged_mark rfl rfl
  | recorded | served => exact gauged_record rfl rfl
  | rejected | prepared | refused | replied => exact gauged_quiet (by simp) rfl rfl

/-- What a step of the task of a client stream can do to a gauge. -/
theorem gauged_of_stream_step {deps : Deps} {inner' : RouterInner F n} {t : ℕ}
    {s s' : StreamTask n Resp} {input : Input Resp} {es : List (Event n)}
    (h : s.step deps inner t input = some (es, inner', s')) :
    Gauged r inner (.stream s) input inner' (.stream s') := by
  have heff := StreamTask.step_inv h
  obtain ⟨pc, out, rxOpen⟩ := s
  cases heff with
  | picked hashes d sched hpick => exact gauged_pick hpick rfl rfl rfl
  | routed => exact gauged_setGauge rfl rfl rfl
  | completed => exact gauged_complete rfl rfl rfl
  | settled d exit => cases exit <;> exact gauged_publish rfl rfl
  | marked => exact gauged_mark rfl rfl
  | recorded | called => exact gauged_record rfl rfl
  | disconnected =>
    cases pc <;> exact .untouched _ _ _ (by simp) (by simp) rfl rfl Iff.rfl
  | _ => exact gauged_quiet (by simp) rfl rfl

/-- **What a step can do to a gauge.** -/
theorem gauged_of_step {deps : Deps} {inner' : RouterInner F n} {t : ℕ} {input : Input Resp}
    {es : List (Event n)} (hstep : h.step deps inner t input = some (es, inner', h')) :
    Gauged r inner h input inner' h' := by
  rcases step_inv hstep with ⟨pc, pc', rfl, rfl, hpc⟩ | ⟨s, s', rfl, rfl, hs⟩
  · exact gauged_of_unary_step hpc
  · exact gauged_of_stream_step hs

/-- A step drops a future exactly if the future is dropped. -/
theorem dropped_iff_of_step {deps : Deps} {inner' : RouterInner F n} {t : ℕ} {input : Input Resp}
    {es : List (Event n)} (hstep : h.step deps inner t input = some (es, inner', h')) :
    h' = .unary .dropped ↔ input = .drop := by
  rcases step_inv hstep with ⟨pc, pc', rfl, rfl, hpc⟩ | ⟨s, s', rfl, rfl, hs⟩
  · cases UnaryPc.step_inv hpc <;> simp
  · have heff := StreamTask.step_inv hs
    obtain ⟨pc, out, rxOpen⟩ := s
    cases heff <;> simp

end Step

end Handler

namespace System

variable {F : Type} {n : ℕ} {Resp : Type}

/-- The handlers that have yet to set the gauge of `r` for the last time. -/
def owers (s : System F n Resp) (r : Fin n) : ℕ :=
  s.handlers.countP fun h => decide (h.owes = some r)

/-- A gauge that no handler has yet to set shows the count of its replica. -/
def Settled (s : System F n Resp) : Prop :=
  ∀ r, s.owers r = 0 → ∀ v ∈ s.inner.replicaInflightGauges r, v = s.sched.inflight r

/-- No future was dropped. -/
def Undropped (s : System F n Resp) : Prop := ∀ i : ℕ, s.handlers[i]? ≠ some (.unary .dropped)

/-- A completion publishes the present count of its replica, unless another handler has yet to set the
gauge. -/
def PublishesFresh : List (Act n Resp × List (Event n)) → System F n Resp → Act n Resp → Prop :=
  fun _ s act => ∀ t ∈ act.ticked, ∀ x ∈ s.handlers[t]?.bind Handler.publishes,
    x.2 = s.sched.inflight x.1 ∨ 1 < s.owers x.1

/-- The guard can be decided. -/
instance (τ : List (Act n Resp × List (Event n))) (s : System F n Resp) (act : Act n Resp) :
    Decidable (PublishesFresh τ s act) := inferInstanceAs (Decidable (∀ t ∈ act.ticked, _))

/-- Every pick that is held has its gauge to be set. -/
theorem holders_le_owers (s : System F n Resp) (r : Fin n) : s.holders r ≤ s.owers r := by
  refine List.countP_mono_left fun h _ hholds => ?_
  exact decide_eq_true (Handler.owes_of_holds (of_decide_eq_true hholds))

/-- Where nobody has yet to set the gauge, nothing is in flight. -/
theorem NoLeak.inflight_eq_zero {s : System F n Resp} (h : s.NoLeak) {r : Fin n}
    (hr : s.owers r = 0) : s.sched.inflight r = 0 :=
  Nat.le_zero.mp (hr ▸ (h r).trans (s.holders_le_owers r))

/-- If all handlers have finished, then no gauge has yet to be set. -/
theorem owers_of_finished {s : System F n Resp} (hfin : ∀ h ∈ s.handlers, h.finished = true)
    (r : Fin n) : s.owers r = 0 := by
  rw [owers, List.countP_eq_zero]
  intro h hh
  rw [Handler.owes_of_finished (hfin h hh)]
  simp

/-- If all handlers have finished, then none was dropped. -/
theorem undropped_of_finished {s : System F n Resp}
    (hfin : ∀ h ∈ s.handlers, h.finished = true) : s.Undropped := fun _ hget =>
  Handler.ne_dropped_of_finished (hfin _ (List.mem_of_getElem? hget)) rfl

section Runs

variable [Mul F] [Sub F] [LT F] [DecidableLT F] [ScoreArith F]

/-- No future was dropped exactly if none was before the step, and the step drops none.

**Proof sketch.** No call arrives dropped, only a step with this input drops one, and a dropped call takes
no further step. -/
theorem undropped_step_iff {deps : Deps} {s s' : System F n Resp} {act : Act n Resp}
    {es : List (Event n)} (hstep : (lts F n Resp deps).step s act es s') :
    s'.Undropped ↔ s.Undropped ∧ act.dropped = none := by
  cases step_inv hstep with
  | spawned act hd hact =>
    obtain ⟨hnew, hact⟩ : hd ≠ .unary .dropped ∧ act.dropped = none := by
      cases act <;> cases hact <;> exact ⟨by simp, rfl⟩
    rw [and_iff_left hact]
    refine ⟨fun h i hi => h i ?_, fun h i hi => ?_⟩
    · exact (List.getElem?_append_left (List.getElem?_eq_some_iff.mp hi).1).trans hi
    · rcases getElem?_concat_inv hi with hold | ⟨-, heq⟩
      · exact h i hold
      · exact hnew heq.symm
  | ran t input es inner hd hd' hget hrun =>
    have hself := Handler.dropped_iff_of_step hrun
    simp only [Undropped, getElem?_set_handlers hget]
    refine ⟨fun h => ⟨fun i hi => ?_, ?_⟩, fun ⟨h, hact⟩ i hi => ?_⟩
    · by_cases hit : i = t
      · subst hit
        exact Handler.not_dropped_of_step hrun (Option.some_inj.mp (hget.symm.trans hi))
      · exact h i ((if_neg hit).trans hi)
    · have hnot := h t
      rw [if_pos rfl, ne_eq, Option.some_inj, hself] at hnot
      cases input <;> first | rfl | exact absurd rfl hnot
    · split_ifs at hi with hit
      · rw [Option.some_inj, hself] at hi
        subst hi
        cases hact
      · exact h i hi
  | probed => exact (and_iff_left (a := s.Undropped) rfl).symm
  | published => exact (and_iff_left (a := s.Undropped) rfl).symm

/-- **One step keeps the gauges settled**, if a completion that publishes last publishes the present
count.

**Proof sketch.** A pick makes its handler one that has yet to set the gauge, and it remains one up to
the end of its completion. Where there is none, nothing is in flight, so that a mark changes no count. -/
theorem Settled.step {deps : Deps} {τ : List (Act n Resp × List (Event n))} {s s' : System F n Resp}
    {act : Act n Resp} {es : List (Event n)} (h : s.Settled) (hleak : s.NoLeak)
    (hdrop : act.dropped = none) (hok : PublishesFresh τ s act)
    (hstep : (lts F n Resp deps).step s act es s') : s'.Settled := by
  intro r hzero v hv
  cases step_inv hstep with
  | spawned act hd hact =>
    have howes : hd.owes = none := by
      cases act <;> cases hact <;> rfl
    rw [owers, List.countP_append, List.countP_singleton, howes] at hzero
    exact h r hzero v hv
  | ran t input es inner hd hd' hget hrun =>
    have hset := countP_eq_some_set Handler.owes hd' hget r
    simp only [owers] at hzero
    rw [hzero] at hset
    simp only [sched]
    cases Handler.gauged_of_step (r := r) hrun with
    | untouched _ _ _ _ _ hcount hgauge howes =>
      rw [if_congr howes rfl rfl] at hset
      rw [hcount]
      exact h r (Nat.add_right_cancel hset).symm v (hgauge ▸ hv)
    | owed _ _ _ _ _ howes =>
      have hmem : (s.handlers.set t hd')[t]? = some hd' := by
        rw [getElem?_set_handlers hget, if_pos rfl]
      exact absurd (decide_eq_true howes)
        (List.countP_eq_zero.mp hzero hd' (List.mem_of_getElem? hmem))
    | published w _ _ hpub hcount hgauge howes =>
      rw [if_pos (Handler.owes_of_publishes hpub), if_neg (by simp [howes])] at hset
      obtain rfl : w = v := Option.some_inj.mp (hgauge.symm.trans hv)
      rw [hcount]
      refine (hok t rfl (r, w) (by rw [hget]; exact hpub)).resolve_right ?_
      simp only [owers]
      omega
    | reset _ _ _ hcount hgauge howes =>
      rw [if_congr howes rfl rfl] at hset
      have hnone : s.owers r = 0 := (Nat.add_right_cancel hset).symm
      rw [hcount, ← hleak.inflight_eq_zero hnone]
      exact h r hnone v (hgauge ▸ hv)
    | dropped => cases hdrop
  | probed results =>
    have hkept : (RouterInner.applyProbes s.sched results).1.inflight r = 0 :=
      RouterInner.applyProbes_induction (P := fun sc => sc.inflight r = 0)
        (hleak.inflight_eq_zero hzero)
        (fun sc i hsc => (Scheduler.inflight_markHealthy sc i r).trans hsc)
        (fun sc i hsc => by
          rw [Scheduler.inflight_markUnhealthy, hsc]
          exact ite_self 0) results
    exact (h r hzero v hv).trans ((hleak.inflight_eq_zero hzero).trans hkept.symm)
  | published => exact h r hzero v hv

variable {deps : Deps} {policy : Policy} {cfg : SchedulerConfig F}
  {τ : List (Act n Resp × List (Event n))} {s : System F n Resp}

/-- The gauges along a run, up to the first future that is dropped. -/
theorem settled_of_run (h : (lts F n Resp deps).Run PublishesFresh (new n Resp policy cfg) τ s) :
    s.Undropped → s.NoLeak ∧ s.Settled := by
  refine Lts.Run.invariant (I := fun _ s => s.Undropped → s.NoLeak ∧ s.Settled) h
    (fun _ => ⟨fun _ => Nat.zero_le _, fun _ _ _ hv => by cases hv⟩)
    fun τ s act es s' hI hok hstep hundropped => ?_
  obtain ⟨hbefore, hdrop⟩ := (undropped_step_iff hstep).mp hundropped
  obtain ⟨hleak, hsettled⟩ := hI hbefore
  refine ⟨hleak.step (fun t ht => ?_) hstep, hsettled.step hleak hdrop hok hstep⟩
  exact absurd (hdrop ▸ ht) (Option.not_mem_none t)

/-- **The gauges are right at rest**, in every run whose completions publish the present count or not as
the last ones: when all handlers have finished, each gauge that was ever set shows the count of its
replica. -/
theorem gauges_at_rest (h : (lts F n Resp deps).Run PublishesFresh (new n Resp policy cfg) τ s)
    (hfin : ∀ h ∈ s.handlers, h.finished = true) (r : Fin n) :
    ∀ v ∈ s.inner.replicaInflightGauges r, v = s.sched.inflight r :=
  (settled_of_run h (undropped_of_finished hfin)).2 r (owers_of_finished hfin r)

/-- A configuration with a cap of two requests in flight. -/
def capTwo : SchedulerConfig ℚ := { capOne with maxInflight := 2 }

/-- Two calls at one replica: the second one completes while the first one has yet to publish, which it
does first. -/
theorem gauges_at_rest_two : ∃ τ s,
    (lts ℚ 1 Unit emptyPromptDeps).Run PublishesFresh (new 1 Unit .cacheAware capTwo) τ s ∧
      s.handlers.length = 2 ∧ s.inner.replicaInflightGauges 0 = some 0 ∧
      ∀ v ∈ s.inner.replicaInflightGauges 0, v = s.sched.inflight 0 := by
  have hrun := Lts.run_get (step emptyPromptDeps) (new 1 Unit .cacheAware capTwo) PublishesFresh
    [.spawnUnary emptyPrompt, .spawnUnary emptyPrompt, .run 0 .tick, .run 0 .tick, .run 0 .tick,
      .run 1 .tick, .run 1 .tick, .run 1 .tick, .run 0 (.reply (.ok ())), .run 1 (.reply (.ok ())),
      .run 0 .tick, .run 1 .tick, .run 0 .tick, .run 1 .tick, .run 0 .tick, .run 0 .tick,
      .run 0 .tick, .run 1 .tick, .run 1 .tick, .run 1 .tick]
    (by decide +kernel)
  exact ⟨_, _, hrun, by decide +kernel, by decide +kernel,
    gauges_at_rest hrun (by decide +kernel) 0⟩

/-- **A stale gauge.** Of two calls at one replica the first one completes and reads the count `1`, the
second one completes, reads `0` and publishes it; then the first one publishes. Both are answered, and
the gauge of the idle replica shows a request in flight. -/
theorem exists_stale_gauge : ∃ τ s,
    (lts ℚ 1 Unit emptyPromptDeps).Exec (new 1 Unit .cacheAware capTwo) τ s ∧
      (∀ h ∈ s.handlers, h.finished = true) ∧ s.inner.replicaInflightGauges 0 = some 1 ∧
      s.sched.inflight 0 = 0 :=
  ⟨_, _, Lts.exec_get (step emptyPromptDeps) _ [.spawnUnary emptyPrompt, .spawnUnary emptyPrompt,
      .run 0 .tick, .run 0 .tick, .run 0 .tick, .run 1 .tick, .run 1 .tick, .run 1 .tick,
      .run 0 (.reply (.ok ())), .run 1 (.reply (.ok ())), .run 0 .tick, .run 1 .tick, .run 1 .tick,
      .run 0 .tick, .run 0 .tick, .run 0 .tick, .run 0 .tick, .run 1 .tick, .run 1 .tick,
      .run 1 .tick] (by decide +kernel),
    by decide +kernel, by decide +kernel, by decide +kernel⟩

/-- **When the gauges are settled.** A run drops no future and keeps every gauge settled at every point
exactly if it drops no future and its completions publish the present count or not as the last ones.

**Proof sketch.** `Lts.Run.forall_isPrefix_iff`: a value that is not the present count, published by the
only handler that has yet to set the gauge, stays. -/
theorem settled_iff (h : (lts F n Resp deps).Exec (new n Resp policy cfg) τ s) :
    (∀ τ₁ s₁, τ₁ <+: τ → (lts F n Resp deps).Exec (new n Resp policy cfg) τ₁ s₁ →
      s₁.Undropped ∧ s₁.Settled) ↔
      (lts F n Resp deps).Run (fun τ s act => NoDrops τ s act ∧ PublishesFresh τ s act)
        (new n Resp policy cfg) τ s := by
  refine Lts.Run.forall_isPrefix_iff (lts_deterministic deps) (fun _ s => s.Undropped ∧ s.Settled)
    (fun {τ s} hrun => ?_) (fun {τ s act es s'} hrun hstep hbreach ⟨hundropped, hsettled⟩ => ?_) h
  · have hundropped : s.Undropped :=
      Lts.Run.invariant (I := fun _ s => s.Undropped) hrun (fun i => by simp [new])
        fun _ _ _ _ _ hI hok hstep => (undropped_step_iff hstep).mpr ⟨hI, hok.1⟩
    exact ⟨hundropped, (settled_of_run (hrun.mono fun _ _ _ hok => hok.2) hundropped).2⟩
  · obtain ⟨-, hdrop⟩ := (undropped_step_iff hstep).mp hundropped
    obtain ⟨t, ht, ⟨r, v⟩, hat, hne, hlast⟩ : ∃ t ∈ act.ticked,
        ∃ x ∈ s.handlers[t]?.bind Handler.publishes, ¬ x.2 = s.sched.inflight x.1 ∧
          ¬ 1 < s.owers x.1 := by
      have hstale : ¬ PublishesFresh τ s act := fun hok => hbreach ⟨hdrop, hok⟩
      simpa only [PublishesFresh, not_forall, not_or, exists_prop] using hstale
    obtain rfl := Act.eq_of_ticked ht
    cases step_inv hstep with
    | spawned _ _ hact => cases hact
    | ran _ _ es inner hd hd' hget hrun' =>
      rw [hget, Option.bind_some] at hat
      have hset := countP_eq_some_set Handler.owes hd' hget r
      rw [if_pos (Handler.owes_of_publishes hat)] at hset
      cases Handler.gauged_of_step (r := r) hrun' with
      | untouched _ _ _ _ hpub => exact hpub rfl v hat
      | owed _ _ _ _ hpub => exact hpub v hat
      | reset _ _ hpub => exact hpub v hat
      | published w _ _ hpub hcount hgauge howes =>
        obtain ⟨-, rfl⟩ := Prod.mk.inj (Option.some_inj.mp (hpub.symm.trans hat))
        rw [if_neg (by simp [howes])] at hset
        refine hne ((hsettled r ?_ w hgauge).trans hcount)
        simp only [owers] at hlast ⊢
        omega

end Runs

end System
