import DynamoRouter.Router.Inflight

set_option relaxedAutoImplicit false
set_option autoImplicit false

/-!
# The second attempt of a unary call

A unary call whose replica fails marks the replica unhealthy and picks again. Nothing but the health
of the replica keeps the second pick away from it, and between the two critical sections the prober can
take the replica back into routing, with a result that it gathered before.

## Main definitions

* `System.attempts` — the replicas that a task picked, in order, read off the events.
* `System.FailedStaysOut` — the guard: at a second pick the failed replica is not available.

## Main results

* `UnaryPc.history_of_step` — what a step of a unary call can do to its attempts.
* `System.attempts_nodup` — under the guard no call goes back to the replica that failed it.
-/

open Protocol

/-- The replica of a pick of task `t`. -/
def Event.pickOf {n : ℕ} (t : ℕ) : Event n → Option (Fin n)
  | .picked t' _ d => if t' = t then some d.replica else none
  | _ => none

/-- The replicas that a unary call has picked, as far as its place tells. -/
def UnaryPc.history {n : ℕ} {Resp : Type} : UnaryPc n Resp → Option (List (Fin n))
  | .start _ => some []
  | .picking _ .first => some []
  | .picking _ (.second failed) => some [failed]
  | .gaugePicked _ att d | .upstream _ att d | .completing _ att d _ | .gaugeCompleted _ att d _ _
  | .marking _ att d _ =>
    match att with
    | .first => some [d.replica]
    | .second failed => some [failed, d.replica]
  | .recording _ _ _ _ | .done _ | .dropped => none

/-- The replica that failed a call which is about to pick again. -/
def Handler.retries {n : ℕ} {Resp : Type} : Handler n Resp → Option (Fin n)
  | .unary (.picking _ (.second failed)) => some failed
  | _ => none

/-- Whether a handler is a unary call. -/
def Handler.isUnary {n : ℕ} {Resp : Type} : Handler n Resp → Bool
  | .unary _ => true
  | .stream _ => false

namespace UnaryPc

variable {F : Type} {n : ℕ} {Resp : Type}
variable [Mul F] [Sub F] [LT F] [DecidableLT F] [ScoreArith F]

/-- **What a step of a unary call can do to its attempts**: it picks, or the replicas picked so far
stay. -/
theorem history_of_step {deps : Deps} {inner inner' : RouterInner F n} {t : ℕ}
    {pc pc' : UnaryPc n Resp} {input : Input Resp} {es : List (Event n)}
    (h : pc.step deps inner t input = some (es, inner', pc')) :
    es.filterMap (Event.pickOf t) = [] ∧ (pc'.history = none ∨ pc'.history = pc.history) ∨
    ∃ hashes att d sched, pc = .picking hashes att ∧ input = .tick ∧
      pc' = .gaugePicked hashes att d ∧ es = [.picked t hashes.length d] ∧
      inner.scheduler.pick hashes = some (.ok d, sched) := by
  cases step_inv h with
  | picked hashes att d sched hpick => exact .inr ⟨_, _, _, _, rfl, rfl, rfl, rfl, hpick⟩
  | rejected | droppedEarly | refused | dropped | succeeded | propagated | recorded | served
  | gaveUp => exact .inl ⟨rfl, .inl rfl⟩
  | prepared | called | replied | completed | failed | retried => exact .inl ⟨rfl, .inr rfl⟩

end UnaryPc

namespace System

variable {F : Type} {n : ℕ} {Resp : Type}

/-- The replicas that task `t` picked, in order. -/
def attempts (τ : List (Act n Resp × List (Event n))) (t : ℕ) : List (Fin n) :=
  (τ.flatMap Prod.snd).filterMap (Event.pickOf t)

/-- When a call picks for its second attempt, the replica that failed it is not available. -/
def FailedStaysOut : List (Act n Resp × List (Event n)) → System F n Resp → Act n Resp → Prop :=
  fun _ s act => ∀ t ∈ act.ticked, ∀ failed, s.handlers[t]?.bind Handler.retries = some failed →
    s.sched.availMask failed = false

/-- The guard can be decided. -/
instance (τ : List (Act n Resp × List (Event n))) (s : System F n Resp) (act : Act n Resp) :
    Decidable (FailedStaysOut τ s act) := inferInstanceAs (Decidable (∀ t ∈ act.ticked, _))

/-- One more step of a trace. -/
theorem attempts_snoc (τ : List (Act n Resp × List (Event n))) (act : Act n Resp)
    (es : List (Event n)) (t : ℕ) :
    attempts (τ ++ [(act, es)]) t = attempts τ t ++ es.filterMap (Event.pickOf t) := by
  simp [attempts]

/-- The prober picks nothing. -/
theorem pickOf_probeEvents (t : ℕ) (sched : Scheduler F n) (results : List (Fin n × Bool)) :
    (probeEvents sched results).filterMap (Event.pickOf t) = [] :=
  probe_induction (P := fun es _ => es.filterMap (Event.pickOf t) = [])
    (fun es _ r h => by rw [List.filterMap_append, h]; rfl)
    (fun es _ r h => by rw [List.filterMap_append, h]; rfl) rfl results

section Runs

variable [Mul F] [Sub F] [LT F] [DecidableLT F] [ScoreArith F]

/-- A step of a task picks for no other task. -/
theorem pickOf_move {t t' : ℕ} (hne : t' ≠ t) {sched sched' : Scheduler F n} {h h' : Handler n Resp}
    {input : Input Resp} {es : List (Event n)} (hmove : h.Move t sched input es sched' h') :
    es.filterMap (Event.pickOf t') = [] := by
  cases hmove <;> simp [Event.pickOf, Ne.symm hne]

/-- A step of a unary call is a step of a handler. -/
theorem unary_of_step {deps : Deps} {inner inner' : RouterInner F n} {t : ℕ} {h : Handler n Resp}
    {pc' : UnaryPc n Resp} {input : Input Resp} {es : List (Event n)}
    (hstep : h.step deps inner t input = some (es, inner', .unary pc')) :
    ∃ pc, h = .unary pc ∧ pc.step deps inner t input = some (es, inner', pc') := by
  rcases Handler.step_inv hstep with ⟨pc, pc'', rfl, heq, hpc⟩ | ⟨s, s', -, heq, -⟩
  · cases heq
    exact ⟨pc, rfl, hpc⟩
  · cases heq

/-- A call that arrives has picked nothing. -/
theorem history_of_spawns {act : Act n Resp} {pc : UnaryPc n Resp}
    (hact : act.spawns = some (.unary pc)) : pc.history = some [] := by
  cases act <;> cases hact
  rfl

/-- The attempts of the unary calls: as far as the place of a call tells which replicas it picked, it
picked them; and it picked at most two, and none twice. No call picks before it arrives. -/
structure Attempted (τ : List (Act n Resp × List (Event n))) (s : System F n Resp) : Prop where
  /-- What the place of a call tells. -/
  history : ∀ t pc l, s.handlers[t]? = some (.unary pc) → pc.history = some l → attempts τ t = l
  /-- There are two attempts, and no replica is picked twice. -/
  nodup : ∀ t pc, s.handlers[t]? = some (.unary pc) →
    (attempts τ t).length ≤ 2 ∧ (attempts τ t).Nodup
  /-- A call that has not arrived has not picked. -/
  fresh : ∀ t, s.handlers.length ≤ t → attempts τ t = []

/-- One step of a unary call keeps its attempts apart, if the failed replica stays out of routing until
the second pick: a pick is for an available replica.

**Proof sketch.** A step that is no pick leaves the attempts and what the place of the call tells of them.
A first pick makes a list of one. A second pick is for an available replica, so that it is not for the one
that failed, which stays out. -/
theorem Attempted.step_unary {deps : Deps} {τ : List (Act n Resp × List (Event n))}
    {s : System F n Resp} {inner : RouterInner F n} {t : ℕ} {pc pc' : UnaryPc n Resp}
    {input : Input Resp} {act : Act n Resp} {es : List (Event n)} (h : Attempted τ s)
    (hget : s.handlers[t]? = some (.unary pc))
    (hok : input = .tick → ∀ hashes failed, pc = .picking hashes (.second failed) →
      s.sched.availMask failed = false)
    (hstep : pc.step deps s.inner t input = some (es, inner, pc')) :
    (∀ l, pc'.history = some l → attempts (τ ++ [(act, es)]) t = l) ∧
      (attempts (τ ++ [(act, es)]) t).length ≤ 2 ∧ (attempts (τ ++ [(act, es)]) t).Nodup := by
  rw [attempts_snoc]
  rcases UnaryPc.history_of_step hstep with
    ⟨hes, hhist⟩ | ⟨hashes, att, d, sched, rfl, rfl, rfl, rfl, hpick⟩
  · rw [hes, List.append_nil]
    refine ⟨fun l hl => ?_, h.nodup t pc hget⟩
    rcases hhist with hnone | hsame
    · simp [hnone] at hl
    · exact h.history t pc l hget (hsame.symm.trans hl)
  · have hnew : [Event.picked t hashes.length d].filterMap (Event.pickOf t) = [d.replica] := by
      simp [Event.pickOf]
    rw [hnew]
    cases att with
    | first =>
      rw [h.history t _ [] hget rfl]
      exact ⟨fun l hl => Option.some_inj.mp hl, one_le_two, List.nodup_singleton _⟩
    | second failed =>
      rw [h.history t _ [failed] hget rfl]
      have hne : failed ≠ d.replica := by
        rintro rfl
        have havail := Scheduler.availMask_of_pick hpick
        exact Bool.false_ne_true ((hok rfl hashes d.replica rfl).symm.trans havail)
      exact ⟨fun l hl => Option.some_inj.mp hl, le_rfl, by simpa using hne⟩

/-- **One step keeps the attempts of every call apart**, if the failed replica stays out of routing until
the second pick.

**Proof sketch.** A new call has picked nothing. A step of a task changes the attempts of this task only
(`pickOf_move`), and those of a unary call as in `Attempted.step_unary`. The prober and the gauges pick
nothing. -/
theorem Attempted.step {deps : Deps} {τ : List (Act n Resp × List (Event n))}
    {s s' : System F n Resp} {act : Act n Resp} {es : List (Event n)} (h : Attempted τ s)
    (hok : FailedStaysOut τ s act) (hstep : (lts F n Resp deps).step s act es s') :
    Attempted (τ ++ [(act, es)]) s' := by
  have hquiet : ∀ {t}, es.filterMap (Event.pickOf t) = [] →
      attempts (τ ++ [(act, es)]) t = attempts τ t := fun hes => by
    rw [attempts_snoc, hes, List.append_nil]
  cases step_inv hstep with
  | spawned act hd hact =>
    refine ⟨fun t pc l hpc hl => ?_, fun t pc hpc => ?_, fun t ht => ?_⟩
    · rw [hquiet rfl]
      rcases getElem?_concat_inv hpc with hold | ⟨rfl, rfl⟩
      · exact h.history t pc l hold hl
      · rw [history_of_spawns hact, Option.some_inj] at hl
        exact (h.fresh _ le_rfl).trans hl
    · rw [hquiet rfl]
      rcases getElem?_concat_inv hpc with hold | ⟨rfl, -⟩
      · exact h.nodup t pc hold
      · rw [h.fresh _ le_rfl]
        exact ⟨Nat.zero_le _, List.nodup_nil⟩
    · rw [hquiet rfl]
      refine h.fresh t ?_
      rw [List.length_append] at ht
      omega
  | ran t input es inner hd hd' hget hrun =>
    have hlt : t < s.handlers.length := (List.getElem?_eq_some_iff.mp hget).1
    have hother : ∀ {t'}, t' ≠ t →
        attempts (τ ++ [(.run t input, es)]) t' = attempts τ t' := fun hne =>
      hquiet (pickOf_move hne (Handler.move_of_step hrun))
    have hself : ∀ pc', hd' = .unary pc' →
        (∀ l, pc'.history = some l → attempts (τ ++ [(.run t input, es)]) t = l) ∧
          (attempts (τ ++ [(.run t input, es)]) t).length ≤ 2 ∧
          (attempts (τ ++ [(.run t input, es)]) t).Nodup := by
      rintro pc' rfl
      obtain ⟨pc, rfl, hpc⟩ := unary_of_step hrun
      refine h.step_unary hget (fun hinput hashes failed hat => ?_) hpc
      exact hok t (hinput ▸ rfl) failed (by rw [hget, hat]; rfl)
    refine ⟨fun t' pc l hpc hl => ?_, fun t' pc hpc => ?_, fun t' ht => ?_⟩
    · rcases getElem?_set_inv hget hpc with ⟨rfl, heq⟩ | ⟨hne, hold⟩
      · exact (hself pc heq.symm).1 l hl
      · exact (hother hne).trans (h.history t' pc l hold hl)
    · rcases getElem?_set_inv hget hpc with ⟨rfl, heq⟩ | ⟨hne, hold⟩
      · exact (hself pc heq.symm).2
      · rw [hother hne]
        exact h.nodup t' pc hold
    · rw [List.length_set] at ht
      rw [hother (by omega)]
      exact h.fresh t' ht
  | probed results =>
    have hes := fun t => hquiet (pickOf_probeEvents t s.sched results)
    exact ⟨fun t pc l hpc hl => (hes t).trans (h.history t pc l hpc hl),
      fun t pc hpc => hes t ▸ h.nodup t pc hpc, fun t ht => (hes t).trans (h.fresh t ht)⟩
  | published =>
    exact ⟨fun t pc l hpc hl => (hquiet rfl).trans (h.history t pc l hpc hl),
      fun t pc hpc => hquiet (t := t) rfl ▸ h.nodup t pc hpc,
      fun t ht => (hquiet rfl).trans (h.fresh t ht)⟩

variable {deps : Deps} {policy : Policy} {cfg : SchedulerConfig F}
  {τ : List (Act n Resp × List (Event n))} {s : System F n Resp}

/-- **A call does not go back to the replica that failed it**, in every run in which that replica is
still not available when the call picks again: the replicas that a unary call picks are at most two, and
distinct.

**Proof sketch.** `Attempted` along the run (`Attempted.step`), read at the place of the call. -/
theorem attempts_nodup (h : (lts F n Resp deps).Run FailedStaysOut (new n Resp policy cfg) τ s)
    {t : ℕ} (ht : s.handlers[t]?.any Handler.isUnary = true) :
    (attempts τ t).length ≤ 2 ∧ (attempts τ t).Nodup := by
  have hinv : Attempted τ s := Lts.Run.invariant (I := Attempted) h
    ⟨fun _ _ _ hget => by simp [new] at hget, fun _ _ hget => by simp [new] at hget, fun _ _ => rfl⟩
    fun _ _ _ _ _ hI hok hstep => hI.step hok hstep
  obtain ⟨hd, hget, hunary⟩ := Option.any_eq_true _ _ |>.mp ht
  cases hd with
  | unary pc => exact hinv.nodup t pc hget
  | stream => cases hunary

/-- A run in which a call is retried: its replica fails, and the second attempt goes to the other
one. -/
theorem attempts_nodup_two : ∃ τ s,
    (lts ℚ 2 Unit emptyPromptDeps).Run FailedStaysOut (new 2 Unit .cacheAware capOne) τ s ∧
      attempts τ 0 = [0, 1] ∧ (attempts τ 0).Nodup := by
  have hrun := Lts.run_get (step emptyPromptDeps) (new 2 Unit .cacheAware capOne) FailedStaysOut
    [.spawnUnary emptyPrompt, .run 0 .tick, .run 0 .tick, .run 0 .tick,
      .run 0 (.reply (.error (.unavailable "down"))), .run 0 .tick, .run 0 .tick, .run 0 .tick,
      .run 0 .tick]
    (by decide +kernel)
  exact ⟨_, _, hrun, by decide +kernel, (attempts_nodup hrun (by decide +kernel)).2⟩

/-- **A call goes back to the replica that failed it.** The prober gathered its results before the
replica failed; it takes the replica back into routing between the mark and the second pick, which goes
to the same replica although the other one is available. -/
theorem exists_not_attempts_nodup : ∃ τ s,
    (lts ℚ 2 Unit emptyPromptDeps).Exec (new 2 Unit .cacheAware capOne) τ s ∧
      attempts τ 0 = [0, 0] ∧ s.sched.availMask 1 = true :=
  ⟨_, _, Lts.exec_get (step emptyPromptDeps) _ [.spawnUnary emptyPrompt, .run 0 .tick,
      .run 0 .tick, .run 0 .tick, .run 0 (.reply (.error (.unavailable "down"))), .run 0 .tick,
      .run 0 .tick, .run 0 .tick, .probe [(0, true), (1, true)], .run 0 .tick, .run 0 .tick]
      (by decide +kernel),
    by decide +kernel, by decide +kernel⟩

end Runs

end System
