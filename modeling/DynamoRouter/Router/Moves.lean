import DynamoRouter.Router.Handlers

set_option relaxedAutoImplicit false
set_option autoImplicit false

/-!
# What the handlers do to the scheduler

Of all that a handler does, the scheduler sees its picks, its completions and its marks. A *move* is a
step seen from there, together with the pick that the handler holds before and after it.

## Main definitions

* `Handler.Move` — what a step can do to the scheduler and to the pick of the handler.

## Main results

* `Handler.move_of_step` — every step is a move.
-/

open Protocol

namespace Handler

variable {F : Type} {n : ℕ} {Resp : Type}
variable [Mul F] [Sub F] [LT F] [DecidableLT F] [ScoreArith F]

/-- What a step of task `t` can do to the scheduler and to the pick that the handler holds. -/
inductive Move (t : ℕ) (sched : Scheduler F n) (h : Handler n Resp) :
    Input Resp → List (Event n) → Scheduler F n → Handler n Resp → Prop
  /-- Neither the scheduler nor the pick is touched. -/
  | quiet (input : Input Resp) (h' : Handler n Resp) (hinput : input ≠ .drop)
      (hholds : h'.holds = h.holds) : Move t sched h input [] sched h'
  /-- A pick was refused. -/
  | refused (hashes : List UInt64) (e : PickError) (h' : Handler n Resp)
      (hpick : sched.pick hashes = some (.error e, sched)) (hbefore : h.holds = none)
      (hafter : h'.holds = none) : Move t sched h .tick [.refused t e] sched h'
  /-- A replica was picked. -/
  | picked (hashes : List UInt64) (d : RouteDecision n) (sched' : Scheduler F n)
      (h' : Handler n Resp) (hpick : sched.pick hashes = some (.ok d, sched'))
      (hbefore : h.holds = none) (hafter : h'.holds = some d.replica) :
      Move t sched h .tick [.picked t hashes.length d] sched' h'
  /-- The pick was completed. -/
  | completed (r : Fin n) (h' : Handler n Resp) (hat : h.completes = some r)
      (hbefore : h.holds = some r) (hafter : h'.holds = none) :
      Move t sched h .tick [.completed t r] (sched.complete r) h'
  /-- A replica was taken out of routing. -/
  | marked (r : Fin n) (h' : Handler n Resp) (hholds : h'.holds = h.holds) :
      Move t sched h .tick [.unhealthy r] (sched.markUnhealthy r) h'
  /-- The future was dropped. -/
  | dropped : Move t sched h .drop [] sched (.unary .dropped)

omit [Mul F] [Sub F] [LT F] [DecidableLT F] [ScoreArith F] in
/-- The counters are not the scheduler's. -/
theorem scheduler_record (inner : RouterInner F n) (promptBlocks : ℕ) (d : RouteDecision n)
    (stage : Served) : (stage.record inner promptBlocks d).1.scheduler = inner.scheduler := by
  cases stage <;> rfl

/-- A step of a unary call is a move. -/
theorem move_of_unary_step {deps : Deps} {inner inner' : RouterInner F n} {t : ℕ}
    {pc pc' : UnaryPc n Resp} {input : Input Resp} {es : List (Event n)}
    (h : pc.step deps inner t input = some (es, inner', pc')) :
    Move t inner.scheduler (.unary pc) input es inner'.scheduler (.unary pc') := by
  cases UnaryPc.step_inv h with
  | refused hashes att e hpick => exact .refused _ _ _ hpick rfl rfl
  | picked hashes att d sched hpick => exact .picked _ _ _ _ hpick rfl rfl
  | completed => exact .completed _ _ rfl rfl rfl
  | retried => exact .marked _ _ rfl
  | gaveUp => exact .marked _ _ rfl
  | droppedEarly => exact .dropped
  | dropped => exact .dropped
  | recorded | served =>
    rw [scheduler_record]
    exact .quiet _ _ (by simp) rfl
  | _ => exact .quiet _ _ (by simp) rfl

/-- A step of the task of a client stream is a move. -/
theorem move_of_stream_step {deps : Deps} {inner inner' : RouterInner F n} {t : ℕ}
    {s s' : StreamTask n Resp} {input : Input Resp} {es : List (Event n)}
    (h : s.step deps inner t input = some (es, inner', s')) :
    Move t inner.scheduler (.stream s) input es inner'.scheduler (.stream s') := by
  have heff := StreamTask.step_inv h
  obtain ⟨pc, out, rxOpen⟩ := s
  cases heff with
  | refused hashes e hpick => exact .refused _ _ _ hpick rfl rfl
  | picked hashes d sched hpick => exact .picked _ _ _ _ hpick rfl rfl
  | completed => exact .completed _ _ rfl rfl rfl
  | marked => exact .marked _ _ rfl
  | recorded | called =>
    rw [scheduler_record]
    exact .quiet _ _ (by simp) rfl
  | settled d exit => cases exit <;> exact .quiet _ _ (by simp) rfl
  | _ => exact .quiet _ _ (by simp) rfl

/-- **Every step is a move.** -/
theorem move_of_step {deps : Deps} {inner inner' : RouterInner F n} {t : ℕ}
    {h h' : Handler n Resp} {input : Input Resp} {es : List (Event n)}
    (hstep : h.step deps inner t input = some (es, inner', h')) :
    Move t inner.scheduler h input es inner'.scheduler h' := by
  rcases step_inv hstep with ⟨pc, pc', rfl, rfl, hpc⟩ | ⟨s, s', rfl, rfl, hs⟩
  · exact move_of_unary_step hpc
  · exact move_of_stream_step hs

/-- A step that completes a pick. -/
theorem step_of_completes {deps : Deps} {inner inner' : RouterInner F n} {t : ℕ} {r : Fin n}
    {h h' : Handler n Resp} {es : List (Event n)} (hat : h.completes = some r)
    (hstep : h.step deps inner t .tick = some (es, inner', h')) :
    es = [.completed t r] ∧ inner'.scheduler = inner.scheduler.complete r := by
  cases h with
  | unary pc =>
    cases pc <;> simp only [completes, reduceCtorEq] at hat
    cases hat
    cases hstep
    exact ⟨rfl, rfl⟩
  | stream s =>
    obtain ⟨pc, out, rxOpen⟩ := s
    cases pc <;> simp only [completes, reduceCtorEq] at hat
    cases hat
    cases hstep
    exact ⟨rfl, rfl⟩

/-- A dropped future takes no step. -/
theorem not_dropped_of_step {deps : Deps} {inner : RouterInner F n} {t : ℕ}
    {h : Handler n Resp} {input : Input Resp} {r : List (Event n) × RouterInner F n × Handler n Resp}
    (hstep : h.step deps inner t input = some r) : h ≠ .unary .dropped := by
  rintro rfl
  simp [step, UnaryPc.step] at hstep

end Handler
