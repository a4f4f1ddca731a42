import DynamoRouter.Router.Moves
import DynamoRouter.Router.SchedulerInvariant

set_option relaxedAutoImplicit false
set_option autoImplicit false

/-!
# The router as a concurrent system

Any number of unary calls and client streams, and the health prober, over the shared state. One step of
the system is one step of a handler or of the prober, or the arrival of a new call; the order is
arbitrary. A pass of the prober gathers its results at any time before it applies them, so they are
arbitrary too.

## Main definitions

* `System` — the shared state, the handlers and the prober; `System.step`, `System.lts`.
* `System.holders` — the number of handlers that hold a pick on a replica.
* `System.Effect` — all that a step can do.

## Main results

* `System.step_inv` — every step has one of the effects.
* `System.inv_of_run` — the scheduler's invariant holds along every run.
* `System.holders_set` — the account of the picks held when one handler steps.
-/

open Protocol

/-- The router: what the handlers share, the handlers in the order of their arrival, and the prober's
count of live replicas while it is not yet published. -/
structure System (F : Type) (n : ℕ) (Resp : Type) where
  /-- The shared state. -/
  inner : RouterInner F n
  /-- The handlers; a task is known by its index. -/
  handlers : List (Handler n Resp)
  /-- The value that the prober is about to publish. -/
  prober : Option ℕ

/-- A step of the system. -/
inductive Act (n : ℕ) (Resp : Type)
  /-- A unary call arrives. -/
  | spawnUnary (req : ModelInferRequest)
  /-- A client opens a stream. -/
  | spawnStream
  /-- The handler of task `t` steps. -/
  | run (t : ℕ) (input : Input Resp)
  /-- The prober applies the results of a pass. -/
  | probe (results : List (Fin n × Bool))
  /-- The prober sets the gauge of healthy replicas. -/
  | publish

/-- The task whose handler takes its own next step. -/
def Act.ticked {n : ℕ} {Resp : Type} : Act n Resp → Option ℕ
  | .run t .tick => some t
  | _ => none

/-- The task whose future is dropped. -/
def Act.dropped {n : ℕ} {Resp : Type} : Act n Resp → Option ℕ
  | .run t .drop => some t
  | _ => none

/-- The handler of a call that arrives. -/
def Act.spawns {n : ℕ} {Resp : Type} : Act n Resp → Option (Handler n Resp)
  | .spawnUnary req => some (.unary (.start req))
  | .spawnStream => some (.stream { pc := .reading, out := [], rxOpen := true })
  | _ => none

/-- A task that ticks, ticks by its own step. -/
theorem Act.eq_of_ticked {n : ℕ} {Resp : Type} {act : Act n Resp} {t : ℕ} (h : t ∈ act.ticked) :
    act = .run t .tick := by
  unfold ticked at h
  split at h
  · cases h
    rfl
  · cases h

/-- A task that is dropped, is dropped by its own step. -/
theorem Act.eq_of_dropped {n : ℕ} {Resp : Type} {act : Act n Resp} {t : ℕ} (h : t ∈ act.dropped) :
    act = .run t .drop := by
  unfold dropped at h
  split at h
  · cases h
    rfl
  · cases h

namespace System

variable {F : Type} {n : ℕ} {Resp : Type}

/-- The scheduler. -/
def sched (s : System F n Resp) : Scheduler F n := s.inner.scheduler

/-- The system at the start. -/
def new (n : ℕ) (Resp : Type) (policy : Policy) (cfg : SchedulerConfig F) : System F n Resp where
  inner := .new n policy cfg
  handlers := []
  prober := none

/-- The marks that a pass of the prober makes. -/
def probeEvents : Scheduler F n → List (Fin n × Bool) → List (Event n)
  | _, [] => []
  | sched, x :: results =>
    (if x.2 then [.healthy x.1] else if sched.isHealthy x.1 then [.unhealthy x.1] else []) ++
      probeEvents (RouterInner.applyProbe (sched, 0) x).1 results

/-- What every mark preserves of the scheduler and of the events so far, a pass of the prober
preserves. -/
theorem probe_induction {P : List (Event n) → Scheduler F n → Prop}
    (hhealthy : ∀ es s r, P es s → P (es ++ [.healthy r]) (s.markHealthy r))
    (hunhealthy : ∀ es s r, P es s → P (es ++ [.unhealthy r]) (s.markUnhealthy r))
    {sched : Scheduler F n} (h0 : P [] sched) (results : List (Fin n × Bool)) :
    P (probeEvents sched results) (RouterInner.applyProbes sched results).1 := by
  have hfold : ∀ (results : List (Fin n × Bool)) (es : List (Event n)) (sched : Scheduler F n)
      (count : ℕ), P es sched →
      P (es ++ probeEvents sched results)
        (results.foldl RouterInner.applyProbe (sched, count)).1 := by
    intro results
    induction results with
    | nil => exact fun es sched count h => by simpa [probeEvents] using h
    | cons x results ih =>
      intro es sched count h
      rw [probeEvents, ← List.append_assoc, List.foldl_cons]
      -- the count does not influence the marks
      simp only [RouterInner.applyProbe]
      split_ifs
      · exact ih _ _ _ (hhealthy es sched x.1 h)
      · exact ih _ _ _ (hunhealthy es sched x.1 h)
      · exact ih _ _ _ (by simpa using h)
  exact hfold results [] sched 0 h0

section Step

variable [Mul F] [Sub F] [LT F] [DecidableLT F] [ScoreArith F]

/-- One step of the system, with the events it causes. -/
def step (deps : Deps) (s : System F n Resp) :
    Act n Resp → Option (List (Event n) × System F n Resp)
  | .spawnUnary req => some ([], { s with handlers := s.handlers ++ [.unary (.start req)] })
  | .spawnStream =>
    some ([], { s with
      handlers := s.handlers ++ [.stream { pc := .reading, out := [], rxOpen := true }] })
  | .run t input =>
    match s.handlers[t]? with
    | none => none
    | some h => (h.step deps s.inner t input).map fun r =>
        (r.1, { s with inner := r.2.1, handlers := s.handlers.set t r.2.2 })
  | .probe results =>
    -- one pass at a time, and one result for each probed replica
    if s.prober = none ∧ (results.map Prod.fst).Nodup then
      let r := RouterInner.applyProbes s.sched results
      some (probeEvents s.sched results,
        { s with inner := { s.inner with scheduler := r.1 }, prober := some r.2 })
    else none
  | .publish =>
    match s.prober with
    | none => none
    | some count => some ([],
        { s with
          inner := { s.inner with metrics := { s.inner.metrics with healthyReplicas := count } }
          prober := none })

/-- The router as a transition system. -/
def lts (F : Type) (n : ℕ) (Resp : Type) [Mul F] [Sub F] [LT F] [DecidableLT F] [ScoreArith F]
    (deps : Deps) : Lts (System F n Resp) (Act n Resp) (List (Event n)) := .ofFun (step deps)

/-- The next state and the events are determined by the state and the action. -/
theorem lts_deterministic (deps : Deps) : (lts F n Resp deps).Deterministic :=
  Lts.ofFun_deterministic _

/-! ## What a step can do -/

/-- All that one step of the system can do. -/
inductive Effect (deps : Deps) (s : System F n Resp) :
    Act n Resp → List (Event n) → System F n Resp → Prop
  /-- A call arrives. -/
  | spawned (act : Act n Resp) (h : Handler n Resp) (hact : act.spawns = some h) :
      Effect deps s act [] { s with handlers := s.handlers ++ [h] }
  /-- A handler steps. -/
  | ran (t : ℕ) (input : Input Resp) (es : List (Event n)) (inner : RouterInner F n)
      (h h' : Handler n Resp) (hget : s.handlers[t]? = some h)
      (hstep : h.step deps s.inner t input = some (es, inner, h')) :
      Effect deps s (.run t input) es
        { s with inner := inner, handlers := s.handlers.set t h' }
  /-- The prober applies a pass. -/
  | probed (results : List (Fin n × Bool)) (hnodup : (results.map Prod.fst).Nodup) :
      Effect deps s (.probe results) (probeEvents s.sched results)
        { s with
          inner := { s.inner with scheduler := (RouterInner.applyProbes s.sched results).1 }
          prober := some (RouterInner.applyProbes s.sched results).2 }
  /-- The prober publishes its count. -/
  | published (count : ℕ) (hcount : s.prober = some count) :
      Effect deps s .publish []
        { s with
          inner := { s.inner with metrics := { s.inner.metrics with healthyReplicas := count } }
          prober := none }

/-- A new handler holds no pick. -/
theorem holds_of_spawns {act : Act n Resp} {h : Handler n Resp} (hact : act.spawns = some h) :
    h.holds = none := by
  cases act <;> cases hact <;> rfl

/-- Every step of the system has one of the effects. -/
theorem step_inv {deps : Deps} {s s' : System F n Resp} {act : Act n Resp} {es : List (Event n)}
    (h : (lts F n Resp deps).step s act es s') : Effect deps s act es s' := by
  rw [lts, Lts.ofFun_step] at h
  cases act with
  | spawnUnary req =>
    cases h
    exact .spawned _ _ rfl
  | spawnStream =>
    cases h
    exact .spawned _ _ rfl
  | run t input =>
    simp only [step] at h
    split at h
    · cases h
    · rename_i hd hget
      obtain ⟨⟨es', inner, h'⟩, hstep, heq⟩ := Option.map_eq_some_iff.mp h
      cases heq
      exact .ran t input _ _ hd h' hget hstep
  | probe results =>
    simp only [step] at h
    split_ifs at h with hok
    cases h
    exact .probed results hok.2
  | publish =>
    simp only [step] at h
    split at h
    · cases h
    · rename_i count hcount
      cases h
      exact .published count hcount

/-! ## The scheduler along a run -/

/-- What the scheduler's own operations preserve, a step of a handler preserves. -/
theorem sched_induction_move {P : Scheduler F n → Prop}
    (hP : ∀ s s' op a, P s → (Scheduler.lts F n).step s op a s' → P s') {t : ℕ}
    {sched sched' : Scheduler F n} {h h' : Handler n Resp} {input : Input Resp}
    {es : List (Event n)} (h0 : P sched) (hmove : h.Move t sched input es sched' h') : P sched' := by
  cases hmove with
  | quiet => exact h0
  | refused => exact h0
  | picked hashes d _ _ hpick =>
    refine hP _ _ (.pick hashes) (some (.ok d)) h0 ?_
    rw [Scheduler.lts, Lts.ofFun_step, Scheduler.step, hpick]
    rfl
  | completed r => exact hP _ _ (.complete r) none h0 rfl
  | marked r => exact hP _ _ (.markUnhealthy r) none h0 rfl
  | dropped => exact h0

/-- What the scheduler's own operations preserve, a step of the system preserves.

**Proof sketch.** By the effects of a step: a task moves the scheduler by one call at most
(`sched_induction_move`), and a pass of the prober by one mark after another. -/
theorem sched_induction {P : Scheduler F n → Prop}
    (hP : ∀ s s' op a, P s → (Scheduler.lts F n).step s op a s' → P s') {deps : Deps}
    {s s' : System F n Resp} {act : Act n Resp} {es : List (Event n)} (h0 : P s.sched)
    (h : (lts F n Resp deps).step s act es s') : P s'.sched := by
  cases step_inv h with
  | spawned => exact h0
  | ran t input es inner hd h' hget hstep =>
    exact sched_induction_move hP h0 (Handler.move_of_step hstep)
  | probed results =>
    exact RouterInner.applyProbes_induction h0 (fun s r hs => hP s _ (.markHealthy r) none hs rfl)
      (fun s r hs => hP s _ (.markUnhealthy r) none hs rfl) results
  | published => exact h0

variable {deps : Deps} {policy : Policy} {cfg : SchedulerConfig F}
  {ok : List (Act n Resp × List (Event n)) → System F n Resp → Act n Resp → Prop}
  {τ : List (Act n Resp × List (Event n))} {s : System F n Resp}

/-- **The scheduler's invariant** holds along every run of the system. -/
theorem inv_of_run (h : (lts F n Resp deps).Run ok (new n Resp policy cfg) τ s) : s.sched.Inv :=
  Lts.Run.invariant (I := fun _ s => s.sched.Inv) h (Scheduler.inv_new n policy cfg)
    fun _ _ _ _ _ hI _ hstep =>
      sched_induction (fun _ _ _ _ hs hop => hs.step hop) hI hstep

/-- The configuration along a run of the system. -/
theorem cfg_of_run (h : (lts F n Resp deps).Run ok (new n Resp policy cfg) τ s) :
    s.sched.cfg = cfg :=
  Lts.Run.invariant (I := fun _ s => s.sched.cfg = cfg) h rfl
    fun _ _ _ _ _ hI _ hstep =>
      sched_induction (fun _ _ _ _ hs hop => (Scheduler.policy_cfg_step hop).2.trans hs) hI hstep

/-- The policy along a run of the system. -/
theorem policy_of_run (h : (lts F n Resp deps).Run ok (new n Resp policy cfg) τ s) :
    s.sched.policy = policy :=
  Lts.Run.invariant (I := fun _ s => s.sched.policy = policy) h rfl
    fun _ _ _ _ _ hI _ hstep =>
      sched_induction (fun _ _ _ _ hs hop => (Scheduler.policy_cfg_step hop).1.trans hs) hI hstep

end Step

/-! ## Picks held -/

/-- The handlers that hold a pick on `r`. -/
def holders (s : System F n Resp) (r : Fin n) : ℕ :=
  s.handlers.countP fun h => decide (h.holds = some r)

/-- The pick that task `t` holds. -/
def holdsAt (s : System F n Resp) (t : ℕ) : Option (Fin n) := s.handlers[t]?.bind Handler.holds

/-- A new handler holds no pick, so the holders stay. -/
theorem holders_spawn (s : System F n Resp) {h : Handler n Resp} (hh : h.holds = none) (r : Fin n) :
    System.holders { s with handlers := s.handlers ++ [h] } r = s.holders r := by
  simp [holders, hh]

/-- The account of the entries that `f` sends to `b`, when one entry of a list changes. -/
theorem countP_eq_some_set {α β : Type} [DecidableEq β] (f : α → Option β) {l : List α} {t : ℕ} {a : α}
    (a' : α) (hget : l[t]? = some a) (b : β) :
    (l.set t a').countP (fun x => decide (f x = some b)) + (if f a = some b then 1 else 0) =
      l.countP (fun x => decide (f x = some b)) + if f a' = some b then 1 else 0 := by
  obtain ⟨ht, rfl⟩ := List.getElem?_eq_some_iff.mp hget
  rw [List.countP_set ht]
  by_cases hold : f l[t] = some b
  · have hpos : 0 < l.countP fun x => decide (f x = some b) :=
      List.countP_pos_iff.mpr ⟨_, List.getElem_mem ht, by simpa using hold⟩
    simp only [hold, decide_true, if_true, decide_eq_true_eq]
    omega
  · simp only [hold, decide_false, Bool.false_eq_true, if_false, decide_eq_true_eq]
    omega

/-- **The account of the picks held** when one handler steps. -/
theorem holders_set {hs : List (Handler n Resp)} {t : ℕ} {h : Handler n Resp} (h' : Handler n Resp)
    (hget : hs[t]? = some h) (r : Fin n) :
    (hs.set t h').countP (fun h => decide (h.holds = some r)) + (if h.holds = some r then 1 else 0) =
      hs.countP (fun h => decide (h.holds = some r)) + if h'.holds = some r then 1 else 0 :=
  countP_eq_some_set Handler.holds h' hget r

/-- An entry of a list that got one more is an old one, or the new one. -/
theorem getElem?_concat_inv {α : Type} {l : List α} {a b : α} {i : ℕ}
    (h : (l ++ [a])[i]? = some b) : l[i]? = some b ∨ i = l.length ∧ b = a := by
  rcases lt_or_ge i l.length with hi | hi
  · rw [List.getElem?_append_left hi] at h
    exact .inl h
  · have hlt := (List.getElem?_eq_some_iff.mp h).1
    rw [List.length_append, List.length_singleton] at hlt
    obtain rfl : i = l.length := by omega
    rw [List.getElem?_concat_length, Option.some_inj] at h
    exact .inr ⟨rfl, h.symm⟩

/-- The pick held at a task, when one handler steps. -/
theorem getElem?_set_handlers {hs : List (Handler n Resp)} {t : ℕ} {h h' : Handler n Resp}
    (hget : hs[t]? = some h) (i : ℕ) : (hs.set t h')[i]? = if i = t then some h' else hs[i]? := by
  obtain ⟨ht, -⟩ := List.getElem?_eq_some_iff.mp hget
  rw [List.getElem?_set]
  by_cases hi : t = i
  · rw [if_pos hi, if_pos hi.symm, if_pos (hi ▸ ht)]
  · rw [if_neg hi, if_neg (Ne.symm hi)]

/-- The handler at a task, after one handler stepped, is the one that stepped or an old one. -/
theorem getElem?_set_inv {hs : List (Handler n Resp)} {t i : ℕ} {h h' x : Handler n Resp}
    (hget : hs[t]? = some h) (hi : (hs.set t h')[i]? = some x) :
    i = t ∧ x = h' ∨ i ≠ t ∧ hs[i]? = some x := by
  rw [getElem?_set_handlers hget] at hi
  split_ifs at hi with hit
  · exact .inl ⟨hit, (Option.some_inj.mp hi).symm⟩
  · exact .inr ⟨hit, hi⟩

/-! ## A request to run -/

/-- A request with an empty prompt. -/
def emptyPrompt : ModelInferRequest where
  inputs := [{ name := "text_input", contents := some { bytesContents := [⟨#[]⟩] } }]

/-- A tokenizer that has no tokens for the empty prompt. -/
def emptyPromptDeps : Deps where
  encode _ := .ok []
  codeText _ := ""

end System
