import Mathlib.Algebra.BigOperators.Group.Finset.Basic
import Mathlib.Algebra.Order.BigOperators.Group.Finset
import DynamoRouter.Router.Retry

set_option relaxedAutoImplicit false
set_option autoImplicit false

/-!
# The per-request counters

`requests_total`, `matched_blocks_total` and `prompt_blocks_total` count requests, not attempts. They are
incremented one after the other in `record_served`, by a unary call once its last attempt succeeded, and
by the task of a client stream as soon as `pick_replica` returned a decision for a message. Until the
increments of a request are done, the counters disagree about it.

## Main definitions

* `System.decisions` — the decisions made for a task, each with the number of blocks of its prompt.
* `Handler.answered`, `Handler.messages` — of these, the decisions that served a request.
* `Handler.counted` — of these, the decisions that one of the counters has taken in.

## Main results

* `Handler.tallied_of_step` — what a step of a handler can do to the counters.
* `System.counters_exact` — outside of `record_served` the counters add up the decisions that served.
-/

open Protocol

/-- The decision of a pick of task `t`, with the number of blocks of the prompt. -/
def Event.decisionOf {n : ℕ} (t : ℕ) : Event n → Option (ℕ × RouteDecision n)
  | .picked t' promptBlocks d => if t' = t then some (promptBlocks, d) else none
  | _ => none

namespace Served

/-- What a decision adds to a counter. -/
def weight {n : ℕ} : Served → ℕ × RouteDecision n → ℕ
  | .requests, _ => 1
  | .matched, x => x.2.matchedBlocks
  | .prompt, x => x.1

end Served

/-- The counter that a stage of `record_served` increments. -/
def Metrics.counter (m : Metrics) : Served → ℕ
  | .requests => m.requestsTotal
  | .matched => m.matchedBlocksTotal
  | .prompt => m.promptBlocksTotal

/-- A stage of `record_served` adds to its own counter. -/
theorem counter_record {F : Type} {n : ℕ} (inner : RouterInner F n) (x : ℕ × RouteDecision n)
    (c stage : Served) : (stage.record inner x.1 x.2).1.metrics.counter c =
      inner.metrics.counter c + if c = stage then c.weight x else 0 := by
  cases stage <;> cases c <;> rfl

namespace Handler

variable {F : Type} {n : ℕ} {Resp : Type}

/-! ## What was counted of a handler -/

/-- Whether a handler is in `record_served`. -/
def records : Handler n Resp → Bool
  | .unary (.recording _ _ _ _) => true
  | .unary _ => false
  | .stream s =>
    match s.pc with
    | .recording _ _ _ => true
    | _ => false

/-- Whether a unary call was answered with a response. -/
def answeredOk : Handler n Resp → Bool
  | .unary (.done (.ok _)) => true
  | _ => false

/-- Of the decisions made for a unary call, the one that served it: the last one, once the call was
answered with a response. -/
def answered : Handler n Resp → List (ℕ × RouteDecision n) → List (ℕ × RouteDecision n)
  | .unary (.done (.ok _)), picks => picks.getLast?.toList
  | _, _ => []

/-- Of the decisions made for a client stream, those that `pick_replica` returned. -/
def messages : Handler n Resp → List (ℕ × RouteDecision n) → List (ℕ × RouteDecision n)
  | .unary _, _ => []
  | .stream s, picks =>
    match s.pc with
    -- the critical section is over, and `pick_replica` is about to return
    | .gaugePicked _ _ => picks.dropLast
    | _ => picks

/-- The decision that a handler is at, as long as it may still be recorded. -/
def current : Handler n Resp → Option (ℕ × RouteDecision n)
  | .unary (.gaugePicked hashes _ d) => some (hashes.length, d)
  | .unary (.upstream hashes _ d) => some (hashes.length, d)
  | .unary (.completing hashes _ d _) => some (hashes.length, d)
  | .unary (.gaugeCompleted hashes _ d _ _) => some (hashes.length, d)
  | .unary (.recording hashes d _ _) => some (hashes.length, d)
  | .unary _ => none
  | .stream s =>
    match s.pc with
    | .gaugePicked hashes d => some (hashes.length, d)
    | .recording hashes d _ => some (hashes.length, d)
    | _ => none

/-- Of the decisions made for a handler, those that counter `c` has taken in. -/
def counted (c : Served) : Handler n Resp → List (ℕ × RouteDecision n) → List (ℕ × RouteDecision n)
  | .unary (.recording _ _ _ stage), picks => if c.before stage then picks.getLast?.toList else []
  | .unary (.done (.ok _)), picks => picks.getLast?.toList
  | .unary _, _ => []
  | .stream s, picks =>
    match s.pc with
    | .gaugePicked _ _ => picks.dropLast
    | .recording _ _ stage => if c.before stage then picks else picks.dropLast
    | _ => picks

/-- Outside of `record_served` every counter has taken in the decisions that served. -/
theorem counted_of_not_records {h : Handler n Resp} (hrec : h.records = false) (c : Served)
    (picks : List (ℕ × RouteDecision n)) :
    h.counted c picks = h.answered picks ++ h.messages picks := by
  cases h with
  | unary pc =>
    cases pc with
    | recording => simp [records] at hrec
    | done result => cases result <;> simp [counted, answered, messages]
    | _ => rfl
  | stream s =>
    obtain ⟨pc, out, rxOpen⟩ := s
    cases pc <;> first | rfl | simp [records] at hrec

/-- A unary call that was answered with a response, and was routed, was served by one decision. -/
theorem length_answered {h : Handler n Resp} {picks : List (ℕ × RouteDecision n)}
    (hrouted : h.answeredOk = true → picks ≠ []) :
    (h.answered picks).length = if h.answeredOk then 1 else 0 := by
  cases h with
  | unary pc =>
    cases pc with
    | done result =>
      cases result with
      | error status => rfl
      | ok resp =>
        rcases picks.eq_nil_or_concat' with rfl | ⟨l, x, rfl⟩
        · exact absurd rfl (hrouted rfl)
        · simp [answered, answeredOk]
    | _ => rfl
  | stream s => rfl

/-- The decisions that served are among those made. -/
theorem mem_of_served {h : Handler n Resp} {picks : List (ℕ × RouteDecision n)}
    {x : ℕ × RouteDecision n} (hx : x ∈ h.answered picks ++ h.messages picks) : x ∈ picks := by
  cases h with
  | unary pc =>
    cases pc with
    | done result =>
      cases result with
      | error status => simp [answered, messages] at hx
      | ok resp =>
        simp only [answered, messages, List.append_nil, Option.mem_toList] at hx
        exact List.mem_of_getLast? hx
    | _ => simp [answered, messages] at hx
  | stream s =>
    obtain ⟨pc, out, rxOpen⟩ := s
    cases pc <;> first | exact hx | exact List.mem_of_mem_dropLast hx

/-- What a handler adds to a counter. -/
def tally (c : Served) (h : Handler n Resp) (picks : List (ℕ × RouteDecision n)) : ℕ :=
  ((h.counted c picks).map c.weight).sum

/-- What a step of task `t` can do to the counters and to the decisions that they have taken in. -/
inductive Tallied (t : ℕ) (inner : RouterInner F n) (h : Handler n Resp) :
    List (Event n) → RouterInner F n → Handler n Resp → Prop
  /-- Nothing. -/
  | quiet (es : List (Event n)) (inner' : RouterInner F n) (h' : Handler n Resp)
      (hes : es.filterMap (Event.decisionOf t) = []) (hmetrics : inner'.metrics = inner.metrics)
      (hcounted : ∀ c picks, h'.counted c picks = h.counted c picks)
      (hcurrent : h'.current = none ∨ h'.current = h.current)
      (hanswered : h'.answeredOk = false) : Tallied t inner h es inner' h'
  /-- A decision was made, and no counter has taken it in. -/
  | picked (x : ℕ × RouteDecision n) (inner' : RouterInner F n) (h' : Handler n Resp)
      (hle : x.2.matchedBlocks ≤ x.1) (hmetrics : inner'.metrics = inner.metrics)
      (hcounted : ∀ c picks, h'.counted c (picks ++ [x]) = h.counted c picks)
      (hcurrent : h'.current = some x) : Tallied t inner h [.picked t x.1 x.2] inner' h'
  /-- One of the counters took in the decision that the handler is at. -/
  | recorded (stage : Served) (x : ℕ × RouteDecision n) (h' : Handler n Resp)
      (hat : h.current = some x) (hcurrent : h'.current = none ∨ h'.current = h.current)
      (htally : ∀ c picks, h'.tally c (picks ++ [x]) =
        h.tally c (picks ++ [x]) + if c = stage then c.weight x else 0) :
      Tallied t inner h [] (stage.record inner x.1 x.2).1 h'

section Step

variable [Mul F] [Sub F] [LT F] [DecidableLT F] [ScoreArith F]

/-- What a step of a unary call can do to the counters. -/
theorem tallied_of_unary_step {deps : Deps} {inner inner' : RouterInner F n} {t : ℕ}
    {pc pc' : UnaryPc n Resp} {input : Input Resp} {es : List (Event n)}
    (h : pc.step deps inner t input = some (es, inner', pc')) :
    Tallied t inner (.unary pc) es inner' (.unary pc') := by
  cases UnaryPc.step_inv h with
  | picked hashes att d sched hpick =>
    exact .picked (hashes.length, d) _ _ (Scheduler.matchedBlocks_le_of_pick hpick) rfl
      (fun _ _ => rfl) rfl
  | recorded hashes d resp stage stage' hstage =>
    refine .recorded stage (hashes.length, d) _ rfl (.inr rfl) fun c picks => ?_
    cases stage <;> cases hstage <;> cases c <;> simp [tally, counted, Served.before]
  | served hashes d resp stage hstage =>
    refine .recorded stage (hashes.length, d) _ rfl (.inl rfl) fun c picks => ?_
    cases stage <;> cases hstage
    cases c <;> simp [tally, counted, Served.before]
  | rejected | prepared | droppedEarly | refused | dropped | failed | propagated | retried | gaveUp =>
    exact .quiet _ _ _ rfl rfl (fun _ _ => rfl) (.inl rfl) rfl
  | called | replied | completed =>
    exact .quiet _ _ _ rfl rfl (fun _ _ => rfl) (.inr rfl) rfl
  | succeeded =>
    -- no counter was incremented before the first stage
    exact .quiet _ _ _ rfl rfl (fun c _ => by cases c <;> rfl) (.inr rfl) rfl

/-- What a step of the task of a client stream can do to the counters. -/
theorem tallied_of_stream_step {deps : Deps} {inner inner' : RouterInner F n} {t : ℕ}
    {s s' : StreamTask n Resp} {input : Input Resp} {es : List (Event n)}
    (h : s.step deps inner t input = some (es, inner', s')) :
    Tallied t inner (.stream s) es inner' (.stream s') := by
  have heff := StreamTask.step_inv h
  obtain ⟨pc, out, rxOpen⟩ := s
  cases heff with
  | picked hashes d sched hpick =>
    refine .picked (hashes.length, d) _ _ (Scheduler.matchedBlocks_le_of_pick hpick) rfl
      (fun _ picks => ?_) rfl
    exact List.dropLast_concat
  | routed =>
    exact .quiet _ _ _ rfl rfl (fun c _ => by cases c <;> rfl) (.inr rfl) rfl
  | recorded hashes d stage stage' hstage =>
    refine .recorded stage (hashes.length, d) _ rfl (.inr rfl) fun c picks => ?_
    cases stage <;> cases hstage <;> cases c <;>
      simp [tally, counted, StreamTask.goto, Served.before]
  | called hashes d stage hstage =>
    refine .recorded stage (hashes.length, d) _ rfl (.inl rfl) fun c picks => ?_
    cases stage <;> cases hstage
    cases c <;> simp [tally, counted, StreamTask.goto, Served.before]
  | disconnected =>
    exact .quiet _ _ _ rfl rfl (fun _ _ => rfl) (.inr rfl) rfl
  | settled d exit =>
    cases exit <;> exact .quiet _ _ _ rfl rfl (fun _ _ => rfl) (.inl rfl) rfl
  | _ => exact .quiet _ _ _ rfl rfl (fun _ _ => rfl) (.inl rfl) rfl

/-- **What a step of a handler can do to the counters.** -/
theorem tallied_of_step {deps : Deps} {inner inner' : RouterInner F n} {t : ℕ}
    {h h' : Handler n Resp} {input : Input Resp} {es : List (Event n)}
    (hstep : h.step deps inner t input = some (es, inner', h')) : Tallied t inner h es inner' h' := by
  rcases step_inv hstep with ⟨pc, pc', rfl, rfl, hpc⟩ | ⟨s, s', rfl, rfl, hs⟩
  · exact tallied_of_unary_step hpc
  · exact tallied_of_stream_step hs

end Step

end Handler

namespace System

variable {F : Type} {n : ℕ} {Resp : Type}

/-! ## Sums over the tasks -/

/-- The sum over the entries of a list of what `f` answers for the entry and its index. -/
def sumOver {α : Type} (l : List α) (f : ℕ → α → ℕ) : ℕ :=
  ∑ i ∈ Finset.range l.length, l[i]?.elim 0 (f i)

/-- The sum after one more entry. -/
theorem sumOver_snoc {α : Type} {l : List α} {a : α} {f g : ℕ → α → ℕ}
    (hf : ∀ i < l.length, g i = f i) :
    sumOver (l ++ [a]) g = sumOver l f + g l.length a := by
  rw [sumOver, List.length_append, List.length_singleton, Finset.sum_range_succ,
    List.getElem?_concat_length]
  refine congrArg (· + g l.length a) (Finset.sum_congr rfl fun i hi => ?_)
  have hlt := Finset.mem_range.mp hi
  rw [List.getElem?_append_left hlt, hf i hlt]

/-- The sum after one entry changed. -/
theorem sumOver_set {α : Type} {l : List α} {t : ℕ} {a : α} (a' : α) {f g : ℕ → α → ℕ}
    (hget : l[t]? = some a) (hf : ∀ i, i ≠ t → g i = f i) :
    sumOver (l.set t a') g + f t a = sumOver l f + g t a' := by
  obtain ⟨ht, -⟩ := List.getElem?_eq_some_iff.mp hget
  have hmem := Finset.mem_range.mpr ht
  rw [sumOver, sumOver, List.length_set, ← Finset.sum_erase_add _ _ hmem,
    ← Finset.sum_erase_add _ (fun i => l[i]?.elim 0 (f i)) hmem, List.getElem?_set_self ht, hget]
  have hrest : ∑ i ∈ (Finset.range l.length).erase t, (l.set t a')[i]?.elim 0 (g i) =
      ∑ i ∈ (Finset.range l.length).erase t, l[i]?.elim 0 (f i) := by
    refine Finset.sum_congr rfl fun i hi => ?_
    have hne := Finset.ne_of_mem_erase hi
    rw [List.getElem?_set_ne hne.symm, hf i hne]
  rw [hrest, Option.elim_some, Option.elim_some]
  omega

/-- Counting is a sum. -/
theorem countP_eq_sumOver {α : Type} (p : α → Bool) (l : List α) :
    l.countP p = sumOver l fun _ a => if p a then 1 else 0 := by
  induction l using List.reverseRecOn with
  | nil => rfl
  | append_singleton l a ih =>
    rw [List.countP_append, ih, List.countP_singleton, sumOver_snoc fun _ _ => rfl]

/-! ## The decisions made for a task -/

/-- The decisions made for task `t`, in order, each with the number of blocks of its prompt. -/
def decisions (τ : List (Act n Resp × List (Event n))) (t : ℕ) : List (ℕ × RouteDecision n) :=
  (τ.flatMap Prod.snd).filterMap (Event.decisionOf t)

/-- One more step of a trace. -/
theorem decisions_snoc (τ : List (Act n Resp × List (Event n))) (act : Act n Resp)
    (es : List (Event n)) (t : ℕ) :
    decisions (τ ++ [(act, es)]) t = decisions τ t ++ es.filterMap (Event.decisionOf t) := by
  simp [decisions]

/-- Events that pick nothing for a task make no decision for it. -/
theorem filterMap_decisionOf_eq_nil {es : List (Event n)} {t : ℕ}
    (h : es.filterMap (Event.pickOf t) = []) : es.filterMap (Event.decisionOf t) = [] := by
  rw [List.filterMap_eq_nil_iff] at h ⊢
  intro e he
  have := h e he
  cases e <;> simp_all [Event.pickOf, Event.decisionOf]

/-- Events that make no decision for any task have nothing of what is read off picks. -/
theorem filterMap_pick_eq_nil {β : Type} {es : List (Event n)} {f : Event n → Option β}
    (hf : ∀ e x, f e = some x → ∃ t promptBlocks d, e = .picked t promptBlocks d)
    (h : ∀ i, es.filterMap (Event.decisionOf i) = []) : es.filterMap f = [] := by
  rw [List.filterMap_eq_nil_iff]
  intro e he
  cases hx : f e with
  | none => rfl
  | some x =>
    obtain ⟨t, promptBlocks, d, rfl⟩ := hf e x hx
    have hnone := List.filterMap_eq_nil_iff.mp (h t) _ he
    rw [Event.decisionOf, if_pos rfl] at hnone
    cases hnone

/-- Of the decisions made for task `t`, the one that served it, if it is a unary call that was answered
with a response. -/
def answeredAt (τ : List (Act n Resp × List (Event n))) (s : System F n Resp) (t : ℕ) :
    List (ℕ × RouteDecision n) := s.handlers[t]?.elim [] fun h => h.answered (decisions τ t)

/-- Of the decisions made for task `t`, those for the messages of a client stream. -/
def messagesAt (τ : List (Act n Resp × List (Event n))) (s : System F n Resp) (t : ℕ) :
    List (ℕ × RouteDecision n) := s.handlers[t]?.elim [] fun h => h.messages (decisions τ t)

/-- The decisions that served are among those made. -/
theorem mem_decisions_of_served {τ : List (Act n Resp × List (Event n))} {s : System F n Resp}
    {t : ℕ} {x : ℕ × RouteDecision n} (hx : x ∈ answeredAt τ s t ++ messagesAt τ s t) :
    x ∈ decisions τ t := by
  rw [answeredAt, messagesAt] at hx
  cases hget : s.handlers[t]? with
  | none => simp [hget] at hx
  | some h =>
    rw [hget] at hx
    exact Handler.mem_of_served hx

/-- The account of the counters. -/
structure Tallies (τ : List (Act n Resp × List (Event n))) (s : System F n Resp) : Prop where
  /-- A counter holds what it has taken in. -/
  counter : ∀ c : Served, s.inner.metrics.counter c =
    sumOver s.handlers fun t h => h.tally c (decisions τ t)
  /-- The decision that a handler is at is the last one made for it. -/
  current : ∀ t h x, s.handlers[t]? = some h → h.current = some x →
    ∃ picks, decisions τ t = picks ++ [x]
  /-- A call that was answered with a response was routed. -/
  routed : ∀ t h, s.handlers[t]? = some h → h.answeredOk = true → decisions τ t ≠ []
  /-- A decision reports no more blocks than the prompt has. -/
  le : ∀ t, ∀ x ∈ decisions τ t, x.2.matchedBlocks ≤ x.1
  /-- No decision is made for a task that has not arrived. -/
  fresh : ∀ t, s.handlers.length ≤ t → decisions τ t = []

/-- A step that makes no decision, and touches neither the counters nor the handlers, keeps the
account. -/
theorem Tallies.quiet {τ : List (Act n Resp × List (Event n))} {s s' : System F n Resp}
    {act : Act n Resp} {es : List (Event n)} (h : Tallies τ s)
    (hes : ∀ t, es.filterMap (Event.decisionOf t) = [])
    (hcounter : ∀ c, s'.inner.metrics.counter c = s.inner.metrics.counter c)
    (hhandlers : s'.handlers = s.handlers) : Tallies (τ ++ [(act, es)]) s' := by
  have hsame : decisions (τ ++ [(act, es)]) = decisions τ := by
    funext t
    rw [decisions_snoc, hes, List.append_nil]
  refine ⟨fun c => ?_, ?_, ?_, ?_, ?_⟩
  · rw [hcounter, hhandlers, hsame]
    exact h.counter c
  · rw [hhandlers, hsame]
    exact h.current
  · rw [hhandlers, hsame]
    exact h.routed
  · rw [hsame]
    exact h.le
  · rw [hhandlers, hsame]
    exact h.fresh

/-- The arrival of a call keeps the account.

**Proof sketch.** A new task has made no decision, has none under way, and has told nothing to its client;
for the tasks that were there before nothing has changed. -/
theorem Tallies.spawn {τ : List (Act n Resp × List (Event n))} {s : System F n Resp}
    {act : Act n Resp} {hd : Handler n Resp} (h : Tallies τ s) (hact : act.spawns = some hd) :
    Tallies (τ ++ [(act, [])]) { s with handlers := s.handlers ++ [hd] } := by
  have hsame : decisions (τ ++ [(act, [])]) = decisions τ := by
    funext t
    rw [decisions_snoc, List.filterMap_nil, List.append_nil]
  obtain ⟨htally, hcurrent, hanswered⟩ : (∀ c : Served, hd.tally c [] = 0) ∧ hd.current = none ∧
      hd.answeredOk = false := by
    cases act <;> cases hact <;> exact ⟨fun _ => rfl, rfl, rfl⟩
  refine ⟨fun c => ?_, fun t h' x hget hx => ?_, fun t h' hget hok => ?_, ?_, fun t ht => ?_⟩
  · simp only [hsame]
    rw [sumOver_snoc fun _ _ => rfl, h.fresh _ le_rfl, htally, Nat.add_zero]
    exact h.counter c
  · rw [hsame]
    rcases getElem?_concat_inv hget with hold | ⟨-, rfl⟩
    · exact h.current t h' x hold hx
    · rw [hcurrent] at hx
      cases hx
  · rw [hsame]
    rcases getElem?_concat_inv hget with hold | ⟨-, rfl⟩
    · exact h.routed t h' hold hok
    · rw [hanswered] at hok
      cases hok
  · rw [hsame]
    exact h.le
  · rw [hsame]
    rw [List.length_append] at ht
    exact h.fresh t (by omega)

/-- The account of the handler that steps.

**Proof sketch.** A decision is first taken in by no counter; then each counter takes it in once, as it
is still the last one. -/
theorem Tallies.self {τ : List (Act n Resp × List (Event n))} {s : System F n Resp}
    {inner : RouterInner F n} {t : ℕ} {hd hd' : Handler n Resp} {es : List (Event n)}
    (h : Tallies τ s) (hget : s.handlers[t]? = some hd)
    (hstep : hd.Tallied t s.inner es inner hd') {picks : List (ℕ × RouteDecision n)}
    (hpicks : decisions τ t ++ es.filterMap (Event.decisionOf t) = picks) :
    (∀ c : Served, inner.metrics.counter c + hd.tally c (decisions τ t) =
      s.inner.metrics.counter c + hd'.tally c picks) ∧
    (∀ x, hd'.current = some x → ∃ l, picks = l ++ [x]) ∧
    (hd'.answeredOk = true → picks ≠ []) ∧ ∀ x ∈ picks, x.2.matchedBlocks ≤ x.1 := by
  cases hstep with
  | quiet _ _ _ hes hmetrics hcounted hcurrent hanswered =>
    rw [hes, List.append_nil] at hpicks
    subst hpicks
    refine ⟨fun c => ?_, fun x hx => ?_, fun hok => ?_, h.le t⟩
    · rw [hmetrics, Handler.tally, Handler.tally, hcounted]
    · rcases hcurrent with hnone | hsame
      · rw [hnone] at hx
        cases hx
      · exact h.current t hd x hget (hsame.symm.trans hx)
    · rw [hanswered] at hok
      cases hok
  | picked x _ _ hle hmetrics hcounted hcurrent =>
    have hes : [Event.picked t x.1 x.2].filterMap (Event.decisionOf t) = [x] := by
      simp [Event.decisionOf]
    rw [hes] at hpicks
    subst hpicks
    refine ⟨fun c => ?_, fun y hy => ?_, fun _ => by simp, fun y hy => ?_⟩
    · rw [hmetrics, Handler.tally, Handler.tally, hcounted]
    · obtain rfl := Option.some_inj.mp (hcurrent.symm.trans hy)
      exact ⟨_, rfl⟩
    · rcases List.mem_append.mp hy with hold | hnew
      · exact h.le t y hold
      · obtain rfl := List.mem_singleton.mp hnew
        exact hle
  | recorded stage x _ hat hcurrent htally =>
    rw [List.filterMap_nil, List.append_nil] at hpicks
    obtain ⟨l, hl⟩ := h.current t hd x hget hat
    subst hpicks
    refine ⟨fun c => ?_, fun y hy => ?_, fun _ => by simp [hl], h.le t⟩
    · rw [counter_record, hl, htally]
      omega
    · rcases hcurrent with hnone | hsame
      · rw [hnone] at hy
        cases hy
      · exact h.current t hd y hget (hsame.symm.trans hy)

/-- Outside of `record_served` a counter adds up the decisions that served. -/
theorem Tallies.counter_eq {τ : List (Act n Resp × List (Event n))} {s : System F n Resp}
    (h : Tallies τ s) (hrec : ∀ h ∈ s.handlers, h.records = false) (c : Served) :
    s.inner.metrics.counter c = ∑ t ∈ Finset.range s.handlers.length,
      ((answeredAt τ s t ++ messagesAt τ s t).map c.weight).sum := by
  rw [h.counter c, sumOver]
  refine Finset.sum_congr rfl fun t ht => ?_
  have hget := List.getElem?_eq_getElem (Finset.mem_range.mp ht)
  rw [answeredAt, messagesAt, hget, Option.elim_some, Option.elim_some, Option.elim_some,
    Handler.tally, Handler.counted_of_not_records (hrec _ (List.mem_of_getElem? hget))]

/-- Each unary call that was answered with a response was served by one decision. -/
theorem Tallies.sum_answeredAt {τ : List (Act n Resp × List (Event n))} {s : System F n Resp}
    (h : Tallies τ s) : ∑ t ∈ Finset.range s.handlers.length, (answeredAt τ s t).length =
      s.handlers.countP Handler.answeredOk := by
  rw [countP_eq_sumOver, sumOver]
  refine Finset.sum_congr rfl fun t ht => ?_
  have hget := List.getElem?_eq_getElem (Finset.mem_range.mp ht)
  rw [answeredAt, hget, Option.elim_some, Option.elim_some]
  exact Handler.length_answered (h.routed t _ hget)

section Runs

variable [Mul F] [Sub F] [LT F] [DecidableLT F] [ScoreArith F]

/-- A step of a task makes no decision for another one. -/
theorem decisionOf_move {t t' : ℕ} (hne : t' ≠ t) {sched sched' : Scheduler F n}
    {h h' : Handler n Resp} {input : Input Resp} {es : List (Event n)}
    (hmove : h.Move t sched input es sched' h') : es.filterMap (Event.decisionOf t') = [] :=
  filterMap_decisionOf_eq_nil (pickOf_move hne hmove)

/-- The step of a handler keeps the account.

**Proof sketch.** The handler that steps keeps its own account (`Tallies.self`); the others make no
decision, so that theirs is as before, and a counter gains what the one handler's account gains. -/
theorem Tallies.ran {τ : List (Act n Resp × List (Event n))} {s : System F n Resp}
    {deps : Deps} {inner : RouterInner F n} {t : ℕ} {hd hd' : Handler n Resp} {input : Input Resp}
    {es : List (Event n)} (h : Tallies τ s) (hget : s.handlers[t]? = some hd)
    (hstep : hd.step deps s.inner t input = some (es, inner, hd')) :
    Tallies (τ ++ [(.run t input, es)])
      { s with inner := inner, handlers := s.handlers.set t hd' } := by
  have hmove := Handler.move_of_step hstep
  have hother : ∀ i, i ≠ t → decisions (τ ++ [(.run t input, es)]) i = decisions τ i :=
    fun i hi => by rw [decisions_snoc, decisionOf_move hi hmove, List.append_nil]
  obtain ⟨hcounter, hcurrent, hrouted, hle⟩ :=
    h.self hget (Handler.tallied_of_step hstep) (decisions_snoc τ (.run t input) es t).symm
  refine ⟨fun c => ?_, fun i h' x hi hx => ?_, fun i h' hi hok => ?_, fun i x hx => ?_,
    fun i hi => ?_⟩
  · have hsum := sumOver_set (f := fun i h => h.tally c (decisions τ i))
      (g := fun i h => h.tally c (decisions (τ ++ [(.run t input, es)]) i)) hd' hget
      fun i hi => by rw [hother i hi]
    have hc := hcounter c
    have hall := h.counter c
    simp only at hsum ⊢
    omega
  · rcases getElem?_set_inv hget hi with ⟨rfl, rfl⟩ | ⟨hit, hold⟩
    · exact hcurrent x hx
    · rw [hother i hit]
      exact h.current i h' x hold hx
  · rcases getElem?_set_inv hget hi with ⟨rfl, rfl⟩ | ⟨hit, hold⟩
    · exact hrouted hok
    · rw [hother i hit]
      exact h.routed i h' hold hok
  · by_cases hit : i = t
    · subst hit
      exact hle x hx
    · rw [hother i hit] at hx
      exact h.le i x hx
  · have hlt := (List.getElem?_eq_some_iff.mp hget).1
    rw [List.length_set] at hi
    rw [hother i (by omega)]
    exact h.fresh i hi

/-- **One step keeps the account of the counters.** -/
theorem Tallies.step {deps : Deps} {τ : List (Act n Resp × List (Event n))}
    {s s' : System F n Resp} {act : Act n Resp} {es : List (Event n)} (h : Tallies τ s)
    (hstep : (lts F n Resp deps).step s act es s') : Tallies (τ ++ [(act, es)]) s' := by
  cases step_inv hstep with
  | spawned act hd hact => exact h.spawn hact
  | ran t input es inner hd hd' hget hrun => exact h.ran hget hrun
  | probed results =>
    exact h.quiet (fun t => filterMap_decisionOf_eq_nil (pickOf_probeEvents t _ _))
      (fun c => by cases c <;> rfl) rfl
  | published => exact h.quiet (fun _ => rfl) (fun c => by cases c <;> rfl) rfl

variable {deps : Deps} {policy : Policy} {cfg : SchedulerConfig F}
  {τ : List (Act n Resp × List (Event n))} {s : System F n Resp}

/-- The account of the counters along a run. -/
theorem tallies_of_run (h : (lts F n Resp deps).Exec (new n Resp policy cfg) τ s) : Tallies τ s := by
  refine Lts.Run.invariant (I := Tallies) h ⟨fun c => ?_, fun t h x hget => ?_, fun t h hget => ?_,
    fun _ _ hx => ?_, fun _ _ => rfl⟩ fun _ _ _ _ _ hI _ hstep => hI.step hstep
  · cases c <;> rfl
  · simp [new] at hget
  · simp [new] at hget
  · cases hx

/-- **The counters count requests, once each.** At every point of every run at which no handler is in
`record_served`: `requests_total` is the number of unary calls answered with a response and of messages
of client streams that were routed; `prompt_blocks_total` adds up the blocks of their prompts, and
`matched_blocks_total` the matches of the decisions that served them, so that it is at most the former.

A unary call is served by its last decision, and a message by its only one, from when `pick_replica`
returned it.

**Proof sketch.** A counter holds what it has taken in (`Tallies.step`), and between the increments of
two requests every counter has taken in the same decisions. -/
theorem counters_exact (h : (lts F n Resp deps).Exec (new n Resp policy cfg) τ s)
    (hrec : ∀ h ∈ s.handlers, h.records = false) :
    s.inner.metrics.requestsTotal = s.handlers.countP Handler.answeredOk +
      ∑ t ∈ Finset.range s.handlers.length, (messagesAt τ s t).length ∧
    s.inner.metrics.promptBlocksTotal = ∑ t ∈ Finset.range s.handlers.length,
      ((answeredAt τ s t ++ messagesAt τ s t).map fun x => x.1).sum ∧
    s.inner.metrics.matchedBlocksTotal = ∑ t ∈ Finset.range s.handlers.length,
      ((answeredAt τ s t ++ messagesAt τ s t).map fun x => x.2.matchedBlocks).sum ∧
    s.inner.metrics.matchedBlocksTotal ≤ s.inner.metrics.promptBlocksTotal := by
  have htallies := tallies_of_run h
  have hprompt := htallies.counter_eq hrec .prompt
  have hmatched := htallies.counter_eq hrec .matched
  refine ⟨?_, hprompt, hmatched, ?_⟩
  · rw [← htallies.sum_answeredAt, ← Finset.sum_add_distrib]
    have hone : Served.weight (n := n) .requests = fun _ => 1 := rfl
    refine (htallies.counter_eq hrec .requests).trans (Finset.sum_congr rfl fun t _ => ?_)
    simp [hone]
  · refine hmatched.trans_le (le_of_le_of_eq (Finset.sum_le_sum fun t _ => ?_) hprompt.symm)
    exact List.sum_le_sum fun x hx => htallies.le t x (mem_decisions_of_served hx)

/-- A tokenizer that makes one block of every prompt. -/
def oneBlockDeps : Deps where
  encode _ := .ok (List.replicate 16 0)
  codeText _ := ""

/-- A call that is retried, and a message with the same prompt: two requests of one block each, of which
the second one finds its block in the cache of the replica that served the first one. -/
theorem counters_exact_two : ∃ τ s,
    (lts ℚ 2 Unit oneBlockDeps).Exec (new 2 Unit .cacheAware capOne) τ s ∧
      s.inner.metrics.requestsTotal = 2 ∧ s.inner.metrics.promptBlocksTotal = 2 ∧
      s.inner.metrics.matchedBlocksTotal = 1 ∧
      s.inner.metrics.matchedBlocksTotal ≤ s.inner.metrics.promptBlocksTotal := by
  have hrun := Lts.exec_get (step oneBlockDeps) (new 2 Unit .cacheAware capOne)
    [.spawnUnary emptyPrompt, .spawnStream, .run 0 .tick, .run 0 .tick, .run 0 .tick,
      .run 0 (.reply (.error (.unavailable "down"))), .run 0 .tick, .run 0 .tick, .run 0 .tick,
      .run 0 .tick, .run 0 .tick, .run 0 (.reply (.ok ())), .run 0 .tick, .run 0 .tick,
      .run 0 .tick, .run 0 .tick, .run 0 .tick, .run 1 (.recv (some (.ok emptyPrompt))),
      .run 1 .tick, .run 1 .tick, .run 1 .tick, .run 1 .tick, .run 1 .tick, .run 1 .tick]
    (by decide +kernel)
  exact ⟨_, _, hrun, by decide +kernel, by decide +kernel, by decide +kernel,
    (counters_exact hrun (by decide +kernel)).2.2.2⟩

end Runs

end System
