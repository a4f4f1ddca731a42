import DynamoRouter.Cluster.Calm
import DynamoRouter.Router.Counters

set_option relaxedAutoImplicit false
set_option autoImplicit false

/-!
# Calls in calm runs

In a calm run every answer of a replica is a response, so no call is retried and no replica is marked by
a handler. A unary call makes one decision, unless it is refused before that, and once it is over this
decision is the one that the counters have taken in.

## Main definitions

* `Handler.Smooth` — a handler none of whose calls failed, with the number of its decisions.

## Main results

* `Cluster.smooth_of_run` — the handlers and the answers of a calm run.
* `Handler.Smooth.served_eq` — at rest all decisions are counted.
-/

open Protocol

namespace Handler

variable {F : Type} {n : ℕ} {Resp : Type}

/-- A handler none of whose calls failed, after so many decisions. -/
def Smooth : Handler n Resp → ℕ → Prop
  | .unary (.start _), picks => picks = 0
  | .unary (.picking _ _), picks => picks = 0
  | .unary (.gaugePicked _ _ _), picks => picks = 1
  | .unary (.upstream _ _ _), picks => picks = 1
  | .unary (.completing _ _ _ result), picks => result.isOk = true ∧ picks = 1
  | .unary (.gaugeCompleted _ _ _ result _), picks => result.isOk = true ∧ picks = 1
  | .unary (.recording _ _ _ _), picks => picks = 1
  | .unary (.marking _ _ _ _), _ => False
  | .unary (.done (.ok _)), picks => picks = 1
  | .unary (.done (.error _)), picks => picks = 0
  | .unary .dropped, _ => False
  | .stream _, _ => True

/-- An input that neither drops a handler nor tells it that its call failed. -/
def benign : Input Resp → Bool
  | .drop => false
  | .reply result => result.isOk
  | _ => true

/-- A new handler has made no decision. -/
theorem smooth_of_spawns {act : Act n Resp} {h : Handler n Resp} (hact : act.spawns = some h) :
    h.Smooth 0 := by
  cases act <;> cases hact
  · exact rfl
  · trivial

section Step

variable [Mul F] [Sub F] [LT F] [DecidableLT F] [ScoreArith F]

/-- **A step that hears of no failure** leaves no failure behind. -/
theorem Smooth.step {deps : Deps} {inner inner' : RouterInner F n} {t picks : ℕ}
    {h h' : Handler n Resp} {input : Input Resp} {es : List (Event n)} (hs : h.Smooth picks)
    (hbenign : benign input = true) (hstep : h.step deps inner t input = some (es, inner', h')) :
    h'.Smooth (picks + (es.filterMap (Event.decisionOf t)).length) := by
  rcases step_inv hstep with ⟨pc, pc', rfl, rfl, hpc⟩ | ⟨s, s', rfl, rfl, -⟩
  · cases UnaryPc.step_inv hpc with
    | picked hashes att d sched =>
      simp only [Event.decisionOf, if_pos, List.filterMap_cons, List.filterMap_nil, List.length_cons,
        List.length_nil]
      simpa [Smooth] using hs
    | replied hashes att d result => exact ⟨hbenign, hs⟩
    | failed => exact absurd hs.1 Bool.false_ne_true
    | propagated => exact absurd hs.1 Bool.false_ne_true
    | succeeded => exact hs.2
    | retried => exact hs.elim
    | gaveUp => exact hs.elim
    | droppedEarly => simp [benign] at hbenign
    | dropped => simp [benign] at hbenign
    | _ => exact hs
  · trivial

end Step

/-- **At rest all decisions are counted**: if no call of a handler failed, and none is under way, then the
decisions that served are those that were made.

**Proof sketch.** By the place at which a handler is. One that is not smooth, or has a decision under way,
is excluded; the others have as many decisions as they have counted. -/
theorem Smooth.served_eq {h : Handler n Resp} {picks : List (ℕ × RouteDecision n)}
    (hs : h.Smooth picks.length) (hholds : h.holds = none) (hcurrent : h.current = none) :
    h.answered picks ++ h.messages picks = picks := by
  cases h with
  | unary pc =>
    cases pc with
    | start =>
      rw [List.length_eq_zero_iff.mp hs]
      rfl
    | picking =>
      rw [List.length_eq_zero_iff.mp hs]
      rfl
    | done result =>
      cases result with
      | error =>
        rw [List.length_eq_zero_iff.mp hs]
        rfl
      | ok =>
        obtain ⟨x, rfl⟩ := List.length_eq_one_iff.mp hs
        rfl
    | marking => exact hs.elim
    | dropped => exact hs.elim
    | _ => cases hcurrent
  | stream s =>
    obtain ⟨pc, out, rxOpen⟩ := s
    cases pc <;> first | rfl | cases hcurrent

end Handler

namespace Cluster

variable {F : Type} {n : ℕ} [Mul F] [Sub F] [LT F] [DecidableLT F] [ScoreArith F]

/-- What a handler takes off its wire is benign, if the answer on it is a response. -/
theorem benign_of_taken {input : Input MockResponse} {wire wire' : Wire} (htaken : Taken input wire wire')
    (hok : ∀ result, wire = .reply result → result.isOk = true) : Handler.benign input = true := by
  cases htaken with
  | reply result => exact hok result rfl
  | _ => rfl

/-- A wire that something was taken off carries no error. -/
theorem isOk_of_taken {input : Input MockResponse} {wire wire' : Wire} (htaken : Taken input wire wire')
    (hok : ∀ result, wire = .reply result → result.isOk = true) :
    ∀ result, wire' = .reply result → result.isOk = true := by
  cases htaken with
  | opened => exact hok
  | _ => exact fun _ heq => by cases heq

/-- None of the calls failed: the handlers are smooth, and the answers on the wires are responses. -/
structure AllSmooth (τ : List (Action n × Seen n)) (s : Cluster F n) : Prop where
  /-- The handlers. -/
  handler : ∀ t h, s.handler t = some h → h.Smooth (System.decisions (routerTrace τ) t).length
  /-- The answers. -/
  wire : ∀ t result, s.wires t = .reply result → result.isOk = true

variable {deps : ClusterDeps} {P : ModelInferRequest → Prop} {policy : Policy}
  {cfg : SchedulerConfig F} {mocks : Fin n → MockConfig} {τ : List (Action n × Seen n)}
  {s s' : Cluster F n} {a : Action n} {e : Seen n}
  {ok : List (Action n × Seen n) → Cluster F n → Action n → Prop}

/-- The answer of a replica that hashes the prompt is a response. -/
theorem isOk_of_answer {h : Handler n MockResponse} {req : ModelInferRequest} {hashes : List UInt64}
    {service : MockTritonService} {result : Except Status MockResponse}
    (hsame : SamePrompt deps.toDeps req)
    (hprompt : RouterInner.promptHashes deps.toDeps req = .ok hashes)
    (heq : MockTriton.answer deps service req h = .reply result) : result.isOk = true := by
  obtain ⟨p, hp, -⟩ := prefill_of_samePrompt hsame hprompt service
  cases h with
  | unary pc =>
    simp only [MockTriton.answer, MockTritonService.modelInfer, hp, Wire.reply.injEq] at heq
    rw [← heq]
    rfl
  | stream task => cases heq

/-- The step of one task keeps the handlers smooth. -/
theorem AllSmooth.ran {t : ℕ} {input : Input MockResponse} {h h' : Handler n MockResponse}
    {inner : RouterInner F n} {es : List (Event n)} (hsm : AllSmooth τ s) (hget : s.handler t = some h)
    (hbenign : Handler.benign input = true)
    (hrun : h.step deps.toDeps s.router.inner t input = some (es, inner, h')) (a : Action n) :
    ∀ (i : ℕ) (hd : Handler n MockResponse), (s.router.handlers.set t h')[i]? = some hd →
      hd.Smooth (System.decisions (routerTrace (τ ++ [(a, .router (.run t input) es)])) i).length := by
  intro i hd hi
  rw [routerTrace_snoc, Seen.routed, Option.toList_some, System.decisions_snoc, List.length_append]
  rcases System.getElem?_set_inv hget hi with ⟨rfl, rfl⟩ | ⟨hne, hold⟩
  · exact (hsm.handler i h hget).step hbenign hrun
  · rw [System.decisionOf_move hne (Handler.move_of_step hrun)]
    exact hsm.handler i hd hold

/-- **One step of a calm run** makes no call fail.

**Proof sketch.** A handler hears of a failure only by an answer that is an error, or by a call that
fails; the replicas answer responses, as they hash the same prompts, and no call fails in a calm run. -/
theorem AllSmooth.step (hP : ∀ req, P req → SamePrompt deps.toDeps req)
    (hs : s.Orderly deps.toDeps P policy cfg) (hcalm : Calm P a)
    (hfresh : ∀ t, s.router.handlers.length ≤ t → System.decisions (routerTrace τ) t = [])
    (hsm : AllSmooth τ s) (hstep : (lts F n deps).step s a e s') :
    AllSmooth (τ ++ [(a, e)]) s' := by
  cases step_inv hstep with
  | routed act es router hact hrouter =>
    have hwires : ∀ t result, s.wiresAfter act t = .reply result → result.isOk = true := by
      intro t result heq
      have hclear : ∀ i, Function.update s.wires i .empty t = .reply result → result.isOk = true := by
        intro i heq
        by_cases ht : t = i
        · subst ht
          rw [Function.update_self] at heq
          cases heq
        · rw [Function.update_of_ne ht] at heq
          exact hsm.wire t result heq
      unfold wiresAfter at heq
      split at heq
      · exact hclear _ heq
      · exact hclear _ heq
      · exact hsm.wire t result heq
    cases System.step_inv hrouter with
    | spawned _ hd hspawns =>
      refine ⟨fun t h hget => ?_, hwires⟩
      rw [routerTrace_snoc, Seen.routed, Option.toList_some, System.decisions_snoc, List.filterMap_nil,
        List.append_nil]
      rcases System.getElem?_concat_inv hget with hold | ⟨rfl, rfl⟩
      · exact hsm.handler t h hold
      · rw [hfresh _ le_rfl]
        exact Handler.smooth_of_spawns hspawns
    | ran t input _ inner h h' hget hrun =>
      have hbenign : Handler.benign input = true := by
        cases input with
        | drop => cases hcalm.1
        | reply => cases hact
        | _ => rfl
      exact ⟨hsm.ran hget hbenign hrun _, hwires⟩
    | probed results =>
      refine ⟨fun t h hget => ?_, hwires⟩
      rw [routerTrace_snoc, Seen.routed, Option.toList_some, System.decisions_snoc,
        System.filterMap_decisionOf_eq_nil (System.pickOf_probeEvents t _ _), List.append_nil]
      exact hsm.handler t h hget
    | published =>
      refine ⟨fun t h hget => ?_, hwires⟩
      rw [routerTrace_snoc, Seen.routed, Option.toList_some, System.decisions_snoc, List.filterMap_nil,
        List.append_nil]
      exact hsm.handler t h hget
  | served t h r req hget hcallee hreq hwire =>
    refine ⟨fun i hd hi => ?_, fun i result heq => ?_⟩
    · rw [routerTrace_snoc, Seen.routed, Option.toList_none, List.append_nil]
      exact hsm.handler i hd hi
    · by_cases hi : i = t
      · subst hi
        simp only [Function.update_self] at heq
        obtain ⟨hashes, rq, hrq, hprompt⟩ :=
          (hs.sound.task i h hget).asks (by rw [(Handler.asks_of_callee hcallee).1]; rfl)
        obtain rfl : req = rq := Option.some_inj.mp (hreq.symm.trans hrq)
        exact isOk_of_answer (hP req (hs.requests i req hreq)) hprompt heq
      · simp only [Function.update_of_ne hi] at heq
        exact hsm.wire i result heq
  | servedStray =>
    refine ⟨fun i hd hi => ?_, hsm.wire⟩
    rw [routerTrace_snoc, Seen.routed, Option.toList_none, List.append_nil]
    exact hsm.handler i hd hi
  | delivered t h input wire es router hget htakes hrouter =>
    obtain ⟨inner, h', hrun, rfl⟩ := run_inv hget hrouter
    have htaken := Handler.taken_of_takes htakes
    refine ⟨hsm.ran hget (benign_of_taken htaken (hsm.wire t)) hrun _, fun i result heq => ?_⟩
    by_cases hi : i = t
    · subst hi
      simp only [Function.update_self] at heq
      exact isOk_of_taken htaken (hsm.wire i) result heq
    · simp only [Function.update_of_ne hi] at heq
      exact hsm.wire i result heq
  | failed => cases hcalm.1

/-- **The calls of a calm run**: none of them failed. -/
theorem smooth_of_run (hok : ∀ τ s a, ok τ s a → Calm P a)
    (hP : ∀ req, P req → SamePrompt deps.toDeps req)
    (h : (lts F n deps).Run ok (new policy cfg mocks) τ s) : AllSmooth τ s := by
  induction h with
  | nil => exact ⟨fun t h hget => by simp [handler, new, System.new] at hget, fun _ _ heq => by cases heq⟩
  | snoc hrun ha hs ih =>
    exact ih.step hP (orderly_of_run hok hrun) (hok _ _ _ ha)
      (System.tallies_of_run (router_of_run hrun)).fresh hs

end Cluster
