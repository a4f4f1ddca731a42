import DynamoRouter.Cluster.Calls
import DynamoRouter.Router.PromptAgreement

set_option relaxedAutoImplicit false
set_option autoImplicit false

/-!
# Calm runs

A run of the cluster in which no call fails and no future is dropped, and in which the two sides hash the
same prompt of every request: a *calm* run. Its steps may come in any order, the client of a stream may
stop receiving, and the prober may take replicas out of routing and back.

In a calm run each pick puts a chain into the queue of its replica, from which it is taken when the
request reaches the replica; nothing else touches the queues or the replicas.

## Main definitions

* `Cluster.Calm` — the guard of calm runs.
* `Cluster.Queued` — for each replica, the chains of the calls that are on their way to it.
* `Cluster.CalmStep` — what a step of a calm run can do.

## Main results

* `Cluster.calm_induction` — what these steps preserve, holds along every calm run.
-/

open Protocol

namespace Cluster

variable {F : Type} {n : ℕ}

/-- A step of a calm run: no task gives up its call, and a request that arrives has the property `P`. -/
def Calm (P : ModelInferRequest → Prop) (a : Action n) : Prop :=
  a.loses = false ∧ ∀ req, a.brings = some req → P req

/-- A guard of calm runs can be decided. -/
instance (P : ModelInferRequest → Prop) [DecidablePred P] (a : Action n) : Decidable (Calm P a) :=
  inferInstanceAs (Decidable (a.loses = false ∧ ∀ req ∈ a.brings, P req))

/-- Whether the two sides agree on a request can be decided. -/
instance (deps : Deps) : DecidablePred (SamePrompt deps) := fun _ =>
  inferInstanceAs (Decidable (_ = _))

/-- For each replica a list of tasks, each with a chain. -/
abbrev Queues (n : ℕ) := Fin n → List (ℕ × List UInt64)

/-- The queues hold the calls on their way, with the chains of their requests. -/
structure Queued (deps : Deps) (s : Cluster F n) (Q : Queues n) : Prop where
  /-- A task is in the queue of the replica that its call is on the way to. -/
  mem : ∀ r t hashes, (t, hashes) ∈ Q r ↔
    ∃ req, s.waiting t = some (r, req) ∧ RouterInner.promptHashes deps req = .ok hashes
  /-- No task is there twice. -/
  nodup : ∀ r, (Q r).Nodup

/-- What holds in every state of a calm run. -/
structure Orderly (deps : Deps) (P : ModelInferRequest → Prop) (policy : Policy)
    (cfg : SchedulerConfig F) (s : Cluster F n) : Prop where
  /-- The network belongs to the tasks. -/
  sound : s.Sound deps
  /-- Nothing has gone astray. -/
  strays : s.strays = []
  /-- The requests have the property. -/
  requests : ∀ t req, s.requests t = some req → P req
  /-- The policy. -/
  policy : s.router.sched.policy = policy
  /-- The configuration. -/
  cfg : s.router.sched.cfg = cfg
  /-- The scheduler's invariant. -/
  inv : s.router.sched.Inv

/-- A weaker property of the requests. -/
theorem Orderly.mono {deps : Deps} {P P' : ModelInferRequest → Prop} {policy : Policy}
    {cfg : SchedulerConfig F} {s : Cluster F n} (h : s.Orderly deps P policy cfg)
    (hP : ∀ req, P req → P' req) : s.Orderly deps P' policy cfg :=
  { h with requests := fun t req hreq => hP req (h.requests t req hreq) }

/-- Nothing is on its way at the start. -/
theorem queued_new (deps : Deps) (policy : Policy) (cfg : SchedulerConfig F)
    (mocks : Fin n → MockConfig) : Queued deps (new policy cfg mocks) fun _ => [] where
  mem r t hashes := by
    have hnone : (new policy cfg mocks).waiting t = none := rfl
    simp [hnone]
  nodup _ := List.nodup_nil

/-- A call on its way carries a request that has hashes. -/
theorem Sound.carries {deps : Deps} {s : Cluster F n} (hs : s.Sound deps) {t : ℕ} {r : Fin n}
    {req : ModelInferRequest} (h : s.waiting t = some (r, req)) :
    s.requests t = some req ∧ ∃ hashes, RouterInner.promptHashes deps req = .ok hashes := by
  unfold waiting at h
  cases hwire : s.wires t with
  | empty =>
    rw [hwire] at h
    obtain ⟨r', hasks, heq⟩ := Option.bind_eq_some_iff.mp h
    obtain ⟨hd, hget, hasks⟩ := Option.bind_eq_some_iff.mp hasks
    obtain ⟨req', hreq, heq⟩ := Option.map_eq_some_iff.mp heq
    cases heq
    obtain ⟨hashes, rq, hrq, hprompt⟩ := (hs.task t hd hget).asks (by rw [hasks]; rfl)
    obtain rfl : req = rq := Option.some_inj.mp (hreq.symm.trans hrq)
    exact ⟨hreq, hashes, hprompt⟩
  | reply | items =>
    rw [hwire] at h
    cases h

/-- A pick puts a chain into the queue of its replica.

**Proof sketch.** The task had no call on its way, so that it is in no queue; it goes into that of its
replica, and nothing changes for the other tasks. -/
theorem Queued.picked {deps : Deps} {s s' : Cluster F n} {Q : Queues n} (h : Queued deps s Q) {t : ℕ}
    {r : Fin n} {req : ModelInferRequest} {hashes : List UInt64}
    (hprompt : RouterInner.promptHashes deps req = .ok hashes) (hbefore : s.waiting t = none)
    (hafter : s'.waiting = Function.update s.waiting t (some (r, req))) :
    Queued deps s' (Function.update Q r (Q r ++ [(t, hashes)])) := by
  have hnot : ∀ r' x, (t, x) ∉ Q r' := fun r' x hmem => by
    obtain ⟨req', hreq', -⟩ := (h.mem r' t x).mp hmem
    rw [hbefore] at hreq'
    cases hreq'
  refine ⟨fun r' t' x => ?_, fun r' => ?_⟩
  · rw [hafter]
    by_cases ht : t' = t
    · subst ht
      simp only [Function.update_self, Option.some_inj, Prod.mk.injEq]
      by_cases hr : r' = r
      · subst hr
        rw [Function.update_self, List.mem_append, or_iff_right (hnot r' x), List.mem_singleton]
        constructor
        · intro heq
          cases heq
          exact ⟨req, ⟨rfl, rfl⟩, hprompt⟩
        · rintro ⟨req', ⟨-, rfl⟩, hx⟩
          rw [hprompt] at hx
          cases hx
          rfl
      · rw [Function.update_of_ne hr]
        refine iff_of_false (hnot r' x) ?_
        rintro ⟨req', ⟨heq, -⟩, -⟩
        exact hr heq.symm
    · rw [Function.update_of_ne ht, ← h.mem r' t' x]
      by_cases hr : r' = r
      · subst hr
        rw [Function.update_self, List.mem_append, List.mem_singleton, Prod.mk.injEq]
        exact or_iff_left fun heq => ht heq.1
      · rw [Function.update_of_ne hr]
  · by_cases hr : r' = r
    · subst hr
      rw [Function.update_self, List.nodup_append]
      refine ⟨h.nodup r', List.nodup_singleton _, fun x hx y hy heq => ?_⟩
      obtain rfl := List.mem_singleton.mp hy
      exact hnot r' hashes (heq ▸ hx)
    · rw [Function.update_of_ne hr]
      exact h.nodup r'

/-- A request that reaches its replica is taken from the queue.

**Proof sketch.** The call of the task was on its way to this replica, with this chain; so its entry is in
this queue only, and once. -/
theorem Queued.served {deps : Deps} {s s' : Cluster F n} {Q : Queues n} (h : Queued deps s Q) {t : ℕ}
    {r : Fin n} {req : ModelInferRequest} {hashes : List UInt64}
    (hprompt : RouterInner.promptHashes deps req = .ok hashes) (hbefore : s.waiting t = some (r, req))
    (hafter : s'.waiting = Function.update s.waiting t none) :
    (t, hashes) ∈ Q r ∧ Queued deps s' (Function.update Q r ((Q r).erase (t, hashes))) := by
  refine ⟨(h.mem r t hashes).mpr ⟨req, hbefore, hprompt⟩, fun r' t' x => ?_, fun r' => ?_⟩
  · rw [hafter]
    by_cases ht : t' = t
    · subst ht
      rw [Function.update_self]
      refine iff_of_false (fun hmem => ?_) fun ⟨_, hnone, _⟩ => by cases hnone
      by_cases hr : r' = r
      · subst hr
        rw [Function.update_self, (h.nodup r').mem_erase_iff] at hmem
        obtain ⟨req', hreq', hx⟩ := (h.mem r' t' x).mp hmem.2
        rw [hbefore] at hreq'
        cases hreq'
        rw [hprompt] at hx
        cases hx
        exact hmem.1 rfl
      · rw [Function.update_of_ne hr] at hmem
        obtain ⟨req', hreq', -⟩ := (h.mem r' t' x).mp hmem
        rw [hbefore] at hreq'
        cases hreq'
        exact hr rfl
    · rw [Function.update_of_ne ht, ← h.mem r' t' x]
      by_cases hr : r' = r
      · subst hr
        rw [Function.update_self, (h.nodup r').mem_erase_iff, and_iff_right]
        exact fun heq => ht (Prod.mk.inj heq).1
      · rw [Function.update_of_ne hr]
  · by_cases hr : r' = r
    · subst hr
      rw [Function.update_self]
      exact (h.nodup r').erase _
    · rw [Function.update_of_ne hr]
      exact h.nodup r'

section Step

variable [Mul F] [Sub F] [LT F] [DecidableLT F] [ScoreArith F]

/-- What a step of a calm run can do to the queues, the scheduler and the replicas. -/
inductive CalmStep (deps : ClusterDeps) (P : ModelInferRequest → Prop) (s : Cluster F n) (Q : Queues n) :
    Seen n → Cluster F n → Queues n → Prop
  /-- A replica was picked for a request, whose chain goes into its queue. -/
  | picked (t : ℕ) (hashes : List UInt64) (d : RouteDecision n) (req : ModelInferRequest)
      (s' : Cluster F n) (hreq : P req)
      (hprompt : RouterInner.promptHashes deps.toDeps req = .ok hashes)
      (hpick : s.router.sched.pick hashes = some (.ok d, s'.router.sched))
      (hreplicas : s'.replicas = s.replicas) :
      CalmStep deps P s Q (.router (.run t .tick) [.picked t hashes.length d]) s'
        (Function.update Q d.replica (Q d.replica ++ [(t, hashes)]))
  /-- A request reached its replica, which looked its chain up and cached it. -/
  | served (t : ℕ) (r : Fin n) (hashes : List UInt64) (req : ModelInferRequest) (p : Prefill)
      (s' : Cluster F n) (hreq : P req)
      (hprompt : RouterInner.promptHashes deps.toDeps req = .ok hashes) (hmem : (t, hashes) ∈ Q r)
      (hcached : p.cached = (s.replicas r).cache.leading hashes) (htotal : p.total = hashes.length)
      (hrouter : s'.router = s.router)
      (hreplicas : s'.replicas = Function.update s.replicas r ((s.replicas r).served hashes)) :
      CalmStep deps P s Q (.served t r (.ok p)) s'
        (Function.update Q r ((Q r).erase (t, hashes)))
  /-- The queues and the replicas were left alone. -/
  | quiet (act : Act n MockResponse) (es : List (Event n)) (s' : Cluster F n)
      (hes : ∀ i, es.filterMap (Event.decisionOf i) = [])
      (hcaches : CachesKept s.router.sched s'.router.sched es) (hreplicas : s'.replicas = s.replicas) :
      CalmStep deps P s Q (.router act es) s' Q

variable {deps : ClusterDeps} {P : ModelInferRequest → Prop} {policy : Policy}
  {cfg : SchedulerConfig F} {mocks : Fin n → MockConfig} {s s' : Cluster F n} {a : Action n}
  {e : Seen n}

/-- A step under a weaker property of the requests. -/
theorem CalmStep.mono {P' : ModelInferRequest → Prop} {Q Q' : Queues n}
    (h : CalmStep deps P s Q e s' Q') (hP : ∀ req, P req → P' req) : CalmStep deps P' s Q e s' Q' := by
  cases h with
  | picked t hashes d req _ hreq hprompt hpick hreplicas =>
    exact .picked t hashes d req _ (hP req hreq) hprompt hpick hreplicas
  | served t r hashes req p _ hreq hprompt hmem hcached htotal hrouter hreplicas =>
    exact .served t r hashes req p _ (hP req hreq) hprompt hmem hcached htotal hrouter hreplicas
  | quiet act es _ hes hcaches hreplicas => exact .quiet act es _ hes hcaches hreplicas

/-- The requests that the tasks are at have the property that those that arrive have.

**Proof sketch.** A step of the router may bring a request, which has the property; no other step changes
the requests. -/
theorem requests_step (hP : ∀ req, a.brings = some req → P req)
    (h : ∀ t req, s.requests t = some req → P req) (hstep : (lts F n deps).step s a e s') :
    ∀ t req, s'.requests t = some req → P req := by
  cases step_inv hstep with
  | routed act es router =>
    have hupdate : ∀ i rq, P rq → ∀ t req, Function.update s.requests i (some rq) t = some req →
        P req := fun i rq hrq t req heq => by
      by_cases ht : t = i
      · subst ht
        rw [Function.update_self] at heq
        cases heq
        exact hrq
      · rw [Function.update_of_ne ht] at heq
        exact h t req heq
    intro t req heq
    simp only [requestsAfter] at heq
    split at heq
    · exact hupdate _ _ (hP _ rfl) t req heq
    · exact hupdate _ _ (hP _ rfl) t req heq
    · exact h t req heq
  | served | servedStray | delivered | failed => exact h

/-- The strays in a step that gives up no call. -/
theorem strays_step (hloses : a.loses = false) (h : s.strays = [])
    (hflow : Flow deps s a e s') : s'.strays = [] := by
  cases hflow with
  | picked _ _ _ _ _ _ _ _ _ _ hstrays => rw [hstrays, h]
  | served _ _ _ _ _ _ _ _ hstrays => rw [hstrays, h]
  | servedStray _ _ _ _ _ _ _ _ _ hstrays => rw [hstrays, h, List.eraseIdx_nil]
  | lost _ _ _ _ hl => simp [hl] at hloses
  | quiet _ _ _ _ _ _ _ hstrays => rw [hstrays, h]

/-- **What a step of a calm run can do.**

**Proof sketch.** By what the step does to the calls on their way. A pick puts its chain into a queue
(`Queued.picked`) and a request that reaches its replica takes it from there (`Queued.served`), where both
sides hash the prompt to the same chain. Nothing has gone astray, and nothing is lost. -/
theorem calmStep_of_step (hP : ∀ req, P req → SamePrompt deps.toDeps req) {Q : Queues n}
    (hs : s.Orderly deps.toDeps P policy cfg) (hs' : s'.Orderly deps.toDeps P policy cfg)
    (hQ : Queued deps.toDeps s Q) (hloses : a.loses = false) (hflow : Flow deps s a e s') :
    ∃ Q', Queued deps.toDeps s' Q' ∧ CalmStep deps P s Q e s' Q' := by
  cases hflow with
  | picked t hashes d req _ hprompt hpick hbefore hafter hreplicas =>
    have hreq : s'.waiting t = some (d.replica, req) := by rw [hafter, Function.update_self]
    have hPreq := hs'.requests t req (hs'.sound.carries hreq).1
    exact ⟨_, hQ.picked hprompt hbefore hafter, .picked t hashes d req s' hPreq hprompt hpick hreplicas⟩
  | served t r req _ hbefore hafter hrouter hreplicas =>
    obtain ⟨hreq, hashes, hprompt⟩ := hs.sound.carries hbefore
    have hPreq := hs.requests t req hreq
    obtain ⟨p, hp, hcached, htotal⟩ := prefill_of_samePrompt (hP req hPreq) hprompt (s.replicas r)
    rw [hp] at hreplicas
    obtain ⟨hmem, hQ'⟩ := hQ.served hprompt hbefore hafter
    rw [hp]
    exact ⟨_, hQ', .served t r hashes req p s' hPreq hprompt hmem hcached htotal hrouter hreplicas⟩
  | servedStray i t r req _ hget =>
    rw [hs.strays] at hget
    cases hget
  | lost _ _ _ _ hl => simp [hl] at hloses
  | quiet act es _ hes hcaches hafter hreplicas =>
    refine ⟨Q, ⟨fun r t hashes => ?_, hQ.nodup⟩, .quiet act es s' hes hcaches hreplicas⟩
    rw [hafter]
    exact hQ.mem r t hashes

variable {ok : List (Action n × Seen n) → Cluster F n → Action n → Prop}
  {τ : List (Action n × Seen n)}

/-- What holds in every state of a calm run.

**Proof sketch.** The network stays sound (`Sound.step`), nothing goes astray (`strays_step`) and the
requests have the property (`requests_step`); the rest holds along every run of the router
(`router_of_run`). -/
theorem orderly_of_run (hok : ∀ τ s a, ok τ s a → Calm P a)
    (h : (lts F n deps).Run ok (new policy cfg mocks) τ s) : s.Orderly deps.toDeps P policy cfg := by
  have hinv : s.Sound deps.toDeps ∧ s.strays = [] ∧ ∀ t req, s.requests t = some req → P req :=
    Lts.Run.invariant (I := fun _ s => s.Sound deps.toDeps ∧ s.strays = [] ∧
        ∀ t req, s.requests t = some req → P req) h
      ⟨sound_new _ policy cfg mocks, rfl, fun _ _ heq => by cases heq⟩
      fun τ s a e s' hI hstep hs => by
        obtain ⟨hloses, hbrings⟩ := hok τ s a hstep
        exact ⟨hI.1.step hs, strays_step hloses hI.2.1 (flow_of_step hI.1 hs),
          requests_step hbrings hI.2.2 hs⟩
  have hrouter := router_of_run h
  exact ⟨hinv.1, hinv.2.1, hinv.2.2, System.policy_of_run hrouter, System.cfg_of_run hrouter,
    System.inv_of_run hrouter⟩

/-- **Induction along calm runs**: what holds at the start, and is kept by all that a step of a calm run
can do, holds along every calm run.

**Proof sketch.** By induction on the run, with the queues chosen step by step (`calmStep_of_step`). -/
theorem calm_induction {I : List (Action n × Seen n) → Cluster F n → Queues n → Prop}
    (hok : ∀ τ s a, ok τ s a → Calm P a) (hP : ∀ req, P req → SamePrompt deps.toDeps req)
    (h0 : I [] (new policy cfg mocks) fun _ => [])
    (hstep : ∀ τ s Q a e s' Q', s.Orderly deps.toDeps P policy cfg → Queued deps.toDeps s Q →
      I τ s Q → ok τ s a → (lts F n deps).step s a e s' → CalmStep deps P s Q e s' Q' →
      I (τ ++ [(a, e)]) s' Q')
    (h : (lts F n deps).Run ok (new policy cfg mocks) τ s) :
    ∃ Q, Queued deps.toDeps s Q ∧ s.Orderly deps.toDeps P policy cfg ∧ I τ s Q := by
  induction h with
  | nil =>
    exact ⟨_, queued_new _ policy cfg mocks, orderly_of_run hok (Lts.Run.nil (M := lts F n deps)), h0⟩
  | @snoc τ s s' a e hrun ha hs ih =>
    obtain ⟨Q, hQ, horderly, hI⟩ := ih
    have horderly' := orderly_of_run hok (hrun.snoc ha hs)
    obtain ⟨Q', hQ', hcalm⟩ := calmStep_of_step hP horderly horderly' hQ (hok τ s a ha).1
      (flow_of_step horderly.sound hs)
    exact ⟨Q', hQ', horderly', hstep τ s Q a e s' Q' horderly hQ hI ha hs hcalm⟩

end Step

end Cluster
