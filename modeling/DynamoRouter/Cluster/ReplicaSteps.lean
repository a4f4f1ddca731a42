import DynamoRouter.Cluster.Awaited
import DynamoRouter.Lib.PointUpdates

set_option relaxedAutoImplicit false
set_option autoImplicit false

/-!
# The steps of the replicas in a deployment

A request that reaches its replica starts a task there, of which the cluster sees nothing. The step with
which the task takes the request is the one in which the cluster serves it; the other steps of the task are
not seen.

## Main results

* `Deployment.Refines.take`, `Deployment.Refines.work_silent` — the steps of a task keep the relation.
* `Deployment.Refines.arrive` — so does the arrival of a request.
-/

open Protocol

namespace Deployment

variable {F : Type} {n : ℕ} {deps : ClusterDeps} {mocks : Fin n → MockConfig} {T : Fin n → ReplicaTrace}
  {O : List ((Fin n × ℕ) × ℕ × Fin n × ModelInferRequest)} {d d' : Deployment F n} {c c' : Cluster F n}

/-! ## The steps of the replicas -/

section Work

variable {r : Fin n} {k : ℕ} {input : Replica.Input} {item : Option Replica.ClientItem}
  {v w w' : Replica.Worker} {service : MockTritonService} {l : Link n} {h : Handler n MockResponse}
  {req : Option ModelInferRequest} {wire : Wire}

/-- The deployment after task `k` of replica `r` has stepped. -/
abbrev worked (d : Deployment F n) (r : Fin n) (k : ℕ) (service : MockTritonService)
    (w : Replica.Worker) : Deployment F n :=
  { d with replicas := Function.update d.replicas r ⟨service, (d.replicas r).workers.set k w⟩ }

/-- The trace of replica `r` after its task `k` has stepped. -/
abbrev traceAfter (T : Fin n → ReplicaTrace) (r : Fin n) (k : ℕ) (input : Replica.Input)
    (item : Option Replica.ClientItem) : ReplicaTrace :=
  T r ++ [(.run k input, item.map fun item => (k, item))]

/-- The call of another task than the one that steps. -/
theorem Carried.concat {deps : ReplicaDeps} {cfg : MockConfig} {τ : ReplicaTrace} {a : Replica.Action}
    {e : Option (ℕ × Replica.ClientItem)} (hcarried : Carried deps cfg τ l h req wire w)
    (he : ∀ x ∈ e, x.1 ≠ l.worker) (ha : a.receives l.worker = none) :
    Carried deps cfg (τ ++ [(a, e)]) l h req wire w where
  starts := hcarried.starts
  wire := by rw [hcarried.wire, Replica.Worker.reply_concat_of_ne he]
  received pc out rx heq := by
    rw [Replica.received_append, ha, Option.toList_none, List.append_nil]
    exact hcarried.received pc out rx heq
  pending := hcarried.pending

/-- **The call of the task that steps**, if it is awaited.

**Proof sketch.** Nothing arrives for it any more, so that what it has pending, it had before. -/
theorem Carried.work {deps : ReplicaDeps} {cfg : MockConfig} {τ : ReplicaTrace} {wire' : Wire}
    {service' : MockTritonService} (hcarried : Carried deps cfg τ l h req wire w)
    (heffect : w.Effect deps service input item service' w') (hmoves : input.moves true = true)
    (hwire : wire' = (w'.reply deps cfg
      (τ ++ [(.run l.worker input, item.map fun item => (l.worker, item))]) l.worker).drop l.taken) :
    Carried deps cfg (τ ++ [(.run l.worker input, item.map fun item => (l.worker, item))]) l h req wire'
      w' where
  starts := hcarried.starts.work heffect
  wire := hwire
  received pc out rx heq := by
    have hnone : input.item = none := by
      rcases input with _ | ⟨_ | _ | _⟩ | _ | _ <;> first | rfl | cases hmoves
    rw [Replica.received_append, Replica.Action.receives, if_pos rfl, hnone, Option.toList_none,
      List.append_nil]
    obtain ⟨pc', out', rx', rfl⟩ : ∃ pc' out' rx', w = .stream pc' out' rx' := by
      have hstarts := hcarried.starts.work heffect
      subst heq
      have hbefore := hcarried.starts
      cases hstarts
      cases hbefore
      exact ⟨_, _, _, rfl⟩
    exact hcarried.received pc' out' rx' rfl
  pending rq hpending := by
    obtain ⟨hok, herror, hnone⟩ := Replica.Worker.pending_step heffect
    rcases item with _ | status | rq'
    · refine hcarried.pending rq ((hnone rfl rq hpending).resolve_right fun hinput => ?_)
      rw [hinput] at hmoves
      cases hmoves
    · simp [(herror status rfl).2] at hpending
    · simp [(hok rq' rfl).2] at hpending

/-- Task `k` of replica `r` steps from `w` to `w'`, and takes `item`. -/
structure Works (deps : ClusterDeps) (d : Deployment F n) (r : Fin n) (k : ℕ) (input : Replica.Input)
    (item : Option Replica.ClientItem) (service : MockTritonService) (w w' : Replica.Worker) : Prop where
  /-- The task before the step. -/
  get : (d.replicas r).workers[k]? = some w
  /-- The step. -/
  step : w.step deps.replica (d.replicas r).service input = some (item, service, w')
  /-- The task can be moved so. -/
  moves : input.moves (d.linked r k) = true

namespace Works

/-- All that the step can do. -/
theorem effect (hworks : Works deps d r k input item service w w') :
    w.Effect deps.replica (d.replicas r).service input item service w' :=
  Replica.Worker.step_inv hworks.step

/-- The task after the step. -/
theorem workers_self (hworks : Works deps d r k input item service w w') :
    ((d.worked r k service w').replicas r).workers[k]? = some w' := by
  have hlt : k < (d.replicas r).workers.length := (List.getElem?_eq_some_iff.mp hworks.get).1
  show (Function.update d.replicas r _ r).workers[k]? = some w'
  rw [Function.update_self]
  exact List.getElem?_set_self hlt

/-- The other tasks after the step. -/
theorem workers_of_ne {r' : Fin n} {k' : ℕ} (hne : ¬ (r' = r ∧ k' = k)) :
    ((d.worked r k service w').replicas r').workers[k']? = (d.replicas r').workers[k']? := by
  show (Function.update d.replicas r _ r').workers[k']? = _
  by_cases hr : r' = r
  · subst hr
    have hk : k ≠ k' := fun heq => hne ⟨rfl, heq.symm⟩
    rw [Function.update_self]
    exact List.getElem?_set_ne hk
  · rw [Function.update_of_ne hr]

/-- The step is one of the replica. -/
theorem exec (hworks : Works deps d r k input item service w w') (hR : Refines deps mocks T O d c)
    (i : Fin n) : (Replica.lts deps.replica).Exec (.new (mocks i))
      (Function.update T r (traceAfter T r k input item) i) ((d.worked r k service w').replicas i) := by
  have hstep : (Replica.lts deps.replica).step (d.replicas r) (.run k input)
      (item.map fun item => (k, item)) ⟨service, (d.replicas r).workers.set k w'⟩ := by
    show Replica.step deps.replica (d.replicas r) (.run k input) = _
    simp only [Replica.step, hworks.get, hworks.step, Option.map_some]
  exact PointUpdates.forall_update_update
    (P := fun i τ s => (Replica.lts deps.replica).Exec (.new (mocks i)) τ s)
    ((hR.exec r).snoc trivial hstep) hR.exec i

/-- The call of another task. -/
theorem carried_of_ne (hcarried : Carried deps.replica (mocks l.replica) (T l.replica) l h req wire v)
    (hne : ¬ (l.replica = r ∧ l.worker = k)) :
    Carried deps.replica (mocks l.replica) (Function.update T r (traceAfter T r k input item) l.replica) l
      h req wire v := by
  by_cases hr : l.replica = r
  · subst hr
    have hk : k ≠ l.worker := fun heq => hne ⟨rfl, heq.symm⟩
    rw [Function.update_self]
    refine hcarried.concat (fun x hx => ?_) (if_neg hk)
    obtain ⟨-, -, rfl⟩ := Option.map_eq_some_iff.mp hx
    exact hk
  · rw [Function.update_of_ne hr]
    exact hcarried

end Works

/-- A link to a task is that of its caller. -/
theorem Refines.link_iff (hR : Refines deps mocks T O d c) {t : ℕ} (hl : d.links t = some l) :
    l.replica = r ∧ l.worker = k ↔ t = d.callers r k ∧ d.linked r k = true := by
  constructor
  · rintro ⟨rfl, rfl⟩
    exact ⟨(hR.caller t l hl).symm, hR.linked_of_link hl⟩
  · rintro ⟨rfl, hyes⟩
    obtain ⟨l', hl', hr, hk⟩ := linked_eq_true_iff.mp hyes
    obtain rfl : l' = l := Option.some_inj.mp (hl'.symm.trans hl)
    exact ⟨hr, hk⟩

/-- **A step of a task of a replica keeps the relation**, if the cluster serves what is taken.

**Proof sketch.** The replica takes a step of its own run. The call of the task that steps is
`Carried.work`, and the other calls have neither other tasks nor other answers. -/
theorem Refines.work (hR : Refines deps mocks T O d c)
    (hworks : Works deps d r k input item service w w') (hrouter : c'.router = c.router)
    (hrequests : c'.requests = c.requests)
    (hreplicas : c'.replicas =
      Function.update c.replicas r (Replica.serveItem deps.replica (c.replicas r) item))
    (hwires : ∀ t, t ≠ d.callers r k ∨ d.linked r k = false → c'.wires t = c.wires t)
    (hown : ∀ l, d.links (d.callers r k) = some l → l.replica = r → l.worker = k →
      c'.wires (d.callers r k) = (w'.reply deps.replica (mocks r) (traceAfter T r k input item) k).drop l.taken)
    {O' : List ((Fin n × ℕ) × ℕ × Fin n × ModelInferRequest)}
    (hO : ∀ x ∈ O, x.1 ≠ (r, k) → x ∈ O')
    (hself : ∀ rq, w'.pending = some rq → d.linked r k = false → ((r, k), d.callers r k, r, rq) ∈ O')
    (hstrays : (d.strays ++ O'.map Prod.snd).Subperm c'.strays) :
    Refines deps mocks (Function.update T r (traceAfter T r k input item)) O' (d.worked r k service w') c' where
  router := hrouter.trans hR.router
  requests := hrequests.trans hR.requests
  exec := hworks.exec hR
  replicas := by
    rw [hreplicas]
    apply PointUpdates.forall_update_update
      (P := fun i S τ => S = Replica.sequential deps.replica (mocks i) τ) _ hR.replicas
    rw [hR.replicas, Replica.sequential, Replica.sequential, Replica.taken_append, Replay.state_append,
      Replay.state_toList]
    rfl
  unlinked t h ht hasks hl := by
    have hnot : t ≠ d.callers r k ∨ d.linked r k = false := by
      by_cases heq : t = d.callers r k
      · subst heq
        have hnone : d.links (d.callers r k) = none := hl
        exact .inr (by rw [linked, hnone]; rfl)
      · exact .inl heq
    rw [hwires t hnot]
    exact hR.unlinked t h ht hasks hl
  caller := hR.caller
  carried t l hl := by
    obtain ⟨h, v, ht, hasks, hv, hcarried⟩ := hR.carried t l hl
    by_cases hthis : l.replica = r ∧ l.worker = k
    · -- the task that steps
      obtain ⟨rfl, rfl⟩ := hthis
      obtain rfl : v = w := Option.some_inj.mp (hv.symm.trans hworks.get)
      obtain ⟨rfl, hyes⟩ := (hR.link_iff hl).mp ⟨rfl, rfl⟩
      refine ⟨h, w', ht, hasks, hworks.workers_self, ?_⟩
      rw [Function.update_self]
      exact hcarried.work hworks.effect (hyes ▸ hworks.moves) (hown l hl rfl rfl)
    · have hwire : c'.wires t = c.wires t := by
        apply hwires
        by_contra hboth
        obtain ⟨heq, hyes⟩ := not_or.mp hboth
        exact hthis ((hR.link_iff hl).mpr ⟨not_ne_iff.mp heq, by simpa using hyes⟩)
      rw [hwire]
      exact ⟨h, v, ht, hasks, (Works.workers_of_ne hthis).trans hv, Works.carried_of_ne hcarried hthis⟩
  orphans r' k' v rq hv hpending hnot := by
    by_cases hthis : r' = r ∧ k' = k
    · obtain ⟨rfl, rfl⟩ := hthis
      obtain rfl : v = w' := Option.some_inj.mp (hv.symm.trans hworks.workers_self)
      exact hself rq hpending hnot
    · rw [Works.workers_of_ne hthis] at hv
      exact hO _ (hR.orphans r' k' v rq hv hpending hnot) fun heq => hthis (Prod.mk.inj heq)
  strays := hstrays

/-- What is part of a list, with one element, still is when the element is removed from the list. -/
theorem subperm_eraseIdx {α : Type*} {l l' : List α} {x : α} {i : ℕ} (h : (x :: l).Subperm l')
    (hi : l'[i]? = some x) : l.Subperm (l'.eraseIdx i) := by
  obtain ⟨hlt, rfl⟩ := List.getElem?_eq_some_iff.mp hi
  have hperm : (l'[i] :: l'.eraseIdx i).Perm l' := List.getElem_cons_eraseIdx_perm hlt
  exact (List.subperm_cons _).mp (h.trans hperm.symm.subperm)

/-- **A step in which a task of a replica takes a request**, at which the cluster serves it.

**Proof sketch.** If the task is awaited, its request is on the way in the cluster, and is served there;
the answer is on the way from then on. Otherwise the request is astray in the cluster, and is served there
as well. -/
theorem Refines.take (hR : Refines deps mocks T O d c) [Mul F] [Sub F] [LT F] [DecidableLT F] [ScoreArith F]
    {rq : ModelInferRequest} (hworks : Works deps d r k input (some (.ok rq)) service w w') :
    ∃ a c' O', ((∃ t, a = .serve t) ∨ ∃ i, a = .serveStray i) ∧
      (Cluster.lts F n deps).step c a
        (.served (d.callers r k) r ((d.replicas r).service.prefill deps.encode rq).1) c' ∧
      Refines deps mocks (Function.update T r (traceAfter T r k input (some (.ok rq)))) O'
        (d.worked r k service w') c' := by
  have hget := hworks.get
  obtain ⟨hpending, hpending'⟩ := (Replica.Worker.pending_step hworks.effect).1 rq rfl
  have hprefill : ((d.replicas r).service.prefill deps.encode rq).1 =
      ((c.replicas r).prefill deps.encode rq).1 := by
    rw [hR.replicas]
    exact (Replica.linear_of_run (hR.exec r)).alike.prefill_fst deps.encode rq
  rw [hprefill]
  cases hlinked : d.linked r k with
  | true =>
    obtain ⟨l, hl, rfl, rfl⟩ := linked_eq_true_iff.mp hlinked
    obtain ⟨h, ht, -, hcarried⟩ := hR.carried_of hl hget
    obtain ⟨hreq, hcallee, htaken⟩ := hcarried.pending rq hpending
    obtain ⟨hof, hwire⟩ := hR.wire_of_pending hl hget hpending
    refine ⟨.serve (d.callers l.replica l.worker),
      { c with
        replicas := Function.update c.replicas l.replica ((c.replicas l.replica).prefill deps.encode rq).2
        wires := Function.update c.wires (d.callers l.replica l.worker)
          (MockTriton.answer deps (c.replicas l.replica) rq h) }, O, .inl ⟨_, rfl⟩, ?_, ?_⟩
    · show Cluster.step deps c (.serve _) = _
      simp [Cluster.step, hR.handler_eq, hR.requests, ht, hreq, hwire, hcallee]
    · refine hR.work hworks (by rfl) (by rfl) (by rfl) (fun t ht => ?_) (fun l' hl' _ _ => ?_)
        (fun _ hx _ => hx) (fun rq' hrq' => by simp [hpending'] at hrq') hR.strays
      · exact Function.update_of_ne (ht.resolve_right (by simp [hlinked])) _ _
      · obtain rfl : l = l' := Option.some_inj.mp (hl.symm.trans hl')
        show Function.update c.wires _ _ _ = _
        rw [htaken, Wire.drop_zero, Function.update_self, traceAfter, Option.map_some,
          Replica.Worker.reply_concat_self hof, hR.replicas]
        cases hcarried.starts.work hworks.effect <;> rfl
  | false =>
    have hmem := hR.orphans r k w rq hget hpending hlinked
    obtain ⟨i, hi⟩ := List.getElem?_of_mem
      (hR.strays.subset (List.mem_append_right _ (List.mem_map_of_mem hmem)))
    refine ⟨.serveStray i,
      { c with
        replicas := Function.update c.replicas r ((c.replicas r).prefill deps.encode rq).2
        strays := c.strays.eraseIdx i }, O.erase ((r, k), d.callers r k, r, rq), .inr ⟨_, rfl⟩, ?_, ?_⟩
    · show Cluster.step deps c (.serveStray _) = _
      simp [Cluster.step, hi]
    · refine hR.work hworks (by rfl) (by rfl) (by rfl) (fun t _ => by rfl) (fun l hl hr hk => ?_)
        (fun x hx hne => ?_) (fun rq' hrq' => by simp [hpending'] at hrq') ?_
      · simp [linked_eq_true_iff.mpr ⟨l, hl, hr, hk⟩] at hlinked
      · exact (List.mem_erase_of_ne fun heq => hne (by rw [heq])).mpr hx
      · -- one request less is astray in both
        have hO : (O.map Prod.snd).Perm
            ((d.callers r k, r, rq) :: (O.erase ((r, k), d.callers r k, r, rq)).map Prod.snd) :=
          (List.perm_cons_erase hmem).map Prod.snd
        have hd := List.perm_middle.symm.trans (hO.symm.append_left d.strays)
        exact subperm_eraseIdx (hd.subperm.trans hR.strays) hi

/-- **A step in which a task of a replica takes no request**, which the cluster does not see.

**Proof sketch.** An item that is an error changes nothing, and comes only if the task is not awaited. -/
theorem Refines.work_silent (hR : Refines deps mocks T O d c)
    (hworks : Works deps d r k input item service w w') (hitem : ∀ rq, item ≠ some (.ok rq)) :
    Refines deps mocks (Function.update T r (traceAfter T r k input item)) O (d.worked r k service w') c := by
  have heffect := hworks.effect
  have hmoves := hworks.moves
  obtain ⟨-, herror, hnone⟩ := Replica.Worker.pending_step heffect
  have hserve : Replica.serveItem deps.replica (c.replicas r) item = c.replicas r := by
    rcases item with _ | status | rq
    · rfl
    · rfl
    · exact absurd rfl (hitem rq)
  refine hR.work hworks rfl rfl (by rw [hserve, Function.update_eq_self]) (fun _ _ => rfl)
    (fun l hl hr hk => ?_) (fun _ hx _ => hx) (fun rq hrq hlinked => ?_) hR.strays
  · have hlinked := linked_eq_true_iff.mpr ⟨l, hl, hr, hk⟩
    subst hr hk
    obtain ⟨h, -, -, hcarried⟩ := hR.carried_of hl hworks.get
    rcases item with _ | status | rq
    · rw [hcarried.wire, traceAfter, Option.map_none, Replica.Worker.reply_concat_of_ne (by simp),
        hcarried.starts.reply_eq (hcarried.starts.work heffect)]
    · rw [(herror status rfl).1, hlinked] at hmoves
      cases hmoves
    · exact absurd rfl (hitem rq)
  · rcases item with _ | status | rq'
    · rcases hnone rfl rq hrq with hold | hinput
      · exact hR.orphans r k w rq hworks.get hold hlinked
      · rw [hinput] at hmoves
        cases hmoves
    · simp [(herror status rfl).2] at hrq
    · exact absurd rfl (hitem rq')

end Work

/-! ## The arrival of a request -/

section Arrival

variable {r : Fin n} {h : Handler n MockResponse} {rq : ModelInferRequest}

/-- The arrival of a request, in the trace of its replica. -/
def arrivals (rq : ModelInferRequest) (k : ℕ) : Handler n MockResponse → ReplicaTrace
  | .unary _ => [(.spawnCall rq, none)]
  | .stream _ => [(.spawnStream, none), (.run k (.recv (some (.ok rq))), none)]

/-- Nothing is taken at an arrival. -/
theorem taken_arrivals (τ : ReplicaTrace) (rq : ModelInferRequest) (k : ℕ)
    (h : Handler n MockResponse) : Replica.taken (τ ++ arrivals rq k h) = Replica.taken τ := by
  cases h <;> simp [Replica.taken, arrivals]

/-- What is received at an arrival. -/
theorem received_arrivals (τ : ReplicaTrace) (rq : ModelInferRequest) (k k' : ℕ)
    (h : Handler n MockResponse) : Replica.received (τ ++ arrivals rq k h) k' =
      Replica.received τ k' ++ Replica.received (arrivals rq k h) k' := by
  rw [Replica.received, List.filterMap_append]
  rfl

/-- **An arrival is a part of a run of the replica.** -/
theorem exec_arrivals {deps : ReplicaDeps} {cfg : MockConfig} {τ : ReplicaTrace} {s : Replica}
    (hrun : (Replica.lts deps).Exec (.new cfg) τ s) (rq : ModelInferRequest)
    (h : Handler n MockResponse) :
    (Replica.lts deps).Exec (.new cfg) (τ ++ arrivals rq s.workers.length h)
      { s with workers := s.workers ++ [h.worker rq] } := by
  cases h with
  | unary pc => exact hrun.snoc trivial rfl
  | stream t =>
    have hopened : (Replica.lts deps).Exec (.new cfg) (τ ++ [(.spawnStream, none)])
        { s with workers := s.workers ++ [.stream .reading [] true] } := hrun.snoc trivial rfl
    have hreceived : Replica.step deps { s with workers := s.workers ++ [.stream .reading [] true] }
        (.run s.workers.length (.recv (some (.ok rq)))) =
          some (none, { s with workers := s.workers ++ [.stream (.preparing rq) [] true] }) := by
      simp [Replica.step, Replica.Worker.step]
    have hboth := hopened.snoc trivial hreceived
    rw [List.append_assoc] at hboth
    exact hboth

/-- The call of a task that was there before the arrival. -/
theorem Carried.arrivals {deps : ReplicaDeps} {cfg : MockConfig} {τ : ReplicaTrace} {l : Link n}
    {h' : Handler n MockResponse} {req : Option ModelInferRequest} {wire : Wire} {w : Replica.Worker}
    {k : ℕ} (hcarried : Carried deps cfg τ l h' req wire w) (hne : k ≠ l.worker) :
    Carried deps cfg (τ ++ arrivals rq k h) l h' req wire w := by
  cases h with
  | unary pc => exact hcarried.concat (by simp) rfl
  | stream s =>
    have hopened : Carried deps cfg (τ ++ [(.spawnStream, none)]) l h' req wire w :=
      hcarried.concat (by simp) rfl
    have hboth := hopened.concat (a := .run k (.recv (some (.ok rq)))) (e := none) (by simp) (if_neg hne)
    rw [List.append_assoc] at hboth
    exact hboth

/-- The call of the task that is started.

**Proof sketch.** Its task has taken nothing and has received the one request, since nothing of the run
before is about it. -/
theorem Carried.arrived {deps : ReplicaDeps} {cfg : MockConfig} {τ : ReplicaTrace} {s : Replica}
    (hlinear : Replica.Linear deps cfg τ s) (hcallee : h.callee = some r) :
    Carried deps cfg (τ ++ Deployment.arrivals rq s.workers.length h) ⟨r, s.workers.length, 0⟩ h (some rq)
      .empty (h.worker rq) := by
  obtain ⟨hfresh, hreceived⟩ := hlinear.fresh s.workers.length le_rfl
  refine ⟨.worker rq h, ?_, fun pc out rx heq => ?_, fun rq' hpending => ?_⟩
  · cases h with
    | unary pc =>
      simp only [Handler.worker, Replica.Worker.reply, Replica.results, taken_arrivals]
      rw [Replay.answers_eq_nil _ _ _ _ hfresh]
      rfl
    | stream t =>
      simp only [Handler.worker, Replica.Worker.reply, taken_arrivals]
      rw [Replay.of_eq_nil _ hfresh]
      rfl
  · cases h with
    | unary pc => cases heq
    | stream t =>
      rw [received_arrivals, hreceived]
      simp [Deployment.arrivals, Replica.received, Replica.Action.receives, Replica.Input.item]
  · cases h with
    | unary pc =>
      obtain rfl := Option.some_inj.mp hpending
      exact ⟨rfl, hcallee, rfl⟩
    | stream t =>
      obtain rfl := Option.some_inj.mp hpending
      exact ⟨rfl, hcallee, rfl⟩

/-- The callers of the tasks that were there before the arrival. -/
theorem callers_accept {t k : ℕ} {r' : Fin n} {w : Replica.Worker}
    (hk : k < (d.replicas r').workers.length) : (d.accept r t w).callers r' k = d.callers r' k := by
  show Function.update d.callers r _ r' k = _
  by_cases hr : r' = r
  · subst hr
    rw [Function.update_self, Function.update_of_ne hk.ne]
  · rw [Function.update_of_ne hr]

/-- The caller of the new task. -/
theorem callers_accept_self (d : Deployment F n) (r : Fin n) (t : ℕ) (w : Replica.Worker) :
    (d.accept r t w).callers r (d.replicas r).workers.length = t := by
  show Function.update d.callers r _ r _ = t
  rw [Function.update_self, Function.update_self]

/-- The tasks that were there before the arrival. -/
theorem workers_accept {t k : ℕ} {r' : Fin n} {w v : Replica.Worker}
    (hv : (d.replicas r').workers[k]? = some v) :
    ((d.accept r t w).replicas r').workers[k]? = some v := by
  have hlt : k < (d.replicas r').workers.length := (List.getElem?_eq_some_iff.mp hv).1
  show (Function.update d.replicas r _ r').workers[k]? = some v
  by_cases hr : r' = r
  · subst hr
    rw [Function.update_self]
    exact (List.getElem?_append_left hlt).trans hv
  · rw [Function.update_of_ne hr]
    exact hv

/-- The new task. -/
theorem workers_accept_self (d : Deployment F n) (r : Fin n) (t : ℕ) (w : Replica.Worker) :
    ((d.accept r t w).replicas r).workers[(d.replicas r).workers.length]? = some w := by
  show (Function.update d.replicas r _ r).workers[_]? = some w
  rw [Function.update_self]
  exact List.getElem?_concat_length

/-- A task after the arrival was there before, or is the new one. -/
theorem workers_accept_inv {t k : ℕ} {r' : Fin n} {w v : Replica.Worker}
    (hv : ((d.accept r t w).replicas r').workers[k]? = some v) :
    (d.replicas r').workers[k]? = some v ∨ r' = r ∧ k = (d.replicas r).workers.length ∧ v = w := by
  have hafter : (Function.update d.replicas r
      { d.replicas r with workers := (d.replicas r).workers ++ [w] } r').workers[k]? = some v := hv
  by_cases hr : r' = r
  · subst hr
    rw [Function.update_self] at hafter
    rcases System.getElem?_concat_inv hafter with hbefore | ⟨hk, hw⟩
    · exact .inl hbefore
    · exact .inr ⟨rfl, hk, hw⟩
  · rw [Function.update_of_ne hr] at hafter
    exact .inl hafter

/-- **The arrival of a request keeps the relation.**

**Proof sketch.** The tasks that were there before are as before, with their traces and callers. The new
one is awaited, or its request is astray in the cluster. -/
theorem Refines.arrive (hR : Refines deps mocks T O d c) {t : ℕ} {links : ℕ → Option (Link n)}
    {strays : List (ℕ × Fin n × ModelInferRequest)}
    {O' : List ((Fin n × ℕ) × ℕ × Fin n × ModelInferRequest)}
    (hlinks : ∀ i, links i = d.links i ∨ i = t ∧ d.links t = none ∧
      links t = some ⟨r, (d.replicas r).workers.length, 0⟩ ∧ d.handler t = some h ∧
      h.callee = some r ∧ d.requests t = some rq)
    (hO : ∀ x ∈ O, x ∈ O')
    (hnew : links t ≠ some ⟨r, (d.replicas r).workers.length, 0⟩ →
      ((r, (d.replicas r).workers.length), t, r, rq) ∈ O')
    (hstrays : (strays ++ O'.map Prod.snd).Subperm c.strays) :
    Refines deps mocks
      (Function.update T r (T r ++ arrivals rq (d.replicas r).workers.length h)) O'
      { d.accept r t (h.worker rq) with links := links, strays := strays } c where
  router := hR.router
  requests := hR.requests
  exec := PointUpdates.forall_update_update
    (P := fun i τ s => (Replica.lts deps.replica).Exec (.new (mocks i)) τ s)
    (exec_arrivals (hR.exec r) rq h) hR.exec
  replicas i := by
    by_cases hi : i = r
    · subst hi
      rw [Function.update_self, Replica.sequential, taken_arrivals]
      exact hR.replicas i
    · rw [Function.update_of_ne hi]
      exact hR.replicas i
  unlinked i hd hi hasks hl := by
    rcases hlinks i with heq | ⟨rfl, -, hsome, -⟩
    · exact hR.unlinked i hd hi hasks (heq ▸ hl)
    · cases hsome.symm.trans hl
  caller i l hl := by
    rcases hlinks i with heq | ⟨rfl, -, hsome, -⟩
    · have hbefore : d.links i = some l := heq ▸ hl
      obtain ⟨-, w, -, -, hw, -⟩ := hR.carried i l hbefore
      have hcaller := callers_accept (r := r) (t := t) (w := h.worker rq)
        (List.getElem?_eq_some_iff.mp hw).1
      exact hcaller.trans (hR.caller i l hbefore)
    · obtain rfl := Option.some_inj.mp (hsome.symm.trans hl)
      exact callers_accept_self d r i (h.worker rq)
  carried i l hl := by
    rcases hlinks i with heq | ⟨rfl, hnone, hsome, hget, hcallee, hreq⟩
    · obtain ⟨h', w, hget, hasks, hw, hcarried⟩ := hR.carried i l (heq ▸ hl)
      refine ⟨h', w, hget, hasks, workers_accept (t := t) (w := h.worker rq) hw, ?_⟩
      by_cases hr : l.replica = r
      · subst hr
        rw [Function.update_self]
        exact hcarried.arrivals (List.getElem?_eq_some_iff.mp hw).1.ne'
      · rw [Function.update_of_ne hr]
        exact hcarried
    · obtain rfl := Option.some_inj.mp (hsome.symm.trans hl)
      obtain ⟨hasks, -, -⟩ := Handler.asks_of_callee hcallee
      refine ⟨h, h.worker rq, hget, hasks, workers_accept_self d r i _, ?_⟩
      show Carried deps.replica (mocks r) (Function.update T r _ r) _ h (d.requests i) (c.wires i) _
      rw [Function.update_self, hreq, hR.unlinked i h hget (by simp [hasks]) hnone]
      exact Carried.arrived (Replica.linear_of_run (hR.exec r)) hcallee
  orphans r' k w rq' hw hpending hnot := by
    rcases workers_accept_inv (t := t) hw with hbefore | ⟨rfl, rfl, rfl⟩
    · have hcaller := callers_accept (r := r) (t := t) (w := h.worker rq)
        (List.getElem?_eq_some_iff.mp hbefore).1
      show ((r', k), (d.accept r t (h.worker rq)).callers r' k, r', rq') ∈ O'
      rw [hcaller]
      apply hO
      apply hR.orphans r' k w rq' hbefore hpending
      -- a task that is awaited before is awaited after the arrival
      by_contra hlinked
      obtain ⟨l, hl, hr, hk⟩ := linked_eq_true_iff.mp (by simpa using hlinked)
      rcases hlinks (d.callers r' k) with heq | ⟨hcall, hnone, -⟩
      · refine Bool.noConfusion (hnot.symm.trans (linked_eq_true_iff.mpr ⟨l, ?_, hr, hk⟩))
        exact (congrArg links hcaller).trans (heq.trans hl)
      · rw [hcall, hnone] at hl
        cases hl
    · have hrq : rq' = rq := by cases h <;> exact (Option.some_inj.mp hpending).symm
      have hcaller := callers_accept_self d r' t (h.worker rq)
      show ((r', (d.replicas r').workers.length),
        (d.accept r' t (h.worker rq)).callers r' (d.replicas r').workers.length, r', rq') ∈ O'
      rw [hcaller, hrq]
      apply hnew
      intro hsome
      refine Bool.noConfusion (hnot.symm.trans (linked_eq_true_iff.mpr
        ⟨⟨r', (d.replicas r').workers.length, 0⟩, ?_, rfl, rfl⟩))
      exact (congrArg links hcaller).trans hsome
  strays := hstrays

end Arrival

end Deployment
