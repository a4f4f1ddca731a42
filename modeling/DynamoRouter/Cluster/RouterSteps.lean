import DynamoRouter.Cluster.Awaited

set_option relaxedAutoImplicit false
set_option autoImplicit false

/-!
# The steps of the router in a deployment

A task of the router steps in the same way in a deployment and in the cluster that it refines. As long as
it asks its replica it keeps its link; when it lets go of the call, its request goes astray in both, or the
task of the replica that has not taken the request is awaited by nobody from now on.

## Main definitions

* `Deployment.Steps` — a step of a task of the router, in the deployment and in the cluster.

## Main results

* `Deployment.Steps.carried`, `Deployment.Steps.unlinked` — the call of the task that steps.
* `Deployment.Refines.routed`, `Deployment.Refines.delivered`, `Deployment.Refines.failed` — the steps of
  the router keep the relation.
-/

open Protocol

namespace Deployment

variable {F : Type} {n : ℕ} {deps : ClusterDeps} {mocks : Fin n → MockConfig} {T : Fin n → ReplicaTrace}
  {O : List ((Fin n × ℕ) × ℕ × Fin n × ModelInferRequest)} {d d' : Deployment F n} {c c' : Cluster F n}

section Router

variable [Mul F] [Sub F] [LT F] [DecidableLT F] [ScoreArith F]

/-- A step of task `t` of the router, in the deployment and in the cluster. -/
structure Steps (deps : ClusterDeps) (d d' : Deployment F n) (c c' : Cluster F n) (t : ℕ)
    (input : Input MockResponse) (h h' : Handler n MockResponse) (wire : Wire) : Prop where
  /-- The step of the cluster. -/
  ran : Cluster.Ran c c' t input h h' wire
  /-- The step of the handler. -/
  step : ∃ es inner, h.step deps.toDeps d.router.inner t input = some (es, inner, h')
  /-- An item is taken off the wire. -/
  item : input.isItem = true → wire = (c.wires t).drop 1
  /-- The router after the step. -/
  router : c'.router = d'.router
  /-- The links after the step. -/
  links : d'.links = kept d'.router (d.linksAfter t input)
  /-- The requests after the step. -/
  requests : c'.requests = d'.requests
  /-- The callers are as before. -/
  callers : d'.callers = d.callers
  /-- The replicas of the cluster are as before. -/
  replicas : c'.replicas = c.replicas
  /-- So are those of the deployment. -/
  replicas' : d'.replicas = d.replicas

namespace Steps

variable {t : ℕ} {input : Input MockResponse} {h h' : Handler n MockResponse} {wire : Wire}

/-- The handlers after the step. -/
theorem handler_eq (hstep : Steps deps d d' c c' t input h h' wire) (hR : Refines deps mocks T O d c)
    (i : ℕ) : d'.handler i = if i = t then some h' else d.handler i := by
  rw [handler, ← hstep.router, ← hR.handler_eq]
  exact hstep.ran.handler_eq i

/-- The handler before the step. -/
theorem get (hstep : Steps deps d d' c c' t input h h' wire) (hR : Refines deps mocks T O d c) :
    d.handler t = some h :=
  (hR.handler_eq t).symm.trans hstep.ran.get

/-- The links of the other tasks. -/
theorem links_of_ne (hstep : Steps deps d d' c c' t input h h' wire) (hR : Refines deps mocks T O d c)
    {i : ℕ} (hi : i ≠ t) : d'.links i = d.links i := by
  have hafter : d.linksAfter t input i = d.links i := Function.update_of_ne hi _ _
  have hget := hstep.handler_eq hR i
  rw [handler, if_neg hi] at hget
  rw [hstep.links, kept, hget, hafter]
  rcases hl : d.links i with _ | l
  · exact ite_self _
  · obtain ⟨h₀, -, hget₀, hasks₀, -⟩ := hR.carried i l hl
    rw [hget₀, Option.bind_some, hasks₀]
    rfl

/-- The link of the task, if it still asks a replica. -/
theorem links_self (hstep : Steps deps d d' c c' t input h h' wire) (hR : Refines deps mocks T O d c) :
    d'.links t = if h'.asks.isSome then (d.links t).map fun l => l.after input else none := by
  have hget := hstep.handler_eq hR t
  rw [handler, if_pos rfl] at hget
  rw [hstep.links, kept, hget, Option.bind_some, linksAfter, Function.update_self]

/-- The requests and the wires of the other tasks. -/
theorem of_ne (hstep : Steps deps d d' c c' t input h h' wire) (hR : Refines deps mocks T O d c)
    {i : ℕ} (hi : i ≠ t) : d'.requests i = d.requests i ∧ c'.wires i = c.wires i := by
  constructor
  · rw [← hstep.requests, hstep.ran.requests, Function.update_of_ne hi, hR.requests]
  · rw [hstep.ran.wires, Function.update_of_ne hi]

/-- A task that still asks asks the same replica, and its request and its wire are not let go of. -/
theorem asks_eq (hstep : Steps deps d d' c c' t input h h' wire) (hbefore : h.asks.isSome)
    (hasks : h'.asks.isSome) :
    h'.asks = h.asks ∧ (input.keepsWire = true ∨ input.isItem = true) := by
  obtain ⟨es, inner, hrun⟩ := hstep.step
  refine ⟨?_, ?_⟩
  · cases Handler.ask_of_step hrun with
    | picked _ _ _ _ _ _ _ hnone => simp [hnone] at hbefore
    | released _ _ _ _ hafter => simp [hafter] at hasks
    | kept _ _ _ _ _ hkept => exact hkept
  · by_contra hnot
    obtain ⟨hk, hi⟩ := not_or.mp hnot
    have hclear := (Handler.trail_of_step hrun).clear (by simpa using hk) (by simpa using hi)
    simp [hclear] at hasks

/-- **A call that is still awaited.**

**Proof sketch.** The input keeps the wire, or takes an item off it. In the first case the handler awaits
the answer as before (`Handler.callee_of_step`). In the second one the wire was not empty, so that the
request is taken. -/
theorem carried (hstep : Steps deps d d' c c' t input h h' wire) (hR : Refines deps mocks T O d c)
    {l : Link n} (hl : d.links t = some l) (hasks : h'.asks.isSome) :
    h'.asks = some l.replica ∧ d'.requests t = d.requests t ∧
      ∃ w, (d.replicas l.replica).workers[l.worker]? = some w ∧
        Carried deps.replica (mocks l.replica) (T l.replica) (l.after input) h' (d.requests t) (c'.wires t)
          w := by
  obtain ⟨es, inner, hrun⟩ := hstep.step
  obtain ⟨h₀, w, hget, hasked, hw, hcarried⟩ := hR.carried t l hl
  obtain rfl : h₀ = h := Option.some_inj.mp (hget.symm.trans (hstep.get hR))
  obtain ⟨hsame, hinput⟩ := hstep.asks_eq (by simp [hasked]) hasks
  have hrequest : d'.requests t = d.requests t := by
    rw [← hstep.requests, hstep.ran.requests, Function.update_self, hR.requests]
    cases input <;> first | rfl | simp [Input.keepsWire, Input.isItem] at hinput
  have hwire : c'.wires t = wire := by rw [hstep.ran.wires, Function.update_self]
  refine ⟨hsame.trans hasked, hrequest, w, hw, ?_⟩
  rw [hwire]
  cases hi : input.isItem with
  | true =>
    refine ⟨hcarried.starts.step hrun, ?_, hcarried.received, fun rq hpending => ?_⟩
    · rw [hstep.item hi, hcarried.wire]
      show ((w.reply deps.replica (mocks l.replica) (T l.replica) l.worker).drop l.taken).drop 1 =
        (w.reply deps.replica (mocks l.replica) (T l.replica) l.worker).drop (l.taken + input.isItem.toNat)
      generalize w.reply deps.replica (mocks l.replica) (T l.replica) l.worker = whole
      cases whole <;> simp [Wire.drop, hi]
    · exact absurd (hR.wire_of_pending hl hw hpending).2 (hstep.ran.item hi).2
  | false =>
    have hk : input.keepsWire = true := hinput.resolve_right (by simp [hi])
    have hsame : l.after input = l := by rw [Link.after, hi]; rfl
    rw [hsame]
    refine ⟨hcarried.starts.step hrun, (hstep.ran.keep hk).trans hcarried.wire, hcarried.received,
      fun rq hpending => ?_⟩
    obtain ⟨hreq, hcallee, htaken⟩ := hcarried.pending rq hpending
    exact ⟨hreq, Handler.callee_of_step hcallee hk hrun, htaken⟩

/-- **Nothing is on its way to a task that has no link**, and asks a replica.

**Proof sketch.** Where a replica is picked, nothing can be on its way. Otherwise the task asked before, so
that its wire was empty, and no item was taken off it. -/
theorem unlinked (hstep : Steps deps d d' c c' t input h h' wire) (hR : Refines deps mocks T O d c)
    (hs : c.Sound deps.toDeps) (hl : d.links t = none) (hasks : h'.asks.isSome) : c'.wires t = .empty := by
  obtain ⟨es, inner, hrun⟩ := hstep.step
  rw [hstep.ran.wires, Function.update_self]
  rcases hasked : h.asks with _ | r
  · cases Handler.ask_of_step hrun with
    | picked _ _ _ _ _ _ hun =>
      rw [hstep.ran.keep rfl]
      exact (hs.task t h hstep.ran.get).unanswered hun
    | released _ _ _ _ hafter => simp [hafter] at hasks
    | kept _ _ _ _ _ hkept => simp [hkept, hasked] at hasks
  · have hempty := hR.unlinked t h (hstep.get hR) (by simp [hasked]) hl
    rcases (hstep.asks_eq (by simp [hasked]) hasks).2 with hk | hi
    · exact (hstep.ran.keep hk).trans hempty
    · exact absurd hempty (hstep.ran.item hi).2

/-- **A task that lets go of a call whose request is not taken**, gives the call up.

**Proof sketch.** It awaited the answer, and would go on to do so if the input kept the wire; and no item
was on the wire to be taken. -/
theorem strays_of_pending (hstep : Steps deps d d' c c' t input h h' wire)
    (hR : Refines deps mocks T O d c) {l : Link n} {w : Replica.Worker} {rq : ModelInferRequest}
    (hl : d.links t = some l) (hw : (d.replicas l.replica).workers[l.worker]? = some w)
    (hpending : w.pending = some rq) (hasks : h'.asks = none) :
    input.keepsWire = false ∧ input.isItem = false ∧ h.asks = some l.replica ∧ c.wires t = .empty ∧
      c.stray t = [(t, l.replica, rq)] := by
  obtain ⟨es, inner, hrun⟩ := hstep.step
  obtain ⟨h₀, hget, hasked, hcarried⟩ := hR.carried_of hl hw
  obtain rfl : h₀ = h := Option.some_inj.mp (hget.symm.trans (hstep.get hR))
  obtain ⟨hreq, hcallee, -⟩ := hcarried.pending rq hpending
  have hwire := (hR.wire_of_pending hl hw hpending).2
  have hk : input.keepsWire = false := by
    by_contra hk
    have hafter := Handler.callee_of_step hcallee (by simpa using hk) hrun
    simp [(Handler.asks_of_callee hafter).1] at hasks
  have hi : input.isItem = false := by
    by_contra hi
    exact (hstep.ran.item (by simpa using hi)).2 hwire
  have hwaiting := Cluster.waiting_eq_some hstep.ran.get hasked hwire
    ((congrFun hR.requests t).trans hreq)
  exact ⟨hk, hi, hasked, hwire, by rw [Cluster.stray, hwaiting]; rfl⟩

/-- What is awaited after the step, was before. -/
theorem linked_or (hstep : Steps deps d d' c c' t input h h' wire) (hR : Refines deps mocks T O d c)
    {r : Fin n} {k : ℕ} (hlinked : d.linked r k = true) :
    d'.linked r k = true ∨ h'.asks = none ∧ ∃ l, d.links t = some l ∧ l.replica = r ∧ l.worker = k := by
  obtain ⟨l, hl, hr, hk⟩ := linked_eq_true_iff.mp hlinked
  by_cases ht : d.callers r k = t
  · rw [ht] at hl
    rcases hasks : h'.asks with _ | r'
    · exact .inr ⟨rfl, l, hl, hr, hk⟩
    · refine .inl (linked_eq_true_iff.mpr ⟨l.after input, ?_, hr, hk⟩)
      rw [hstep.callers, ht, hstep.links_self hR, hasks, hl]
      rfl
  · exact .inl (linked_eq_true_iff.mpr
      ⟨l, by rw [hstep.callers, hstep.links_of_ne hR ht, hl], hr, hk⟩)

/-- What goes astray in the cluster, if the call has not arrived, goes astray in the deployment. -/
theorem stray_eq (hstep : Steps deps d d' c c' t input h h' wire) (hR : Refines deps mocks T O d c)
    (hl : d.links t = none) : d.stray t = c.stray t := by
  have hget := hstep.get hR
  have hwire : d.wire t = .empty := by rw [Deployment.wire, hl]
  have hview : d.view.waiting t = Cluster.onItsWay h.asks .empty (d.requests t) := by
    show Cluster.onItsWay ((d.handler t).bind Handler.asks) (d.wire t) (d.requests t) = _
    rw [hget, Option.bind_some, hwire]
  have hwaiting : c.waiting t = Cluster.onItsWay h.asks .empty (d.requests t) := by
    rw [Cluster.waiting, hstep.ran.get, Option.bind_some, hR.requests]
    rcases hasks : h.asks with _ | r
    · rw [Cluster.onItsWay_none, Cluster.onItsWay_none]
    · rw [hR.unlinked t h hget (by simp [hasks]) hl]
  rw [stray, hl, Option.isNone_none, if_pos rfl, Cluster.stray, Cluster.stray, hview, hwaiting]

/-- A step of a task of the router keeps the relation, if the requests that go astray are accounted for.

**Proof sketch.** The tasks other than the one that stepped are as before. The one that stepped has no
link any more, or has its call as before (`Steps.carried`), or had none (`Steps.unlinked`). A task of a
replica that is awaited no more was awaited by the one that stepped (`Steps.linked_or`). -/
theorem refines (hstep : Steps deps d d' c c' t input h h' wire) (hR : Refines deps mocks T O d c)
    (hs : c.Sound deps.toDeps) {O' : List ((Fin n × ℕ) × ℕ × Fin n × ModelInferRequest)}
    (hO : ∀ x ∈ O, x ∈ O')
    (hlost : ∀ l w rq, d.links t = some l → (d.replicas l.replica).workers[l.worker]? = some w →
      w.pending = some rq → h'.asks = none → ((l.replica, l.worker), t, l.replica, rq) ∈ O')
    (hstrays : (d'.strays ++ O'.map Prod.snd).Subperm c'.strays) : Refines deps mocks T O' d' c' where
  router := hstep.router
  requests := hstep.requests
  exec r := hstep.replicas' ▸ hR.exec r
  replicas r := hstep.replicas ▸ hR.replicas r
  unlinked i hd hi hasks hl := by
    rw [hstep.handler_eq hR] at hi
    by_cases hit : i = t
    · subst hit
      rw [if_pos rfl] at hi
      obtain rfl := Option.some_inj.mp hi
      rw [hstep.links_self hR, if_pos hasks, Option.map_eq_none_iff] at hl
      exact hstep.unlinked hR hs hl hasks
    · rw [if_neg hit] at hi
      rw [hstep.links_of_ne hR hit] at hl
      rw [(hstep.of_ne hR hit).2]
      exact hR.unlinked i hd hi hasks hl
  caller i l' hl := by
    rw [hstep.callers]
    by_cases hit : i = t
    · subst hit
      rw [hstep.links_self hR] at hl
      split_ifs at hl
      obtain ⟨l, hl₀, rfl⟩ := Option.map_eq_some_iff.mp hl
      exact hR.caller i l hl₀
    · exact hR.caller i l' (hstep.links_of_ne hR hit ▸ hl)
  carried i l' hl := by
    rw [hstep.replicas', hstep.handler_eq hR]
    by_cases hit : i = t
    · subst hit
      rw [hstep.links_self hR] at hl
      split_ifs at hl with hasks
      obtain ⟨l, hl₀, rfl⟩ := Option.map_eq_some_iff.mp hl
      obtain ⟨hasked, hrequest, w, hw, hcarried⟩ := hstep.carried hR hl₀ hasks
      rw [hrequest]
      exact ⟨h', w, if_pos rfl, hasked, hw, hcarried⟩
    · obtain ⟨hrequest, hwire⟩ := hstep.of_ne hR hit
      rw [if_neg hit, hrequest, hwire]
      exact hR.carried i l' (hstep.links_of_ne hR hit ▸ hl)
  orphans r k w rq hw hpending hnot := by
    rw [hstep.replicas'] at hw
    rw [hstep.callers]
    cases hlinked : d.linked r k with
    | false => exact hO _ (hR.orphans r k w rq hw hpending hlinked)
    | true =>
      obtain ⟨hasks, l, hl, rfl, rfl⟩ := (hstep.linked_or hR hlinked).resolve_left (by simp [hnot])
      rw [hR.caller t l hl]
      exact hlost l w rq hl hw hpending hasks
  strays := hstrays

/-- **A step in which a task gives up its call.**

**Proof sketch.** If the call had not arrived, its request goes astray in both. Otherwise it goes astray in
the cluster, if it is not taken, and the task of the replica that has it is an orphan. -/
theorem refines_lost (hstep : Steps deps d d' c c' t input h h' wire) (hR : Refines deps mocks T O d c)
    (hs : c.Sound deps.toDeps) (hstrays : c'.strays = c.strays ++ c.stray t)
    (hstrays' : d'.strays = d.strays ++ d.stray t) : ∃ O', Refines deps mocks T O' d' c' := by
  rcases hl : d.links t with _ | l
  · refine ⟨O, hstep.refines hR hs (fun _ hx => hx) (fun l _ _ hl' => by simp [hl] at hl') ?_⟩
    rw [hstrays, hstrays', hstep.stray_eq hR hl, List.append_assoc]
    have hswap : (d.strays ++ (c.stray t ++ O.map Prod.snd)).Perm
        ((d.strays ++ O.map Prod.snd) ++ c.stray t) := by
      rw [List.append_assoc]
      exact (List.perm_append_comm).append_left _
    exact (hswap.subperm).trans ((List.subperm_append_right _).mpr hR.strays)
  · refine ⟨O ++ (c.stray t).map fun x => ((l.replica, l.worker), x), hstep.refines hR hs
      (fun _ hx => List.mem_append_left _ hx) (fun l' w rq hl' hw hpending hasks => ?_) ?_⟩
    · obtain rfl : l = l' := Option.some_inj.mp (hl.symm.trans hl')
      obtain ⟨-, -, -, -, hstray⟩ := hstep.strays_of_pending hR hl hw hpending hasks
      rw [hstray]
      exact List.mem_append_right _ (List.mem_singleton_self _)
    · have hnone : d.stray t = [] := by rw [stray, hl]; rfl
      rw [hstrays, hstrays', hnone, List.append_nil, List.map_append, List.map_map, ← List.append_assoc]
      have hsnd : (c.stray t).map (Prod.snd ∘ fun x => ((l.replica, l.worker), x)) = c.stray t :=
        List.map_id _
      rw [hsnd]
      exact (List.subperm_append_right _).mpr hR.strays

/-- **A step in which no call is given up.** -/
theorem refines_kept (hstep : Steps deps d d' c c' t input h h' wire) (hR : Refines deps mocks T O d c)
    (hs : c.Sound deps.toDeps) (hstrays : c'.strays = c.strays) (hstrays' : d'.strays = d.strays)
    (hclear : input.keepsWire = false → input.isItem = false → c.wires t ≠ .empty ∨ h.asks = none) :
    Refines deps mocks T O d' c' := by
  refine hstep.refines hR hs (fun _ hx => hx) (fun l w rq hl hw hpending hasks => ?_) ?_
  · obtain ⟨hk, hi, hasked, hwire, -⟩ := hstep.strays_of_pending hR hl hw hpending hasks
    rcases hclear hk hi with hne | hnone
    · exact absurd hwire hne
    · simp [hnone] at hasked
  · rw [hstrays, hstrays']
    exact hR.strays

end Steps

end Router

/-! ## The relation after a step of the router -/

/-- A step of the router in which no task steps: a call arrives, or the prober is at work.

**Proof sketch.** The tasks that have a link ask a replica, so that they are not the new one, and keep
their links. -/
theorem Refines.quiet (hR : Refines deps mocks T O d c) {router : System F n MockResponse}
    {requests : ℕ → Option ModelInferRequest}
    (hold : ∀ i h, d.handler i = some h → router.handlers[i]? = some h ∧ requests i = d.requests i)
    (hnew : ∀ i h, router.handlers[i]? = some h → d.handler i = some h ∨ h.asks = none) :
    Refines deps mocks T O
      { d with router := router, requests := requests, links := kept router d.links }
      { c with router := router, requests := requests } := by
  have hkept : ∀ i l, d.links i = some l → kept router d.links i = some l := fun i l hl => by
    obtain ⟨h, -, hget, hasks, -⟩ := hR.carried i l hl
    rw [kept, (hold i h hget).1, Option.bind_some, hasks]
    exact hl
  have hlinks : ∀ i l, kept router d.links i = some l → d.links i = some l := fun i l hl => by
    rw [kept] at hl
    split_ifs at hl
    exact hl
  have hnone : ∀ i, kept router d.links i = none → d.links i = none := fun i hl => by
    by_contra hsome
    obtain ⟨l, hl'⟩ := Option.ne_none_iff_exists'.mp hsome
    cases (hkept i l hl').symm.trans hl
  exact
    { router := rfl
      requests := rfl
      exec := hR.exec
      replicas := hR.replicas
      unlinked := by
        intro i h hget hasks hl
        rcases hnew i h hget with hbefore | hnot
        · exact hR.unlinked i h hbefore hasks (hnone i hl)
        · simp [hnot] at hasks
      caller := fun i l hl => hR.caller i l (hlinks i l hl)
      carried := by
        intro i l hl
        obtain ⟨h, w, hget, hasks, hw, hcarried⟩ := hR.carried i l (hlinks i l hl)
        refine ⟨h, w, (hold i h hget).1, hasks, hw, ?_⟩
        show Carried _ _ _ _ _ (requests i) _ _
        rw [(hold i h hget).2]
        exact hcarried
      orphans := by
        intro r k w rq hw hpending hnot
        apply hR.orphans r k w rq hw hpending
        by_contra hlinked
        obtain ⟨l, hl, hr, hk⟩ := linked_eq_true_iff.mp (by simpa using hlinked)
        exact Bool.noConfusion (hnot.symm.trans (linked_eq_true_iff.mpr ⟨l, hkept _ l hl, hr, hk⟩))
      strays := hR.strays }

/-- The requests after a step of the router are those of the cluster. -/
theorem Refines.requestsAfter_eq (hR : Refines deps mocks T O d c) (act : Act n MockResponse) :
    c.requestsAfter act = d.view.requestsAfter act := by
  unfold Cluster.requestsAfter
  rw [hR.requests, hR.router]
  rfl

/-- The links of a task that takes no item. -/
theorem linksAfter_of_not_item {t : ℕ} {input : Input MockResponse} (hitem : input.isItem = false) :
    d.linksAfter t input = d.links := by
  have hsame : (fun l : Link n => l.after input) = id := by
    funext l
    rw [Link.after, hitem]
    rfl
  rw [linksAfter, hsame, Option.map_id, id, Function.update_eq_self]

section Run

variable [Mul F] [Sub F] [LT F] [DecidableLT F] [ScoreArith F]

/-- **A step of the router's own.**

**Proof sketch.** A new task asks no replica, and the prober leaves the tasks alone. A step of a task is one
in which it gives up its call if it is dropped, and keeps it otherwise. -/
theorem Refines.routed (hR : Refines deps mocks T O d c) (hs : c.Sound deps.toDeps)
    {act : Act n MockResponse} {es : List (Event n)} {router : System F n MockResponse}
    (hact : act.fromUpstream = false)
    (hstep : (System.lts F n MockResponse deps.toDeps).step d.router act es router) :
    ∃ O', Refines deps mocks T O'
      { d with
        router := router
        requests := d.view.requestsAfter act
        links := kept router d.links
        strays := d.straysAfter act }
      { c with
        router := router
        requests := c.requestsAfter act
        wires := c.wiresAfter act
        strays := c.straysAfter act } := by
  have hrequests := hR.requestsAfter_eq act
  cases System.step_inv hstep with
  | spawned _ hd hspawns =>
    have hquiet : Refines deps mocks T O
        { d with
          router := { d.router with handlers := d.router.handlers ++ [hd] }
          requests := d.view.requestsAfter act
          links := kept { d.router with handlers := d.router.handlers ++ [hd] } d.links }
        { c with
          router := { d.router with handlers := d.router.handlers ++ [hd] }
          requests := d.view.requestsAfter act } := by
      refine hR.quiet (fun i h hget => ?_) fun i h hget => ?_
      · have hlt : i < d.router.handlers.length := (List.getElem?_eq_some_iff.mp hget).1
        refine ⟨(List.getElem?_append_left hlt).trans hget, ?_⟩
        cases act <;> cases hspawns
        · exact Function.update_of_ne hlt.ne _ _
        · rfl
      · rcases System.getElem?_concat_inv hget with hbefore | ⟨-, rfl⟩
        · exact .inl hbefore
        · exact .inr (by cases act <;> cases hspawns <;> rfl)
    rw [hrequests]
    refine ⟨O, ?_⟩
    cases act <;> cases hspawns <;> exact hquiet
  | ran t input _ inner h h' hget hrun =>
    have hitem : input.isItem = false := by
      cases input <;> first | rfl | cases hact
    have hget' : c.handler t = some h := (hR.handler_eq t).trans hget
    have hran := @Cluster.ran_routed F n c t input h h' inner hget' hact (c.straysAfter (.run t input))
    rw [hR.router] at hran
    have hsteps : Steps deps d
        { d with
          router := { d.router with inner := inner, handlers := d.router.handlers.set t h' }
          requests := d.view.requestsAfter (.run t input)
          links := kept { d.router with inner := inner, handlers := d.router.handlers.set t h' } d.links
          strays := d.straysAfter (.run t input) } c
        { c with
          router := { d.router with inner := inner, handlers := d.router.handlers.set t h' }
          requests := c.requestsAfter (.run t input)
          wires := c.wiresAfter (.run t input)
          strays := c.straysAfter (.run t input) } t input h h' (Cluster.ownWire (c.wires t) input) :=
      { ran := hran
        step := ⟨_, inner, hrun⟩
        item := fun hi => by simp [hitem] at hi
        router := rfl
        links := by rw [linksAfter_of_not_item hitem]
        requests := hrequests
        callers := rfl
        replicas := rfl
        replicas' := rfl }
    cases input with
    | drop => exact hsteps.refines_lost hR hs rfl rfl
    | recv item =>
      exact ⟨O, hsteps.refines_kept hR hs rfl rfl fun _ _ =>
        .inr ((Handler.trail_of_step hrun).idle item rfl).2.2⟩
    | tick | disconnect => exact ⟨O, hsteps.refines_kept hR hs rfl rfl fun hk => by cases hk⟩
    | _ => cases hact
  | probed results =>
    rw [hrequests]
    exact ⟨O, hR.quiet (fun i h hget => ⟨hget, rfl⟩) fun i h hget => .inl hget⟩
  | published count =>
    rw [hrequests]
    exact ⟨O, hR.quiet (fun i h hget => ⟨hget, rfl⟩) fun i h hget => .inl hget⟩

/-- **A task takes what is next of its answer.**

**Proof sketch.** What was sent is the first part of what is on the wire (`Refines.wire_shows`), so that the
task takes the same in the cluster. -/
theorem Refines.delivered (hR : Refines deps mocks T O d c) (hs : c.Sound deps.toDeps) {t : ℕ}
    {h : Handler n MockResponse} {input : Input MockResponse} {wire : Wire} {es : List (Event n)}
    {router : System F n MockResponse} (hget : d.handler t = some h)
    (htakes : h.takes (d.wire t) = some (input, wire))
    (hstep : (System.lts F n MockResponse deps.toDeps).step d.router (.run t input) es router) :
    ∃ c', (Cluster.lts F n deps).step c (.deliver t) (.router (.run t input) es) c' ∧
      Refines deps mocks T O { d with router := router, links := kept router (d.linksAfter t input) } c' := by
  obtain ⟨wire', htakes', hitem⟩ := Handler.takes_of_shows (hR.wire_shows t) htakes
  have hget' : c.handler t = some h := (hR.handler_eq t).trans hget
  have htaken := Handler.taken_of_takes htakes'
  refine ⟨{ c with router := router, wires := Function.update c.wires t wire' }, ?_, ?_⟩
  · have hrouter : c.router.step deps.toDeps (.run t input) = some (es, router) := hR.router ▸ hstep
    show Cluster.step deps c (.deliver t) = _
    simp only [Cluster.step, hget', Option.bind_some, htakes', hrouter, Option.map_some]
  · rw [← hR.router] at hstep
    obtain ⟨inner, h', hrun, rfl⟩ := Cluster.run_inv hget' hstep
    have hran := @Cluster.ran_delivered F n c t input h h' inner wire' hget' htaken
    rw [hR.router] at hrun hran ⊢
    have hsteps : Steps deps d
        { d with
          router := { d.router with inner := inner, handlers := d.router.handlers.set t h' }
          links := kept { d.router with inner := inner, handlers := d.router.handlers.set t h' }
            (d.linksAfter t input) } c
        { c with
          router := { d.router with inner := inner, handlers := d.router.handlers.set t h' }
          wires := Function.update c.wires t wire' } t input h h' wire' :=
      { ran := hran
        step := ⟨es, inner, hrun⟩
        item := hitem
        router := rfl
        links := rfl
        requests := hR.requests
        callers := rfl
        replicas := rfl
        replicas' := rfl }
    refine hsteps.refines_kept hR hs rfl rfl fun hk hi => .inl ?_
    generalize c.wires t = whole at htaken ⊢
    cases htaken <;> simp [Input.keepsWire, Input.isItem] at hk hi ⊢

/-- **A call fails.**

**Proof sketch.** A call fails in the deployment where it can fail in the cluster, and the task gives it
up in both (`Steps.refines_lost`). -/
theorem Refines.failed (hR : Refines deps mocks T O d c) (hs : c.Sound deps.toDeps) {t : ℕ}
    {h : Handler n MockResponse} {status : Status} {input : Input MockResponse} {es : List (Event n)}
    {router : System F n MockResponse} (hget : d.handler t = some h)
    (hfailure : h.failure status = some input)
    (hstep : (System.lts F n MockResponse deps.toDeps).step d.router (.run t input) es router) :
    ∃ c' O', (Cluster.lts F n deps).step c (.fail t status) (.router (.run t input) es) c' ∧
      Refines deps mocks T O'
        { d with router := router, links := kept router d.links, strays := d.strays ++ d.stray t } c' := by
  have hget' : c.handler t = some h := (hR.handler_eq t).trans hget
  have hitem := (Handler.failure_inv hfailure).2.1
  have hrouter : c.router.step deps.toDeps (.run t input) = some (es, router) := hR.router ▸ hstep
  have hcluster : (Cluster.lts F n deps).step c (.fail t status) (.router (.run t input) es)
      { c with
        router := router
        wires := Function.update c.wires t .empty
        strays := c.strays ++ c.stray t } := by
    show Cluster.step deps c (.fail t status) = _
    simp only [Cluster.step, hget', Option.bind_some, hfailure, hrouter, Option.map_some]
  rw [← hR.router] at hstep
  obtain ⟨inner, h', hrun, rfl⟩ := Cluster.run_inv hget' hstep
  have hran := @Cluster.ran_failed F n c t input h h' inner status hget' hfailure (c.strays ++ c.stray t)
  rw [hR.router] at hrun hran hcluster ⊢
  have hsteps : Steps deps d
      { d with
        router := { d.router with inner := inner, handlers := d.router.handlers.set t h' }
        links := kept { d.router with inner := inner, handlers := d.router.handlers.set t h' } d.links
        strays := d.strays ++ d.stray t } c
      { c with
        router := { d.router with inner := inner, handlers := d.router.handlers.set t h' }
        wires := Function.update c.wires t .empty
        strays := c.strays ++ c.stray t } t input h h' .empty :=
    { ran := hran
      step := ⟨es, inner, hrun⟩
      item := fun hi => by simp [hitem] at hi
      router := rfl
      links := by rw [linksAfter_of_not_item hitem]
      requests := hR.requests
      callers := rfl
      replicas := rfl
      replicas' := rfl }
  obtain ⟨O', hR'⟩ := hsteps.refines_lost hR hs rfl rfl
  exact ⟨_, O', hcluster, hR'⟩

end Run

end Deployment
