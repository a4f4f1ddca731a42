import DynamoRouter.Cluster.Answers
import DynamoRouter.Loadgen.Replay

set_option relaxedAutoImplicit false
set_option autoImplicit false

/-!
# The benchmark

The load generator, the router that it calls, and the replicas behind the router. The load generator is the
only client. Each of its requests is a unary call to the router; the response is on its way to it as soon
as the call has ended, and the connection may break at any time, whatever has become of the call.

## Main definitions

* `Benchmark.step`, `Benchmark.lts` — one step of any part.
* `Benchmark.genTrace`, `Benchmark.clusterTrace`, `Benchmark.responded` — the parts of a trace.
* `Benchmark.Inv`, `Benchmark.Unbroken` — what holds in every run, and in runs without broken connections.

## Main results

* `Benchmark.gen_of_run`, `Benchmark.cluster_of_run` — the parts take runs of their own.
* `Benchmark.report_le_of_run`, `Benchmark.report_of_run` — what is printed, and what the replicas counted.
-/

open Protocol Loadgen

/-! ## The requests of the load generator -/

/-- A text survives its encoding. -/
theorem fromUTF8?_toUTF8 (text : String) : String.fromUTF8? text.toUTF8 = some text :=
  dif_pos text.isValidUTF8

/-- **Both sides read the prompt of the load generator.** -/
theorem extractText_inferRequest (text : String) :
    RouterInner.extractText (inferRequest text) = .ok text ∧
      MockTriton.extractText (inferRequest text) = .ok text := by
  constructor
  · simp only [RouterInner.extractText, inferRequest, List.find?, beq_self_eq_true, Option.some_or,
      Option.bind_some, List.head?_cons, fromUTF8?_toUTF8]
  · simp only [MockTriton.extractText, inferRequest, Option.bind_some, List.head?_cons,
      fromUTF8?_toUTF8]

/-- Both sides hash that prompt. -/
theorem promptHashes_inferRequest (deps : Deps) (text : String) :
    (RouterInner.promptHashes deps (inferRequest text)).toOption = deps.textHashes text ∧
      (MockTriton.promptHashes deps.encode (inferRequest text)).toOption = deps.textHashes text := by
  obtain ⟨hrouter, hreplica⟩ := extractText_inferRequest text
  constructor
  · rw [toOption_promptHashes_router, ← toOption_extractText_router, hrouter]
    rfl
  · rw [toOption_promptHashes_replica, ← toOption_extractText_replica, hreplica]
    rfl

/-- The router and the replicas hash the same prompt. -/
theorem samePrompt_inferRequest (deps : Deps) (text : String) : SamePrompt deps (inferRequest text) :=
  (promptHashes_inferRequest deps text).1.trans (promptHashes_inferRequest deps text).2.symm

/-- A step of the cluster that a client takes: a call or a stream comes, or the next item of a stream. -/
def Cluster.Action.ofClient {n : ℕ} : Cluster.Action n → Bool
  | .router (.run _ (.recv _)) => true
  | .router act => act.spawns.isSome
  | _ => false

/-! ## The handlers of the router -/

namespace Cluster

variable {F : Type} {n : ℕ} [Mul F] [Sub F] [LT F] [DecidableLT F] [ScoreArith F]
  {deps : ClusterDeps} {s s' : Cluster F n} {a : Action n} {e : Seen n}

omit [Mul F] [Sub F] [LT F] [DecidableLT F] [ScoreArith F] in
/-- A step that no client takes brings no request. -/
theorem Action.brings_eq_none (h : a.ofClient = false) : a.brings = none := by
  cases a with
  | router act =>
    cases act with
    | run t input => cases input <;> first | rfl | cases h
    | spawnUnary | spawnStream => cases h
    | probe | publish => rfl
  | _ => rfl

/-- A unary call that arrives gets a handler of its own. -/
theorem handlers_spawnUnary {req : ModelInferRequest}
    (h : (lts F n deps).step s (.router (.spawnUnary req)) e s') :
    s'.router.handlers = s.router.handlers ++ [.unary (.start req)] := by
  cases step_inv h with
  | routed act es router hact hrouter =>
    cases hrouter
    rfl

/-- A step of the router that no client takes, moves one handler at most. -/
theorem handlers_router {act : Act n MockResponse} {es : List (Event n)}
    {router : System F n MockResponse} (hspawns : act.spawns = none)
    (h : (System.lts F n MockResponse deps.toDeps).step s.router act es router) :
    router.handlers = s.router.handlers ∨ ∃ t hd hd' input es' inner, s.handler t = some hd ∧
      hd.step deps.toDeps s.router.inner t input = some (es', inner, hd') ∧
      router.handlers = s.router.handlers.set t hd' := by
  cases System.step_inv h with
  | spawned _ hd hact =>
    rw [hspawns] at hact
    cases hact
  | ran t input _ inner hd hd' hget hstep =>
    exact .inr ⟨t, hd, hd', input, es, inner, hget, hstep, rfl⟩
  | probed | published => exact .inl rfl

/-- **A step that no client takes, moves one handler at most.** -/
theorem handlers_step (hclient : a.ofClient = false) (h : (lts F n deps).step s a e s') :
    s'.router.handlers = s.router.handlers ∨ ∃ t hd hd' input es inner, s.handler t = some hd ∧
      hd.step deps.toDeps s.router.inner t input = some (es, inner, hd') ∧
      s'.router.handlers = s.router.handlers.set t hd' := by
  cases step_inv h with
  | routed act es router hact hrouter =>
    refine handlers_router ?_ hrouter
    cases act with
    | run | probe | publish => rfl
    | spawnUnary | spawnStream => cases hclient
  | served | servedStray => exact .inl rfl
  | delivered _ _ _ _ _ _ _ _ hrouter => exact handlers_router rfl hrouter
  | failed _ _ _ _ _ _ _ _ hrouter => exact handlers_router rfl hrouter

/-- A step that no client takes leaves unary calls what they are, and those that are over as they are.

**Proof sketch.** A step that no client takes moves one handler at most (`Cluster.handlers_step`). A unary
call stays one, and a call that is over takes no step. -/
theorem handler_step (hclient : a.ofClient = false) (h : (lts F n deps).step s a e s') :
    s'.router.handlers.length = s.router.handlers.length ∧
      ((∀ hd ∈ s.router.handlers, hd.isUnary = true) → ∀ hd ∈ s'.router.handlers, hd.isUnary = true) ∧
      ∀ t result, s.handler t = some (.unary (.done result)) →
        s'.handler t = some (.unary (.done result)) := by
  rcases handlers_step hclient h with heq | ⟨t, hd, hd', input, es, inner, hget, hstep, heq⟩
  · simp only [handler, heq]
    exact ⟨trivial, fun hall => hall, fun _ _ hdone => hdone⟩
  · rw [heq]
    refine ⟨List.length_set, fun hall x hx => ?_, fun i result hi => ?_⟩
    · rcases List.mem_or_eq_of_mem_set hx with hx | rfl
      · exact hall x hx
      · have hunary := hall hd (List.mem_of_getElem? hget)
        rcases Handler.step_inv hstep with ⟨_, _, rfl, rfl, -⟩ | ⟨_, _, rfl, -, -⟩
        · rfl
        · cases hunary
    · rw [handler, heq, System.getElem?_set_handlers hget, if_neg ?_]
      · exact hi
      · -- a call that is over takes no step
        rintro rfl
        obtain rfl := Option.some_inj.mp (hget.symm.trans hi)
        simp [Handler.step, UnaryPc.step] at hstep

end Cluster

/-- The load generator and what it measures. -/
structure Benchmark (F : Type) (n : ℕ) where
  /-- The load generator. -/
  gen : Replay
  /-- The router and its replicas. -/
  cluster : Cluster F n
  /-- The call to the router that each conversation waits for. -/
  calls : ℕ → Option ℕ

namespace Benchmark

variable {F : Type} {n : ℕ}

/-- A step of the benchmark. -/
inductive Action (n : ℕ)
  /-- The load generator takes a step of its own; it may send a request. -/
  | gen (a : Replay.Action)
  /-- The router, a replica or the network takes a step. -/
  | cluster (a : Cluster.Action n)
  /-- A conversation gets its response. -/
  | respond (i : ℕ)
  /-- A conversation loses its connection. -/
  | lose (i : ℕ) (status : Status)

/-- What is seen of a step. -/
structure Seen (n : ℕ) where
  /-- The step of the load generator. -/
  gen : Option (Replay.Action × Option (ℕ × ModelInferRequest))
  /-- The step of the cluster. -/
  cluster : Option (Cluster.Action n × Cluster.Seen n)
  /-- The call whose response has arrived. -/
  responded : Option (ℕ × Except Status MockResponse)

/-- The benchmark at the start. -/
def new (concurrency : ℕ) (convs : List Conversation) (policy : Policy) (cfg : SchedulerConfig F)
    (mocks : Fin n → MockConfig) : Benchmark F n :=
  ⟨.new concurrency convs, .new policy cfg mocks, fun _ => none⟩

section Step

variable [Mul F] [Sub F] [LT F] [DecidableLT F] [ScoreArith F]

/-- One step of the load generator: a request that it sends is a call to the router. -/
def genStep (deps : ClusterDeps) (b : Benchmark F n) (a : Replay.Action) :
    Option (Seen n × Benchmark F n) :=
  match b.gen.step a with
  | none => none
  | some (none, gen) => some (⟨some (a, none), none, none⟩, { b with gen := gen })
  | some (some (i, req), gen) =>
    (b.cluster.step deps (.router (.spawnUnary req))).map fun r =>
      (⟨some (a, some (i, req)), some (.router (.spawnUnary req), r.1), none⟩,
        { gen := gen
          cluster := r.2
          calls := Function.update b.calls i (some b.cluster.router.handlers.length) })

/-- One step of the benchmark. -/
def step (deps : ClusterDeps) (b : Benchmark F n) : Action n → Option (Seen n × Benchmark F n)
  | .gen a => if a.isAnswer then none else b.genStep deps a
  | .cluster a =>
    if a.ofClient then none
    else (b.cluster.step deps a).map fun r =>
      (⟨none, some (a, r.1), none⟩, { b with cluster := r.2 })
  | .respond i =>
    match b.calls i with
    | none => none
    | some t =>
      match b.cluster.handler t with
      | some (.unary (.done result)) =>
        (b.gen.step (.answer i result)).map fun r =>
          (⟨some (.answer i result, r.1), none, some (t, result)⟩,
            { b with gen := r.2, calls := Function.update b.calls i none })
      | _ => none
  | .lose i status =>
    match b.calls i with
    | none => none
    | some _ => (b.gen.step (.answer i (.error status))).map fun r =>
        (⟨some (.answer i (.error status), r.1), none, none⟩,
          { b with gen := r.2, calls := Function.update b.calls i none })

/-- The benchmark as a transition system. -/
def lts (F : Type) (n : ℕ) [Mul F] [Sub F] [LT F] [DecidableLT F] [ScoreArith F]
    (deps : ClusterDeps) : Lts (Benchmark F n) (Action n) (Seen n) := .ofFun (step deps)

/-- All that a step can do. -/
inductive Effect (deps : ClusterDeps) (b : Benchmark F n) : Action n → Seen n → Benchmark F n → Prop
  /-- The load generator took a step of its own. -/
  | moved (a : Replay.Action) (gen : Replay) (hanswer : ∀ i, a.answerTo i = none)
      (hstep : Replay.lts.step b.gen a none gen) :
      Effect deps b (.gen a) ⟨some (a, none), none, none⟩ { b with gen := gen }
  /-- The load generator sent a request, and the router got it. -/
  | sent (a : Replay.Action) (i : ℕ) (req : ModelInferRequest) (gen : Replay) (e : Cluster.Seen n)
      (cluster : Cluster F n) (hanswer : ∀ i, a.answerTo i = none)
      (hstep : Replay.lts.step b.gen a (some (i, req)) gen)
      (hcluster : (Cluster.lts F n deps).step b.cluster (.router (.spawnUnary req)) e cluster) :
      Effect deps b (.gen a) ⟨some (a, some (i, req)), some (.router (.spawnUnary req), e), none⟩
        { gen := gen
          cluster := cluster
          calls := Function.update b.calls i (some b.cluster.router.handlers.length) }
  /-- The cluster took a step. -/
  | worked (a : Cluster.Action n) (e : Cluster.Seen n) (cluster : Cluster F n)
      (hclient : a.ofClient = false) (hstep : (Cluster.lts F n deps).step b.cluster a e cluster) :
      Effect deps b (.cluster a) ⟨none, some (a, e), none⟩ { b with cluster := cluster }
  /-- A response arrived. -/
  | responded (i t : ℕ) (result : Except Status MockResponse) (gen : Replay) (hcall : b.calls i = some t)
      (hget : b.cluster.handler t = some (.unary (.done result)))
      (hstep : Replay.lts.step b.gen (.answer i result) none gen) :
      Effect deps b (.respond i) ⟨some (.answer i result, none), none, some (t, result)⟩
        { b with gen := gen, calls := Function.update b.calls i none }
  /-- A connection was lost. -/
  | lost (i t : ℕ) (status : Status) (gen : Replay) (hcall : b.calls i = some t)
      (hstep : Replay.lts.step b.gen (.answer i (.error status)) none gen) :
      Effect deps b (.lose i status) ⟨some (.answer i (.error status), none), none, none⟩
        { b with gen := gen, calls := Function.update b.calls i none }

/-- An answer sends nothing. -/
theorem seen_of_answer {s s' : Replay} {i : ℕ} {result : Except Status MockResponse}
    {e : Option (ℕ × ModelInferRequest)} (h : Replay.lts.step s (.answer i result) e s') : e = none := by
  cases Replay.step_inv h <;> rfl

/-- Every step has one of the effects. -/
theorem step_inv {deps : ClusterDeps} {b b' : Benchmark F n} {a : Action n} {e : Seen n}
    (h : (lts F n deps).step b a e b') : Effect deps b a e b' := by
  rw [lts, Lts.ofFun_step] at h
  cases a with
  | gen a =>
    simp only [step] at h
    split_ifs at h with hisAnswer
    have hanswer : ∀ i, a.answerTo i = none := fun i => by
      cases a <;> first | rfl | exact absurd rfl hisAnswer
    rw [genStep] at h
    split at h
    · cases h
    · rename_i gen hstep
      cases h
      exact .moved a gen hanswer hstep
    · rename_i i req gen hstep
      obtain ⟨⟨e', cluster⟩, hcluster, heq⟩ := Option.map_eq_some_iff.mp h
      cases heq
      exact .sent a i req gen e' cluster hanswer hstep hcluster
  | cluster a =>
    simp only [step] at h
    split_ifs at h with hclient
    obtain ⟨⟨e', cluster⟩, hstep, heq⟩ := Option.map_eq_some_iff.mp h
    cases heq
    exact .worked a e' cluster (Bool.eq_false_iff.mpr hclient) hstep
  | respond i =>
    simp only [step] at h
    split at h
    · cases h
    · rename_i t hcall
      split at h
      · rename_i result hget
        obtain ⟨⟨e', gen⟩, hstep, heq⟩ := Option.map_eq_some_iff.mp h
        obtain rfl : e' = none := seen_of_answer hstep
        cases heq
        exact .responded i t result gen hcall hget hstep
      · cases h
  | lose i status =>
    simp only [step] at h
    split at h
    · cases h
    · rename_i t hcall
      obtain ⟨⟨e', gen⟩, hstep, heq⟩ := Option.map_eq_some_iff.mp h
      obtain rfl : e' = none := seen_of_answer hstep
      cases heq
      exact .lost i t status gen hcall hstep

end Step

/-! ## The parts of a run -/

/-- The load generator's part of a trace. -/
def genTrace (τ : List (Action n × Seen n)) : Replay.Trace := τ.filterMap fun x => x.2.gen

/-- The cluster's part of a trace. -/
def clusterTrace (τ : List (Action n × Seen n)) : List (Cluster.Action n × Cluster.Seen n) :=
  τ.filterMap fun x => x.2.cluster

/-- The calls whose responses have arrived, in order. -/
def responded (τ : List (Action n × Seen n)) : List (ℕ × Except Status MockResponse) :=
  τ.filterMap fun x => x.2.responded

/-- A step of a run in which nothing breaks: neither a connection of the load generator, nor a call of the
router. -/
def Action.Unbroken : Action n → Prop
  | .cluster a => a.loses = false
  | .lose _ _ => False
  | _ => True

/-- The guard can be decided. -/
instance (a : Action n) : Decidable a.Unbroken :=
  match a with
  | .cluster a => inferInstanceAs (Decidable (a.loses = false))
  | .lose _ _ => inferInstanceAs (Decidable False)
  | .gen _ => inferInstanceAs (Decidable True)
  | .respond _ => inferInstanceAs (Decidable True)

/-- One more step of a trace. -/
theorem genTrace_snoc (τ : List (Action n × Seen n)) (a : Action n) (e : Seen n) :
    genTrace (τ ++ [(a, e)]) = genTrace τ ++ e.gen.toList := by
  rw [genTrace, List.filterMap_append, genTrace]
  cases h : e.gen <;> simp [h]

/-- One more step of a trace. -/
theorem clusterTrace_snoc (τ : List (Action n × Seen n)) (a : Action n) (e : Seen n) :
    clusterTrace (τ ++ [(a, e)]) = clusterTrace τ ++ e.cluster.toList := by
  rw [clusterTrace, List.filterMap_append, clusterTrace]
  cases h : e.cluster <;> simp [h]

/-- One more step of a trace. -/
theorem responded_snoc (τ : List (Action n × Seen n)) (a : Action n) (e : Seen n) :
    responded (τ ++ [(a, e)]) = responded τ ++ e.responded.toList := by
  rw [responded, List.filterMap_append, responded]
  cases h : e.responded <;> simp [h]

section Runs

variable [Mul F] [Sub F] [LT F] [DecidableLT F] [ScoreArith F]

variable {deps : ClusterDeps} {concurrency : ℕ} {convs : List Conversation} {policy : Policy}
  {cfg : SchedulerConfig F} {mocks : Fin n → MockConfig}
  {ok : List (Action n × Seen n) → Benchmark F n → Action n → Prop}
  {τ : List (Action n × Seen n)} {b b' : Benchmark F n} {a : Action n} {e : Seen n}

/-- **The load generator of a benchmark is the load generator.** -/
theorem gen_of_run (h : (lts F n deps).Run ok (new concurrency convs policy cfg mocks) τ b) :
    Replay.lts.Exec (.new concurrency convs) (genTrace τ) b.gen :=
  Lts.Run.project (M := lts F n deps) Benchmark.gen (fun x => x.2.gen)
    (fun _ _ _ _ hstep => by
      cases step_inv hstep with
      | moved a gen _ hgen => exact .inl ⟨a, none, rfl, hgen⟩
      | sent a i req gen _ _ _ hgen => exact .inl ⟨a, some (i, req), rfl, hgen⟩
      | worked => exact .inr ⟨rfl, rfl⟩
      | responded i t result gen _ _ hgen => exact .inl ⟨.answer i result, none, rfl, hgen⟩
      | lost i t status gen _ hgen => exact .inl ⟨.answer i (.error status), none, rfl, hgen⟩) h

/-- **The cluster of a benchmark is a cluster**, and the calls that it gets are for the prompts of the
trace. -/
theorem cluster_of_run
    {ok' : List (Cluster.Action n × Cluster.Seen n) → Cluster F n → Cluster.Action n → Prop}
    (hok : ∀ τ b a, (lts F n deps).Run ok (new concurrency convs policy cfg mocks) τ b →
      ok τ b (.cluster a) → a.ofClient = false → ok' (clusterTrace τ) b.cluster a)
    (hspawn : ∀ τ (b : Benchmark F n), ∀ conv ∈ convs, ∀ text ∈ conv.turns,
      ok' (clusterTrace τ) b.cluster (.router (.spawnUnary (inferRequest text))))
    (h : (lts F n deps).Run ok (new concurrency convs policy cfg mocks) τ b) :
    (Cluster.lts F n deps).Run ok' (.new policy cfg mocks) (clusterTrace τ) b.cluster :=
  Lts.Run.project_on (M := lts F n deps) Benchmark.cluster (fun x => x.2.cluster)
    (fun τ b _ _ _ hrun hguard hstep => by
      cases step_inv hstep with
      | sent a i req gen e cluster _ hgen hcluster =>
        obtain ⟨conv, hconv, text, htext, rfl⟩ :=
          Replay.exists_turn_of_sent (Replay.inv_of_run (gen_of_run hrun)) hgen
        exact .inl ⟨_, e, rfl, hspawn τ b conv hconv text htext, hcluster⟩
      | worked a e cluster hclient hcluster =>
        exact .inl ⟨a, e, rfl, hok τ b a hrun hguard hclient, hcluster⟩
      | moved | responded | lost => exact .inr ⟨rfl, rfl⟩) h

/-- The cluster's part of any run. -/
theorem clusterExec_of_run (h : (lts F n deps).Run ok (new concurrency convs policy cfg mocks) τ b) :
    (Cluster.lts F n deps).Exec (.new policy cfg mocks) (clusterTrace τ) b.cluster :=
  cluster_of_run (fun _ _ _ _ _ _ => trivial) (fun _ _ _ _ _ _ => trivial) h

/-- The cluster's part of a run in which nothing breaks is calm, if the prompts have the property of the
calm run. -/
theorem calm_of_run {P : ModelInferRequest → Prop}
    (hP : ∀ conv ∈ convs, ∀ text ∈ conv.turns, P (inferRequest text))
    (h : (lts F n deps).Run (fun _ _ a => a.Unbroken) (new concurrency convs policy cfg mocks) τ b) :
    (Cluster.lts F n deps).Run (fun _ _ a => Cluster.Calm P a) (.new policy cfg mocks) (clusterTrace τ)
      b.cluster :=
  cluster_of_run
    (fun _ _ _ _ hok hclient => ⟨hok, fun req hreq => by
      rw [Cluster.Action.brings_eq_none hclient] at hreq
      cases hreq⟩)
    (fun _ _ conv hconv text htext => ⟨rfl, fun req hreq => by
      obtain rfl := Option.some_inj.mp hreq
      exact hP conv hconv text htext⟩) h

/-- The two sides read the same prompts. -/
theorem samePrompt_of_run
    (h : (lts F n deps).Run (fun _ _ a => a.Unbroken) (new concurrency convs policy cfg mocks) τ b) :
    (Cluster.lts F n deps).Run (fun _ _ a => Cluster.Calm (SamePrompt deps.toDeps) a)
      (.new policy cfg mocks) (clusterTrace τ) b.cluster :=
  calm_of_run (fun _ _ text _ => samePrompt_inferRequest deps.toDeps text) h

/-! ## Who waits for what -/

/-- **The invariant of a benchmark.** -/
structure Inv (τ : List (Action n × Seen n)) (b : Benchmark F n) : Prop where
  /-- All calls are unary. -/
  unary : ∀ h ∈ b.cluster.router.handlers, h.isUnary = true
  /-- A conversation with a call waits for an answer, and the call has not answered. -/
  calls : ∀ i t, b.calls i = some t →
    t < b.cluster.router.handlers.length ∧ t ∉ (responded τ).map Prod.fst ∧ b.gen.Awaits i
  /-- No two conversations wait for one call. -/
  inj : ∀ i j t, b.calls i = some t → b.calls j = some t → i = j
  /-- A call that has answered is over, with this answer. -/
  done : ∀ x ∈ responded τ, b.cluster.handler x.1 = some (.unary (.done x.2))
  /-- No call has answered twice. -/
  nodup : ((responded τ).map Prod.fst).Nodup

omit [Mul F] [Sub F] [LT F] [DecidableLT F] [ScoreArith F] in
/-- A call that has answered is one of the calls. -/
theorem Inv.lt_of_mem (h : Inv τ b) {t : ℕ} (ht : t ∈ (responded τ).map Prod.fst) :
    t < b.cluster.router.handlers.length := by
  obtain ⟨x, hx, rfl⟩ := List.mem_map.mp ht
  exact (List.getElem?_eq_some_iff.mp (h.done x hx)).1

omit [Mul F] [Sub F] [LT F] [DecidableLT F] [ScoreArith F] in
/-- A conversation that gets an answer has no call any more, and the others keep theirs. -/
theorem calls_update {i j t : ℕ} (h : Function.update b.calls i none j = some t) :
    j ≠ i ∧ b.calls j = some t := by
  by_cases hij : j = i
  · subst hij
    rw [Function.update_self] at h
    cases h
  · rw [Function.update_of_ne hij] at h
    exact ⟨hij, h⟩

omit [Mul F] [Sub F] [LT F] [DecidableLT F] [ScoreArith F] in
/-- A call goes on being waited for while the conversation is not answered. -/
theorem Inv.calls_of_answer (h : Inv τ b) {i j t : ℕ} {result : Except Status MockResponse}
    {gen : Replay} (hgen : Replay.lts.step b.gen (.answer i result) none gen)
    (hj : Function.update b.calls i none j = some t) :
    t < b.cluster.router.handlers.length ∧ t ∉ (responded τ).map Prod.fst ∧ gen.Awaits j := by
  obtain ⟨hji, hcall⟩ := calls_update hj
  obtain ⟨hlt, hfresh, hawaits⟩ := h.calls j t hcall
  exact ⟨hlt, hfresh, hawaits.step hgen (if_neg (Ne.symm hji))⟩

/-- **Every step keeps the invariant.**

**Proof sketch.** By the effects of a step. A request that is sent gets a call with a new number, which no
other conversation waits for and which has not answered. A step of the cluster leaves calls that are over
as they are (`Cluster.handler_step`). A response ends the wait of its conversation, and its call answers
for the first time, as a conversation waited for it; a lost connection ends the wait without an answer. -/
theorem Inv.step (h : Inv τ b) (hstep : (lts F n deps).step b a e b') : Inv (τ ++ [(a, e)]) b' := by
  cases step_inv hstep with
  | moved a gen hanswer hgen =>
    obtain ⟨hunary, hcalls, hinj, hdone, hnodup⟩ := h
    refine ⟨hunary, fun i t hcall => ?_, hinj, ?_, ?_⟩
    · obtain ⟨hlt, hfresh, hawaits⟩ := hcalls i t hcall
      rw [responded_snoc, Option.toList_none, List.append_nil]
      exact ⟨hlt, hfresh, hawaits.step hgen (hanswer i)⟩
    · rw [responded_snoc, Option.toList_none, List.append_nil]
      exact hdone
    · rw [responded_snoc, Option.toList_none, List.append_nil]
      exact hnodup
  | sent a i req gen e cluster hanswer hgen hcluster =>
    have hhandlers := Cluster.handlers_spawnUnary hcluster
    obtain ⟨hnot, hawaits⟩ := Replay.awaits_of_sent hgen
    have hlength : cluster.router.handlers.length = b.cluster.router.handlers.length + 1 := by
      rw [hhandlers, List.length_append, List.length_singleton]
    have hold : ∀ j t, j ≠ i → Function.update b.calls i (some b.cluster.router.handlers.length) j =
        some t → b.calls j = some t := fun j t hji hcall => by
      rwa [Function.update_of_ne hji] at hcall
    have hnew : ∀ t, Function.update b.calls i (some b.cluster.router.handlers.length) i = some t →
        t = b.cluster.router.handlers.length := fun t hcall => by
      rw [Function.update_self] at hcall
      exact (Option.some_inj.mp hcall).symm
    refine ⟨fun hd hmem => ?_, fun j t hcall => ?_, fun j k t hj hk => ?_, fun x hx => ?_, ?_⟩
    · rw [hhandlers] at hmem
      rcases List.mem_append.mp hmem with hmem | hmem
      · exact h.unary hd hmem
      · rw [List.mem_singleton.mp hmem]
        rfl
    · rw [responded_snoc, Option.toList_none, List.append_nil, hlength]
      by_cases hji : j = i
      · subst hji
        obtain rfl := hnew t hcall
        exact ⟨Nat.lt_succ_self _, fun hmem => absurd (h.lt_of_mem hmem) (lt_irrefl _), hawaits⟩
      · obtain ⟨hlt, hfresh, hj⟩ := h.calls j t (hold j t hji hcall)
        exact ⟨Nat.lt_succ_of_lt hlt, hfresh, hj.step hgen (hanswer j)⟩
    · -- the new call is none of the old ones
      by_cases hji : j = i <;> by_cases hki : k = i
      · rw [hji, hki]
      · subst hji
        obtain rfl := hnew t hj
        exact absurd (h.calls k _ (hold k _ hki hk)).1 (lt_irrefl _)
      · subst hki
        obtain rfl := hnew t hk
        exact absurd (h.calls j _ (hold j _ hji hj)).1 (lt_irrefl _)
      · exact h.inj j k t (hold j t hji hj) (hold k t hki hk)
    · rw [responded_snoc, Option.toList_none, List.append_nil] at hx
      have hget := h.done x hx
      rw [Cluster.handler, hhandlers, List.getElem?_append_left (List.getElem?_eq_some_iff.mp hget).1]
      exact hget
    · rw [responded_snoc, Option.toList_none, List.append_nil]
      exact h.nodup
  | worked a e cluster hclient hcluster =>
    obtain ⟨hlength, hunary, hdone⟩ := Cluster.handler_step hclient hcluster
    have hresponded : responded (τ ++ [(Action.cluster a, ⟨none, some (a, e), none⟩)]) = responded τ := by
      rw [responded_snoc, Option.toList_none, List.append_nil]
    refine ⟨hunary h.unary, fun i t hcall => ?_, h.inj, fun x hx => ?_, ?_⟩
    · rw [hresponded, hlength]
      exact h.calls i t hcall
    · rw [hresponded] at hx
      exact hdone x.1 x.2 (h.done x hx)
    · rw [hresponded]
      exact h.nodup
  | responded i t result gen hcall hget hgen =>
    have hresponded : responded (τ ++ [(Action.respond i, (⟨some (.answer i result, none), none,
        some (t, result)⟩ : Seen n))]) = responded τ ++ [(t, result)] := responded_snoc _ _ _
    have hfresh := (h.calls i t hcall).2.1
    refine ⟨h.unary, fun j t' hj => ?_, fun j k t' hj hk => ?_, fun x hx => ?_, ?_⟩
    · obtain ⟨hlt, hfresh', hawaits⟩ := h.calls_of_answer hgen hj
      rw [hresponded, List.map_append, List.mem_append, not_or, List.map_singleton, List.mem_singleton]
      refine ⟨hlt, ⟨hfresh', ?_⟩, hawaits⟩
      rintro rfl
      exact (calls_update hj).1 (h.inj j i _ (calls_update hj).2 hcall)
    · exact h.inj j k t' (calls_update hj).2 (calls_update hk).2
    · rw [hresponded, List.mem_append, List.mem_singleton] at hx
      rcases hx with hx | rfl
      · exact h.done x hx
      · exact hget
    · rw [hresponded, List.map_append, List.map_singleton, ← List.concat_eq_append]
      exact h.nodup.concat hfresh
  | lost i t status gen hcall hgen =>
    have hresponded : responded (τ ++ [(Action.lose i status, (⟨some (.answer i (.error status), none), none,
        none⟩ : Seen n))]) = responded τ := by
      rw [responded_snoc, Option.toList_none, List.append_nil]
    refine ⟨h.unary, fun j t' hj => ?_, fun j k t' hj hk => ?_, ?_, ?_⟩
    · rw [hresponded]
      exact h.calls_of_answer hgen hj
    · exact h.inj j k t' (calls_update hj).2 (calls_update hk).2
    · rw [hresponded]
      exact h.done
    · rw [hresponded]
      exact h.nodup

/-- The invariant holds in every run. -/
theorem inv_of_run (h : (lts F n deps).Run ok (new concurrency convs policy cfg mocks) τ b) : Inv τ b :=
  h.invariant
    ⟨(fun _ hmem => by simp [new, Cluster.new, System.new] at hmem), (fun _ _ hcall => by cases hcall),
      (fun _ _ _ hcall => by cases hcall), (fun _ hx => by cases hx), List.nodup_nil⟩
    fun _ _ _ _ _ hI _ hstep => hI.step hstep

/-- **What the load generator was answered**: the responses that its conversations got are those of the
calls that have answered.

**Proof sketch.** An answer comes to one conversation, and is seen as a response; and a lost connection
counts for nothing. -/
theorem reported_eq_sum (w : MockResponse → ℕ)
    (h : (lts F n deps).Run ok (new concurrency convs policy cfg mocks) τ b) :
    Replay.reported w (genTrace τ) convs.length =
      ((responded τ).map fun x => x.2.toOption.elim 0 w).sum := by
  induction h with
  | nil => simp [Replay.reported, genTrace, responded, Replay.answersTo, Replay.responses]
  | @snoc τ b b' a e hrun _ hstep ih =>
    have hlt : ∀ {i result gen}, Replay.lts.step b.gen (.answer i result) none gen → i < convs.length :=
      fun hgen => Replay.lt_of_answer (Replay.inv_of_run (gen_of_run hrun)) hgen
    rw [genTrace_snoc, responded_snoc]
    cases step_inv hstep with
    | moved a gen hanswer =>
      rw [Option.toList_some, Replay.reported_of_answerTo w _ _ hanswer, ih, Option.toList_none,
        List.append_nil]
    | sent a i req gen e cluster hanswer =>
      rw [Option.toList_some, Replay.reported_of_answerTo w _ _ hanswer, ih, Option.toList_none,
        List.append_nil]
    | worked => rw [Option.toList_none, List.append_nil, ih, Option.toList_none, List.append_nil]
    | responded i t result gen _ _ hgen =>
      rw [Option.toList_some, Replay.reported_answer w _ (hlt hgen), ih, Option.toList_some,
        List.map_append, List.sum_append, List.map_singleton, List.sum_singleton]
    | lost i t status gen _ hgen =>
      rw [Option.toList_some, Replay.reported_answer w _ (hlt hgen), ih, Option.toList_none,
        List.append_nil]
      rfl

/-! ## Runs in which nothing breaks -/

/-- In a run in which nothing breaks, a call has answered, or a conversation waits for it.

**Proof sketch.** By induction on the run. A new call is waited for by the conversation that sent it,
which waited for nothing before; a response moves its call from the one kind to the other; and no
connection is lost. -/
theorem unbroken_of_run
    (h : (lts F n deps).Run (fun _ _ a => a.Unbroken) (new concurrency convs policy cfg mocks) τ b) :
    ∀ t < b.cluster.router.handlers.length,
      t ∈ (responded τ).map Prod.fst ∨ ∃ i, b.calls i = some t := by
  induction h with
  | nil => exact fun t ht => absurd ht (Nat.not_lt_zero t)
  | @snoc τ b b' a e hrun hok hstep ih =>
    rw [responded_snoc]
    cases step_inv hstep with
    | moved => simpa only [Option.toList_none, List.append_nil] using ih
    | sent a i req gen e cluster _ hgen hcluster =>
      rw [Option.toList_none, List.append_nil, Cluster.handlers_spawnUnary hcluster, List.length_append,
        List.length_singleton]
      intro t ht
      rcases Nat.lt_succ_iff_lt_or_eq.mp ht with ht | rfl
      · refine (ih t ht).imp id fun ⟨j, hj⟩ => ⟨j, (Function.update_of_ne ?_ _ _).trans hj⟩
        -- a conversation that sends waits for nothing
        rintro rfl
        exact (Replay.awaits_of_sent hgen).1 ((inv_of_run hrun).calls j t hj).2.2
      · exact .inr ⟨i, Function.update_self ..⟩
    | worked a e cluster hclient hcluster =>
      rw [Option.toList_none, List.append_nil, (Cluster.handler_step hclient hcluster).1]
      exact ih
    | responded i t result gen hcall =>
      intro t' ht'
      rw [Option.toList_some, List.map_append, List.mem_append]
      rcases ih t' ht' with hmem | ⟨j, hj⟩
      · exact .inl (.inl hmem)
      · by_cases hji : j = i
        · subst hji
          obtain rfl := Option.some_inj.mp (hcall.symm.trans hj)
          exact .inl (.inr (List.mem_singleton_self t))
        · exact .inr ⟨j, (Function.update_of_ne hji _ _).trans hj⟩
    | lost => exact hok.elim

omit [Mul F] [Sub F] [LT F] [DecidableLT F] [ScoreArith F] in
/-- The responses that have arrived, as a sum over their calls.

**Proof sketch.** No call answers twice, so that the sum over the responses is one over calls, each of
which has told its client this response (`Inv.done`). -/
theorem Inv.sum_responded (h : Inv τ b) (w : MockResponse → ℕ) :
    ((responded τ).map fun x => x.2.toOption.elim 0 w).sum =
      ∑ t ∈ ((responded τ).map Prod.fst).toFinset, ((b.cluster.handler t).bind Handler.told).elim 0 w := by
  rw [List.sum_toFinset _ h.nodup, List.map_map]
  refine congrArg List.sum (List.map_congr_left fun x hx => ?_)
  rw [Function.comp_apply, h.done x hx]
  cases x.2 <;> rfl

/-- What the load generator was answered, the clients of the cluster were told. -/
theorem reported_le (w : MockResponse → ℕ)
    (h : (lts F n deps).Run ok (new concurrency convs policy cfg mocks) τ b) :
    Replay.reported w (genTrace τ) convs.length ≤ b.cluster.reported w := by
  have hinv := inv_of_run h
  rw [reported_eq_sum w h, hinv.sum_responded, Cluster.reported_eq_sum]
  refine Finset.sum_le_sum_of_subset fun t ht => ?_
  exact Finset.mem_range.mpr (hinv.lt_of_mem (List.mem_toFinset.mp ht))

/-- When a replay in which nothing broke is over, all calls have answered. -/
theorem responded_of_collected
    (h : (lts F n deps).Run (fun _ _ a => a.Unbroken) (new concurrency convs policy cfg mocks) τ b)
    (hall : b.gen.collected = convs.length) {t : ℕ} (ht : t < b.cluster.router.handlers.length) :
    t ∈ (responded τ).map Prod.fst := by
  refine (unbroken_of_run h t ht).resolve_right fun ⟨i, hi⟩ => ?_
  exact (Replay.inv_of_run (gen_of_run h)).not_awaits hall i ((inv_of_run h).calls i t hi).2.2

/-- Then the load generator was answered all that the clients of the cluster were told. -/
theorem reported_eq (w : MockResponse → ℕ)
    (h : (lts F n deps).Run (fun _ _ a => a.Unbroken) (new concurrency convs policy cfg mocks) τ b)
    (hall : b.gen.collected = convs.length) :
    Replay.reported w (genTrace τ) convs.length = b.cluster.reported w := by
  have hinv := inv_of_run h
  rw [reported_eq_sum w h, hinv.sum_responded, Cluster.reported_eq_sum]
  refine Finset.sum_congr (Finset.ext fun t => ?_) fun _ _ => rfl
  rw [List.mem_toFinset, Finset.mem_range]
  exact ⟨hinv.lt_of_mem, responded_of_collected h hall⟩

/-- Then nothing is under way in the cluster. -/
theorem atRest_of_collected
    (h : (lts F n deps).Run (fun _ _ a => a.Unbroken) (new concurrency convs policy cfg mocks) τ b)
    (hall : b.gen.collected = convs.length) : b.cluster.AtRest := fun hd hmem => by
  obtain ⟨t, hget⟩ := List.mem_iff_getElem?.mp hmem
  obtain ⟨x, hx, rfl⟩ := List.mem_map.mp
    (responded_of_collected h hall (List.getElem?_eq_some_iff.mp hget).1)
  obtain rfl := Option.some_inj.mp (hget.symm.trans ((inv_of_run h).done x hx))
  exact ⟨rfl, rfl⟩

/-- **When nothing broke, the load generator was answered what the replicas counted.**

**Proof sketch.** When the replay is over, no conversation waits, so all calls have answered
(`responded_of_collected`): the load generator got all that the clients of the cluster were told
(`reported_eq`), and the cluster is at rest, where that is all that the replicas counted
(`Cluster.reported_eq_executed`). -/
theorem reported_eq_counted
    (h : (lts F n deps).Run (fun _ _ a => a.Unbroken) (new concurrency convs policy cfg mocks) τ b)
    (hall : b.gen.collected = convs.length) :
    Replay.reported MockResponse.cachedBlocks (genTrace τ) convs.length =
        ∑ r, (b.cluster.replicas r).metrics.cachedBlocksTotal ∧
      Replay.reported MockResponse.totalBlocks (genTrace τ) convs.length =
        ∑ r, (b.cluster.replicas r).metrics.totalBlocksTotal := by
  have hcalm := samePrompt_of_run h
  have hrest := atRest_of_collected h hall
  have hunary := (inv_of_run h).unary
  have hcounted := Cluster.counted_of_run hcalm.exec
  rw [reported_eq _ h hall, reported_eq _ h hall,
    Cluster.reported_eq_executed hcalm hrest hunary fun _ => rfl,
    Cluster.reported_eq_executed hcalm hrest hunary fun _ => rfl]
  refine ⟨?_, ?_⟩
  · exact Finset.sum_congr rfl fun r _ => (hcounted.cached r).symm
  · exact Finset.sum_congr rfl fun r _ => (hcounted.total r).symm

/-! ## The report -/

/-- **What is reported was counted.** In every run of a benchmark, whatever calls and connections break, the
blocks that the responses report as cached are at most those that the replicas counted as cached, and
likewise for all blocks; and when the replay is over, the load generator prints the sums of the responses,
within 64 bits.

**Proof sketch.** A conversation is answered by one call of its own, and no call answers twice (`Inv`), so
the load generator gets at most what the clients of the cluster were told (`reported_le`), which the
replicas counted (`Cluster.reported_le_executed`). -/
theorem report_le_of_run
    (h : (lts F n deps).Exec (new concurrency convs policy cfg mocks) τ b) :
    Replay.reported MockResponse.cachedBlocks (genTrace τ) convs.length ≤
        ∑ r, (b.cluster.replicas r).metrics.cachedBlocksTotal ∧
      Replay.reported MockResponse.totalBlocks (genTrace τ) convs.length ≤
        ∑ r, (b.cluster.replicas r).metrics.totalBlocksTotal ∧
      (b.gen.collected = convs.length →
        b.gen.summary.cached =
            Int64.ofNat (Replay.reported MockResponse.cachedBlocks (genTrace τ) convs.length) ∧
          b.gen.summary.total =
            Int64.ofNat (Replay.reported MockResponse.totalBlocks (genTrace τ) convs.length)) := by
  have hcluster := clusterExec_of_run h
  have hcounted := Cluster.counted_of_run hcluster
  refine ⟨(reported_le _ h).trans ((Cluster.reported_le_executed hcluster fun _ => rfl).trans_eq ?_),
    (reported_le _ h).trans ((Cluster.reported_le_executed hcluster fun _ => rfl).trans_eq ?_),
    (Replay.inv_of_run (gen_of_run h)).printed⟩
  · exact Finset.sum_congr rfl fun r _ => (hcounted.cached r).symm
  · exact Finset.sum_congr rfl fun r _ => (hcounted.total r).symm

/-- **The report is what the replicas counted.** In every run of a benchmark in which nothing breaks, when
the replay is over, the load generator prints as cached and as total blocks, within 64 bits, exactly what
the replicas counted; whatever is evicted, and however the conversations overtake each other.

**Proof sketch.** The load generator prints the sums of what it was answered, which the replicas counted
(`reported_eq_counted`). -/
theorem report_of_run
    (h : (lts F n deps).Run (fun _ _ a => a.Unbroken) (new concurrency convs policy cfg mocks) τ b)
    (hall : b.gen.collected = convs.length) :
    b.gen.summary.cached = Int64.ofNat (∑ r, (b.cluster.replicas r).metrics.cachedBlocksTotal) ∧
      b.gen.summary.total = Int64.ofNat (∑ r, (b.cluster.replicas r).metrics.totalBlocksTotal) := by
  obtain ⟨hcached, htotal⟩ := (Replay.inv_of_run (gen_of_run h)).printed hall
  obtain ⟨hcounted, hcounted'⟩ := reported_eq_counted h hall
  rw [hcached, htotal, hcounted, hcounted']
  exact ⟨rfl, rfl⟩

/-! ## Benchmarks to run -/

/-- A conversation of two turns, whose prompts share their first block. -/
def twoTurns : List Conversation :=
  [⟨"a", ["aaaaaaaaaaaaaaaabbbbbbbbbbbbbbbb", "aaaaaaaaaaaaaaaacccccccccccccccc"]⟩]

/-- A request is sent, and served by its replica. -/
def sending (t : ℕ) : List (Action 1) :=
  [.gen (.next 0)] ++ List.replicate 3 (.cluster (.router (.run t .tick))) ++ [.cluster (.serve t)]

/-- The response comes back. -/
def answering (t : ℕ) : List (Action 1) :=
  [.cluster (.deliver t)] ++ List.replicate 5 (.cluster (.router (.run t .tick))) ++ [.respond 0]

/-- Both turns are answered. -/
def twoAnswers : List (Action 1) :=
  [.gen (.acquire 0)] ++ sending 0 ++ answering 0 ++ sending 1 ++ answering 1 ++
    [.gen (.next 0), .gen .collect]

/-- The connection is lost in the second turn, when the replica has served it. -/
def oneAnswer : List (Action 1) :=
  [.gen (.acquire 0)] ++ sending 0 ++ answering 0 ++ sending 1 ++
    [.lose 0 (.unavailable "reset"), .gen .collect]

/-- The replica counts a block as cached that is not reported. -/
theorem report_le_of_run_lost : ∃ τ b,
    (lts ℚ 1 Cluster.charNet).Exec (new 1 twoTurns .cacheAware .default fun _ => .default) τ b ∧
      b.gen.collected = 1 ∧ b.gen.summary.cached = 0 ∧
      ∑ r, (b.cluster.replicas r).metrics.cachedBlocksTotal = 1 ∧
      Replay.reported MockResponse.cachedBlocks (genTrace τ) 1 ≤
        ∑ r, (b.cluster.replicas r).metrics.cachedBlocksTotal := by
  have hrun := Lts.exec_get (step Cluster.charNet)
    (new (F := ℚ) (n := 1) 1 twoTurns .cacheAware .default fun _ => .default) oneAnswer (by decide +kernel)
  exact ⟨_, _, hrun, by decide +kernel, by decide +kernel, by decide +kernel, (report_le_of_run hrun).1⟩

/-- The second turn finds the block that it shares with the first one. -/
theorem report_of_run_two : ∃ τ b,
    (lts ℚ 1 Cluster.charNet).Run (fun _ _ a => a.Unbroken)
      (new 1 twoTurns .cacheAware .default fun _ => .default) τ b ∧
      b.gen.summary.cached = 1 ∧
      b.gen.summary.cached = Int64.ofNat (∑ r, (b.cluster.replicas r).metrics.cachedBlocksTotal) := by
  have hrun := Lts.run_get (step Cluster.charNet)
    (new (F := ℚ) (n := 1) 1 twoTurns .cacheAware .default fun _ => .default)
    (fun _ _ a => a.Unbroken) twoAnswers (by decide +kernel)
  exact ⟨_, _, hrun, by decide +kernel, (report_of_run hrun (by decide +kernel)).1⟩

end Runs

end Benchmark
