import DynamoRouter.Cluster.Load

set_option relaxedAutoImplicit false
set_option autoImplicit false

/-!
# Whether a benchmark finishes

The prober runs for ever; all others stop. A unary call takes a bounded number of steps, its request's way
to the replica and back included, and a conversation makes a bounded number of calls. While the replay is
not over, something other than the prober can go on: a pick does not panic, a permit that is held is given
back, and a call that a conversation waits for is answered.

## Main definitions

* `UnaryPc.stepsLeft`, `Cluster.stepsLeft`, `Benchmark.stepsLeft` — the steps that are left at most.
* `Cluster.Action.ofProber`, `Benchmark.Action.ofProber` — the steps of the prober.

## Main results

* `Benchmark.steps_le_of_run` — a run is bounded, but for the prober.
* `Benchmark.finishes_of_run` — a benchmark never gets stuck, and can always go on to its end.
-/

open Protocol Loadgen

/-! ## The steps of a unary call -/

/-- The steps that a unary call takes at most, after an attempt has failed. -/
def Attempt.stepsLeft {n : ℕ} : Attempt n → ℕ
  | .first => 9
  | .second _ => 0

/-- The steps that a unary call takes at most, from a place on, its replica's part included; `answered` if
the replica has answered. -/
def UnaryPc.stepsLeft {n : ℕ} {Resp : Type} (answered : Bool) : UnaryPc n Resp → ℕ
  | .start _ => 19
  | .picking _ att => att.stepsLeft + 9
  | .gaugePicked _ att _ => att.stepsLeft + 8
  | .upstream _ att _ => att.stepsLeft + if answered then 6 else 7
  | .completing _ att _ _ => att.stepsLeft + 5
  | .gaugeCompleted _ att _ _ _ => att.stepsLeft + 4
  | .recording _ _ _ .requests => 3
  | .recording _ _ _ .matched => 2
  | .recording _ _ _ .prompt => 1
  | .marking _ att _ _ => att.stepsLeft + 1
  | .done _ => 0
  | .dropped => 0

section Step

variable {F : Type} {n : ℕ} {Resp : Type} [Mul F] [Sub F] [LT F] [DecidableLT F] [ScoreArith F]
  {deps : Deps} {inner inner' : RouterInner F n} {t : ℕ} {pc pc' : UnaryPc n Resp} {input : Input Resp}
  {es : List (Event n)}

/-- **Every step brings a unary call nearer to its end.**

**Proof sketch.** By the effects of a step: each of them leads to a place with fewer steps left, whether
or not an answer has come. A failed first attempt leads to the second one, which has none of the nine
steps of the first. -/
theorem UnaryPc.stepsLeft_lt (hstep : pc.step deps inner t input = some (es, inner', pc'))
    (answered answered' : Bool) : pc'.stepsLeft answered' < pc.stepsLeft answered := by
  cases UnaryPc.step_inv hstep with
  | prepared => simp [stepsLeft, Attempt.stepsLeft]
  | called => simp only [stepsLeft]; split <;> omega
  | replied => simp only [stepsLeft]; split <;> omega
  | dropped => simp only [stepsLeft]; split <;> omega
  | recorded hashes d resp stage stage' hstage =>
    cases stage <;> cases hstage <;> simp [stepsLeft]
  | served hashes d resp stage hstage => cases stage <;> simp [stepsLeft]
  | _ => simp [stepsLeft, Attempt.stepsLeft]

/-- A call that is given up before it was answered leaves room for its request, which may still reach the
replica. -/
theorem UnaryPc.stepsLeft_lt_of_lost (hstep : pc.step deps inner t input = some (es, inner', pc'))
    (hinput : input ≠ .tick) (answered' : Bool) : pc'.stepsLeft answered' + 1 < pc.stepsLeft false := by
  cases UnaryPc.step_inv hstep with
  | droppedEarly => simp [stepsLeft]
  | replied => simp [stepsLeft]
  | dropped => simp [stepsLeft]
  | _ => exact absurd rfl hinput

end Step

/-! ## The steps of the cluster -/

/-- Whether something has come back. -/
def Wire.answered : Wire → Bool
  | .empty => false
  | _ => true

/-- The steps that a unary call takes at most. -/
def Handler.stepsLeft {n : ℕ} (wire : Wire) : Handler n MockResponse → ℕ
  | .unary pc => pc.stepsLeft wire.answered
  | .stream _ => 0

namespace Cluster

variable {F : Type} {n : ℕ}

/-- A step of the prober. -/
def Action.ofProber : Action n → Bool
  | .router (.probe _) => true
  | .router .publish => true
  | _ => false

/-- The steps that are left for a task. -/
def callLeft (s : Cluster F n) (t : ℕ) : ℕ := (s.handler t).elim 0 (Handler.stepsLeft (s.wires t))

/-- The steps that are left at most: those of the calls, and the requests that have gone astray. -/
def stepsLeft (s : Cluster F n) : ℕ :=
  ∑ t ∈ Finset.range s.router.handlers.length, s.callLeft t + s.strays.length

/-- The steps that are left, when one task has moved. -/
theorem stepsLeft_lt_of_task {s s' : Cluster F n} {t : ℕ}
    (hlength : s'.router.handlers.length = s.router.handlers.length) (ht : t < s.router.handlers.length)
    (hother : ∀ i, i ≠ t → s'.callLeft i = s.callLeft i)
    (hlt : s'.callLeft t + s'.strays.length < s.callLeft t + s.strays.length) :
    s'.stepsLeft < s.stepsLeft := by
  have hsum := Finset.add_sum_erase _ s.callLeft (Finset.mem_range.mpr ht)
  have hsum' := Finset.add_sum_erase _ s'.callLeft (Finset.mem_range.mpr ht)
  have hrest : ∑ i ∈ (Finset.range s.router.handlers.length).erase t, s'.callLeft i =
      ∑ i ∈ (Finset.range s.router.handlers.length).erase t, s.callLeft i :=
    Finset.sum_congr rfl fun i hi => hother i (Finset.ne_of_mem_erase hi)
  simp only [stepsLeft, hlength]
  omega

/-- The steps that are left, when the handler of one task has moved. -/
theorem Ran.stepsLeft_lt {s s' : Cluster F n} {t : ℕ} {input : Input MockResponse}
    {h h' : Handler n MockResponse} {wire : Wire} (hran : Ran s s' t input h h' wire)
    (hlt : h'.stepsLeft wire + s'.strays.length < h.stepsLeft (s.wires t) + s.strays.length) :
    s'.stepsLeft < s.stepsLeft := by
  refine stepsLeft_lt_of_task (t := t) (by rw [hran.handlers, List.length_set])
    (List.getElem?_eq_some_iff.mp hran.get).1 (fun i hi => ?_) ?_
  · rw [callLeft, callLeft, hran.handler_eq, if_neg hi, hran.wires, Function.update_of_ne hi]
  · rw [callLeft, callLeft, hran.handler_eq, if_pos rfl, hran.wires, Function.update_self, hran.get]
    exact hlt

/-- A task whose answer has come leaves no request astray. -/
theorem length_stray_le (s : Cluster F n) (t : ℕ) :
    (s.stray t).length ≤ if (s.wires t).answered then 0 else 1 := by
  rw [stray, waiting]
  cases s.wires t with
  | empty =>
    cases onItsWay ((s.handler t).bind Handler.asks) .empty (s.requests t) <;> simp [Wire.answered]
  | reply | items => simp [onItsWay, Wire.answered]

section Step

variable [Mul F] [Sub F] [LT F] [DecidableLT F] [ScoreArith F] {deps : ClusterDeps}
  {s s' : Cluster F n} {a : Action n} {e : Seen n}

/-- A unary call that arrives. -/
theorem stepsLeft_spawnUnary {req : ModelInferRequest}
    (h : (lts F n deps).step s (.router (.spawnUnary req)) e s') : s'.stepsLeft = s.stepsLeft + 19 := by
  have hhandlers := handlers_spawnUnary h
  obtain ⟨hwires, hstrays⟩ : s'.wires = s.wires ∧ s'.strays = s.strays := by
    cases step_inv h with
    | routed => exact ⟨rfl, rfl⟩
  have hold : ∑ t ∈ Finset.range s.router.handlers.length, s'.callLeft t =
      ∑ t ∈ Finset.range s.router.handlers.length, s.callLeft t := Finset.sum_congr rfl fun t ht => by
    rw [callLeft, callLeft, handler, hhandlers, List.getElem?_append_left (Finset.mem_range.mp ht), hwires]
    rfl
  have hnew : s'.callLeft s.router.handlers.length = 19 := by
    rw [callLeft, handler, hhandlers, List.getElem?_concat_length]
    rfl
  rw [stepsLeft, hhandlers, List.length_append, List.length_singleton, Finset.sum_range_succ,
    hold, hnew, hstrays, stepsLeft]
  omega

/-- A unary call that takes a step of its own, or gets an answer. -/
theorem stepsLeft_lt_of_run {t : ℕ} {input : Input MockResponse} {h h' : Handler n MockResponse}
    {wire : Wire} {inner inner' : RouterInner F n} {es : List (Event n)}
    (hran : Ran s s' t input h h' wire) (hunary : h.isUnary = true)
    (hrun : h.step deps.toDeps inner t input = some (es, inner', h')) (hstrays : s'.strays = s.strays) :
    s'.stepsLeft < s.stepsLeft := by
  refine hran.stepsLeft_lt ?_
  rw [hstrays]
  rcases Handler.step_inv hrun with ⟨pc, pc', rfl, rfl, hpc⟩ | ⟨_, _, rfl, -, -⟩
  · exact Nat.add_lt_add_right (UnaryPc.stepsLeft_lt hpc _ _) _
  · cases hunary

/-- A unary call that is given up.

**Proof sketch.** A call that was answered leaves no request astray (`length_stray_le`), and one that was
not has its replica's step left over for it (`UnaryPc.stepsLeft_lt_of_lost`). -/
theorem stepsLeft_lt_of_lost {t : ℕ} {input : Input MockResponse} {h h' : Handler n MockResponse}
    {wire : Wire} {inner inner' : RouterInner F n} {es : List (Event n)}
    (hran : Ran s s' t input h h' wire) (hunary : h.isUnary = true)
    (hrun : h.step deps.toDeps inner t input = some (es, inner', h')) (hinput : input ≠ .tick)
    (hstrays : s'.strays = s.strays ++ s.stray t) : s'.stepsLeft < s.stepsLeft := by
  refine hran.stepsLeft_lt ?_
  have hle := s.length_stray_le t
  rw [hstrays, List.length_append]
  rcases Handler.step_inv hrun with ⟨pc, pc', rfl, rfl, hpc⟩ | ⟨_, _, rfl, -, -⟩
  · simp only [Handler.stepsLeft]
    cases hanswered : (s.wires t).answered with
    | true =>
      have hlt := UnaryPc.stepsLeft_lt hpc true wire.answered
      simp only [hanswered, if_true] at hle
      omega
    | false =>
      have hlt := UnaryPc.stepsLeft_lt_of_lost hpc hinput wire.answered
      simp only [hanswered, Bool.false_eq_true, if_false] at hle
      omega
  · cases hunary

/-- **Every step of the cluster brings it nearer to its end**, but for those of the prober and of clients,
if all calls are unary.

**Proof sketch.** By the effects of a step. A task that moves has less to do than before, even if its
request goes astray with it; a request that is served leaves its task less to do, or is astray no more. -/
theorem stepsLeft_step (hunary : ∀ h ∈ s.router.handlers, h.isUnary = true)
    (hclient : a.ofClient = false) (hstep : (lts F n deps).step s a e s') :
    s'.stepsLeft + (!a.ofProber).toNat ≤ s.stepsLeft := by
  have hlt : s'.stepsLeft < s.stepsLeft → s'.stepsLeft + (!a.ofProber).toNat ≤ s.stepsLeft := fun h =>
    (Nat.add_le_add_left (Bool.toNat_le _) _).trans h
  cases step_inv hstep with
  | routed act es router hact hrouter =>
    cases System.step_inv hrouter with
    | spawned _ hd hspawns =>
      cases act with
      | spawnUnary | spawnStream => cases hclient
      | _ => cases hspawns
    | ran t input _ inner h h' hget hrun =>
      refine hlt ?_
      have hmem := hunary h (List.mem_of_getElem? hget)
      cases input with
      | drop => exact stepsLeft_lt_of_lost (ran_routed hget hact _) hmem hrun (by simp) rfl
      | _ => exact stepsLeft_lt_of_run (ran_routed hget hact _) hmem hrun rfl
    | probed => exact le_rfl
    | published => exact le_rfl
  | served t h r req hget hcallee hreq hwire =>
    refine hlt (stepsLeft_lt_of_task (t := t) rfl (List.getElem?_eq_some_iff.mp hget).1 (fun i hi => ?_) ?_)
    · simp only [callLeft, Function.update_of_ne hi]
      rfl
    · refine Nat.add_lt_add_right ?_ _
      cases h with
      | unary pc =>
        cases pc with
        | upstream hashes att d =>
          show (s.handler t).elim 0 (Handler.stepsLeft (Function.update s.wires t _ t)) < _
          rw [callLeft, hget, Function.update_self, hwire]
          exact Nat.lt_succ_self _
        | _ => cases hcallee
      | stream => cases hunary _ (List.mem_of_getElem? hget)
  | servedStray i t r req hget =>
    refine hlt ?_
    have hi := (List.getElem?_eq_some_iff.mp hget).1
    show ∑ t ∈ Finset.range s.router.handlers.length, s.callLeft t + (s.strays.eraseIdx i).length < _
    rw [List.length_eraseIdx_of_lt hi, stepsLeft]
    omega
  | delivered t h input wire es router hget htakes hrouter =>
    obtain ⟨inner, h', hrun, rfl⟩ := run_inv hget hrouter
    exact hlt (stepsLeft_lt_of_run (ran_delivered hget (Handler.taken_of_takes htakes))
      (hunary h (List.mem_of_getElem? hget)) hrun rfl)
  | failed t h status input es router hget hfailure hrouter =>
    obtain ⟨inner, h', hrun, rfl⟩ := run_inv hget hrouter
    refine hlt (stepsLeft_lt_of_lost (ran_failed hget hfailure _) (hunary h (List.mem_of_getElem? hget))
      hrun ?_ rfl)
    rintro rfl
    cases (Handler.failure_inv hfailure).1

/-- A call that is on its way to a unary handler, or back, is no stream.

**Proof sketch.** By induction on the run. A step of a task keeps its wire, or takes an item off it, or
empties it, and a task that is a unary call was one before; a replica answers a unary call with one
response. -/
theorem wire_of_unary {policy : Policy} {cfg : SchedulerConfig F} {mocks : Fin n → MockConfig}
    {ok : List (Action n × Seen n) → Cluster F n → Action n → Prop} {τ : List (Action n × Seen n)}
    (h : (lts F n deps).Run ok (new policy cfg mocks) τ s) :
    ∀ t pc, s.handler t = some (.unary pc) → ∀ chunks, s.wires t ≠ .items chunks := by
  induction h with
  | nil => exact fun t pc hget => by simp [handler, new, System.new] at hget
  | @snoc τ s s' a e hrun _ hs ih =>
    have hran : ∀ {t : ℕ} {input : Input MockResponse} {h h' : Handler n MockResponse} {wire : Wire}
        {inner inner' : RouterInner F n} {es : List (Event n)}, Ran s s' t input h h' wire →
        h.step deps.toDeps inner t input = some (es, inner', h') →
        (∀ chunks, wire = .items chunks → ∃ chunks', s.wires t = .items chunks') →
        ∀ i pc, s'.handler i = some (.unary pc) → ∀ chunks, s'.wires i ≠ .items chunks :=
      fun {t input h h' wire inner inner' es} hran hstep hwire i pc hget chunks heq => by
        rw [hran.handler_eq] at hget
        rw [hran.wires] at heq
        split_ifs at hget with hit
        · subst hit
          rw [Function.update_self] at heq
          obtain ⟨chunks', hold⟩ := hwire chunks heq
          rcases Handler.step_inv hstep with ⟨pc₀, _, rfl, -, -⟩ | ⟨_, _, -, rfl, -⟩
          · exact ih i pc₀ hran.get chunks' hold
          · cases hget
        · rw [Function.update_of_ne hit] at heq
          exact ih i pc hget chunks heq
    cases step_inv hs with
    | routed act es router hact hrouter =>
      cases System.step_inv hrouter with
      | spawned _ hd hspawns =>
        have hwires : s.wiresAfter act = s.wires := by cases act <;> cases hspawns <;> rfl
        intro i pc hget chunks heq
        simp only [hwires] at heq
        rcases System.getElem?_concat_inv hget with hold | ⟨rfl, -⟩
        · exact ih i pc hold chunks heq
        · rw [(sound_of_run hrun).fresh _ (List.getElem?_eq_none le_rfl)] at heq
          cases heq
      | ran t input _ inner h h' hget hstep =>
        refine hran (ran_routed hget hact _) hstep fun chunks heq => ⟨chunks, ?_⟩
        cases input with
        | recv | drop => cases heq
        | _ => exact heq
      | probed | published => exact ih
    | served t h r req hget hcallee =>
      intro i pc hi chunks heq
      by_cases hit : i = t
      · subst hit
        obtain rfl := Option.some_inj.mp (hget.symm.trans hi)
        simp only [Function.update_self] at heq
        cases heq
      · simp only [Function.update_of_ne hit] at heq
        exact ih i pc hi chunks heq
    | servedStray => exact ih
    | delivered t h input wire es router hget htakes hrouter =>
      obtain ⟨inner, h', hstep, rfl⟩ := run_inv hget hrouter
      have htaken := Handler.taken_of_takes htakes
      refine hran (ran_delivered hget htaken) hstep fun chunks heq => ?_
      generalize s.wires t = w at htaken ⊢
      cases htaken with
      | reply | ended => cases heq
      | opened => exact ⟨chunks, heq⟩
      | item => exact ⟨_, rfl⟩
    | failed t h status input es router hget hfailure hrouter =>
      obtain ⟨inner, h', hstep, rfl⟩ := run_inv hget hrouter
      exact hran (ran_failed hget hfailure _) hstep fun chunks heq => by cases heq

omit [Mul F] [Sub F] [LT F] [DecidableLT F] [ScoreArith F] in
/-- Where a unary call takes its own next step. -/
def ticks {Resp : Type} : UnaryPc n Resp → Bool
  | .upstream _ _ _ => false
  | .done _ => false
  | .dropped => false
  | _ => true

/-- A unary call takes its own next step: nothing panics. -/
theorem isSome_tick {Resp : Type} {pc : UnaryPc n Resp} (hticks : ticks pc = true) (deps : Deps)
    (inner : RouterInner F n) (t : ℕ) : (pc.step deps inner t .tick).isSome := by
  cases pc with
  | start req =>
    simp only [UnaryPc.step]
    split <;> rfl
  | picking hashes att =>
    obtain ⟨⟨res, sched⟩, hpick⟩ := Option.isSome_iff_exists.mp (inner.scheduler.pick_isSome hashes)
    have hinner : inner.pick hashes = some (res, { inner with scheduler := sched }) := by
      rw [RouterInner.pick, hpick]
      rfl
    simp only [UnaryPc.step, hinner]
    cases res <;> rfl
  | gaugePicked | completing => rfl
  | gaugeCompleted hashes att d result inflight =>
    simp only [UnaryPc.step]
    split
    · rfl
    · split <;> rfl
  | recording hashes d resp stage => cases stage <;> rfl
  | marking hashes att d status => cases att <;> rfl
  | upstream | done | dropped => cases hticks

/-- **A unary call that has not ended can go on**: by its own next step, or by that of its replica, or by
the arrival of the answer.

**Proof sketch.** A call that awaits its replica can be served, if its wire is empty, and can take its
answer otherwise; at any other place it takes its own next step, as no pick panics
(`Scheduler.pick_isSome`). -/
theorem exists_step_of_unary (hsound : s.Sound deps.toDeps) {t : ℕ} {pc : UnaryPc n MockResponse}
    (hget : s.handler t = some (.unary pc)) (hended : (Handler.unary pc).ended = false)
    (hwire : ∀ chunks, s.wires t ≠ .items chunks) :
    ∃ a : Action n, a.ofClient = false ∧ a.ofProber = false ∧ a.loses = false ∧
      (s.step deps a).isSome := by
  have hget' : s.router.handlers[t]? = some (.unary pc) := hget
  cases hticks : ticks pc with
  | true =>
    refine ⟨.router (.run t .tick), rfl, rfl, rfl, ?_⟩
    have hsome := isSome_tick hticks deps.toDeps s.router.inner t
    simpa [step, Act.fromUpstream, System.step, hget', Handler.step] using hsome
  | false =>
    cases pc with
    | upstream hashes att d =>
      cases hw : s.wires t with
      | empty =>
        obtain ⟨-, req, hreq, -⟩ := (hsound.task t _ hget).asks rfl
        exact ⟨.serve t, rfl, rfl, rfl, by simp [step, hget, hreq, hw, Handler.callee]⟩
      | reply result =>
        refine ⟨.deliver t, rfl, rfl, rfl, ?_⟩
        simp [step, hget, hw, Handler.takes, System.step, hget', Handler.step, UnaryPc.step]
      | items chunks => exact absurd hw (hwire chunks)
    | done | dropped => cases hended
    | _ => cases hticks

end Step

end Cluster

/-! ## The benchmark -/

namespace Benchmark

variable {F : Type} {n : ℕ}

/-- A step of the prober. -/
def Action.ofProber : Action n → Bool
  | .cluster a => a.ofProber
  | _ => false

/-- The steps that are left at most: for each step of the load generator there is room for a call. -/
def stepsLeft (b : Benchmark F n) : ℕ := 20 * b.gen.stepsLeft + b.cluster.stepsLeft

variable [Mul F] [Sub F] [LT F] [DecidableLT F] [ScoreArith F]
  {deps : ClusterDeps} {concurrency : ℕ} {convs : List Conversation} {policy : Policy}
  {cfg : SchedulerConfig F} {mocks : Fin n → MockConfig}
  {ok : List (Action n × Seen n) → Benchmark F n → Action n → Prop} {τ : List (Action n × Seen n)}
  {b b' : Benchmark F n} {a : Action n} {e : Seen n}

/-- **Every step brings a benchmark nearer to its end**, but for those of the prober.

**Proof sketch.** By the effects of a step: of the load generator (`Replay.Inv.stepsLeft_lt`) or of the
cluster (`Cluster.stepsLeft_step`). A call that is sent adds less to what the cluster has to do than it
takes from the load generator, whose steps weigh twenty times as much. -/
theorem stepsLeft_step (hrun : (lts F n deps).Run ok (new concurrency convs policy cfg mocks) τ b)
    (hstep : (lts F n deps).step b a e b') : b'.stepsLeft + (!a.ofProber).toNat ≤ b.stepsLeft := by
  have hgen := Replay.inv_of_run (gen_of_run hrun)
  cases step_inv hstep with
  | moved a gen _ hmoved =>
    have hlt := hgen.stepsLeft_lt hmoved
    show 20 * gen.stepsLeft + b.cluster.stepsLeft + 1 ≤ _
    rw [stepsLeft]
    omega
  | sent a i req gen e cluster _ hsent hcluster =>
    have hlt := hgen.stepsLeft_lt hsent
    have hspawned := Cluster.stepsLeft_spawnUnary hcluster
    show 20 * gen.stepsLeft + cluster.stepsLeft + 1 ≤ _
    rw [stepsLeft]
    omega
  | worked a e cluster hclient hcluster =>
    have hle := Cluster.stepsLeft_step (inv_of_run hrun).unary hclient hcluster
    show 20 * b.gen.stepsLeft + cluster.stepsLeft + (!a.ofProber).toNat ≤ _
    rw [stepsLeft]
    omega
  | responded i t result gen _ _ hanswer =>
    have hlt := hgen.stepsLeft_lt hanswer
    show 20 * gen.stepsLeft + b.cluster.stepsLeft + 1 ≤ _
    rw [stepsLeft]
    omega
  | lost i t status gen _ hanswer =>
    have hlt := hgen.stepsLeft_lt hanswer
    show 20 * gen.stepsLeft + b.cluster.stepsLeft + 1 ≤ _
    rw [stepsLeft]
    omega

/-- **A benchmark is bounded.** In every run, whatever breaks, and whatever the prober does, there are at
most `20 * (2 * turns + 3)` steps for each conversation, besides those of the prober.

**Proof sketch.** `stepsLeft_step`: a call takes at most 19 steps, and each step of the load generator
makes at most one. -/
theorem steps_le_of_run (h : (lts F n deps).Exec (new concurrency convs policy cfg mocks) τ b) :
    (τ.countP fun x => !x.1.ofProber) ≤
      20 * (convs.map fun conv => 2 * conv.turns.length + 3).sum := by
  have hle := h.countP_le stepsLeft (fun a => !a.ofProber) fun _ _ _ _ _ hrun _ hstep =>
    stepsLeft_step hrun hstep
  have hnew : (new (F := F) (n := n) concurrency convs policy cfg mocks).stepsLeft =
      20 * (convs.map fun conv => 2 * conv.turns.length + 3).sum := by
    rw [← Replay.stepsLeft_new concurrency]
    rfl
  omega

/-- A conversation that waits for an answer has a call.

**Proof sketch.** By induction on the run. A conversation starts to wait when it sends a request, which is
a call, and it loses its call only with an answer, after which it does not wait. -/
theorem call_of_awaits (h : (lts F n deps).Run ok (new concurrency convs policy cfg mocks) τ b) :
    ∀ i, b.gen.Awaits i → ∃ t, b.calls i = some t := by
  induction h with
  | nil =>
    rintro i ⟨task, k, hget, hpc⟩
    obtain ⟨conv, -, rfl⟩ := List.mem_map.mp (List.mem_of_getElem? hget)
    cases hpc
  | @snoc τ b b' a e hrun _ hstep ih =>
    intro i hi
    cases step_inv hstep with
    | moved a gen _ hgen =>
      rcases Replay.awaits_inv hgen hi with ⟨hold, -⟩ | ⟨_, heq⟩
      · exact ih i hold
      · cases heq
    | sent a j req gen e cluster _ hgen =>
      by_cases hij : i = j
      · subst hij
        exact ⟨_, Function.update_self ..⟩
      · rcases Replay.awaits_inv hgen hi with ⟨hold, -⟩ | ⟨_, heq⟩
        · obtain ⟨t, ht⟩ := ih i hold
          exact ⟨t, (Function.update_of_ne hij _ _).trans ht⟩
        · cases heq
          exact absurd rfl hij
    | worked => exact ih i hi
    | responded j t result gen _ _ hgen | lost j t status gen _ hgen =>
      rcases Replay.awaits_inv hgen hi with ⟨hold, hanswer⟩ | ⟨_, heq⟩
      · obtain ⟨t, ht⟩ := ih i hold
        have hij : i ≠ j := by
          rintro rfl
          simp [Replay.Action.answerTo] at hanswer
        exact ⟨t, (Function.update_of_ne hij _ _).trans ht⟩
      · cases heq

/-- **While the replay is not over, something can go on**, if nothing has broken and there is a permit.

**Proof sketch.** A call that has not ended can go on (`Cluster.exists_step_of_unary`); a conversation that
waits has a call, which is answered if it has ended; and if no conversation waits, then the load generator
can go on (`Replay.Inv.collected_eq`). -/
theorem exists_step
    (h : (lts F n deps).Run (fun _ _ a => a.Unbroken) (new concurrency convs policy cfg mocks) τ b)
    (hpos : 0 < concurrency) (hne : b.gen.collected ≠ convs.length) :
    ∃ a : Action n, a.Unbroken ∧ a.ofProber = false ∧ (b.step deps a).isSome := by
  by_contra hnone
  have hstuck : ∀ a : Action n, a.Unbroken → a.ofProber = false → b.step deps a = none :=
    fun a hunbroken hprober => Option.not_isSome_iff_eq_none.mp fun hsome =>
      hnone ⟨a, hunbroken, hprober, hsome⟩
  have hinv := inv_of_run h
  have hcluster := clusterExec_of_run h
  have hsmooth := Cluster.smooth_of_run (fun _ _ _ ha => ha) (fun _ hreq => hreq) (samePrompt_of_run h)
  -- all calls have ended
  have hdone : ∀ t hd, b.cluster.handler t = some hd → ∃ result, hd = .unary (.done result) :=
    fun t hd hget => by
      have hunary := hinv.unary hd (List.mem_of_getElem? hget)
      cases hd with
      | stream => cases hunary
      | unary pc =>
        cases hended : (Handler.unary pc).ended with
        | false =>
          obtain ⟨a, hclient, hprober, hloses, hsome⟩ := Cluster.exists_step_of_unary
            (Cluster.sound_of_run hcluster) hget hended (Cluster.wire_of_unary hcluster t pc hget)
          have hnone := hstuck (.cluster a) hloses hprober
          simp only [step, hclient, Bool.false_eq_true, if_false, Option.map_eq_none_iff] at hnone
          rw [hnone] at hsome
          cases hsome
        | true =>
          cases pc with
          | done result => exact ⟨result, rfl⟩
          | dropped => exact (hsmooth.handler t _ hget).elim
          | _ => cases hended
  -- no conversation waits
  have hawaits : ∀ i, ¬ b.gen.Awaits i := fun i hi => by
    obtain ⟨t, ht⟩ := call_of_awaits h i hi
    obtain ⟨hd, hget⟩ : ∃ hd, b.cluster.handler t = some hd :=
      ⟨_, List.getElem?_eq_getElem (hinv.calls i t ht).1⟩
    obtain ⟨result, rfl⟩ := hdone t hd hget
    have hnone := hstuck (.respond i) trivial rfl
    have hsome := hi.isSome_step result
    simp only [step, ht, hget, Option.map_eq_none_iff] at hnone
    rw [hnone] at hsome
    cases hsome
  refine hne ((Replay.inv_of_run (gen_of_run h)).collected_eq hpos fun a => ?_)
  cases hisAnswer : a.isAnswer with
  | true =>
    cases a with
    | answer i result =>
      exact Option.not_isSome_iff_eq_none.mp fun hsome => hawaits i (Replay.awaits_of_answer hsome)
    | _ => cases hisAnswer
  | false =>
    have hnone := hstuck (.gen a) trivial rfl
    simp only [step, hisAnswer, Bool.false_eq_true, if_false, genStep] at hnone
    split at hnone
    · assumption
    · cases hnone
    · cases hnone

/-- **A benchmark finishes.** In every run of a benchmark in which nothing breaks, if there is a permit: as
long as the replay is not over, something other than the prober can go on, and by such steps alone, none of
which is the prober's, the replay gets to its end.

**Proof sketch.** `exists_step`; and each of these steps brings the benchmark nearer to its end
(`stepsLeft_step`), so that the rule of progress applies (`Lts.Run.exists_extension`). -/
theorem finishes_of_run
    (h : (lts F n deps).Run (fun _ _ a => a.Unbroken) (new concurrency convs policy cfg mocks) τ b)
    (hpos : 0 < concurrency) :
    (b.gen.collected ≠ convs.length →
      ∃ a : Action n, a.Unbroken ∧ a.ofProber = false ∧ (b.step deps a).isSome) ∧
    ∃ τ' b', (lts F n deps).Run (fun _ _ a => a.Unbroken) (new concurrency convs policy cfg mocks)
      (τ ++ τ') b' ∧ (∀ x ∈ τ', x.1.ofProber = false) ∧ b'.gen.collected = convs.length := by
  refine ⟨exists_step h hpos, h.exists_extension stepsLeft _ (fun a => a.ofProber = false)
    fun τ b hrun hne => ?_⟩
  obtain ⟨a, hunbroken, hprober, hsome⟩ := exists_step hrun hpos hne
  obtain ⟨⟨e, b'⟩, hstep⟩ := Option.isSome_iff_exists.mp hsome
  have hle := stepsLeft_step hrun hstep
  rw [hprober] at hle
  exact ⟨a, e, b', hprober, hunbroken, hstep, hle⟩

/-- The steps of a benchmark whose connection is lost: the prober passes too. -/
theorem steps_le_of_run_lost : ∃ τ b,
    (lts ℚ 1 Cluster.charNet).Exec (new 1 twoTurns .cacheAware .default fun _ => .default) τ b ∧
      τ.length = 21 ∧ (τ.countP fun x => !x.1.ofProber) ≤ 140 := by
  have hrun := Lts.exec_get (step Cluster.charNet)
    (new (F := ℚ) (n := 1) 1 twoTurns .cacheAware .default fun _ => .default)
    (oneAnswer ++ [.cluster (.router (.probe [(0, true)]))]) (by decide +kernel)
  exact ⟨_, _, hrun, by decide +kernel, steps_le_of_run hrun⟩

/-- A request has been served, and the replay gets to its end. -/
theorem finishes_of_run_one : ∃ τ b,
    (lts ℚ 1 Cluster.charNet).Run (fun _ _ a => a.Unbroken)
      (new 1 twoTurns .cacheAware .default fun _ => .default) τ b ∧ b.gen.collected = 0 ∧
      ∃ τ' b', (lts ℚ 1 Cluster.charNet).Run (fun _ _ a => a.Unbroken)
        (new 1 twoTurns .cacheAware .default fun _ => .default) (τ ++ τ') b' ∧
        (∀ x ∈ τ', x.1.ofProber = false) ∧ b'.gen.collected = 1 := by
  have hrun := Lts.run_get (step Cluster.charNet)
    (new (F := ℚ) (n := 1) 1 twoTurns .cacheAware .default fun _ => .default)
    (fun _ _ a => a.Unbroken) ([.gen (.acquire 0)] ++ sending 0) (by decide +kernel)
  exact ⟨_, _, hrun, by decide +kernel, (finishes_of_run hrun Nat.one_pos).2⟩

end Benchmark
