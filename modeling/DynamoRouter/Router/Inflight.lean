import DynamoRouter.Router.System

set_option relaxedAutoImplicit false
set_option autoImplicit false

/-!
# In-flight counts against picks held

`Scheduler::inflight` counts picks that were not completed, but a completion names only its replica, and
taking a replica out of routing resets its count. Two accounts tell what the count is worth.

The picks that live handlers *hold* bound it from above, as long as no future is dropped while the slot
it holds is still counted: there is no leak, and no spurious saturation.

The picks *outstanding* since the replica was last taken out of routing are bounded by it exactly as long
as every completion is of an outstanding pick, or finds the count at `0`. A completion of an older pick
that finds the replica back in routing and busy again is charged against a younger pick, and the cap on
requests in flight is broken.

## Main definitions

* `System.NoDrops`, `System.DropsReleased` — guards on the futures that are dropped.
* `System.outstanding` — the tasks with an outstanding pick on a replica, read off the events.
* `System.CompletesOutstanding` — the guard on completions.

## Main results

* `System.inflight_le_holders` — no leak, without dropped futures.
* `System.idle_of_dropsReleased` — no leak, with dropped futures.
* `System.no_leak_iff` — when dropped futures leak.
* `System.backpressure_iff` — when the cap on requests in flight is real.
-/

open Protocol

namespace System

variable {F : Type} {n : ℕ} {Resp : Type}

/-! ## Picks held by handlers -/

/-- No future is dropped. -/
def NoDrops : List (Act n Resp × List (Event n)) → System F n Resp → Act n Resp → Prop :=
  fun _ _ act => act.dropped = none

/-- A future that holds a pick is dropped only after its slot was released. -/
def DropsReleased : List (Act n Resp × List (Event n)) → System F n Resp → Act n Resp → Prop :=
  fun _ s act => ∀ t ∈ act.dropped, ∀ r, s.holdsAt t = some r → s.sched.inflight r < s.holders r

/-- The guard can be decided. -/
instance (τ : List (Act n Resp × List (Event n))) (s : System F n Resp) (act : Act n Resp) :
    Decidable (NoDrops τ s act) := inferInstanceAs (Decidable (_ = _))

/-- The guard can be decided. -/
instance (τ : List (Act n Resp × List (Event n))) (s : System F n Resp) (act : Act n Resp) :
    Decidable (DropsReleased τ s act) := inferInstanceAs (Decidable (∀ t ∈ act.dropped, _))

/-- No slot is leaked: the picks in flight are held by handlers. -/
def NoLeak (s : System F n Resp) : Prop := ∀ r, s.sched.inflight r ≤ s.holders r

/-- If all handlers have ended, then no pick is held. -/
theorem holders_of_ended {s : System F n Resp}
    (hended : ∀ h ∈ s.handlers, h.ended = true) (r : Fin n) : s.holders r = 0 := by
  rw [holders, List.countP_eq_zero]
  intro h hh
  rw [Handler.holds_of_ended (hended h hh)]
  simp

section Runs

variable [Mul F] [Sub F] [LT F] [DecidableLT F] [ScoreArith F]

/-- **One step leaks no slot** unless it drops a future whose slot is still counted.

**Proof sketch.** A pick and its completion change the count and the holders alike; a mark resets the
count; a dropped future takes a holder away, and the count was less than the holders. -/
theorem NoLeak.step {deps : Deps} {s s' : System F n Resp} {act : Act n Resp} {es : List (Event n)}
    (h : s.NoLeak) (hdrop : ∀ t ∈ act.dropped, ∀ r, s.holdsAt t = some r →
      s.sched.inflight r < s.holders r)
    (hstep : (lts F n Resp deps).step s act es s') : s'.NoLeak := by
  intro r
  have hr := h r
  cases step_inv hstep with
  | spawned act hd hact =>
    rw [holders_spawn s (holds_of_spawns hact)]
    exact hr
  | ran t input es inner hd hd' hget hrun =>
    have hset := holders_set hd' hget r
    unfold holders at hr ⊢
    have hmove := Handler.move_of_step hrun
    simp only [sched] at hr ⊢
    generalize inner.scheduler = sched' at hmove
    cases hmove with
    | quiet input _ _ hholds =>
      rw [hholds] at hset
      omega
    | refused hashes e _ hpick hbefore hafter =>
      rw [hbefore, hafter] at hset
      omega
    | picked hashes d _ _ hpick hbefore hafter =>
      rw [Scheduler.inflight_pick hpick]
      rw [hbefore, hafter] at hset
      simp only [reduceCtorEq, if_false, Option.some_inj, eq_comm (a := d.replica)] at hset
      split_ifs at hset ⊢ <;> omega
    | completed i _ hat hbefore hafter =>
      rw [Scheduler.inflight_complete]
      rw [hbefore, hafter] at hset
      simp only [reduceCtorEq, if_false, Option.some_inj, eq_comm (a := i)] at hset
      split_ifs at hset ⊢ with hi
      · subst hi
        omega
      · omega
    | marked i _ hholds =>
      rw [Scheduler.inflight_markUnhealthy]
      rw [hholds] at hset
      split_ifs <;> omega
    | dropped =>
      by_cases hhold : hd.holds = some r
      · have hat : s.holdsAt t = some r := by rw [holdsAt, hget, Option.bind_some, hhold]
        have hlt := hdrop t rfl r hat
        simp only [sched, holders] at hlt
        rw [if_pos hhold, if_neg (by simp [Handler.holds])] at hset
        omega
      · rw [if_neg hhold, if_neg (by simp [Handler.holds])] at hset
        omega
  | probed results =>
    have hle : ∀ i, (RouterInner.applyProbes s.sched results).1.inflight i ≤ s.holders i :=
      RouterInner.applyProbes_induction (P := fun sc => ∀ i, sc.inflight i ≤ s.holders i) h
        (fun sc i hsc j => by
          rw [Scheduler.inflight_markHealthy]
          exact hsc j)
        (fun sc i hsc j => by
          rw [Scheduler.inflight_markUnhealthy]
          split_ifs
          · exact Nat.zero_le _
          · exact hsc j) results
    exact hle r
  | published => exact hr

variable {deps : Deps} {policy : Policy} {cfg : SchedulerConfig F}
  {τ : List (Act n Resp × List (Event n))} {s : System F n Resp}

/-- A run that drops futures only after their slots were released leaks no slot. -/
theorem noLeak_of_run (h : (lts F n Resp deps).Run DropsReleased (new n Resp policy cfg) τ s) :
    s.NoLeak :=
  Lts.Run.invariant (I := fun _ s => s.NoLeak) h (fun _ => Nat.zero_le _)
    fun _ _ _ _ _ hI hok hstep => hI.step hok hstep

/-- Without dropped futures there is nothing to release. -/
theorem dropsReleased_of_noDrops
    (h : (lts F n Resp deps).Run NoDrops (new n Resp policy cfg) τ s) :
    (lts F n Resp deps).Run DropsReleased (new n Resp policy cfg) τ s :=
  h.mono fun _ _ _ hno t ht => absurd (hno ▸ ht) (Option.not_mem_none t)

/-- A handler whose pick is refused as saturated finds every healthy replica at its cap. -/
theorem maxInflight_le_of_saturated {s' : System F n Resp} {act : Act n Resp} {es : List (Event n)}
    {t : ℕ} (hstep : (lts F n Resp deps).step s act es s') (hes : .refused t .allSaturated ∈ es)
    (hact : ∃ input, act = .run t input) {r : Fin n} (hr : s.sched.isHealthy r = true) :
    s.sched.cfg.maxInflight ≤ s.sched.inflight r := by
  obtain ⟨input, rfl⟩ := hact
  cases step_inv hstep with
  | spawned => simp at hes
  | ran t input es inner hd hd' hget hrun =>
    have hmove := Handler.move_of_step hrun
    generalize inner.scheduler = sched' at hmove
    cases hmove with
    | refused hashes e _ hpick =>
      have hnone := (Scheduler.pick_error_inv hpick).2.1 r
      by_contra hlt
      have : s.sched.availMask r = true := Scheduler.availMask_iff.mpr ⟨hr, not_le.mp hlt⟩
      exact Bool.false_ne_true (hnone.symm.trans this)
    | _ => simp at hes

/-- **No leak and no spurious saturation.** In every run without dropped futures, at every point: the
count of a replica is at most the number of handlers that hold a pick on it; a pick is refused as
saturated only if every healthy replica has at least `max_inflight` held picks; and once all handlers
have ended, every count is `0`. -/
theorem inflight_le_holders (h : (lts F n Resp deps).Run NoDrops (new n Resp policy cfg) τ s) :
    (∀ r, s.sched.inflight r ≤ s.holders r) ∧
    (∀ t input es s', (lts F n Resp deps).step s (.run t input) es s' →
      .refused t .allSaturated ∈ es →
      ∀ r, s.sched.isHealthy r = true → cfg.maxInflight ≤ s.holders r) ∧
    ((∀ h ∈ s.handlers, h.ended = true) → ∀ r, s.sched.inflight r = 0) := by
  have hleak : s.NoLeak := noLeak_of_run (dropsReleased_of_noDrops h)
  refine ⟨hleak, fun t input es s' hstep hes r hr => ?_, fun hended r => ?_⟩
  · rw [← cfg_of_run h]
    exact (maxInflight_le_of_saturated hstep hes ⟨input, rfl⟩ hr).trans (hleak r)
  · have := hleak r
    rw [holders_of_ended hended] at this
    exact Nat.le_zero.mp this

/-- A configuration with a cap of one request in flight. -/
def capOne : SchedulerConfig ℚ where
  alpha := 1
  beta := 1
  minMatchBlocks := 1
  blockBudget := 4
  maxInflight := 1

/-- A run without dropped futures: of two calls at one replica the second is refused as saturated, and
then the first one ends. -/
theorem inflight_le_holders_two : ∃ τ s,
    (lts ℚ 1 Unit emptyPromptDeps).Run NoDrops (new 1 Unit .cacheAware capOne) τ s ∧
      s.handlers.length = 2 ∧ ∀ r, s.sched.inflight r = 0 := by
  have hrun := Lts.run_get (step emptyPromptDeps) (new 1 Unit .cacheAware capOne) NoDrops
    [.spawnUnary emptyPrompt, .spawnUnary emptyPrompt, .run 0 .tick, .run 0 .tick,
      .run 0 .tick, .run 1 .tick, .run 1 .tick, .run 0 (.reply (.ok ())), .run 0 .tick,
      .run 0 .tick, .run 0 .tick, .run 0 .tick, .run 0 .tick]
    (by decide +kernel)
  exact ⟨_, _, hrun, by decide +kernel, (inflight_le_holders hrun).2.2 (by decide +kernel)⟩

/-! ## Dropped futures -/

/-- **Idle means idle**, if futures are dropped only after their slots were released: once no handler
is live, nothing counts as in flight, and a router with a healthy replica does not report saturation. -/
theorem idle_of_dropsReleased
    (h : (lts F n Resp deps).Run DropsReleased (new n Resp policy cfg) τ s)
    (hended : ∀ h ∈ s.handlers, h.ended = true) :
    (∀ r, s.sched.inflight r = 0) ∧
    (1 ≤ cfg.maxInflight → (∃ r, s.sched.isHealthy r = true) → ∀ hashes sched',
      s.sched.pick hashes ≠ some (.error .allSaturated, sched')) := by
  have hzero : ∀ r, s.sched.inflight r = 0 := fun r => by
    have := noLeak_of_run h r
    rw [holders_of_ended hended] at this
    exact Nat.le_zero.mp this
  refine ⟨hzero, fun hmax ⟨r, hr⟩ hashes sched' hpick => ?_⟩
  have havail : s.sched.availMask r = true := by
    refine Scheduler.availMask_iff.mpr ⟨hr, ?_⟩
    rw [cfg_of_run h]
    exact lt_of_eq_of_lt (hzero r) (Nat.succ_le_iff.mp hmax)
  exact Bool.false_ne_true (((Scheduler.pick_error_inv hpick).2.1 r).symm.trans havail)

/-- A run that drops one future before its pick and one after its replica was taken out of routing. -/
theorem idle_of_dropsReleased_two : ∃ τ s,
    (lts ℚ 1 Unit emptyPromptDeps).Run DropsReleased (new 1 Unit .cacheAware capOne) τ s ∧
      s.handlers.length = 2 ∧ ∀ r, s.sched.inflight r = 0 := by
  have hrun := Lts.run_get (step emptyPromptDeps) (new 1 Unit .cacheAware capOne) DropsReleased
    [.spawnUnary emptyPrompt, .spawnUnary emptyPrompt, .run 0 .drop, .run 1 .tick,
      .run 1 .tick, .run 1 .tick, .probe [(0, false)], .publish, .run 1 .drop]
    (by decide +kernel)
  exact ⟨_, _, hrun, by decide +kernel, (idle_of_dropsReleased hrun (by decide +kernel)).1⟩

/-- **A dropped future leaks its slot.** A single call is dropped while it waits for its replica: no
handler is left, its slot is still counted, and with a cap of one the healthy router reports
saturation. -/
theorem exists_leak_of_drop : ∃ τ s,
    (lts ℚ 1 Unit emptyPromptDeps).Exec (new 1 Unit .cacheAware capOne) τ s ∧
      (∀ h ∈ s.handlers, h.ended = true) ∧ s.sched.inflight 0 = 1 ∧ s.sched.isHealthy 0 = true ∧
      (s.sched.pick []).map (fun r => match r.1 with
        | .ok _ => none
        | .error e => some e) = some (some .allSaturated) :=
  ⟨_, _, Lts.exec_get (step emptyPromptDeps) _ [.spawnUnary emptyPrompt, .run 0 .tick,
      .run 0 .tick, .run 0 .tick, .run 0 .drop] (by decide +kernel),
    by decide +kernel, by decide +kernel, by decide +kernel, by decide +kernel⟩

/-- **When dropped futures leak.** A run keeps the picks in flight held by handlers at every point
exactly if every future that it drops while it holds a pick had its slot released before.

**Proof sketch.** `Lts.Run.forall_isPrefix_iff`: a future dropped while the count of its replica
reaches the number of holders leaves the count above the holders. -/
theorem no_leak_iff (h : (lts F n Resp deps).Exec (new n Resp policy cfg) τ s) :
    (∀ τ₁ s₁, τ₁ <+: τ → (lts F n Resp deps).Exec (new n Resp policy cfg) τ₁ s₁ → s₁.NoLeak) ↔
      (lts F n Resp deps).Run DropsReleased (new n Resp policy cfg) τ s := by
  refine Lts.Run.forall_isPrefix_iff (lts_deterministic deps) (fun _ s => s.NoLeak)
    noLeak_of_run (fun {τ s act es s'} hrun hstep hbreach hleak => ?_) h
  obtain ⟨t, ht, r, hat, hnlt⟩ : ∃ t ∈ act.dropped, ∃ r, s.holdsAt t = some r ∧
      ¬ s.sched.inflight r < s.holders r := by
    simpa only [DropsReleased, not_forall, exists_prop] using hbreach
  obtain rfl := Act.eq_of_dropped ht
  have hr := hleak r
  cases step_inv hstep with
  | spawned _ _ hact => cases hact
  | ran _ _ es inner hd hd' hget hstep' =>
    have hset := holders_set hd' hget r
    rw [holdsAt, hget, Option.bind_some] at hat
    have hmove := Handler.move_of_step hstep'
    simp only [sched, holders] at hr hnlt
    generalize inner.scheduler = sched' at hmove hr
    cases hmove with
    | dropped =>
      rw [if_pos hat, if_neg (by simp [Handler.holds])] at hset
      omega
    | quiet _ _ hinput => exact hinput rfl

/-! ## Picks outstanding since the last reset -/

end Runs

/-- The tasks with an outstanding pick on each replica, after one more event. -/
def settle (out : Fin n → Finset ℕ) : Event n → Fin n → Finset ℕ
  | .picked t _ d => Function.update out d.replica (insert t (out d.replica))
  | .completed t r => Function.update out r ((out r).erase t)
  | .unhealthy r => Function.update out r ∅
  | .refused _ _ => out
  | .healthy _ => out

/-- The tasks that picked a replica since it was last taken out of routing, and have not yet completed
their request. -/
def outstanding (τ : List (Act n Resp × List (Event n))) : Fin n → Finset ℕ :=
  (τ.flatMap Prod.snd).foldl settle fun _ => ∅

/-- A completion is of an outstanding pick, or finds nothing counted. -/
def CompletesOutstanding :
    List (Act n Resp × List (Event n)) → System F n Resp → Act n Resp → Prop :=
  fun τ s act => ∀ t ∈ act.ticked, ∀ r, s.handlers[t]?.bind Handler.completes = some r →
    t ∈ outstanding τ r ∨ s.sched.inflight r = 0

/-- The guard can be decided. -/
instance (τ : List (Act n Resp × List (Event n))) (s : System F n Resp) (act : Act n Resp) :
    Decidable (CompletesOutstanding τ s act) := inferInstanceAs (Decidable (∀ t ∈ act.ticked, _))

/-- The law of backpressure: no more picks are outstanding on a replica than are counted, and no more
than the cap. -/
def Backpressure (cfg : SchedulerConfig F) (τ : List (Act n Resp × List (Event n)))
    (s : System F n Resp) : Prop :=
  ∀ r, (outstanding τ r).card ≤ s.sched.inflight r ∧ (outstanding τ r).card ≤ cfg.maxInflight

/-- The account in a guarded run: the outstanding picks are exactly those counted, and each is held by
its task, unless its future was dropped. -/
structure Counted (τ : List (Act n Resp × List (Event n))) (s : System F n Resp) : Prop where
  /-- The count is the number of outstanding picks. -/
  card : ∀ r, (outstanding τ r).card = s.sched.inflight r
  /-- An outstanding pick is held. -/
  held : ∀ t r, t ∈ outstanding τ r →
    s.holdsAt t = some r ∨ s.handlers[t]? = some (.unary .dropped)

/-- One more step of a trace. -/
theorem outstanding_snoc (τ : List (Act n Resp × List (Event n))) (act : Act n Resp)
    (es : List (Event n)) : outstanding (τ ++ [(act, es)]) = es.foldl settle (outstanding τ) := by
  rw [outstanding, List.flatMap_append, List.foldl_append]
  simp [outstanding]

/-- A pass of the prober keeps the account: both the count and the outstanding picks of a replica taken
out of routing are reset. -/
theorem settle_probeEvents {sched : Scheduler F n} {out : Fin n → Finset ℕ}
    (h : ∀ r, (out r).card = sched.inflight r) (results : List (Fin n × Bool)) (r : Fin n) :
    ((probeEvents sched results).foldl settle out r).card =
        (RouterInner.applyProbes sched results).1.inflight r ∧
      (probeEvents sched results).foldl settle out r ⊆ out r := by
  refine probe_induction (P := fun es sched => ∀ r,
    (es.foldl settle out r).card = sched.inflight r ∧ es.foldl settle out r ⊆ out r)
    (fun es sc i hP j => ?_) (fun es sc i hP j => ?_) (fun j => ⟨h j, subset_rfl⟩) results r
  · rw [List.foldl_append, Scheduler.inflight_markHealthy]
    exact hP j
  · rw [List.foldl_append, Scheduler.inflight_markUnhealthy]
    simp only [List.foldl_cons, List.foldl_nil, settle]
    by_cases hj : j = i
    · subst hj
      simp
    · rw [Function.update_of_ne hj, if_neg hj]
      exact hP j

section Runs

variable [Mul F] [Sub F] [LT F] [DecidableLT F] [ScoreArith F]

/-- A step of task `t` keeps the count of outstanding picks, if a completion is of an outstanding pick or
finds nothing counted.

**Proof sketch.** By what the step does to the scheduler. A task that picks had no pick outstanding, so
its pick is a new one; a completion takes away a pick that was outstanding, or meets a count of zero,
where nothing is outstanding; a mark resets the count and the set. -/
theorem card_settle_move {out : Fin n → Finset ℕ} {t : ℕ} {sched sched' : Scheduler F n}
    {h h' : Handler n Resp} {input : Input Resp} {es : List (Event n)}
    (hcard : ∀ r, (out r).card = sched.inflight r) (hheld : ∀ r, t ∈ out r → h.holds = some r)
    (hok : input = .tick → ∀ r, h.completes = some r → t ∈ out r ∨ sched.inflight r = 0)
    (hmove : h.Move t sched input es sched' h') (r : Fin n) :
    (es.foldl settle out r).card = sched'.inflight r := by
  cases hmove with
  | quiet => exact hcard r
  | refused => exact hcard r
  | picked hashes d _ _ hpick hbefore =>
    rw [Scheduler.inflight_pick hpick, ← hcard r]
    simp only [List.foldl_cons, List.foldl_nil, settle]
    split_ifs with hr
    · subst hr
      have hnew : t ∉ out d.replica := fun ht => by simp [hheld _ ht] at hbefore
      rw [Function.update_self, Finset.card_insert_of_notMem hnew]
    · rw [Function.update_of_ne hr]
  | completed i _ hat =>
    rw [Scheduler.inflight_complete]
    simp only [List.foldl_cons, List.foldl_nil, settle]
    split_ifs with hr
    · subst hr
      rw [Function.update_self, ← hcard r]
      rcases hok rfl r hat with ht | hzero
      · rw [Finset.card_erase_of_mem ht]
      · rw [← hcard r, Finset.card_eq_zero] at hzero
        rw [hzero]
        rfl
    · rw [Function.update_of_ne hr, hcard r]
  | marked i =>
    rw [Scheduler.inflight_markUnhealthy]
    simp only [List.foldl_cons, List.foldl_nil, settle]
    split_ifs with hr
    · subst hr
      rw [Function.update_self, Finset.card_empty]
    · rw [Function.update_of_ne hr, hcard r]
  | dropped => exact hcard r

/-- Where a set was replaced, a member is in the new set; elsewhere, it was a member before. -/
theorem mem_update_inv {out : Fin n → Finset ℕ} {i r : Fin n} {S : Finset ℕ} {t : ℕ}
    (h : t ∈ Function.update out i S r) : r = i ∧ t ∈ S ∨ r ≠ i ∧ t ∈ out r := by
  by_cases hr : r = i
  · subst hr
    rw [Function.update_self] at h
    exact .inl ⟨rfl, h⟩
  · rw [Function.update_of_ne hr] at h
    exact .inr ⟨hr, h⟩

/-- A step of task `t` leaves outstanding picks of other tasks, and of its own the one that it holds.

**Proof sketch.** A pick of another task can only have been removed by the step, not added. A pick of the
task itself is the one it has just made, or the one it holds, as its completion removes it. -/
theorem mem_settle_move {out : Fin n → Finset ℕ} {t t' : ℕ} {sched sched' : Scheduler F n}
    {h h' : Handler n Resp} {input : Input Resp} {es : List (Event n)} {r : Fin n}
    (hheld : ∀ r, t ∈ out r → h.holds = some r) (hmove : h.Move t sched input es sched' h')
    (ht' : t' ∈ es.foldl settle out r) :
    t' ≠ t ∧ t' ∈ out r ∨ t' = t ∧ (h'.holds = some r ∨ h' = .unary .dropped) := by
  by_cases hne : t' = t
  · subst hne
    refine .inr ⟨rfl, ?_⟩
    cases hmove with
    | quiet _ _ _ hholds => exact .inl (hholds.trans (hheld r ht'))
    | refused _ _ _ _ hbefore => simp [hheld r ht'] at hbefore
    | picked hashes d _ _ hpick hbefore hafter =>
      simp only [List.foldl_cons, List.foldl_nil, settle] at ht'
      rcases mem_update_inv ht' with ⟨rfl, -⟩ | ⟨-, hmem⟩
      · exact .inl hafter
      · simp [hheld r hmem] at hbefore
    | completed i _ _ hbefore =>
      simp only [List.foldl_cons, List.foldl_nil, settle] at ht'
      rcases mem_update_inv ht' with ⟨rfl, hmem⟩ | ⟨hr, hmem⟩
      · exact absurd hmem (Finset.notMem_erase _ _)
      · rw [hheld r hmem, Option.some_inj] at hbefore
        exact absurd hbefore hr
    | marked i _ hholds =>
      simp only [List.foldl_cons, List.foldl_nil, settle] at ht'
      rcases mem_update_inv ht' with ⟨rfl, hmem⟩ | ⟨-, hmem⟩
      · exact absurd hmem (Finset.notMem_empty _)
      · exact .inl (hholds.trans (hheld r hmem))
    | dropped => exact .inr rfl
  · refine .inl ⟨hne, ?_⟩
    cases hmove with
    | quiet => exact ht'
    | refused => exact ht'
    | picked hashes d =>
      rcases mem_update_inv ht' with ⟨rfl, hmem⟩ | ⟨-, hmem⟩
      · exact (Finset.mem_insert.mp hmem).resolve_left hne
      · exact hmem
    | completed i =>
      rcases mem_update_inv ht' with ⟨rfl, hmem⟩ | ⟨-, hmem⟩
      · exact Finset.mem_of_mem_erase hmem
      · exact hmem
    | marked i =>
      rcases mem_update_inv ht' with ⟨rfl, hmem⟩ | ⟨-, hmem⟩
      · exact absurd hmem (Finset.notMem_empty _)
      · exact hmem
    | dropped => exact ht'

/-- **One step keeps the account**, if a completion is of an outstanding pick or finds nothing counted.

**Proof sketch.** A task that picks holds nothing before, so its pick is a new one. A completion of an
outstanding pick takes one from both sides, and where nothing is counted nothing is outstanding. A mark
resets both sides. -/
theorem Counted.step {deps : Deps} {τ : List (Act n Resp × List (Event n))} {s s' : System F n Resp}
    {act : Act n Resp} {es : List (Event n)} (h : Counted τ s) (hok : CompletesOutstanding τ s act)
    (hstep : (lts F n Resp deps).step s act es s') : Counted (τ ++ [(act, es)]) s' := by
  cases step_inv hstep with
  | spawned act hd hact =>
    refine ⟨fun r => ?_, fun t r ht => ?_⟩
    · rw [outstanding_snoc]
      exact h.card r
    · rw [outstanding_snoc] at ht
      -- the task is an old one
      have hold := h.held t r ht
      have hlt : t < s.handlers.length := by
        by_contra hlt
        have hnone : s.handlers[t]? = none := List.getElem?_eq_none (not_lt.mp hlt)
        simp [holdsAt, hnone] at hold
      simpa only [holdsAt, List.getElem?_append_left hlt] using hold
  | ran t input es inner hd hd' hget hrun =>
    have hmove := Handler.move_of_step hrun
    -- an outstanding pick of the task is the one that its handler holds
    have hheld : ∀ r, t ∈ outstanding τ r → hd.holds = some r := fun r ht => by
      rcases h.held t r ht with hat | hdropped
      · rwa [holdsAt, hget] at hat
      · rw [hget, Option.some_inj] at hdropped
        exact absurd hdropped (Handler.not_dropped_of_step hrun)
    refine ⟨fun r => ?_, fun t' r ht' => ?_⟩
    · rw [outstanding_snoc]
      refine card_settle_move h.card hheld (fun hinput i hi => ?_) hmove r
      exact hok t (hinput ▸ rfl) i (by rw [hget, Option.bind_some, hi])
    · rw [outstanding_snoc] at ht'
      simp only [holdsAt, getElem?_set_handlers hget]
      rcases mem_settle_move hheld hmove ht' with ⟨hne, hmem⟩ | ⟨rfl, hafter⟩
      · rw [if_neg hne]
        exact h.held t' r hmem
      · rw [if_pos rfl]
        exact hafter.imp id (congrArg some)
  | probed results =>
    refine ⟨fun r => ?_, fun t r ht => ?_⟩
    · rw [outstanding_snoc]
      exact (settle_probeEvents h.card results r).1
    · rw [outstanding_snoc] at ht
      exact h.held t r ((settle_probeEvents h.card results r).2 ht)
  | published =>
    refine ⟨fun r => ?_, fun t r ht => ?_⟩
    · rw [outstanding_snoc]
      exact h.card r
    · rw [outstanding_snoc] at ht
      exact h.held t r ht

variable {deps : Deps} {policy : Policy} {cfg : SchedulerConfig F}
  {τ : List (Act n Resp × List (Event n))} {s : System F n Resp}

/-- The account of a guarded run. -/
theorem counted_of_run
    (h : (lts F n Resp deps).Run CompletesOutstanding (new n Resp policy cfg) τ s) : Counted τ s :=
  Lts.Run.invariant (I := Counted) h
    ⟨fun _ => rfl, fun _ _ ht => absurd ht (Finset.notMem_empty _)⟩
    fun _ _ _ _ _ hI hok hstep => hI.step hok hstep

/-- A guarded run obeys the law of backpressure. -/
theorem backpressure_of_run
    (h : (lts F n Resp deps).Run CompletesOutstanding (new n Resp policy cfg) τ s) :
    Backpressure cfg τ s := fun r => by
  have hcard := (counted_of_run h).card r
  have hmax := ((inv_of_run h).replica r).inflight_le
  rw [cfg_of_run h] at hmax
  exact ⟨hcard.le, hcard.le.trans hmax⟩

/-- **When the cap on requests in flight is real.** A run obeys the law of backpressure at every point
exactly if each of its completions is of a pick that is still outstanding, or finds nothing counted.

**Proof sketch.** In a guarded run the count of a replica *is* the number of outstanding picks
(`Counted.step`). So a completion that is of no outstanding pick, and takes one from the count, leaves
the count below them; `Lts.Run.forall_isPrefix_iff`. -/
theorem backpressure_iff (h : (lts F n Resp deps).Exec (new n Resp policy cfg) τ s) :
    (∀ τ₁ s₁, τ₁ <+: τ → (lts F n Resp deps).Exec (new n Resp policy cfg) τ₁ s₁ →
      Backpressure cfg τ₁ s₁) ↔
      (lts F n Resp deps).Run CompletesOutstanding (new n Resp policy cfg) τ s := by
  refine Lts.Run.forall_isPrefix_iff (lts_deterministic deps) (Backpressure cfg)
    backpressure_of_run (fun {τ s act es s'} hrun hstep hbreach hlaw => ?_) h
  obtain ⟨t, ht, r, hat, hnot⟩ : ∃ t ∈ act.ticked, ∃ r,
      s.handlers[t]?.bind Handler.completes = some r ∧
      ¬ (t ∈ outstanding τ r ∨ s.sched.inflight r = 0) := by
    simpa only [CompletesOutstanding, not_forall, exists_prop] using hbreach
  obtain rfl := Act.eq_of_ticked ht
  have hcard := (counted_of_run hrun).card r
  have hle := (hlaw r).1
  cases step_inv hstep with
  | spawned _ _ hact => cases hact
  | ran _ _ es inner hd hd' hget hstep' =>
    rw [hget, Option.bind_some] at hat
    obtain ⟨rfl, hsched⟩ := Handler.step_of_completes hat hstep'
    -- the count drops by one, and the outstanding picks stay
    simp only [sched] at hcard hle hnot
    rw [outstanding_snoc, hsched, Scheduler.inflight_complete, if_pos rfl] at hle
    simp only [List.foldl_cons, List.foldl_nil, settle, Function.update_self] at hle
    rw [Finset.erase_eq_of_notMem fun ht => hnot (.inl ht)] at hle
    omega

/-- A run that obeys the law: a pass of the prober takes the replica out of routing and another one
takes it back, and the late completion in between finds nothing counted. -/
theorem backpressure_iff_late : ∃ τ s,
    (lts ℚ 1 Unit emptyPromptDeps).Exec (new 1 Unit .cacheAware capOne) τ s ∧ τ.length = 10 ∧
      ∀ τ₁ s₁, τ₁ <+: τ →
        (lts ℚ 1 Unit emptyPromptDeps).Exec (new 1 Unit .cacheAware capOne) τ₁ s₁ →
        Backpressure capOne τ₁ s₁ := by
  have hrun := Lts.run_get (step emptyPromptDeps) (new 1 Unit .cacheAware capOne) CompletesOutstanding
    [.spawnUnary emptyPrompt, .run 0 .tick, .run 0 .tick, .run 0 .tick,
      .probe [(0, false)], .publish, .run 0 (.reply (.ok ())), .run 0 .tick, .probe [(0, true)],
      .publish]
    (by decide +kernel)
  exact ⟨_, _, hrun.exec, by decide +kernel, (backpressure_iff hrun.exec).mpr hrun⟩

/-- **The cap is broken.** The replica of the first call is taken out of routing and comes back; the
second call picks it; the late completion of the first call is charged against the second one, so that
the third call picks the replica too: two requests are outstanding at a cap of one. -/
theorem exists_not_backpressure : ∃ τ s,
    (lts ℚ 1 Unit emptyPromptDeps).Exec (new 1 Unit .cacheAware capOne) τ s ∧
      (outstanding τ 0).card = 2 ∧ s.sched.inflight 0 = 1 ∧ capOne.maxInflight = 1 :=
  ⟨_, _, Lts.exec_get (step emptyPromptDeps) _ [.spawnUnary emptyPrompt,
      .spawnUnary emptyPrompt, .spawnUnary emptyPrompt, .run 0 .tick, .run 0 .tick, .run 0 .tick,
      .probe [(0, false)], .publish, .probe [(0, true)], .publish, .run 1 .tick, .run 1 .tick,
      .run 0 (.reply (.ok ())), .run 0 .tick, .run 2 .tick, .run 2 .tick] (by decide +kernel),
    by decide +kernel, by decide +kernel, rfl⟩

end Runs

end System
