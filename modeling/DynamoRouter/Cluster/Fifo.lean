import DynamoRouter.Cluster.Picture
import DynamoRouter.Router.Mirror

set_option relaxedAutoImplicit false
set_option autoImplicit false

/-!
# Requests that arrive in order

Where blocks are evicted, the router's picture of a replica can be right only if the replica sees the
chains in the order in which the router picked for them. Then it is right: the decision of each pick
foretells how many blocks the replica finds when the request reaches it, and the replica, once it has seen
all, has the blocks of the picture.

## Main definitions

* `Cluster.foretold`, `Cluster.found` — what the picks of a replica reported, and what the replica found.
* `Cluster.InOrder` — the requests reach each replica in the order of its picks.
* `Cluster.answersOf` — what a cache answers to a queue of chains.

## Main results

* `Cluster.found_of_run` — what a replica found is what the picks foretold.
-/

open Protocol

/-- What a pick of replica `r` reports: its task, the matched blocks, and the blocks of the prompt. -/
def Event.foretoldFor {n : ℕ} (r : Fin n) : Event n → Option (ℕ × ℕ × ℕ)
  | .picked t promptBlocks d => if d.replica = r then some (t, d.matchedBlocks, promptBlocks) else none
  | _ => none

namespace Cluster

variable {F : Type} {n : ℕ}

/-- What replica `r` finds for a request: its task, the cached blocks, and the blocks of the prompt. -/
def Seen.foundBy (r : Fin n) : Seen n → Option (ℕ × ℕ × ℕ)
  | .served t r' (.ok p) => if r' = r then some (t, p.cached, p.total) else none
  | _ => none

/-- **What the picks of replica `r` reported**, in order. -/
def foretold (τ : List (Action n × Seen n)) (r : Fin n) : List (ℕ × ℕ × ℕ) :=
  ((routerTrace τ).flatMap Prod.snd).filterMap (Event.foretoldFor r)

/-- **What replica `r` found**, in order. -/
def found (τ : List (Action n × Seen n)) (r : Fin n) : List (ℕ × ℕ × ℕ) :=
  τ.filterMap fun x => x.2.foundBy r

/-- The requests reach each replica in the order of its picks: the next one is for the first pick that the
replica has not seen. -/
def InOrder (τ : List (Action n × Seen n)) (s : Cluster F n) (a : Action n) : Prop :=
  ∀ t, a = .serve t → ∀ x, s.waiting t = some x →
    (found τ x.1).map Prod.fst ++ [t] <+: (foretold τ x.1).map Prod.fst

/-- Whether the requests arrive in order can be decided. -/
instance (τ : List (Action n × Seen n)) (s : Cluster F n) (a : Action n) : Decidable (InOrder τ s a) :=
  match a with
  | .serve t => decidable_of_iff
      (∀ x ∈ s.waiting t, (found τ x.1).map Prod.fst ++ [t] <+: (foretold τ x.1).map Prod.fst)
      ⟨fun h _ ht x hx => by cases ht; exact h x hx, fun h x hx => h t rfl x hx⟩
  | .router _ => .isTrue fun _ h => by cases h
  | .serveStray _ => .isTrue fun _ h => by cases h
  | .deliver _ => .isTrue fun _ h => by cases h
  | .fail _ _ => .isTrue fun _ h => by cases h

/-- What a cache answers to the chains of a queue, one after another. -/
def answersOf : KvCacheSim → List (ℕ × List UInt64) → List (ℕ × ℕ × ℕ)
  | _, [] => []
  | c, (t, hashes) :: q =>
    (t, (c.lookupInsert hashes).1, hashes.length) :: answersOf (c.lookupInsert hashes).2 q

/-- The answers to a queue with one more chain. -/
theorem answersOf_concat (c : KvCacheSim) (q : List (ℕ × List UInt64)) (t : ℕ) (hashes : List UInt64) :
    answersOf c (q ++ [(t, hashes)]) = answersOf c q ++
      [(t, ((c.runCalls (q.map Prod.snd)).lookupInsert hashes).1, hashes.length)] := by
  induction q generalizing c with
  | nil => rfl
  | cons x q ih =>
    rw [List.cons_append, answersOf, answersOf, ih]
    rfl

/-- One more step of a trace. -/
theorem foretold_snoc (τ : List (Action n × Seen n)) (a : Action n) (e : Seen n) (r : Fin n) :
    foretold (τ ++ [(a, e)]) r = foretold τ r ++
      (e.routed.toList.flatMap Prod.snd).filterMap (Event.foretoldFor r) := by
  rw [foretold, routerTrace_snoc, List.flatMap_append, List.filterMap_append, foretold]

/-- One more step of a trace. -/
theorem found_snoc (τ : List (Action n × Seen n)) (a : Action n) (e : Seen n) (r : Fin n) :
    found (τ ++ [(a, e)]) r = found τ r ++ (e.foundBy r).toList := by
  rw [found, List.filterMap_append, found]
  cases he : e.foundBy r <;> simp [he]

/-- The picture and the replica, where requests arrive in order. -/
structure Synced (cfg : SchedulerConfig F) (τ : List (Action n × Seen n)) (s : Cluster F n)
    (Q : Queues n) : Prop where
  /-- The capacities of the replicas. -/
  capacity : ∀ r, (s.replicas r).cache.capacity = cfg.blockBudget
  /-- The picks that a replica has not seen are in its queue, in order. -/
  queue : ∀ r, (foretold τ r).map Prod.fst = (found τ r).map Prod.fst ++ (Q r).map Prod.fst
  /-- The picture is what the replica will have, once it has seen its queue. -/
  picture : ∀ r, NeverMarked τ r → (s.router.sched.replicas r).cache.toLazyLru =
    ((s.replicas r).cache.runCalls ((Q r).map Prod.snd)).toLazyLru
  /-- The picks foretell what the replica found, and what it will find for its queue. -/
  foretold : ∀ r, NeverMarked τ r →
    foretold τ r = found τ r ++ answersOf (s.replicas r).cache (Q r)

/-- At the start nothing was picked. -/
theorem synced_new (policy : Policy) (cfg : SchedulerConfig F) {mocks : Fin n → MockConfig}
    (hcapacity : ∀ r, (mocks r).cacheBlocks = cfg.blockBudget) :
    Synced cfg [] (new policy cfg mocks) fun _ => [] where
  capacity := hcapacity
  queue _ := rfl
  picture _ _ := rfl
  foretold _ _ := rfl

variable {cfg : SchedulerConfig F} {τ : List (Action n × Seen n)} {s s' : Cluster F n} {a : Action n}
  {Q : Queues n}

/-- A step that makes no decision, and leaves the replicas alone, keeps them in order. -/
theorem Synced.quiet {act : Act n MockResponse} {es : List (Event n)} (h : Synced cfg τ s Q)
    (hes : ∀ i, es.filterMap (Event.decisionOf i) = [])
    (hcaches : CachesKept s.router.sched s'.router.sched es) (hreplicas : s'.replicas = s.replicas) :
    Synced cfg (τ ++ [(a, .router act es)]) s' Q := by
  have hforetold : ∀ r, Cluster.foretold (τ ++ [(a, .router act es)]) r = Cluster.foretold τ r := fun r => by
    have hpicks : ∀ e x, Event.foretoldFor r e = some x → ∃ t promptBlocks d, e = .picked t promptBlocks d :=
      fun e x hx => by cases e <;> first | exact ⟨_, _, _, rfl⟩ | cases hx
    rw [foretold_snoc, Seen.routed, Option.toList_some, List.flatMap_singleton,
      System.filterMap_pick_eq_nil hpicks hes, List.append_nil]
  have hfound : ∀ r, found (τ ++ [(a, .router act es)]) r = found τ r := fun r => by
    rw [found_snoc]
    exact List.append_nil _
  refine ⟨fun r => hreplicas ▸ h.capacity r, fun r => ?_, fun r hmarked => ?_, fun r hmarked => ?_⟩
  · rw [hforetold, hfound]
    exact h.queue r
  · have hcache : (s'.router.sched.replicas r).cache = (s.router.sched.replicas r).cache :=
      (hcaches r).resolve_right fun hmem => hmarked.of_concat.2 act es rfl hmem.1
    rw [hcache, hreplicas]
    exact h.picture r hmarked.of_concat.1
  · rw [hforetold, hfound, hreplicas]
    exact h.foretold r hmarked.of_concat.1

/-- A request that reaches its replica in order is the first one of its queue.

**Proof sketch.** The tasks that were picked and not found yet are those of the queue, in order; so the
task that comes next is the first of them, and its chain is that of its request. -/
theorem Synced.queue_eq {deps : Deps} {t : ℕ} {r : Fin n} {req : ModelInferRequest}
    {hashes : List UInt64} (h : Synced cfg τ s Q) (hQ : Queued deps s Q)
    (horder : (found τ r).map Prod.fst ++ [t] <+: (Cluster.foretold τ r).map Prod.fst)
    (hwaiting : s.waiting t = some (r, req))
    (hprompt : RouterInner.promptHashes deps req = .ok hashes) :
    Q r = (t, hashes) :: (Q r).erase (t, hashes) := by
  rw [h.queue r, List.prefix_append_right_inj] at horder
  obtain ⟨rest, hrest⟩ := horder
  cases hq : Q r with
  | nil => simp [hq] at hrest
  | cons x q =>
    rw [hq, List.map_cons, List.singleton_append] at hrest
    obtain ⟨ht, -⟩ := List.cons.inj hrest
    obtain ⟨req', hwaiting', hprompt'⟩ := (hQ.mem r x.1 x.2).mp (hq ▸ List.mem_cons_self)
    rw [← ht, hwaiting] at hwaiting'
    cases hwaiting'
    obtain rfl : hashes = x.2 := Except.ok.inj (hprompt.symm.trans hprompt')
    rw [ht, List.erase_cons_head]

/-- A request that reaches its replica in order finds what was foretold for it.

**Proof sketch.** The replica runs the first chain of its queue, so that what it will be after its queue
does not change, and the answer to that chain moves from what is foretold to what is found. -/
theorem Synced.served {t : ℕ} {r : Fin n} {hashes : List UInt64} {p : Prefill} (h : Synced cfg τ s Q)
    (hqueue : Q r = (t, hashes) :: (Q r).erase (t, hashes))
    (hcached : p.cached = (s.replicas r).cache.leading hashes) (htotal : p.total = hashes.length)
    (hrouter : s'.router = s.router)
    (hreplicas : s'.replicas = Function.update s.replicas r ((s.replicas r).served hashes)) :
    Synced cfg (τ ++ [(a, .served t r (.ok p))]) s'
      (Function.update Q r ((Q r).erase (t, hashes))) := by
  have hforetold : ∀ i, Cluster.foretold (τ ++ [(a, .served t r (.ok p))]) i = Cluster.foretold τ i := fun i => by
    rw [foretold_snoc, Seen.routed, Option.toList_none, List.flatMap_nil, List.filterMap_nil,
      List.append_nil]
  have hfound : found (τ ++ [(a, .served t r (.ok p))]) r =
      found τ r ++ [(t, ((s.replicas r).cache.lookupInsert hashes).1, hashes.length)] := by
    rw [found_snoc, Seen.foundBy, if_pos rfl, hcached, htotal]
    rfl
  have hother : ∀ i, i ≠ r → found (τ ++ [(a, .served t r (.ok p))]) i = found τ i := fun i hi => by
    rw [found_snoc, Seen.foundBy, if_neg (Ne.symm hi)]
    exact List.append_nil _
  have hcache : ∀ i, i ≠ r → s'.replicas i = s.replicas i := fun i hi => by
    rw [hreplicas, Function.update_of_ne hi]
  have hcacheSelf : (s'.replicas r).cache = ((s.replicas r).cache.lookupInsert hashes).2 := by
    rw [hreplicas, Function.update_self]
    rfl
  refine ⟨fun i => ?_, fun i => ?_, fun i hmarked => ?_, fun i hmarked => ?_⟩
  · exact (capacity_of_served hreplicas i).trans (h.capacity i)
  · rw [hforetold, h.queue]
    by_cases hi : i = r
    · subst hi
      conv_lhs => rw [hqueue]
      rw [Function.update_self, hfound, List.map_append, List.append_assoc]
      rfl
    · rw [Function.update_of_ne hi, hother i hi]
  · rw [hrouter, h.picture i hmarked.of_concat.1]
    by_cases hi : i = r
    · subst hi
      conv_lhs => rw [hqueue]
      rw [Function.update_self, hcacheSelf]
      rfl
    · rw [Function.update_of_ne hi, hcache i hi]
  · rw [hforetold, h.foretold i hmarked.of_concat.1]
    by_cases hi : i = r
    · subst hi
      conv_lhs => rw [hqueue]
      rw [Function.update_self, hfound, hcacheSelf, List.append_assoc]
      rfl
    · rw [Function.update_of_ne hi, hother i hi, hcache i hi]

section Step

variable [Mul F] [Sub F] [LT F] [DecidableLT F] [ScoreArith F]

/-- A pick foretells what the replica will find, once it has seen its queue.

**Proof sketch.** The decision reports what the picture matches, and the picture is what the replica will
have after its queue; so it is what the replica will answer to one more chain. -/
theorem Synced.picked {t : ℕ} {hashes : List UInt64} {d : RouteDecision n} (h : Synced cfg τ s Q)
    (hpolicy : s.router.sched.policy = .cacheAware) (hcfg : s.router.sched.cfg = cfg)
    (hmin : cfg.minMatchBlocks ≠ 0)
    (hpick : s.router.sched.pick hashes = some (.ok d, s'.router.sched))
    (hreplicas : s'.replicas = s.replicas) :
    Synced cfg (τ ++ [(a, .router (.run t .tick) [.picked t hashes.length d])]) s'
      (Function.update Q d.replica (Q d.replica ++ [(t, hashes)])) := by
  obtain ⟨harm, hcommit⟩ := Scheduler.pick_cacheAware_inv hpolicy hpick
  have hmatched : d.matchedBlocks = (s.router.sched.replicas d.replica).cache.lookup hashes :=
    (Scheduler.matchedBlocks_eq_lookup_iff harm).mpr (.inl (hcfg ▸ hmin))
  have hforetold : ∀ r, Cluster.foretold
      (τ ++ [(a, .router (.run t .tick) [.picked t hashes.length d])]) r = Cluster.foretold τ r ++
        if d.replica = r then [(t, d.matchedBlocks, hashes.length)] else [] := fun r => by
    rw [foretold_snoc, Seen.routed, Option.toList_some, List.flatMap_singleton]
    by_cases hr : d.replica = r <;> simp [Event.foretoldFor, hr]
  have hfound : ∀ r, found (τ ++ [(a, .router (.run t .tick) [.picked t hashes.length d])]) r =
      found τ r := fun r => by
    rw [found_snoc]
    exact List.append_nil _
  refine ⟨fun r => hreplicas ▸ h.capacity r, fun r => ?_, fun r hmarked => ?_, fun r hmarked => ?_⟩
  · rw [hforetold, hfound, List.map_append, h.queue]
    by_cases hr : r = d.replica
    · subst hr
      simp
    · simp [Function.update_of_ne hr, Ne.symm hr]
  · have hold := h.picture r hmarked.of_concat.1
    rw [hreplicas, hcommit]
    by_cases hr : r = d.replica
    · subst hr
      rw [Scheduler.replicas_commit_self, if_pos hpolicy, Function.update_self, List.map_append,
        KvCacheSim.runCalls, List.foldl_append, hcfg]
      refine Scheduler.toLazyLru_insert_evictTo hold ?_ hashes
      exact (KvCacheSim.capacity_runCalls _ _).trans (h.capacity _)
    · rw [Scheduler.replicas_commit_of_ne _ _ _ hr, Function.update_of_ne hr]
      exact hold
  · have hold := h.foretold r hmarked.of_concat.1
    rw [hforetold, hfound, hreplicas, hold]
    by_cases hr : r = d.replica
    · subst hr
      have hanswer : d.matchedBlocks = (((s.replicas d.replica).cache.runCalls
          ((Q d.replica).map Prod.snd)).lookupInsert hashes).1 := by
        rw [hmatched, KvCacheSim.lookupInsert_fst, PrefixCache.lookup,
          h.picture _ hmarked.of_concat.1]
      rw [Function.update_self, if_pos rfl, answersOf_concat, hanswer, List.append_assoc]
    · rw [Function.update_of_ne hr, if_neg (Ne.symm hr), List.append_nil]

variable {deps : ClusterDeps} {mocks : Fin n → MockConfig}

/-- If nothing has gone astray, what reaches a replica is the request of a task. -/
theorem action_of_served (hstrays : s.strays = []) {t : ℕ} {r : Fin n}
    {result : Except Status Prefill} (hstep : (lts F n deps).step s a (.served t r result) s') :
    a = .serve t := by
  generalize he : Seen.served t r result = e at hstep
  cases step_inv hstep with
  | routed | delivered | failed => cases he
  | served =>
    cases he
    rfl
  | servedStray i _ _ _ hget =>
    rw [hstrays] at hget
    cases hget

/-- **One step of a calm run in which requests arrive in order.** -/
theorem Synced.step {Q' : Queues n} {e : Seen n} (hmin : cfg.minMatchBlocks ≠ 0)
    (hs : s.Orderly deps.toDeps (SamePrompt deps.toDeps) .cacheAware cfg)
    (hQ : Queued deps.toDeps s Q) (h : Synced cfg τ s Q) (horder : InOrder τ s a)
    (hstep : (lts F n deps).step s a e s')
    (hcalm : CalmStep deps (SamePrompt deps.toDeps) s Q e s' Q') : Synced cfg (τ ++ [(a, e)]) s' Q' := by
  cases hcalm with
  | picked t hashes d req _ _ _ hpick hreplicas =>
    exact h.picked hs.policy hs.cfg hmin hpick hreplicas
  | served t r hashes req p _ _ _ hmem hcached htotal hrouter hreplicas =>
    obtain ⟨req', hwaiting, hprompt⟩ := (hQ.mem r t hashes).mp hmem
    have hfirst := horder t (action_of_served hs.strays hstep) _ hwaiting
    exact h.served (h.queue_eq hQ hfirst hwaiting hprompt) hcached htotal hrouter hreplicas
  | quiet act es _ hes hcaches hreplicas => exact h.quiet hes hcaches hreplicas

/-- **Requests that arrive in order find what was foretold.** In every calm run of the cache-aware policy
in which the budget of the router is the capacity of the replicas, and each replica sees its requests in
the order of its picks: what a replica that was never taken out of routing found, request by request, is
what the decisions of its picks reported, as far as the requests have arrived; and once all have, it has
the blocks of the picture. Blocks may be evicted on both sides.

**Proof sketch.** The picture of a replica is what the replica's cache becomes when it runs the chains of
its queue (`Synced`). A pick runs one more chain at the end of the queue, and its decision reports what
that finds; a request that arrives in order runs the first chain of the queue. -/
theorem found_of_run (hmin : cfg.minMatchBlocks ≠ 0)
    (hcapacity : ∀ r, (mocks r).cacheBlocks = cfg.blockBudget)
    (hrun : (lts F n deps).Run (fun τ s a => Calm (SamePrompt deps.toDeps) a ∧ InOrder τ s a)
      (new .cacheAware cfg mocks) τ s) {r : Fin n} (hmarked : NeverMarked τ r) :
    found τ r <+: foretold τ r ∧
      ((∀ t req, s.waiting t ≠ some (r, req)) →
        found τ r = foretold τ r ∧ s.picture r = s.cached r) := by
  obtain ⟨Q, hQ, -, h⟩ := calm_induction (I := Synced cfg) (fun _ _ _ ha => ha.1) (fun _ hreq => hreq)
    (synced_new .cacheAware cfg hcapacity)
    (fun _ _ _ _ _ _ _ hs hQ hI ha hstep hcalm => hI.step hmin hs hQ ha.2 hstep hcalm) hrun
  rw [h.foretold r hmarked]
  refine ⟨List.prefix_append _ _, fun hwaiting => ?_⟩
  have hnone : Q r = [] := List.eq_nil_iff_forall_not_mem.mpr fun x hx => by
    obtain ⟨req, hreq, -⟩ := (hQ.mem r x.1 x.2).mp hx
    exact hwaiting x.1 req hreq
  refine ⟨by rw [hnone, answersOf, List.append_nil], ?_⟩
  rw [picture, h.picture r hmarked, hnone]
  rfl

/-- A configuration whose budget is two blocks. -/
def twoBlocks : SchedulerConfig ℚ where
  alpha := 1
  beta := 2
  minMatchBlocks := 1
  blockBudget := 2
  maxInflight := 4

/-- The steps of three calls, of which two have reached the replica. -/
def threeInOrder : List (Action 1) :=
  [.router (.spawnUnary twoPrompts[0]), .router (.spawnUnary twoPrompts[1]),
    .router (.spawnUnary twoPrompts[0])] ++
    List.replicate 3 (.router (.run 0 .tick)) ++ List.replicate 3 (.router (.run 1 .tick)) ++
    List.replicate 3 (.router (.run 2 .tick)) ++ [.serve 0, .serve 1]

/-- Three calls whose chains do not all fit: each one evicts a block of the one before it, and finds the
block that they share. -/
theorem found_of_run_three : ∃ τ s,
    (lts ℚ 1 charNet).Run (fun τ s a => Calm (SamePrompt charDeps) a ∧ InOrder τ s a)
      (new .cacheAware twoBlocks fun _ => { MockConfig.default with cacheBlocks := 2 }) τ s ∧
      foretold τ 0 = [(0, 0, 2), (1, 1, 2), (2, 1, 2)] ∧ found τ 0 = [(0, 0, 2), (1, 1, 2)] ∧
      found τ 0 <+: foretold τ 0 := by
  have hrun := Lts.run_get (step charNet)
    (new (n := 1) .cacheAware twoBlocks fun _ => { MockConfig.default with cacheBlocks := 2 })
    (fun τ s a => Calm (SamePrompt charDeps) a ∧ InOrder τ s a) threeInOrder (by decide +kernel)
  exact ⟨_, _, hrun, by decide +kernel, by decide +kernel,
    (found_of_run (by decide) (fun _ => rfl) hrun (by unfold NeverMarked; decide +kernel)).1⟩

end Step

end Cluster
