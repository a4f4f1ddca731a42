import DynamoRouter.Cluster.Executions
import DynamoRouter.Cluster.Picture
import DynamoRouter.Cluster.Smooth
import DynamoRouter.Lib.ListSums
import DynamoRouter.Router.Mirror

set_option relaxedAutoImplicit false
set_option autoImplicit false

/-!
# The hit rate, on both sides

The router counts the blocks of the prompts that it routed, and of these the blocks that it matched in its
picture of the replica, when it picks. A replica counts the blocks of the prompts that reach it, and of
these the blocks that it had, when they reach it. The two count at different times and in different orders,
and each match depends on all that came before.

Still they agree in calm runs in which all blocks fit, once nothing is under way: the hits of a list of
chains do not depend on their order, as long as the chains are of a collision-free family and nothing is
evicted. Where the picture of a replica was cleared, the router counts fewer.

## Main definitions

* `Cluster.Sharing` — the prompts are hashed to chains of a collision-free family, which fits.
* `System.decisionsFor` — the decisions for a replica.
* `Cluster.Account` — the chains that were picked and served, and what they add up to.

## Main results

* `Cluster.account_of_run` — the account of every calm run.
* `Cluster.hitRate_of_run` — the counters of the router and of the replicas, at rest.
-/

open Protocol

/-- The decision of a pick of replica `r`, with the number of blocks of the prompt. -/
def Event.decisionFor {n : ℕ} (r : Fin n) : Event n → Option (ℕ × RouteDecision n)
  | .picked _ promptBlocks d => if d.replica = r then some (promptBlocks, d) else none
  | _ => none

namespace System

variable {n : ℕ} {Resp : Type}

/-- The decisions for replica `r`, in order, each with the number of blocks of its prompt. -/
def decisionsFor (τ : List (Act n Resp × List (Event n))) (r : Fin n) : List (ℕ × RouteDecision n) :=
  (τ.flatMap Prod.snd).filterMap (Event.decisionFor r)

/-- One more step of a trace. -/
theorem decisionsFor_snoc (τ : List (Act n Resp × List (Event n))) (act : Act n Resp)
    (es : List (Event n)) (r : Fin n) :
    decisionsFor (τ ++ [(act, es)]) r = decisionsFor τ r ++ es.filterMap (Event.decisionFor r) := by
  simp [decisionsFor]

/-- **Each decision is for one task and for one replica**, so that sums over all decisions may be taken
over the tasks or over the replicas. -/
theorem sum_decisions (τ : List (Act n Resp × List (Event n))) {N : ℕ}
    (hfresh : ∀ t, N ≤ t → decisions τ t = []) (w : ℕ × RouteDecision n → ℕ) :
    ∑ t ∈ Finset.range N, ((decisions τ t).map w).sum = ∑ r, ((decisionsFor τ r).map w).sum := by
  refine sum_filterMap_owners w fun e he => ?_
  cases e with
  | picked t promptBlocks d =>
    have ht : t < N := by
      by_contra hle
      have hnone := List.filterMap_eq_nil_iff.mp (hfresh t (not_lt.mp hle)) _ he
      rw [Event.decisionOf, if_pos rfl] at hnone
      cases hnone
    exact .inr ⟨t, Finset.mem_range.mpr ht, d.replica, Finset.mem_univ _, (promptBlocks, d),
      ⟨if_pos rfl, fun i hi => if_neg hi.symm⟩, if_pos rfl, fun i hi => if_neg hi.symm⟩
  | _ => exact .inl ⟨fun _ => rfl, fun _ => rfl⟩

end System

/-- **A decision reports no more blocks than the picture has**, and as many if the fallback is not turned
off. -/
theorem Scheduler.matchedBlocks_le_lookup {F : Type} {n : ℕ} [Mul F] [Sub F] [LT F] [DecidableLT F]
    [ScoreArith F] {s s' : Scheduler F n} {hashes : List UInt64} {d : RouteDecision n}
    (hp : s.policy = .cacheAware) (h : s.pick hashes = some (.ok d, s')) :
    d.matchedBlocks ≤ (s.replicas d.replica).cache.lookup hashes ∧
      (s.cfg.minMatchBlocks ≠ 0 → d.matchedBlocks = (s.replicas d.replica).cache.lookup hashes) := by
  have harm := (pick_cacheAware_inv hp h).1
  refine ⟨?_, fun hmin => (matchedBlocks_eq_lookup_iff harm).mpr (.inl hmin)⟩
  obtain ⟨first, rest, -, best, hbest, ⟨-, -, hm⟩ | ⟨-, hidx, hm⟩⟩ := routeCacheAware_inv harm
  · exact hm.le
  · rcases s.foldl_consider hashes (first :: rest) (first, ScoreArith.f64Min, 0) with
      ⟨heq, -⟩ | ⟨-, b, -, heq⟩
    · rw [hm, hbest, heq]
      exact Nat.zero_le _
    · rw [hm, hidx, hbest, heq]

namespace Handler

variable {n : ℕ} {Resp : Type}

/-- A handler that holds no pick asks no replica. -/
theorem asks_of_holds {h : Handler n Resp} (hholds : h.holds = none) : h.asks = none := by
  cases h with
  | unary pc => cases pc <;> first | rfl | cases hholds
  | stream s =>
    obtain ⟨pc, out, rxOpen⟩ := s
    cases pc <;> first | rfl | cases hholds

/-- A handler without a decision is not in `record_served`. -/
theorem records_of_current {h : Handler n Resp} (hcurrent : h.current = none) : h.records = false := by
  cases h with
  | unary pc => cases pc <;> first | rfl | cases hcurrent
  | stream s =>
    obtain ⟨pc, out, rxOpen⟩ := s
    cases pc <;> first | rfl | cases hcurrent

end Handler

namespace Cluster

variable {F : Type} {n : ℕ}

/-- A request whose prompt the two sides hash alike, to a chain of a family with blocks of `B`. -/
structure Sharing (deps : Deps) (B : Finset UInt64) (C : Set (List UInt64))
    (req : ModelInferRequest) : Prop where
  /-- The two sides agree, and the blocks are of the set. -/
  within : Within deps B req
  /-- The chain is of the family. -/
  chain : ∀ hashes, RouterInner.promptHashes deps req = .ok hashes → hashes ∈ C

/-- Whether a request is of a decidable family can be decided. -/
instance (deps : Deps) (B : Finset UInt64) (C : Set (List UInt64)) [DecidablePred (· ∈ C)] :
    DecidablePred (Sharing deps B C) := fun req =>
  decidable_of_iff (Within deps B req ∧
      ∀ hashes ∈ (RouterInner.promptHashes deps req).toOption, hashes ∈ C)
    ⟨fun h => ⟨h.1, fun hashes hprompt => h.2 hashes (by rw [hprompt]; rfl)⟩,
      fun h => ⟨h.within, fun hashes hmem => h.chain hashes (Except.eq_ok_of_toOption hmem)⟩⟩

/-- The account of the chains `G` that were picked and `V` that were served, for each replica. -/
structure Account (C : Set (List UInt64)) (cfg : SchedulerConfig F) (τ : List (Action n × Seen n))
    (s : Cluster F n) (Q : Queues n) (G V : Fin n → List (List UInt64)) : Prop where
  /-- The chains are of the family. -/
  chain : ∀ r, ∀ l ∈ G r, l ∈ C
  /-- What was picked was served, or is in the queue. -/
  perm : ∀ r, (V r ++ (Q r).map Prod.snd).Perm (G r)
  /-- The replica has what it served. -/
  cached : ∀ r, s.cached r = (V r).flatten.toFinset
  /-- It counted the hits of the chains in the order in which it served them. -/
  found : ∀ r, (s.replicas r).metrics.cachedBlocksTotal = hits ∅ (V r)
  /-- It counted their blocks. -/
  total : ∀ r, (s.replicas r).metrics.totalBlocksTotal = ((V r).map List.length).sum
  /-- The decisions are for prompts of these blocks. -/
  prompt : ∀ r, ((System.decisionsFor (routerTrace τ) r).map fun x => x.1).sum =
    ((G r).map List.length).sum
  /-- They report at most the hits of the chains in the order in which they were picked. -/
  matched_le : ∀ r,
    ((System.decisionsFor (routerTrace τ) r).map fun x => x.2.matchedBlocks).sum ≤ hits ∅ (G r)
  /-- They report all of them, if the replica was never taken out of routing. -/
  matched_eq : cfg.minMatchBlocks ≠ 0 → ∀ r, NeverMarked τ r →
    ((System.decisionsFor (routerTrace τ) r).map fun x => x.2.matchedBlocks).sum = hits ∅ (G r)

/-- At the start nothing was picked or served. -/
theorem account_new (C : Set (List UInt64)) (policy : Policy) (cfg : SchedulerConfig F)
    (mocks : Fin n → MockConfig) : Account C cfg [] (new policy cfg mocks) (fun _ => []) (fun _ => [])
      fun _ => [] where
  chain _ _ hl := by cases hl
  perm _ := .rfl
  cached _ := rfl
  found _ := rfl
  total _ := rfl
  prompt _ := rfl
  matched_le _ := le_rfl
  matched_eq _ _ _ := rfl

/-- What a replica has, and what is on its way to it, is what was picked. -/
theorem Account.union_eq {C : Set (List UInt64)} {cfg : SchedulerConfig F}
    {τ : List (Action n × Seen n)} {s : Cluster F n} {Q : Queues n}
    {G V : Fin n → List (List UInt64)} (h : Account C cfg τ s Q G V) (r : Fin n) :
    s.cached r ∪ blocksOf (Q r) = (G r).flatten.toFinset := by
  rw [h.cached, blocksOf, ← toFinset_flatten_perm (h.perm r), List.flatten_append,
    List.toFinset_append]

variable {deps : ClusterDeps} {B : Finset UInt64} {C : Set (List UInt64)} {cfg : SchedulerConfig F}
  {mocks : Fin n → MockConfig} {τ : List (Action n × Seen n)} {s s' : Cluster F n} {a : Action n}
  {e : Seen n} {Q Q' : Queues n} {G V : Fin n → List (List UInt64)}

/-- A step that makes no decision, and leaves the replicas alone, keeps the account.

**Proof sketch.** Neither the decisions for any replica nor the replicas have changed. -/
theorem Account.quiet {act : Act n MockResponse} {es : List (Event n)} (h : Account C cfg τ s Q G V)
    (hes : ∀ i, es.filterMap (Event.decisionOf i) = []) (hreplicas : s'.replicas = s.replicas) :
    Account C cfg (τ ++ [(a, .router act es)]) s' Q G V := by
  have hsame : ∀ r, System.decisionsFor (routerTrace (τ ++ [(a, .router act es)])) r =
      System.decisionsFor (routerTrace τ) r := fun r => by
    have hpicks : ∀ e x, Event.decisionFor r e = some x → ∃ t promptBlocks d, e = .picked t promptBlocks d :=
      fun e x hx => by cases e <;> first | exact ⟨_, _, _, rfl⟩ | cases hx
    rw [routerTrace_snoc, Seen.routed, Option.toList_some, System.decisionsFor_snoc,
      System.filterMap_pick_eq_nil hpicks hes, List.append_nil]
  refine ⟨h.chain, h.perm, fun r => ?_, fun r => ?_, fun r => ?_, fun r => ?_, fun r => ?_,
    fun hmin r hmarked => ?_⟩
  · rw [Cluster.cached, hreplicas]
    exact h.cached r
  · rw [hreplicas]
    exact h.found r
  · rw [hreplicas]
    exact h.total r
  · rw [hsame]
    exact h.prompt r
  · rw [hsame]
    exact h.matched_le r
  · rw [hsame]
    exact h.matched_eq hmin r hmarked.of_concat.1

/-- A request that reaches its replica adds its chain to the chains that were served.

**Proof sketch.** The chain moves from the queue to the chains that were served, and the replica finds of
it the leading blocks that it has, which are the hits of the chain after those served before. -/
theorem Account.served {t : ℕ} {r : Fin n} {hashes : List UInt64} {result : Except Status Prefill}
    (h : Account C cfg τ s Q G V) (hmem : (t, hashes) ∈ Q r)
    (hcached : s'.cached = Function.update s.cached r (s.cached r ∪ hashes.toFinset))
    (hreplicas : s'.replicas = Function.update s.replicas r ((s.replicas r).served hashes)) :
    Account C cfg (τ ++ [(a, .served t r result)]) s'
      (Function.update Q r ((Q r).erase (t, hashes))) G (Function.update V r (V r ++ [hashes])) := by
  have hsame : routerTrace (τ ++ [(a, .served t r result)]) = routerTrace τ := by
    rw [routerTrace_snoc, Seen.routed, Option.toList_none, List.append_nil]
  refine ⟨h.chain, fun i => ?_, fun i => ?_, fun i => ?_, fun i => ?_, ?_, ?_,
    fun hmin i hmarked => ?_⟩
  · by_cases hi : i = r
    · subst hi
      rw [Function.update_self, Function.update_self, List.append_assoc, List.singleton_append]
      refine List.Perm.trans (List.Perm.append_left _ ?_) (h.perm i)
      exact ((List.perm_cons_erase hmem).map Prod.snd).symm
    · rw [Function.update_of_ne hi, Function.update_of_ne hi]
      exact h.perm i
  · rw [hcached]
    by_cases hi : i = r
    · subst hi
      rw [Function.update_self, Function.update_self, h.cached]
      simp
    · rw [Function.update_of_ne hi, Function.update_of_ne hi]
      exact h.cached i
  · rw [hreplicas]
    by_cases hi : i = r
    · subst hi
      rw [Function.update_self, Function.update_self, hits_concat, Finset.empty_union, ← h.cached,
        ← h.found, MockTritonService.served, KvCacheSim.lookupInsert_fst,
        LazyLru.leading_eq_leadingIn, Cluster.cached]
    · rw [Function.update_of_ne hi, Function.update_of_ne hi]
      exact h.found i
  · rw [hreplicas]
    by_cases hi : i = r
    · subst hi
      simp only [Function.update_self, MockTritonService.served, List.map_append, List.sum_append]
      rw [h.total]
      simp
    · rw [Function.update_of_ne hi, Function.update_of_ne hi]
      exact h.total i
  · rw [hsame]
    exact h.prompt
  · rw [hsame]
    exact h.matched_le
  · rw [hsame]
    exact h.matched_eq hmin i hmarked.of_concat.1

section Step

variable [Mul F] [Sub F] [LT F] [DecidableLT F] [ScoreArith F]

/-- A pick adds its chain to the chains that were picked.

**Proof sketch.** The picture of the replica has at most the blocks picked before, and all of them if the
replica was never taken out of routing; so the decision reports at most the hits of the chain after those
picked before. -/
theorem Account.picked {t : ℕ} {hashes : List UInt64} {d : RouteDecision n}
    (h : Account C cfg τ s Q G V) (hpictured : Pictured B mocks τ s Q)
    (hpolicy : s.router.sched.policy = .cacheAware) (hcfg : s.router.sched.cfg = cfg)
    (hchain : hashes ∈ C) (hpick : s.router.sched.pick hashes = some (.ok d, s'.router.sched))
    (hreplicas : s'.replicas = s.replicas) :
    Account C cfg (τ ++ [(a, .router (.run t .tick) [.picked t hashes.length d])]) s'
      (Function.update Q d.replica (Q d.replica ++ [(t, hashes)]))
      (Function.update G d.replica (G d.replica ++ [hashes])) V := by
  obtain ⟨hle, heq⟩ := Scheduler.matchedBlocks_le_lookup hpolicy hpick
  have hdecisions : ∀ r, System.decisionsFor
      (routerTrace (τ ++ [(a, .router (.run t .tick) [.picked t hashes.length d])])) r =
        System.decisionsFor (routerTrace τ) r ++
          if d.replica = r then [(hashes.length, d)] else [] := fun r => by
    rw [routerTrace_snoc, Seen.routed, Option.toList_some, System.decisionsFor_snoc]
    by_cases hr : d.replica = r <;> simp [Event.decisionFor, hr]
  have hlookup : (s.router.sched.replicas d.replica).cache.lookup hashes =
      leadingIn (s.picture d.replica) hashes := LazyLru.leading_eq_leadingIn _ _
  have hsub : s.picture d.replica ⊆ (G d.replica).flatten.toFinset :=
    h.union_eq d.replica ▸ hpictured.picture d.replica
  have hhits : hits ∅ (G d.replica ++ [hashes]) =
      hits ∅ (G d.replica) + leadingIn (G d.replica).flatten.toFinset hashes := by
    rw [hits_concat, Finset.empty_union]
  refine ⟨fun r l hl => ?_, fun r => ?_, fun r => ?_, fun r => ?_, fun r => ?_, fun r => ?_,
    fun r => ?_, fun hmin r hmarked => ?_⟩
  · by_cases hr : r = d.replica
    · subst hr
      rw [Function.update_self] at hl
      rcases List.mem_append.mp hl with hold | hnew
      · exact h.chain _ l hold
      · rwa [List.mem_singleton.mp hnew]
    · rw [Function.update_of_ne hr] at hl
      exact h.chain r l hl
  · by_cases hr : r = d.replica
    · subst hr
      rw [Function.update_self, Function.update_self, List.map_append, ← List.append_assoc]
      exact (h.perm _).append_right _
    · rw [Function.update_of_ne hr, Function.update_of_ne hr]
      exact h.perm r
  · rw [Cluster.cached, hreplicas]
    exact h.cached r
  · rw [hreplicas]
    exact h.found r
  · rw [hreplicas]
    exact h.total r
  · rw [hdecisions, List.map_append, List.sum_append, h.prompt r]
    by_cases hr : r = d.replica
    · subst hr
      simp
    · simp [Function.update_of_ne hr, Ne.symm hr]
  · rw [hdecisions, List.map_append, List.sum_append]
    by_cases hr : r = d.replica
    · subst hr
      rw [Function.update_self, if_pos rfl, hhits]
      refine Nat.add_le_add (h.matched_le _) ?_
      simp only [List.map_cons, List.map_nil, List.sum_singleton]
      exact hle.trans (hlookup.trans_le (leadingIn_mono hsub hashes))
    · rw [Function.update_of_ne hr, if_neg (Ne.symm hr), List.map_nil, List.sum_nil, Nat.add_zero]
      exact h.matched_le r
  · rw [hdecisions, List.map_append, List.sum_append, h.matched_eq hmin r hmarked.of_concat.1]
    by_cases hr : r = d.replica
    · subst hr
      have hpicture : s.picture d.replica = (G d.replica).flatten.toFinset :=
        hsub.antisymm (h.union_eq d.replica ▸ hpictured.complete d.replica hmarked.of_concat.1)
      rw [Function.update_self, if_pos rfl, hhits, ← hpicture, ← hlookup, ← heq (hcfg ▸ hmin)]
      rfl
    · rw [Function.update_of_ne hr, if_neg (Ne.symm hr), List.map_nil, List.sum_nil, Nat.add_zero]

/-- **One step of a calm run** keeps the account. -/
theorem Account.step (hroom : Roomy B cfg mocks) (h : Account C cfg τ s Q G V)
    (hpictured : Pictured B mocks τ s Q)
    (hs : s.Orderly deps.toDeps (Sharing deps.toDeps B C) .cacheAware cfg)
    (hcalm : CalmStep deps (Sharing deps.toDeps B C) s Q e s' Q') :
    ∃ G' V', Account C cfg (τ ++ [(a, e)]) s' Q' G' V' := by
  cases hcalm with
  | picked t hashes d req _ hreq hprompt hpick hreplicas =>
    exact ⟨_, _, h.picked hpictured hs.policy hs.cfg (hreq.chain hashes hprompt) hpick hreplicas⟩
  | served t r hashes req p _ hreq hprompt hmem _ _ _ hreplicas =>
    have hcapacity : B.card ≤ (s.replicas r).cache.capacity := hpictured.capacity r ▸ hroom.capacity r
    have hcached := cached_of_served hcapacity hreplicas (hreq.within.subset hashes hprompt)
      (hpictured.cached r)
    exact ⟨_, _, h.served hmem hcached hreplicas⟩
  | quiet act es _ hes _ hreplicas => exact ⟨_, _, h.quiet hes hreplicas⟩

/-- **The account of a calm run**: the chains that were picked and served, with what they add up to on both
sides.

**Proof sketch.** Induction along the calm run (`calm_induction`), with the picture beside it
(`Pictured.step`). -/
theorem account_of_run (hroom : Roomy B cfg mocks)
    (hrun : (lts F n deps).Run (fun _ _ a => Calm (Sharing deps.toDeps B C) a)
      (new .cacheAware cfg mocks) τ s) :
    ∃ Q G V, Queued deps.toDeps s Q ∧ Pictured B mocks τ s Q ∧ Account C cfg τ s Q G V := by
  obtain ⟨Q, hQ, -, hpictured, G, V, h⟩ := calm_induction
    (I := fun τ s Q => Pictured B mocks τ s Q ∧ ∃ G V, Account C cfg τ s Q G V)
    (fun _ _ _ ha => ha) (fun _ hreq => hreq.within.same)
    ⟨pictured_new B .cacheAware cfg mocks, _, _, account_new C .cacheAware cfg mocks⟩
    (fun τ s Q a e s' Q' hs _ hI _ _ hcalm => by
      obtain ⟨hpictured, G, V, h⟩ := hI
      exact ⟨hpictured.step hroom (hs.mono fun _ hreq => hreq.within)
        (hcalm.mono fun _ hreq => hreq.within), h.step hroom hpictured hs hcalm⟩) hrun
  exact ⟨Q, G, V, hQ, hpictured, h⟩

/-- No request is under way. -/
def AtRest (s : Cluster F n) : Prop := ∀ h ∈ s.router.handlers, h.holds = none ∧ h.current = none

omit [Mul F] [Sub F] [LT F] [DecidableLT F] [ScoreArith F] in
/-- While no request is under way, nothing is on its way. -/
theorem AtRest.queue_eq_nil (hrest : s.AtRest) (hQ : Queued deps.toDeps s Q) (r : Fin n) : Q r = [] := by
  refine List.eq_nil_iff_forall_not_mem.mpr fun x hx => ?_
  obtain ⟨req, hwaiting, -⟩ := (hQ.mem r x.1 x.2).mp hx
  cases hget : s.handler x.1 with
  | none => simp [waiting, hget, onItsWay_none] at hwaiting
  | some h =>
    have hholds := (hrest h (List.mem_of_getElem? hget)).1
    rw [waiting_eq_none_of_asks hget (Handler.asks_of_holds hholds)] at hwaiting
    cases hwaiting

/-- **The hit rate, on both sides.** At every point of every calm run of the cache-aware policy at which
no request is under way, if all blocks fit and the prompts are hashed without collisions: the blocks of
prompts that the router counted are those that the replicas counted; the blocks that it matched are at
most those that the replicas found cached, however the requests overtook each other; and they are as many
if no replica was ever taken out of routing, and the fallback to the least loaded replica is not turned
off.

**Proof sketch.** For each replica, the decisions report at most the hits of the chains in the order in
which they were picked, and the replica counts the hits in the order in which it served them
(`account_of_run`). At rest the latter chains are a permutation of the former, with as many hits
(`hits_perm`), and all decisions are counted (`Handler.Smooth.served_eq`). -/
theorem hitRate_of_run (hC : CollisionFree C) (hroom : Roomy B cfg mocks)
    (hrun : (lts F n deps).Run (fun _ _ a => Calm (Sharing deps.toDeps B C) a)
      (new .cacheAware cfg mocks) τ s) (hrest : s.AtRest) :
    s.router.inner.metrics.promptBlocksTotal = ∑ r, (s.replicas r).metrics.totalBlocksTotal ∧
    s.router.inner.metrics.matchedBlocksTotal ≤ ∑ r, (s.replicas r).metrics.cachedBlocksTotal ∧
    (cfg.minMatchBlocks ≠ 0 → (∀ r, NeverMarked τ r) →
      s.router.inner.metrics.matchedBlocksTotal = ∑ r, (s.replicas r).metrics.cachedBlocksTotal) := by
  obtain ⟨Q, G, V, hQ, -, h⟩ := account_of_run hroom hrun
  have htallies := System.tallies_of_run (router_of_run hrun)
  have hsmooth := smooth_of_run (fun _ _ _ ha => ha) (fun _ hreq => hreq.within.same) hrun
  have hrec : ∀ h ∈ s.router.handlers, h.records = false := fun h hh =>
    Handler.records_of_current (hrest h hh).2
  -- a counter of the router, as a sum over the replicas
  have hcounter : ∀ c : Served, s.router.inner.metrics.counter c =
      ∑ r, ((System.decisionsFor (routerTrace τ) r).map c.weight).sum := fun c => by
    rw [← System.sum_decisions _ htallies.fresh, htallies.counter_eq hrec c]
    refine Finset.sum_congr rfl fun t ht => ?_
    have hget := List.getElem?_eq_getElem (Finset.mem_range.mp ht)
    obtain ⟨hholds, hcurrent⟩ := hrest _ (List.getElem_mem (Finset.mem_range.mp ht))
    rw [System.answeredAt, System.messagesAt, hget, Option.elim_some, Option.elim_some,
      (hsmooth.handler t _ hget).served_eq hholds hcurrent]
  have hperm : ∀ r, (V r).Perm (G r) := fun r => by
    have := h.perm r
    rwa [hrest.queue_eq_nil hQ, List.map_nil, List.append_nil] at this
  have hhits : ∀ r, hits ∅ (G r) = (s.replicas r).metrics.cachedBlocksTotal := fun r => by
    rw [h.found, hits_perm hC (prefixClosed_empty C) (h.chain r) (hperm r).symm]
  refine ⟨?_, ?_, fun hmin hmarked => ?_⟩
  · refine (hcounter .prompt).trans (Finset.sum_congr rfl fun r _ => ?_)
    rw [h.total, ((hperm r).map List.length).sum_eq]
    exact h.prompt r
  · refine (hcounter .matched).trans_le (Finset.sum_le_sum fun r _ => ?_)
    rw [← hhits]
    exact h.matched_le r
  · refine (hcounter .matched).trans (Finset.sum_congr rfl fun r _ => ?_)
    rw [← hhits]
    exact h.matched_eq hmin r (hmarked r)

/-- The chains of the two prompts. -/
def twoChains : List (List UInt64) :=
  twoPrompts.map fun req => (RouterInner.promptHashes charDeps req).toOption.getD []

/-- The steps of two calls of which the second one overtakes the first one on its way. -/
def overtaking : List (Action 1) :=
  twoPrompts.map (fun req => .router (.spawnUnary req)) ++
    List.replicate 3 (.router (.run 0 .tick)) ++ List.replicate 3 (.router (.run 1 .tick)) ++
    [.serve 1, .serve 0, .deliver 1, .deliver 0] ++
    List.replicate 5 (.router (.run 0 .tick)) ++ List.replicate 5 (.router (.run 1 .tick))

/-- The router finds the block that the two prompts share when it picks for the second one, and the replica
finds it when the first one arrives. -/
theorem hitRate_of_run_two : ∃ τ s,
    (lts ℚ 1 charNet).Run (fun _ _ a => Calm (Sharing charDeps threeBlocks {l | l ∈ twoChains}) a)
      (new .cacheAware .default fun _ => .default) τ s ∧
      executions τ 0 = [0] ∧ executions τ 1 = [0] ∧ s.router.inner.metrics.promptBlocksTotal = 4 ∧
      s.router.inner.metrics.matchedBlocksTotal = 1 ∧
      s.router.inner.metrics.matchedBlocksTotal = ∑ r, (s.replicas r).metrics.cachedBlocksTotal := by
  have hC : CollisionFree {l | l ∈ twoChains} := by decide +kernel
  have hrun := Lts.run_get (step charNet) (new (F := ℚ) (n := 1) .cacheAware .default fun _ => .default)
    (fun _ _ a => Calm (Sharing charDeps threeBlocks {l | l ∈ twoChains}) a)
    overtaking (by decide +kernel)
  have hroom : Roomy (n := 1) threeBlocks (.default : SchedulerConfig ℚ) fun _ => .default :=
    ⟨by decide +kernel, fun _ => by decide +kernel⟩
  exact ⟨_, _, hrun, by decide +kernel, by decide +kernel, by decide +kernel, by decide +kernel,
    (hitRate_of_run hC hroom hrun (by unfold AtRest; decide +kernel)).2.2 (by decide)
      (by unfold NeverMarked; decide +kernel)⟩

end Step

end Cluster
