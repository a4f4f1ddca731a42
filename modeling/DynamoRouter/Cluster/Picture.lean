import DynamoRouter.Cluster.Calm
import DynamoRouter.Lib.ChainSets
import DynamoRouter.Router.Counters

set_option relaxedAutoImplicit false
set_option autoImplicit false

/-!
# The router's picture and the replicas

The router takes a chain into its picture of a replica when it picks the replica; the replica caches the
chain when the request reaches it, at any time after that and in any order. So the picture runs ahead of
the replica, by the chains that are on their way; and it falls behind when the replica is taken out of
routing, which clears the picture and not the replica.

This is about calm runs in which all blocks fit into the budget of the router and into the caches of the
replicas. Where blocks are evicted, the order in which the requests arrive decides what is evicted.

## Main definitions

* `Cluster.picture`, `Cluster.cached` — the blocks that the router believes a replica has, and has.
* `Cluster.OnTheirWay` — the blocks of the calls on their way to a replica.
* `Cluster.Within`, `Cluster.Roomy` — all blocks are of a set, which fits.

## Main results

* `Cluster.picture_of_run` — the picture at every point of every calm run.
-/

open Protocol

namespace Cluster

variable {F : Type} {n : ℕ}

/-- The blocks that the router believes replica `r` has. -/
def picture (s : Cluster F n) (r : Fin n) : Finset UInt64 := (s.router.sched.replicas r).cache.map.keys

/-- The blocks that replica `r` has. -/
def cached (s : Cluster F n) (r : Fin n) : Finset UInt64 := (s.replicas r).cache.map.keys

/-- The blocks of the calls on their way to replica `r`. -/
def OnTheirWay (deps : Deps) (s : Cluster F n) (r : Fin n) (k : UInt64) : Prop :=
  ∃ t req hashes, s.waiting t = some (r, req) ∧ RouterInner.promptHashes deps req = .ok hashes ∧ k ∈ hashes

/-- A request whose prompt the two sides hash alike, to blocks of `B`. -/
structure Within (deps : Deps) (B : Finset UInt64) (req : ModelInferRequest) : Prop where
  /-- The two sides agree. -/
  same : SamePrompt deps req
  /-- The blocks are of the set. -/
  subset : ∀ hashes, RouterInner.promptHashes deps req = .ok hashes → hashes.toFinset ⊆ B

/-- A value that a computation has, it has without an error. -/
theorem Except.eq_ok_of_toOption {ε α : Type*} {x : Except ε α} {a : α} (h : x.toOption = some a) :
    x = .ok a := by
  cases x with
  | error => cases h
  | ok =>
    cases h
    rfl

/-- Whether a request is within a set of blocks can be decided. -/
instance (deps : Deps) (B : Finset UInt64) : DecidablePred (Within deps B) := fun req =>
  decidable_of_iff
    ((RouterInner.promptHashes deps req).toOption = (MockTriton.promptHashes deps.encode req).toOption ∧
      ∀ hashes ∈ (RouterInner.promptHashes deps req).toOption, hashes.toFinset ⊆ B)
    ⟨fun h => ⟨h.1, fun hashes hprompt => h.2 hashes (by rw [hprompt]; rfl)⟩,
      fun h => ⟨h.same, fun hashes hmem => h.subset hashes (Except.eq_ok_of_toOption hmem)⟩⟩

/-- The blocks of `B` fit everywhere. -/
structure Roomy (B : Finset UInt64) (cfg : SchedulerConfig F) (mocks : Fin n → MockConfig) : Prop where
  /-- They fit into the router's budget of a replica. -/
  budget : B.card ≤ cfg.blockBudget
  /-- They fit into the replicas. -/
  capacity : ∀ r, B.card ≤ (mocks r).cacheBlocks

/-- Replica `r` was never taken out of routing. -/
def NeverMarked (τ : List (Action n × Seen n)) (r : Fin n) : Prop :=
  ∀ x ∈ routerTrace τ, .unhealthy r ∉ x.2

/-- The blocks of the chains of a queue. -/
def blocksOf (q : List (ℕ × List UInt64)) : Finset UInt64 := (q.map Prod.snd).flatten.toFinset

/-- The blocks of a queue with one more chain. -/
theorem blocksOf_concat (q : List (ℕ × List UInt64)) (t : ℕ) (hashes : List UInt64) :
    blocksOf (q ++ [(t, hashes)]) = blocksOf q ∪ hashes.toFinset := by
  simp [blocksOf]

/-- The blocks of a queue that a chain is taken from. -/
theorem blocksOf_erase {q : List (ℕ × List UInt64)} {t : ℕ} {hashes : List UInt64}
    (hmem : (t, hashes) ∈ q) :
    blocksOf q = hashes.toFinset ∪ blocksOf (q.erase (t, hashes)) := by
  have hperm := (List.perm_cons_erase hmem).map Prod.snd
  rw [blocksOf, toFinset_flatten_perm hperm, List.map_cons, List.flatten_cons, List.toFinset_append,
    blocksOf]

/-- The blocks of the queue of a replica are those on their way to it. -/
theorem mem_blocksOf_iff {deps : Deps} {s : Cluster F n} {Q : Queues n} (h : Queued deps s Q)
    (r : Fin n) (k : UInt64) : k ∈ blocksOf (Q r) ↔ OnTheirWay deps s r k := by
  rw [blocksOf, List.mem_toFinset, List.mem_flatten]
  constructor
  · rintro ⟨hashes, hmem, hk⟩
    obtain ⟨⟨t, hashes⟩, hq, rfl⟩ := List.mem_map.mp hmem
    obtain ⟨req, hwaiting, hprompt⟩ := (h.mem r t hashes).mp hq
    exact ⟨t, req, hashes, hwaiting, hprompt, hk⟩
  · rintro ⟨t, req, hashes, hwaiting, hprompt, hk⟩
    exact ⟨hashes, List.mem_map.mpr ⟨(t, hashes), (h.mem r t hashes).mpr ⟨req, hwaiting, hprompt⟩, rfl⟩,
      hk⟩

/-- A replica that was never taken out of routing, was not before the last step. -/
theorem NeverMarked.of_concat {τ : List (Action n × Seen n)} {a : Action n} {e : Seen n} {r : Fin n}
    (h : NeverMarked (τ ++ [(a, e)]) r) :
    NeverMarked τ r ∧ ∀ act es, e = .router act es → .unhealthy r ∉ es := by
  rw [NeverMarked, routerTrace_snoc] at h
  refine ⟨fun x hx => h x (List.mem_append_left _ hx), fun act es he => ?_⟩
  subst he
  exact h (act, es) (List.mem_append_right _ (List.mem_singleton_self _))

/-! ## One step -/

section Step

variable [Mul F] [Sub F] [LT F] [DecidableLT F] [ScoreArith F]

/-- The picture after a pick, where all blocks fit.

**Proof sketch.** The cache of the picked replica gets the chain, and then is cut down to a budget into
which all of it fits. -/
theorem picture_of_pick {s s' : Cluster F n} {B : Finset UInt64} {hashes : List UInt64}
    {d : RouteDecision n} (hpolicy : s.router.sched.policy = .cacheAware)
    (hbudget : B.card ≤ s.router.sched.cfg.blockBudget)
    (hpick : s.router.sched.pick hashes = some (.ok d, s'.router.sched)) (hhashes : hashes.toFinset ⊆ B)
    (hpicture : s.picture d.replica ⊆ B) :
    s'.picture = Function.update s.picture d.replica (s.picture d.replica ∪ hashes.toFinset) := by
  obtain ⟨rr, -, hcommit, -⟩ := Scheduler.pick_ok_inv hpick
  funext r
  by_cases hr : r = d.replica
  · subst hr
    rw [Function.update_self, picture, hcommit, Scheduler.replicas_commit_self, if_pos hpolicy,
      PrefixCache.evictTo, PrefixCache.toLazyLru_insert]
    exact LazyLru.keys_evictTo_tick_of_subset hpicture hhashes hbudget _
  · rw [Function.update_of_ne hr, picture, hcommit, Scheduler.replicas_commit_of_ne _ _ _ hr, picture]

omit [Mul F] [Sub F] [LT F] [DecidableLT F] [ScoreArith F] in
/-- The replicas' caches after a request reached one of them, where all blocks fit. -/
theorem cached_of_served {s s' : Cluster F n} {B : Finset UInt64} {hashes : List UInt64} {r : Fin n}
    (hcapacity : B.card ≤ (s.replicas r).cache.capacity)
    (hreplicas : s'.replicas = Function.update s.replicas r ((s.replicas r).served hashes))
    (hhashes : hashes.toFinset ⊆ B) (hcached : s.cached r ⊆ B) :
    s'.cached = Function.update s.cached r (s.cached r ∪ hashes.toFinset) := by
  funext i
  by_cases hi : i = r
  · subst hi
    rw [Function.update_self, cached, hreplicas, Function.update_self, MockTritonService.served,
      KvCacheSim.toLazyLru_lookupInsert]
    exact LazyLru.keys_evictTo_tick_of_subset hcached hhashes hcapacity _
  · rw [Function.update_of_ne hi, cached, hreplicas, Function.update_of_ne hi, cached]

omit [Mul F] [Sub F] [LT F] [DecidableLT F] [ScoreArith F] in
/-- The capacities after a request reached a replica. -/
theorem capacity_of_served {s s' : Cluster F n} {hashes : List UInt64} {r : Fin n}
    (hreplicas : s'.replicas = Function.update s.replicas r ((s.replicas r).served hashes)) (i : Fin n) :
    (s'.replicas i).cache.capacity = (s.replicas i).cache.capacity := by
  rw [hreplicas]
  by_cases hi : i = r
  · subst hi
    rw [Function.update_self, MockTritonService.served, KvCacheSim.capacity_lookupInsert]
  · rw [Function.update_of_ne hi]

/-- What the picture is in a calm run, where all blocks fit. -/
structure Pictured (B : Finset UInt64) (mocks : Fin n → MockConfig) (τ : List (Action n × Seen n))
    (s : Cluster F n) (Q : Queues n) : Prop where
  /-- The capacities of the replicas. -/
  capacity : ∀ r, (s.replicas r).cache.capacity = (mocks r).cacheBlocks
  /-- The replicas have blocks of the set. -/
  cached : ∀ r, s.cached r ⊆ B
  /-- Blocks of the set are on their way. -/
  queued : ∀ r, blocksOf (Q r) ⊆ B
  /-- What the router believes is there, or on its way. -/
  picture : ∀ r, s.picture r ⊆ s.cached r ∪ blocksOf (Q r)
  /-- The router believes all of it, if the replica was never taken out of routing. -/
  complete : ∀ r, NeverMarked τ r → s.cached r ∪ blocksOf (Q r) ⊆ s.picture r

omit [Mul F] [Sub F] [LT F] [DecidableLT F] [ScoreArith F] in
/-- Nothing is believed at the start, and nothing is there. -/
theorem pictured_new (B : Finset UInt64) (policy : Policy) (cfg : SchedulerConfig F)
    (mocks : Fin n → MockConfig) : Pictured B mocks [] (new policy cfg mocks) fun _ => [] where
  capacity _ := rfl
  cached _ := Finset.empty_subset _
  queued _ := Finset.empty_subset _
  picture _ := Finset.empty_subset _
  complete _ _ := Finset.empty_subset _

variable {deps : ClusterDeps} {B : Finset UInt64} {cfg : SchedulerConfig F}
  {mocks : Fin n → MockConfig} {τ : List (Action n × Seen n)} {s s' : Cluster F n} {a : Action n}
  {e : Seen n} {Q Q' : Queues n}

/-- **One step of a calm run** keeps what the picture is.

**Proof sketch.** By what a step of a calm run can do. A pick adds its chain to the picture and to the
queue of one replica, and a request that reaches its replica moves its chain from the queue to the cache,
which leaves their union as it was. A quiet step clears a picture at most, and only with a mark, which
`NeverMarked` excludes. -/
theorem Pictured.step (hroom : Roomy B cfg mocks) (h : Pictured B mocks τ s Q)
    (hs : s.Orderly deps.toDeps (Within deps.toDeps B) .cacheAware cfg)
    (hcalm : CalmStep deps (Within deps.toDeps B) s Q e s' Q') :
    Pictured B mocks (τ ++ [(a, e)]) s' Q' := by
  have hinB : ∀ r, s.picture r ⊆ B := fun r =>
    (h.picture r).trans (Finset.union_subset (h.cached r) (h.queued r))
  cases hcalm with
  | picked t hashes d req _ hreq hprompt hpick hreplicas =>
    have hhashes := hreq.subset hashes hprompt
    have hpicture := picture_of_pick hs.policy (hs.cfg ▸ hroom.budget) hpick hhashes (hinB d.replica)
    have hcached : s'.cached = s.cached := by
      funext r
      rw [Cluster.cached, hreplicas, Cluster.cached]
    refine ⟨fun r => hreplicas ▸ h.capacity r, fun r => hcached ▸ h.cached r, fun r => ?_, fun r => ?_,
      fun r hmarked => ?_⟩
    · by_cases hr : r = d.replica
      · subst hr
        rw [Function.update_self, blocksOf_concat]
        exact Finset.union_subset (h.queued _) hhashes
      · rw [Function.update_of_ne hr]
        exact h.queued r
    · rw [hpicture, hcached]
      by_cases hr : r = d.replica
      · subst hr
        rw [Function.update_self, Function.update_self, blocksOf_concat, ← Finset.union_assoc]
        exact Finset.union_subset_union_left (h.picture _)
      · rw [Function.update_of_ne hr, Function.update_of_ne hr]
        exact h.picture r
    · have hold := h.complete r hmarked.of_concat.1
      rw [hpicture, hcached]
      by_cases hr : r = d.replica
      · subst hr
        rw [Function.update_self, Function.update_self, blocksOf_concat, ← Finset.union_assoc]
        exact Finset.union_subset_union_left hold
      · rw [Function.update_of_ne hr, Function.update_of_ne hr]
        exact hold
  | served t r hashes req p _ hreq hprompt hmem _ _ hrouter hreplicas =>
    have hhashes := hreq.subset hashes hprompt
    have hcapacity : B.card ≤ (s.replicas r).cache.capacity := h.capacity r ▸ hroom.capacity r
    have hcached := cached_of_served hcapacity hreplicas hhashes (h.cached r)
    have hpicture : s'.picture = s.picture := by
      funext r
      rw [Cluster.picture, hrouter, Cluster.picture]
    -- the chain moves from the queue to the replica
    have hunion : ∀ i, s'.cached i ∪ blocksOf (Function.update Q r ((Q r).erase (t, hashes)) i) =
        s.cached i ∪ blocksOf (Q i) := fun i => by
      rw [hcached]
      by_cases hi : i = r
      · subst hi
        rw [Function.update_self, Function.update_self, blocksOf_erase hmem, Finset.union_assoc]
      · rw [Function.update_of_ne hi, Function.update_of_ne hi]
    refine ⟨fun i => (capacity_of_served hreplicas i).trans (h.capacity i), fun i => ?_, fun i => ?_,
      fun i => ?_, fun i hmarked => ?_⟩
    · rw [hcached]
      by_cases hi : i = r
      · subst hi
        rw [Function.update_self]
        exact Finset.union_subset (h.cached _) hhashes
      · rw [Function.update_of_ne hi]
        exact h.cached i
    · by_cases hi : i = r
      · subst hi
        rw [Function.update_self]
        refine Finset.Subset.trans ?_ (h.queued i)
        rw [blocksOf_erase hmem]
        exact Finset.subset_union_right
      · rw [Function.update_of_ne hi]
        exact h.queued i
    · rw [hpicture, hunion]
      exact h.picture i
    · rw [hpicture, hunion]
      exact h.complete i hmarked.of_concat.1
  | quiet act es _ _ hcaches hreplicas =>
    have hcached : s'.cached = s.cached := by
      funext r
      rw [Cluster.cached, hreplicas, Cluster.cached]
    refine ⟨fun r => hreplicas ▸ h.capacity r, fun r => hcached ▸ h.cached r, h.queued, fun r => ?_,
      fun r hmarked => ?_⟩
    · rw [hcached]
      rcases hcaches r with heq | ⟨-, hnew⟩
      · rw [Cluster.picture, heq]
        exact h.picture r
      · rw [Cluster.picture, hnew]
        exact Finset.empty_subset _
    · have hcache : (s'.router.sched.replicas r).cache = (s.router.sched.replicas r).cache :=
        (hcaches r).resolve_right fun hmem => hmarked.of_concat.2 act es rfl hmem.1
      rw [hcached, Cluster.picture, hcache]
      exact h.complete r hmarked.of_concat.1

/-- **The router's picture.** At every point of every calm run of the cache-aware policy in which all
blocks fit: the blocks that the router believes a replica has are there, or on their way to it; they are
all of these, if the replica was never taken out of routing. So while nothing is on its way to a replica,
the router matches no more blocks of a prompt than the replica has, and as many if the replica was never
taken out of routing.

**Proof sketch.** `Pictured` along the run: a pick adds its chain to the picture and to the queue; a
request that reaches its replica moves its chain from the queue to the replica, wherever in the queue it
was; and a mark clears the picture. -/
theorem picture_of_run (hroom : Roomy B cfg mocks)
    (hrun : (lts F n deps).Run (fun _ _ a => Calm (Within deps.toDeps B) a)
      (new .cacheAware cfg mocks) τ s) (r : Fin n) :
    (∀ k ∈ s.picture r, k ∈ s.cached r ∨ OnTheirWay deps.toDeps s r k) ∧
    (NeverMarked τ r → ∀ k, k ∈ s.picture r ↔ k ∈ s.cached r ∨ OnTheirWay deps.toDeps s r k) ∧
    ((∀ t req, s.waiting t ≠ some (r, req)) → ∀ hashes,
      (s.router.sched.replicas r).cache.lookup hashes ≤ (s.replicas r).cache.leading hashes ∧
      (NeverMarked τ r →
        (s.router.sched.replicas r).cache.lookup hashes = (s.replicas r).cache.leading hashes)) := by
  obtain ⟨Q, hQ, -, h⟩ := calm_induction (I := Pictured B mocks) (fun _ _ _ ha => ha)
    (fun _ hreq => hreq.same) (pictured_new B .cacheAware cfg mocks)
    (fun _ _ _ _ _ _ _ hs _ hI _ _ hcalm => hI.step hroom hs hcalm) hrun
  have hunion : ∀ k, k ∈ s.cached r ∪ blocksOf (Q r) ↔
      k ∈ s.cached r ∨ OnTheirWay deps.toDeps s r k := fun k => by
    rw [Finset.mem_union, mem_blocksOf_iff hQ]
  refine ⟨fun k hk => (hunion k).mp (h.picture r hk), fun hmarked k => ?_, fun hwaiting hashes => ?_⟩
  · rw [← hunion]
    exact ⟨fun hk => h.picture r hk, fun hk => h.complete r hmarked hk⟩
  · have hnone : blocksOf (Q r) = ∅ := Finset.eq_empty_of_forall_notMem fun k hk => by
      obtain ⟨t, req, -, hreq, -⟩ := (mem_blocksOf_iff hQ r k).mp hk
      exact hwaiting t req hreq
    have hsub := h.picture r
    have hsup := h.complete r
    rw [hnone, Finset.union_empty] at hsub hsup
    refine ⟨LazyLru.leading_mono hsub hashes, fun hmarked => le_antisymm (LazyLru.leading_mono hsub hashes)
      (LazyLru.leading_mono (hsup hmarked) hashes)⟩

/-- Libraries with a token for each character. -/
def charNet : ClusterDeps where
  toDeps := charDeps
  statusText _ := ""

/-- A request with a prompt. -/
def promptOf (text : String) : ModelInferRequest := { inputs := [textTensor "text_input" text] }

/-- Two prompts of two blocks that share their first one. -/
def twoPrompts : List ModelInferRequest :=
  [promptOf "aaaaaaaaaaaaaaaabbbbbbbbbbbbbbbb", promptOf "aaaaaaaaaaaaaaaacccccccccccccccc"]

/-- The blocks of these prompts. -/
def threeBlocks : Finset UInt64 :=
  (twoPrompts.flatMap fun req =>
    ((RouterInner.promptHashes charDeps req).toOption.getD [])).toFinset

/-- Two calls that overtake each other on their way: the second one has reached the replica, and the
first one has not. -/
theorem picture_of_run_two : ∃ τ s,
    (lts ℚ 1 charNet).Run (fun _ _ a => Calm (Within charDeps threeBlocks) a)
      (new .cacheAware .default fun _ => .default) τ s ∧
      (s.picture 0).card = 3 ∧ (s.cached 0).card = 2 ∧
      ∀ k, k ∈ s.picture 0 ↔ k ∈ s.cached 0 ∨ OnTheirWay charDeps s 0 k := by
  have hrun := Lts.run_get (step charNet) (new (F := ℚ) (n := 1) .cacheAware .default fun _ => .default)
    (fun _ _ a => Calm (Within charDeps threeBlocks) a)
    [.router (.spawnUnary twoPrompts[0]), .router (.run 0 .tick), .router (.run 0 .tick),
      .router (.run 0 .tick), .router (.spawnUnary twoPrompts[1]), .router (.run 1 .tick),
      .router (.run 1 .tick), .router (.run 1 .tick), .serve 1]
    (by decide +kernel)
  have hroom : Roomy (n := 1) threeBlocks (.default : SchedulerConfig ℚ) fun _ => .default :=
    ⟨by decide +kernel, fun _ => by decide +kernel⟩
  exact ⟨_, _, hrun, by decide +kernel, by decide +kernel,
    (picture_of_run hroom hrun 0).2.1 (by unfold NeverMarked; decide +kernel)⟩

end Step

end Cluster
