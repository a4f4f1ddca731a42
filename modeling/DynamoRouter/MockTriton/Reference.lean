import DynamoRouter.Lib.ChainFamily
import DynamoRouter.MockTriton.Atomic

set_option relaxedAutoImplicit false
set_option autoImplicit false

/-!
# The mock replica refines a radix tree

What the replica stands for: a server that keeps a radix tree over token blocks, of bounded size, and
serves one request after another. It counts the blocks of a prompt by a walk from the root, stamps the
path of the prompt, and prunes leaves down to the capacity.

The replica of the code has no tree, but a flat map with a lazily cleaned heap; and it serves any number of
requests at once. As long as the prompts that it looks up have chains of a collision-free family, nobody
can tell the two apart.

## Main definitions

* `TreeReplica.serve`, `TreeReplica.callAnswer`, `TreeReplica.streamAnswer` — the server with a tree.

## Main results

* `TreeReplica.refines` — one request.
* `Replica.refines_tree_of_run` — every run of the concurrent replica.
-/

open Protocol MockTriton

namespace TreeReplica

open Replica

/-- The tree after one item. -/
noncomputable def serve (deps : ReplicaDeps) (capacity : ℕ) (t : RadixTree UInt64) (item : ClientItem) :
    RadixTree UInt64 :=
  (chainOf deps item).elim t fun hashes => (t.touch hashes).evictTo capacity

/-- What is found for a request: the length of a walk from the root. -/
def prefill (deps : ReplicaDeps) (cfg : MockConfig) (t : RadixTree UInt64) (req : ModelInferRequest) :
    Except Status Prefill :=
  (prepare deps.encode req).map fun work =>
    ⟨t.lookup work.hashes, work.hashes.length,
      (work.tokens - t.lookup work.hashes * blockSize) * cfg.prefillUsPerToken⟩

/-- What a call is answered. -/
def callAnswer (deps : ReplicaDeps) (cfg : MockConfig) (t : RadixTree UInt64) :
    ClientItem → List (Except Status MockResponse)
  | .error _ => []
  | .ok req =>
    [(prefill deps cfg t req).map fun p => makeResponse p.cached p.total "mock-completion"]

/-- What a stream answers to an item. -/
def streamAnswer (deps : ReplicaDeps) (cfg : MockConfig) (t : RadixTree UInt64) :
    ClientItem → List StreamItem
  | .error status => [errorItem ("stream recv: " ++ deps.statusText status)]
  | .ok req =>
    match prefill deps cfg t req with
    | .error status => [errorItem (deps.statusText status)]
    | .ok p => chunks cfg p

/-- The tree after a run. -/
noncomputable def tree (deps : ReplicaDeps) (cfg : MockConfig)
    (τ : List (Action × Option (ℕ × ClientItem))) : RadixTree UInt64 :=
  Replay.state (serve deps cfg.cacheBlocks) RadixTree.empty (taken τ)

/-- What call `t` is answered. -/
noncomputable def results (deps : ReplicaDeps) (cfg : MockConfig)
    (τ : List (Action × Option (ℕ × ClientItem))) (t : ℕ) : List (Except Status MockResponse) :=
  Replay.answers (serve deps cfg.cacheBlocks) (callAnswer deps cfg) t RadixTree.empty (taken τ)

/-- What is answered on stream `t`. -/
noncomputable def replies (deps : ReplicaDeps) (cfg : MockConfig)
    (τ : List (Action × Option (ℕ × ClientItem))) (t : ℕ) : List StreamItem :=
  Replay.answers (serve deps cfg.cacheBlocks) (streamAnswer deps cfg) t RadixTree.empty (taken τ)

/-- A service is the flat form of a tree. -/
structure Refines (F : Set (List UInt64)) (cfg : MockConfig) (s : MockTritonService)
    (t : RadixTree UInt64) : Prop where
  /-- The configuration. -/
  cfg_eq : s.cfg = cfg
  /-- The capacity. -/
  capacity : s.cache.capacity = cfg.cacheBlocks
  /-- The blocks of the cache are the nodes of the tree. -/
  cache : LazyLru.Refines F s.cache.toLazyLru t

/-- The chain of an item is of the family, if there is one. -/
def ChainIn (deps : ReplicaDeps) (F : Set (List UInt64)) (item : ClientItem) : Prop :=
  ∀ hashes ∈ chainOf deps item, hashes ∈ F

section Request

variable {deps : ReplicaDeps} {cfg : MockConfig} {F : Set (List UInt64)} {s : MockTritonService}
  {t : RadixTree UInt64}

/-- The chain of a request. -/
theorem chainOf_ok {req : ModelInferRequest} {work : Work} (h : prepare deps.encode req = .ok work) :
    chainOf deps (.ok req) = some work.hashes := by
  simp [chainOf, h, Except.toOption]

/-- A service that is the flat form of a tree finds what a walk from the root finds. -/
theorem prefill_eq (hF : CollisionFree F) (h : Refines F cfg s t) {req : ModelInferRequest}
    (hchain : ChainIn deps F (.ok req)) :
    (s.prefill deps.encode req).1 = prefill deps cfg t req := by
  rw [prefill]
  cases hprepare : prepare deps.encode req with
  | error status =>
    rw [prefill_of_prepare_error s hprepare]
    rfl
  | ok work =>
    have hcount : s.cache.leading work.hashes = t.lookup work.hashes :=
      h.cache.leading_eq hF (hchain _ (chainOf_ok hprepare))
    rw [prefill_of_prepare_ok s hprepare, KvCacheSim.lookupInsert_fst, hcount, h.cfg_eq]
    rfl

/-- **One item** leaves the service the flat form of the tree. -/
theorem refines_serve (hF : CollisionFree F) (h : Refines F cfg s t) {item : ClientItem}
    (hchain : ChainIn deps F item) :
    Refines F cfg (Replica.serve deps s item) (serve deps cfg.cacheBlocks t item) := by
  cases item with
  | error status => exact h
  | ok req =>
    rw [Replica.serve, serve]
    cases hprepare : prepare deps.encode req with
    | error status =>
      rw [prefill_of_prepare_error s hprepare]
      simpa [chainOf, hprepare, Except.toOption] using h
    | ok work =>
      rw [prefill_of_prepare_ok s hprepare, chainOf_ok hprepare, Option.elim_some]
      refine ⟨h.cfg_eq, h.capacity, ?_⟩
      rw [MockTritonService.served, KvCacheSim.toLazyLru_lookupInsert, h.capacity]
      exact (h.cache.tick hF (hchain _ (chainOf_ok hprepare)) List.prefix_rfl _).evictTo _

/-- A call is answered the same. -/
theorem callAnswer_eq (hF : CollisionFree F) (h : Refines F cfg s t) {item : ClientItem}
    (hchain : ChainIn deps F item) : Replica.callAnswer deps s item = callAnswer deps cfg t item := by
  cases item with
  | error status => rfl
  | ok req => rw [Replica.callAnswer, callAnswer, MockTritonService.modelInfer, prefill_eq hF h hchain]

/-- A stream answers the same. -/
theorem streamAnswer_eq (hF : CollisionFree F) (h : Refines F cfg s t) {item : ClientItem}
    (hchain : ChainIn deps F item) :
    Replica.streamAnswer deps s item = streamAnswer deps cfg t item := by
  cases item with
  | error status => rfl
  | ok req =>
    rw [Replica.streamAnswer, streamAnswer, MockTritonService.streamInfer, prefill_eq hF h hchain,
      h.cfg_eq]
    cases prefill deps cfg t req with
    | error status => rfl
    | ok p =>
      rw [Except.map, streamItems, List.map_map]
      rfl

end Request

end TreeReplica

namespace Replica

variable {deps : ReplicaDeps} {cfg : MockConfig} {F : Set (List UInt64)}
  {τ : List (Action × Option (ℕ × ClientItem))} {s : Replica}

/-- **The concurrent replica refines a sequential radix tree.** In every run whose prompts have chains of a
collision-free family, let a server with a radix tree of bounded size serve the same requests one after
another, in the order in which the tasks took the mutex. Then
* the replica caches as many blocks as the tree has nodes, and of each chain those on its path;
* a call that is answered is answered the length of a walk from the root of the tree, as it was then;
* a stream sends what this server answers to its requests: all of it but what is still due, as long as the
  client receives, and a prefix otherwise.

**Proof sketch.** The replica is atomic (`linear_of_run`), and one request at a time its cache is the flat
form of the tree (`TreeReplica.refines_serve`); so the answers are the same (`Replay.simulation`). -/
theorem refines_tree_of_run (hF : CollisionFree F) (hrun : (lts deps).Exec (.new cfg) τ s)
    (hchains : ∀ x ∈ taken τ, TreeReplica.ChainIn deps F x.2) :
    (s.service.cache.len = (TreeReplica.tree deps cfg τ).size ∧
        ∀ l ∈ F, ∀ (i : ℕ) (hi : i < l.length), l[i] ∈ s.service.cache.map.keys ↔
          (l.take (i + 1)).reverse ∈ (TreeReplica.tree deps cfg τ).nodes) ∧
      (∀ t req result, s.workers[t]? = some (.call req (.done result)) →
        TreeReplica.results deps cfg τ t = [result]) ∧
      ∀ t pc out rx, s.workers[t]? = some (.stream pc out rx) →
        out <+: TreeReplica.replies deps cfg τ t ∧
        (rx = true → out ++ pc.due cfg = TreeReplica.replies deps cfg τ t) := by
  have h := linear_of_run hrun
  have hnew : TreeReplica.Refines F cfg (.new cfg) RadixTree.empty :=
    ⟨rfl, rfl, LazyLru.refines_empty F⟩
  have hserve : ∀ s t item, TreeReplica.Refines F cfg s t → TreeReplica.ChainIn deps F item →
      TreeReplica.Refines F cfg (serve deps s item) (TreeReplica.serve deps cfg.cacheBlocks t item) :=
    fun s t item hst hitem => TreeReplica.refines_serve hF hst hitem
  have hcall : ∀ s t item, TreeReplica.Refines F cfg s t → TreeReplica.ChainIn deps F item →
      callAnswer deps s item = TreeReplica.callAnswer deps cfg t item :=
    fun s t item hst hitem => TreeReplica.callAnswer_eq hF hst hitem
  have hstream : ∀ s t item, TreeReplica.Refines F cfg s t → TreeReplica.ChainIn deps F item →
      streamAnswer deps s item = TreeReplica.streamAnswer deps cfg t item :=
    fun s t item hst hitem => TreeReplica.streamAnswer_eq hF hst hitem
  obtain ⟨hstate, hcalls⟩ := Replay.simulation hserve hcall hnew hchains
  obtain ⟨-, hstreams⟩ := Replay.simulation hserve hstream hnew hchains
  refine ⟨⟨?_, fun l hl i hi => ?_⟩, fun t req result hget => ?_, fun t pc out rx hget => ?_⟩
  · rw [h.alike.cache]
    exact hstate.cache.size_eq
  · rw [h.alike.cache]
    exact hstate.cache.mem_keys_iff hF hl hi
  · rw [TreeReplica.results, ← hcalls]
    exact (h.workers t _ hget).2
  · rw [TreeReplica.replies, ← hstreams]
    exact (h.workers t _ hget).2.2

/-- A request with a text. -/
def requestOf (text : String) : ModelInferRequest :=
  { inputs := [{ name := "text_input", contents := some { bytesContents := [text.toUTF8] } }] }

/-- The texts of two prompts that share the first of their two blocks. -/
def branchTexts : List String :=
  ["aaaaaaaaaaaaaaaabbbbbbbbbbbbbbbb", "aaaaaaaaaaaaaaaacccccccccccccccc"]

/-- Their chains. -/
def branches : List (List UInt64) :=
  branchTexts.map fun text => (chainOf charReplica (.ok (requestOf text))).getD []

/-- Room for two blocks. -/
def twoNodes : MockConfig := { MockConfig.default with cacheBlocks := 2 }

/-- A call and a stream at the first prompt, and between them a call at the second one, which takes the
mutex first. -/
def pruning : List Action :=
  [.spawnCall (requestOf "aaaaaaaaaaaaaaaabbbbbbbbbbbbbbbb"),
    .spawnCall (requestOf "aaaaaaaaaaaaaaaacccccccccccccccc"), .spawnStream,
    .run 2 (.recv (some (.ok (requestOf "aaaaaaaaaaaaaaaabbbbbbbbbbbbbbbb")))),
    .run 0 .tick, .run 1 .tick, .run 2 .tick, .run 1 .tick, .run 0 .tick, .run 0 .tick, .run 0 .tick,
    .run 0 .tick, .run 2 .tick, .run 2 .tick, .run 1 .tick, .run 2 .tick, .run 2 .tick, .run 2 .tick]

/-- The refinement in a run over two branches, of which the tree has room for one: the first call finds
the block that they share, and prunes the other branch; the stream then walks down its whole path. -/
theorem refines_tree_of_run_pruning : ∃ τ s,
    (lts charReplica).Exec (.new twoNodes) τ s ∧ (taken τ).map Prod.fst = [1, 0, 2] ∧
      s.service.cache.len = (TreeReplica.tree charReplica twoNodes τ).size ∧ s.service.cache.len = 2 ∧
      (∀ l ∈ branches, l.reverse ∈ (TreeReplica.tree charReplica twoNodes τ).nodes ↔
        l = branches.headD []) ∧
      TreeReplica.results charReplica twoNodes τ 0 = [.ok (makeResponse 1 2 "mock-completion")] ∧
      [chunkItem twoNodes 2 2 0] ++ TaskPc.due twoNodes (.decoding ⟨2, 2, 0⟩ 1) =
        TreeReplica.replies charReplica twoNodes τ 2 := by
  have hF : CollisionFree {l | l ∈ branches} := by decide +kernel
  have hexec := Lts.exec_get (step charReplica) (.new twoNodes) pruning (by decide +kernel)
  obtain ⟨τ, s, hrun, horder, hchains, hsize, hkeys, hdone, hdecoding⟩ : ∃ τ s,
      (lts charReplica).Exec (.new twoNodes) τ s ∧ (taken τ).map Prod.fst = [1, 0, 2] ∧
        (∀ x ∈ taken τ, ∀ hashes ∈ chainOf charReplica x.2, hashes ∈ branches) ∧
        s.service.cache.len = 2 ∧
        (∀ l ∈ branches, ∃ h1 : 1 < l.length, l.take 2 = l ∧
          (l[1] ∈ s.service.cache.map.keys ↔ l = branches.headD [])) ∧
        s.workers[0]? = some (.call (requestOf "aaaaaaaaaaaaaaaabbbbbbbbbbbbbbbb")
          (.done (.ok (makeResponse 1 2 "mock-completion")))) ∧
        s.workers[2]? =
          some (.stream (.decoding ⟨2, 2, 0⟩ 1) [chunkItem twoNodes 2 2 0] true) :=
    ⟨_, _, hexec, by decide +kernel, by decide +kernel, by decide +kernel, by decide +kernel,
      by decide +kernel, by decide +kernel⟩
  obtain ⟨⟨htree, hnodes⟩, hcall, hstream⟩ := refines_tree_of_run hF hrun hchains
  refine ⟨τ, s, hrun, horder, htree, hsize, fun l hl => ?_, hcall 0 _ _ hdone,
    (hstream 2 _ _ true hdecoding).2 rfl⟩
  obtain ⟨h1, htake, hkey⟩ := hkeys l hl
  rw [← hkey, hnodes l hl 1 h1, htake]

end Replica
