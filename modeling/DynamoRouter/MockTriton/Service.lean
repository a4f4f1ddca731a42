import DynamoRouter.MockTriton.Cache
import DynamoRouter.Protocol.Infer

set_option relaxedAutoImplicit false
set_option autoImplicit false

/-!
# The mock replica (`crates/mock-triton/src/service.rs`)

What a replica does with a request: take the text out of it, tokenize and hash the text, look the chain
up in its cache, and sleep for the tokens that were not cached. The unary path and each item of the
streaming path share `simulate_prefill`; the latter answers a number of chunks.

The tokenizer comes from a library; it is the parameter `encode`.

## Main definitions

* `MockTritonService` — the configuration, the cache and the counters.
* `MockTritonService.simulatePrefill`, `modelInfer`, `streamInfer` — the work on one request.
* `MockTriton.promptHashes` — the chain of a request, as the replica hashes it.

## Main results

* `MockTritonService.prefill_eq` — a request that is not rejected caches its chain, and a rejected one
  changes nothing.
* `MockTritonService.cached_le_total` — no more blocks are reported as cached than there are.
-/

open Protocol

/-- `MockConfig`. -/
structure MockConfig where
  /-- The capacity of the cache. -/
  cacheBlocks : ℕ
  /-- The time to prefill one token. -/
  prefillUsPerToken : ℕ
  /-- The number of chunks of a streamed answer. -/
  decodeChunks : ℕ

/-- `MockConfig::default`. -/
def MockConfig.default : MockConfig where
  cacheBlocks := 4096
  prefillUsPerToken := 200
  decodeChunks := 4

/-- `MockMetrics`. -/
structure MockMetrics where
  /-- `replica_cached_blocks_total`. -/
  cachedBlocksTotal : ℕ
  /-- `replica_total_blocks_total`. -/
  totalBlocksTotal : ℕ

/-- `MockTritonService`. -/
structure MockTritonService where
  /-- The configuration. -/
  cfg : MockConfig
  /-- The cache. -/
  cache : KvCacheSim
  /-- The counters. -/
  metrics : MockMetrics

/-- What a prefill answers, and how long it sleeps. -/
structure Prefill where
  /-- The leading blocks that were cached. -/
  cached : ℕ
  /-- The blocks of the prompt. -/
  total : ℕ
  /-- The sleep, in microseconds. -/
  delay : ℕ

/-- `ModelInferResponse`: the parameters and the text that the replica fills in. -/
structure MockResponse where
  /-- The parameter `cached_blocks`. -/
  cachedBlocks : ℕ
  /-- The parameter `total_blocks`. -/
  totalBlocks : ℕ
  /-- The tensor `text_output`. -/
  textOutput : String

namespace MockTriton

/-- `extract_text`: the first tensor. -/
def extractText (req : ModelInferRequest) : Except Status String :=
  match (req.inputs.head?.bind fun i => i.contents).bind fun c => c.bytesContents.head? with
  | none => .error (.invalidArgument "missing text_input bytes tensor")
  | some bytes =>
    match String.fromUTF8? bytes with
    | none => .error (.invalidArgument "text_input not utf8")
    | some text => .ok text

/-- `encode`, with its error as a status. -/
def tokenIds (encode : String → Except String (List UInt32)) (text : String) :
    Except Status (List UInt32) :=
  match encode text with
  | .error e => .error (.invalidArgument ("tokenize: " ++ e))
  | .ok ids => .ok ids

/-- `extract_text`, then `block_hashes`: the chain of a request. -/
def promptHashes (encode : String → Except String (List UInt32)) (req : ModelInferRequest) :
    Except Status (List UInt64) :=
  match extractText req with
  | .error status => .error status
  | .ok text =>
    match tokenIds encode text with
    | .error status => .error status
    | .ok ids => .ok (blockHashes ids)

/-- `make_response`. -/
def makeResponse (cached total : ℕ) (text : String) : MockResponse := ⟨cached, total, text⟩

end MockTriton

namespace MockTritonService

open MockTriton

variable (encode : String → Except String (List UInt32))

/-- `MockTritonService::new`. -/
def new (cfg : MockConfig) : MockTritonService := ⟨cfg, .new cfg.cacheBlocks, ⟨0, 0⟩⟩

/-- `simulate_prefill`: the answer, and the service after it. -/
def simulatePrefill (s : MockTritonService) (text : String) :
    Except Status Prefill × MockTritonService :=
  match tokenIds encode text with
  | .error status => (.error status, s)
  | .ok ids =>
    let hashes := blockHashes ids
    let total := hashes.length
    let (cached, cache) := s.cache.lookupInsert hashes
    let uncachedTokens := ids.length - cached * blockSize
    (.ok ⟨cached, total, uncachedTokens * s.cfg.prefillUsPerToken⟩,
      { s with
        cache := cache
        metrics := ⟨s.metrics.cachedBlocksTotal + cached, s.metrics.totalBlocksTotal + total⟩ })

/-- `extract_text`, then `simulate_prefill`, as both paths have it. -/
def prefill (s : MockTritonService) (req : ModelInferRequest) :
    Except Status Prefill × MockTritonService :=
  match extractText req with
  | .error status => (.error status, s)
  | .ok text => s.simulatePrefill encode text

/-- `model_infer`. -/
def modelInfer (s : MockTritonService) (req : ModelInferRequest) :
    Except Status MockResponse × MockTritonService :=
  let r := s.prefill encode req
  (r.1.map fun p => makeResponse p.cached p.total "mock-completion", r.2)

/-- One request of `model_stream_infer`: the chunks, of which the last one carries the counts. -/
def streamInfer (s : MockTritonService) (req : ModelInferRequest) :
    Except Status (List MockResponse) × MockTritonService :=
  let r := s.prefill encode req
  (r.1.map fun p => (List.range s.cfg.decodeChunks).map fun chunk =>
    if chunk = s.cfg.decodeChunks - 1 then makeResponse p.cached p.total "mock-final"
    else makeResponse 0 0 "mock-chunk", r.2)

/-- The service after a chain was served. -/
def served (s : MockTritonService) (hashes : List UInt64) : MockTritonService :=
  { s with
    cache := (s.cache.lookupInsert hashes).2
    metrics := ⟨s.metrics.cachedBlocksTotal + (s.cache.lookupInsert hashes).1,
      s.metrics.totalBlocksTotal + hashes.length⟩ }

/-- **What the replica does with a request.** A request that is rejected changes nothing; any other one
looks up and caches its chain, and reports the blocks that were cached and the blocks that there are. -/
theorem prefill_eq (s : MockTritonService) (req : ModelInferRequest) :
    (∀ status, promptHashes encode req = .error status → s.prefill encode req = (.error status, s)) ∧
    ∀ hashes, promptHashes encode req = .ok hashes →
      ∃ p, s.prefill encode req = (.ok p, s.served hashes) ∧
        p.cached = s.cache.leading hashes ∧ p.total = hashes.length := by
  rcases htext : extractText req with status | text
  · simp [promptHashes, prefill, htext]
  rcases hids : tokenIds encode text with status | ids
  · simp [promptHashes, prefill, simulatePrefill, htext, hids]
  have hprompt : promptHashes encode req = .ok (blockHashes ids) := by
    simp only [promptHashes, htext, hids]
  refine ⟨fun status h => by simp [hprompt] at h, fun hashes h => ?_⟩
  obtain rfl : blockHashes ids = hashes := Except.ok.inj (hprompt.symm.trans h)
  have hrun : s.prefill encode req = (.ok ⟨s.cache.leading (blockHashes ids), (blockHashes ids).length,
      (ids.length - s.cache.leading (blockHashes ids) * blockSize) * s.cfg.prefillUsPerToken⟩,
      s.served (blockHashes ids)) := by
    simp only [prefill, simulatePrefill, htext, hids]
    rfl
  exact ⟨_, hrun, rfl, rfl⟩

/-- **No more blocks are reported as cached than there are**, so that the sleep is for the tokens of the
blocks that were not cached, and for the tokens of the incomplete block. -/
theorem cached_le_total (s : MockTritonService) (req : ModelInferRequest) {p : Prefill}
    {s' : MockTritonService} (h : s.prefill encode req = (.ok p, s')) : p.cached ≤ p.total := by
  obtain ⟨herr, hok⟩ := s.prefill_eq encode req
  cases hprompt : promptHashes encode req with
  | error status => simp [herr status hprompt] at h
  | ok hashes =>
    obtain ⟨p', hp', hcached, htotal⟩ := hok hashes hprompt
    obtain rfl : p' = p := by simpa using congrArg Prod.fst (hp'.symm.trans h)
    rw [hcached, htotal]
    exact LazyLru.leading_le_length s.cache.toLazyLru hashes

end MockTritonService
