import DynamoRouter.Lib.ListSums
import DynamoRouter.Lib.Replay
import DynamoRouter.MockTriton.Replica
import Mathlib

set_option relaxedAutoImplicit false
set_option autoImplicit false

/-!
# The mock replica is atomic (`crates/mock-triton/src/service.rs`)

The tasks of a replica interleave step by step, and a unary call may be dropped while it sleeps. All the
same, the cache, the counters and the answers are those of a replica that serves one request after
another, in the order in which the tasks took the mutex.

## Main definitions

* `Replica.taken`, `Replica.received` — the requests that the tasks took, and those that arrived.
* `Replica.serve`, `Replica.callAnswer`, `Replica.streamAnswer` — the sequential replica.
* `Replica.Linear` — the invariant that ties the two together.

## Main results

* `Worker.Ok.step` — a step of one task, beside a step of the sequential replica.
* `Replica.atomic_of_run` — the cache, the counters and the answers of every run.
-/

open Protocol MockTriton

namespace Replica

/-! ## The sequential replica -/

/-- What the tasks have taken, in this order. -/
def taken (τ : List (Action × Option (ℕ × ClientItem))) : List (ℕ × ClientItem) := τ.filterMap Prod.snd

/-- What arrives with an input. -/
def Input.item : Input → Option ClientItem
  | .recv item => item
  | _ => none

/-- What arrived for task `t` in a step. -/
def Action.receives (t : ℕ) : Action → Option ClientItem
  | .run t' input => if t' = t then input.item else none
  | _ => none

/-- What arrived for task `t`. -/
def received (τ : List (Action × Option (ℕ × ClientItem))) (t : ℕ) : List ClientItem :=
  τ.filterMap fun x => x.1.receives t

/-- The service after one item, all in one step. -/
def serve (deps : ReplicaDeps) (s : MockTritonService) : ClientItem → MockTritonService
  | .error _ => s
  | .ok req => (s.prefill deps.encode req).2

/-- What a call is answered, all in one step. -/
def callAnswer (deps : ReplicaDeps) (s : MockTritonService) :
    ClientItem → List (Except Status MockResponse)
  | .error _ => []
  | .ok req => [(s.modelInfer deps.encode req).1]

/-- What a stream answers to an item, all in one step. -/
def streamAnswer (deps : ReplicaDeps) (s : MockTritonService) : ClientItem → List StreamItem
  | .error status => [errorItem ("stream recv: " ++ deps.statusText status)]
  | .ok req => streamItems deps.statusText (s.streamInfer deps.encode req).1

/-! ## What the tasks know -/

/-- What `simulate_prefill` will answer, once it is past the mutex. -/
def PrefillPc.finds (cfg : MockConfig) : PrefillPc → Option Prefill
  | .locking _ => none
  | .countingCached work cached | .countingTotal work cached =>
    some ⟨cached, work.hashes.length, (work.tokens - cached * blockSize) * cfg.prefillUsPerToken⟩
  | .sleeping p => some p

/-- What `cached_blocks_total` still lacks. -/
def PrefillPc.uncountedCached : PrefillPc → ℕ
  | .countingCached _ cached => cached
  | _ => 0

/-- What `total_blocks_total` still lacks. -/
def PrefillPc.uncountedTotal : PrefillPc → ℕ
  | .countingCached work _ | .countingTotal work _ => work.hashes.length
  | _ => 0

/-- The request that a task is at, when it is in `simulate_prefill`. -/
def Worker.prefillPc : Worker → Option (ModelInferRequest × PrefillPc)
  | .call req (.prefill pc) | .stream (.prefill req pc) _ _ => some (req, pc)
  | _ => none

/-- What `cached_blocks_total` still lacks from a task. -/
def Worker.uncountedCached (w : Worker) : ℕ := w.prefillPc.elim 0 fun x => x.2.uncountedCached

/-- What `total_blocks_total` still lacks from a task. -/
def Worker.uncountedTotal (w : Worker) : ℕ := w.prefillPc.elim 0 fun x => x.2.uncountedTotal

/-- Whether a task has counted what it has looked up. -/
def Worker.settled (w : Worker) : Bool := w.uncountedCached = 0 ∧ w.uncountedTotal = 0

/-- The request that a stream has read, and not taken yet. -/
def TaskPc.pending : TaskPc → List ClientItem
  | .preparing req | .prefill req (.locking _) => [.ok req]
  | _ => []

/-- The chunks of the decode loop. -/
def chunks (cfg : MockConfig) (p : Prefill) : List StreamItem :=
  (List.range cfg.decodeChunks).map (chunkItem cfg p.cached p.total)

/-- What a stream still has to answer to what it has taken. -/
def TaskPc.due (cfg : MockConfig) : TaskPc → List StreamItem
  | .prefill _ pc => (pc.finds cfg).elim [] (chunks cfg)
  | .decoding p chunk => (chunks cfg p).drop chunk
  | .replying message | .closing message => [errorItem message]
  | _ => []

/-- A call is answered. -/
def callItem (p : Prefill) : Except Status MockResponse :=
  .ok (makeResponse p.cached p.total "mock-completion")

/-- **A task agrees with the sequential replica**: with what it took of this one, `items`, with what it
received, and with the answers of this one to a call and to a stream. -/
def Worker.Ok (deps : ReplicaDeps) (cfg : MockConfig) (items received : List ClientItem)
    (results : List (Except Status MockResponse)) (answers : List StreamItem) : Worker → Prop
  | .call _ .start => items = [] ∧ results = []
  | .call req (.prefill pc) =>
    (∀ work, pc = .locking work → prepare deps.encode req = .ok work) ∧
      items = (if pc.locks then [] else [.ok req]) ∧ results = (pc.finds cfg).toList.map callItem
  | .call req (.done result) => items = [.ok req] ∧ results = [result]
  | .call _ .dropped => True
  | .stream pc out rx =>
    (∀ req work, pc = .prefill req (.locking work) → prepare deps.encode req = .ok work) ∧
      items ++ pc.pending = received ∧ out <+: answers ∧ (rx = true → out ++ pc.due cfg = answers)

/-! ## One step -/

/-- A request without a prompt is rejected in one step. -/
theorem prefill_of_prepare_error {encode : String → Except String (List UInt32)}
    (s : MockTritonService) {req : ModelInferRequest} {status : Status}
    (h : prepare encode req = .error status) : s.prefill encode req = (.error status, s) := by
  rw [prepare] at h
  rw [MockTritonService.prefill]
  cases htext : extractText req with
  | error e =>
    rw [htext] at h
    cases h
    rfl
  | ok text =>
    simp only [htext] at h ⊢
    rw [MockTritonService.simulatePrefill]
    cases hids : tokenIds encode text with
    | error e =>
      rw [hids] at h
      cases h
      rfl
    | ok ids => simp [hids] at h

/-- What `simulate_prefill` does in one step, when the prompt can be tokenized. -/
theorem prefill_of_prepare_ok {encode : String → Except String (List UInt32)}
    (s : MockTritonService) {req : ModelInferRequest} {work : Work} (h : prepare encode req = .ok work) :
    s.prefill encode req =
      (.ok ⟨(s.cache.lookupInsert work.hashes).1, work.hashes.length,
        (work.tokens - (s.cache.lookupInsert work.hashes).1 * blockSize) * s.cfg.prefillUsPerToken⟩,
        s.served work.hashes) := by
  rw [prepare] at h
  rw [MockTritonService.prefill]
  cases htext : extractText req with
  | error e => simp [htext] at h
  | ok text =>
    simp only [htext] at h ⊢
    rw [MockTritonService.simulatePrefill]
    cases hids : tokenIds encode text with
    | error e => simp [hids] at h
    | ok ids =>
      rw [hids] at h
      cases h
      rfl

/-- The service after the item that a step takes, if it takes one. -/
def serveItem (deps : ReplicaDeps) (s : MockTritonService) (item : Option ClientItem) :
    MockTritonService :=
  item.elim s (serve deps s)

/-- A service and the sequential replica `S` have the same configuration and cache, which is what the
answers depend on. -/
structure Alike (cfg : MockConfig) (service S : MockTritonService) : Prop where
  /-- The configuration of the service. -/
  cfg_left : service.cfg = cfg
  /-- The configuration of the sequential replica. -/
  cfg_right : S.cfg = cfg
  /-- The cache. -/
  cache : service.cache = S.cache

/-- The account of a step: what the counters of the service and of the sequential replica `S` gain, when
the step takes `item` and what its task has not counted changes from `u` to `u'`. -/
structure Accounts (deps : ReplicaDeps) (service service' S : MockTritonService)
    (item : Option ClientItem) (u u' : ℕ × ℕ) : Prop where
  /-- The account of `cached_blocks_total`. -/
  cached : service'.metrics.cachedBlocksTotal + u'.1 + S.metrics.cachedBlocksTotal =
    service.metrics.cachedBlocksTotal + u.1 + (serveItem deps S item).metrics.cachedBlocksTotal
  /-- The account of `total_blocks_total`. -/
  total : service'.metrics.totalBlocksTotal + u'.2 + S.metrics.totalBlocksTotal =
    service.metrics.totalBlocksTotal + u.2 + (serveItem deps S item).metrics.totalBlocksTotal

section Step

variable {deps : ReplicaDeps} {cfg : MockConfig} {service service' S : MockTritonService}
  {req : ModelInferRequest} {pc pc' : PrefillPc}

/-- The critical section. -/
theorem PrefillPc.step_locking {work : Work}
    (h : (PrefillPc.locking work).step service = (service', .inl pc')) :
    service' = { service with cache := (service.cache.lookupInsert work.hashes).2 } ∧
      pc' = .countingCached work (service.cache.lookupInsert work.hashes).1 := by
  obtain ⟨hservice, hpc⟩ := Prod.mk.inj h
  exact ⟨hservice.symm, (Sum.inl.inj hpc).symm⟩

/-- **The critical section is where `simulate_prefill` takes effect.**

**Proof sketch.** At the mutex the chain is looked up and cached, as the sequential replica does with the
whole request; what this one counts at once, the task has still to count. Each of the two increments moves
one number from what is not counted to the counters. -/
theorem PrefillPc.serves (hlike : Alike cfg service S)
    (hprepare : ∀ work, pc = .locking work → prepare deps.encode req = .ok work)
    (h : pc.step service = (service', .inl pc')) :
    Alike cfg service' (serveItem deps S (if pc.locks then some (.ok req) else none)) ∧
      Accounts deps service service' S (if pc.locks then some (.ok req) else none)
        (pc.uncountedCached, pc.uncountedTotal) (pc'.uncountedCached, pc'.uncountedTotal) := by
  obtain ⟨hcfg, hS, hcache⟩ := hlike
  cases pc with
  | locking work =>
    obtain ⟨rfl, rfl⟩ := step_locking h
    have hserve : serveItem deps S (some (.ok req)) = S.served work.hashes := by
      rw [serveItem, Option.elim_some, serve, prefill_of_prepare_ok S (hprepare work rfl)]
    simp only [locks, if_true]
    refine ⟨⟨hcfg, by rw [hserve]; exact hS, by rw [hserve, hcache]; rfl⟩, ?_, ?_⟩
    · rw [hserve, hcache]
      simp only [uncountedCached, MockTritonService.served]
      omega
    · rw [hserve]
      simp only [uncountedTotal, MockTritonService.served]
      omega
  | countingCached work cached =>
    cases h
    refine ⟨⟨hcfg, hS, hcache⟩, ?_, ?_⟩
    · simp only [uncountedCached, serveItem, locks, Bool.false_eq_true, if_false, Option.elim_none]
      omega
    · rfl
  | countingTotal work cached =>
    cases h
    refine ⟨⟨hcfg, hS, hcache⟩, rfl, ?_⟩
    simp only [uncountedTotal, serveItem, locks, Bool.false_eq_true, if_false, Option.elim_none]
    omega
  | sleeping p => cases h

/-- What `simulate_prefill` will answer is settled in its critical section.

**Proof sketch.** The number of cached blocks is that of the lookup, and all else that is answered is
known before it. -/
theorem PrefillPc.finds_step (hlike : Alike cfg service S)
    (hprepare : ∀ work, pc = .locking work → prepare deps.encode req = .ok work)
    (h : pc.step service = (service', .inl pc')) :
    pc'.locks = false ∧ (pc.locks = false → pc'.finds cfg = pc.finds cfg) ∧
      (pc.locks = true → ∃ p, pc'.finds cfg = some p ∧
        S.prefill deps.encode req = (.ok p, (S.prefill deps.encode req).2)) := by
  obtain ⟨hcfg, hS, hcache⟩ := hlike
  cases pc with
  | locking work =>
    obtain ⟨rfl, rfl⟩ := step_locking h
    refine ⟨rfl, fun hlocks => absurd hlocks (by simp [locks]), fun _ => ⟨_, rfl, ?_⟩⟩
    rw [prefill_of_prepare_ok S (hprepare work rfl), hcache, hS]
  | countingCached work cached =>
    cases h
    exact ⟨rfl, fun _ => rfl, fun hlocks => absurd hlocks (by simp [locks])⟩
  | countingTotal work cached =>
    cases h
    refine ⟨rfl, fun _ => ?_, fun hlocks => absurd hlocks (by simp [locks])⟩
    rw [finds, finds, hcfg]
  | sleeping p => cases h

/-- A step that takes nothing, or a request without a prompt, has no account to settle. -/
theorem idle {item : Option ClientItem} (hlike : Alike cfg service S)
    (hserve : serveItem deps S item = S) (u : ℕ × ℕ) :
    Alike cfg service (serveItem deps S item) ∧ Accounts deps service service S item u u := by
  refine ⟨by rw [hserve]; exact hlike, ?_, ?_⟩ <;> rw [hserve]

/-- A request without a prompt leaves the sequential replica alone. -/
theorem serveItem_of_prepare_error {status : Status} (S : MockTritonService)
    (h : prepare deps.encode req = .error status) : serveItem deps S (some (.ok req)) = S := by
  rw [serveItem, Option.elim_some, serve, prefill_of_prepare_error S h]

variable {w w' : Worker} {input : Input} {item : Option ClientItem} {items received : List ClientItem}
  {results : List (Except Status MockResponse)} {answers : List StreamItem}

/-- **What a step of a task does to the service**, beside what the item it takes does to the sequential
replica.

**Proof sketch.** By the effects of a step: those of a prefill are `PrefillPc.serves`, and all others
leave the service and what is not counted as they are. -/
theorem Worker.Ok.serves (hok : w.Ok deps cfg items received results answers)
    (hlike : Alike cfg service S) (h : w.Effect deps service input item service' w') :
    Alike cfg service' (serveItem deps S item) ∧
      Accounts deps service service' S item (w.uncountedCached, w.uncountedTotal)
        (w'.uncountedCached, w'.uncountedTotal) := by
  cases h with
  | refused req status hprepare => exact idle hlike (serveItem_of_prepare_error S hprepare) _
  | rejected req status out rx hprepare => exact idle hlike (serveItem_of_prepare_error S hprepare) _
  | called req pc pc' _ hpc => exact PrefillPc.serves hlike hok.1 hpc
  | prefilling req pc pc' _ out rx hpc =>
    exact PrefillPc.serves hlike (fun work heq => hok.1 req work (by rw [heq])) hpc
  | disconnected pc out rx => cases pc <;> exact idle hlike rfl _
  | started => exact idle hlike rfl _
  | droppedEarly => exact idle hlike rfl _
  | answered => exact idle hlike rfl _
  | dropped => exact idle hlike rfl _
  | ended => exact idle hlike rfl _
  | broken => exact idle hlike rfl _
  | received => exact idle hlike rfl _
  | prepared => exact idle hlike rfl _
  | prefilled => exact idle hlike rfl _
  | chunk => exact idle hlike rfl _
  | abandoned => exact idle hlike rfl _
  | decoded => exact idle hlike rfl _
  | replied => exact idle hlike rfl _
  | closed => exact idle hlike rfl _

/-- What a call is answered, in one step. -/
theorem callAnswer_of_prefill {p : Prefill}
    (h : S.prefill deps.encode req = (.ok p, (S.prefill deps.encode req).2)) :
    callAnswer deps S (.ok req) = [callItem p] := by
  rw [callAnswer, MockTritonService.modelInfer, h]
  rfl

/-- What a stream answers, in one step. -/
theorem streamAnswer_of_prefill {p : Prefill} (hS : S.cfg = cfg)
    (h : S.prefill deps.encode req = (.ok p, (S.prefill deps.encode req).2)) :
    streamAnswer deps S (.ok req) = chunks cfg p := by
  rw [streamAnswer, MockTritonService.streamInfer, h, hS, Except.map, streamItems, List.map_map]
  rfl

/-- The decode loop, before chunk number `chunk`. -/
theorem drop_chunks {p : Prefill} {chunk : ℕ} (hlt : chunk < cfg.decodeChunks) :
    (chunks cfg p).drop chunk =
      chunkItem cfg p.cached p.total chunk :: (chunks cfg p).drop (chunk + 1) := by
  rw [List.drop_eq_getElem_cons (by simpa [chunks] using hlt)]
  simp [chunks]

/-- What a step takes of the sequential replica, and what the task has of it then. -/
abbrev Worker.OkAfter (deps : ReplicaDeps) (cfg : MockConfig) (S : MockTritonService)
    (items received : List ClientItem) (results : List (Except Status MockResponse))
    (answers : List StreamItem) (item : Option ClientItem) (input : Input) (w : Worker) : Prop :=
  w.Ok deps cfg (items ++ item.toList) (received ++ input.item.toList)
    (results ++ item.toList.flatMap (callAnswer deps S))
    (answers ++ item.toList.flatMap (streamAnswer deps S))

/-- A call that takes a step of `simulate_prefill` agrees with the sequential replica. -/
theorem Worker.Ok.called (hok : Worker.Ok deps cfg items received results answers (.call req (.prefill pc)))
    (hlike : Alike cfg service S) (hpc : pc.step service = (service', .inl pc')) :
    Worker.OkAfter deps cfg S items received results answers
      (if pc.locks then some (.ok req) else none) .tick (.call req (.prefill pc')) := by
  obtain ⟨hprepare, hitems, hresults⟩ := hok
  obtain ⟨hlocks', hkeep, hfind⟩ := PrefillPc.finds_step hlike hprepare hpc
  refine ⟨fun work heq => by simp [heq, PrefillPc.locks] at hlocks', ?_, ?_⟩
  · rw [hlocks', hitems]
    cases pc.locks <;> rfl
  · cases hlocks : pc.locks with
    | false => simp [hkeep hlocks, hresults]
    | true =>
      obtain ⟨p, hp, hprefill⟩ := hfind hlocks
      have hnone : pc.finds cfg = none := by cases pc <;> first | rfl | cases hlocks
      rw [hresults, hnone, hp]
      simp [callAnswer_of_prefill hprefill]

/-- A stream that takes a step of `simulate_prefill` agrees with the sequential replica. -/
theorem Worker.Ok.prefilling {out : List StreamItem} {rx : Bool}
    (hok : Worker.Ok deps cfg items received results answers (.stream (.prefill req pc) out rx))
    (hlike : Alike cfg service S) (hpc : pc.step service = (service', .inl pc')) :
    Worker.OkAfter deps cfg S items received results answers
      (if pc.locks then some (.ok req) else none) .tick (.stream (.prefill req pc') out rx) := by
  obtain ⟨hprepare, hitems, hout, hdue⟩ := hok
  obtain ⟨hlocks', hkeep, hfind⟩ :=
    PrefillPc.finds_step hlike (fun work heq => hprepare req work (by rw [heq])) hpc
  have hpending' : TaskPc.pending (.prefill req pc') = [] := by
    cases pc' <;> first | rfl | cases hlocks'
  refine ⟨fun req' work heq => ?_, ?_, hout.trans (List.prefix_append _ _), fun hrx => ?_⟩
  · obtain ⟨-, rfl⟩ := TaskPc.prefill.inj heq
    cases hlocks'
  · rw [hpending', List.append_nil, ← hitems]
    cases pc <;> simp [PrefillPc.locks, TaskPc.pending, Input.item]
  · rw [← hdue hrx]
    cases hlocks : pc.locks with
    | false => simp [TaskPc.due, hkeep hlocks]
    | true =>
      obtain ⟨p, hp, hprefill⟩ := hfind hlocks
      have hnone : pc.finds cfg = none := by cases pc <;> first | rfl | cases hlocks
      simp [TaskPc.due, hnone, hp, streamAnswer_of_prefill hlike.cfg_right hprefill]

/-- What a call without a prompt is answered, in one step. -/
theorem callAnswer_of_prepare_error {status : Status} (h : prepare deps.encode req = .error status) :
    callAnswer deps S (.ok req) = [.error status] := by
  rw [callAnswer, MockTritonService.modelInfer, prefill_of_prepare_error S h]
  rfl

/-- What a stream answers to a request without a prompt, in one step. -/
theorem streamAnswer_of_prepare_error {status : Status} (h : prepare deps.encode req = .error status) :
    streamAnswer deps S (.ok req) = [errorItem (deps.statusText status)] := by
  rw [streamAnswer, MockTritonService.streamInfer, prefill_of_prepare_error S h]
  rfl

/-- A stream that takes nothing, and receives nothing, agrees with the sequential replica if it has the
same request pending, and the same items due. -/
theorem Worker.Ok.quiet {pc pc' : TaskPc} {out out' : List StreamItem} {rx rx' : Bool}
    (hok : Worker.Ok deps cfg items received results answers (.stream pc out rx))
    (hpending : pc'.pending = pc.pending) (hinput : input.item = none)
    (hprepare : ∀ req work, pc' = .prefill req (.locking work) → prepare deps.encode req = .ok work)
    (hout : out' <+: answers) (hdue : rx' = true → rx = true ∧ out' ++ pc'.due cfg = out ++ pc.due cfg) :
    Worker.OkAfter deps cfg S items received results answers none input (.stream pc' out' rx') := by
  obtain ⟨-, hitems, -, hanswers⟩ := hok
  refine ⟨hprepare, ?_, by simpa using hout, fun hrx => ?_⟩
  · simp [hpending, hinput, hitems]
  · obtain ⟨hrx, heq⟩ := hdue hrx
    simp [heq, hanswers hrx]

/-- An item that is sent is a prefix of what is due. -/
theorem isPrefix_sent {pc : TaskPc} {out rest : List StreamItem} {message : StreamItem} {rx : Bool}
    (hok : Worker.Ok deps cfg items received results answers (.stream pc out rx))
    (hdue : pc.due cfg = message :: rest) : sent out message rx <+: answers := by
  obtain ⟨-, -, hout, hanswers⟩ := hok
  cases rx with
  | false => exact hout
  | true =>
    rw [← hanswers rfl, hdue]
    exact ⟨rest, by simp [sent]⟩

/-- **One step of one task** keeps it in agreement with the sequential replica.

**Proof sketch.** By cases on what the step does. A request is taken in the critical section or when it
is rejected; both are single steps, and what they find out is what the sequential replica answers in its
present state. All other steps move the task through what it still has to answer. -/
theorem Worker.Ok.step (hok : w.Ok deps cfg items received results answers) (hlike : Alike cfg service S)
    (h : w.Effect deps service input item service' w') :
    w'.OkAfter deps cfg S items received results answers item input := by
  cases h with
  | refused req status hprepare =>
    obtain ⟨rfl, rfl⟩ := hok
    exact ⟨rfl, by simp [callAnswer_of_prepare_error hprepare]⟩
  | started req work hprepare =>
    obtain ⟨rfl, rfl⟩ := hok
    refine ⟨fun work' heq => ?_, rfl, rfl⟩
    obtain rfl := PrefillPc.locking.inj heq
    exact hprepare
  | droppedEarly => trivial
  | called req pc pc' _ hpc => exact hok.called hlike hpc
  | answered req p =>
    obtain ⟨-, rfl, rfl⟩ := hok
    exact ⟨rfl, rfl⟩
  | dropped => trivial
  | disconnected pc out rx => exact hok.quiet rfl rfl hok.1 hok.2.2.1 fun h => by cases h
  | ended out rx =>
    exact hok.quiet rfl rfl (fun _ _ h => by cases h) hok.2.2.1 fun h => ⟨h, rfl⟩
  | broken status out rx =>
    obtain ⟨-, hitems, hout, hanswers⟩ := hok
    refine ⟨(fun _ _ h => by cases h), ?_, hout.trans (List.prefix_append _ _), fun hrx => ?_⟩
    · simp only [TaskPc.pending, List.append_nil] at hitems ⊢
      rw [hitems]
      rfl
    · rw [← hanswers hrx]
      simp [TaskPc.due, streamAnswer]
  | received req out rx =>
    obtain ⟨-, hitems, hout, hanswers⟩ := hok
    refine ⟨(fun _ _ h => by cases h), ?_, by simpa using hout, fun hrx => ?_⟩
    · simp only [TaskPc.pending, List.append_nil] at hitems
      simp [TaskPc.pending, Input.item, hitems]
    · simpa [TaskPc.due] using hanswers hrx
  | rejected req status out rx hprepare =>
    obtain ⟨-, hitems, hout, hanswers⟩ := hok
    refine ⟨(fun _ _ h => by cases h), ?_, hout.trans (List.prefix_append _ _), fun hrx => ?_⟩
    · simpa [TaskPc.pending, Input.item] using hitems
    · rw [← hanswers hrx]
      simp [TaskPc.due, streamAnswer_of_prepare_error hprepare]
  | prepared req work out rx hprepare =>
    refine hok.quiet rfl rfl (fun req' work' heq => ?_) hok.2.2.1 fun h => ⟨h, rfl⟩
    obtain ⟨rfl, hwork⟩ := TaskPc.prefill.inj heq
    obtain rfl := PrefillPc.locking.inj hwork
    exact hprepare
  | prefilling req pc pc' _ out rx hpc => exact hok.prefilling hlike hpc
  | prefilled req p out rx =>
    exact hok.quiet rfl rfl (fun _ _ h => by cases h) hok.2.2.1 fun h => ⟨h, rfl⟩
  | chunk p chunk out hlt =>
    rw [hlike.cfg_left] at hlt ⊢
    have hdue := drop_chunks (p := p) hlt
    refine hok.quiet rfl rfl (fun _ _ h => by cases h) (isPrefix_sent hok hdue) fun _ => ⟨rfl, ?_⟩
    rw [TaskPc.due, TaskPc.due, hdue, List.append_assoc]
    rfl
  | abandoned p chunk out hlt =>
    exact hok.quiet rfl rfl (fun _ _ h => by cases h) hok.2.2.1 fun h => by cases h
  | decoded p chunk out rx hge =>
    rw [hlike.cfg_left] at hge
    refine hok.quiet rfl rfl (fun _ _ h => by cases h) hok.2.2.1 fun h => ⟨h, ?_⟩
    simp [TaskPc.due, List.drop_eq_nil_of_le (show (chunks cfg p).length ≤ chunk by simpa [chunks])]
  | replied message out rx =>
    refine hok.quiet rfl rfl (fun _ _ h => by cases h) (isPrefix_sent hok rfl) fun h => ⟨h, ?_⟩
    simp [h, sent, TaskPc.due]
  | closed message out rx =>
    refine hok.quiet rfl rfl (fun _ _ h => by cases h) (isPrefix_sent hok rfl) fun h => ⟨h, ?_⟩
    simp [h, sent, TaskPc.due]

end Step

/-! ## A whole run -/

/-- The sequential replica after a run. -/
def sequential (deps : ReplicaDeps) (cfg : MockConfig) (τ : List (Action × Option (ℕ × ClientItem))) :
    MockTritonService :=
  Replay.state (serve deps) (.new cfg) (taken τ)

/-- What the sequential replica answers to call `t`. -/
def results (deps : ReplicaDeps) (cfg : MockConfig) (τ : List (Action × Option (ℕ × ClientItem))) (t : ℕ) :
    List (Except Status MockResponse) :=
  Replay.answers (serve deps) (callAnswer deps) t (.new cfg) (taken τ)

/-- What the sequential replica answers on stream `t`. -/
def replies (deps : ReplicaDeps) (cfg : MockConfig) (τ : List (Action × Option (ℕ × ClientItem))) (t : ℕ) :
    List StreamItem :=
  Replay.answers (serve deps) (streamAnswer deps) t (.new cfg) (taken τ)

/-- **The replica agrees with the sequential one**: they have the same cache, the counters of the former
lack what its tasks have not counted yet, and each task agrees. -/
structure Linear (deps : ReplicaDeps) (cfg : MockConfig) (τ : List (Action × Option (ℕ × ClientItem)))
    (s : Replica) : Prop where
  /-- The configuration and the cache. -/
  alike : Alike cfg s.service (sequential deps cfg τ)
  /-- `cached_blocks_total`. -/
  cached : s.service.metrics.cachedBlocksTotal + (s.workers.map Worker.uncountedCached).sum =
    (sequential deps cfg τ).metrics.cachedBlocksTotal
  /-- `total_blocks_total`. -/
  total : s.service.metrics.totalBlocksTotal + (s.workers.map Worker.uncountedTotal).sum =
    (sequential deps cfg τ).metrics.totalBlocksTotal
  /-- The tasks. -/
  workers : ∀ (t : ℕ) (w : Worker), s.workers[t]? = some w →
    w.Ok deps cfg (Replay.of t (taken τ)) (received τ t) (results deps cfg τ t) (replies deps cfg τ t)
  /-- Nothing has happened to a task that has not arrived. -/
  fresh : ∀ t, s.workers.length ≤ t → (∀ x ∈ taken τ, x.1 ≠ t) ∧ received τ t = []

section Run

variable {deps : ReplicaDeps} {cfg : MockConfig} {τ : List (Action × Option (ℕ × ClientItem))}
  {s s' : Replica}

/-- What the tasks have taken, after one more step. -/
theorem taken_append (τ : List (Action × Option (ℕ × ClientItem))) (a : Action)
    (e : Option (ℕ × ClientItem)) : taken (τ ++ [(a, e)]) = taken τ ++ e.toList := by
  rw [taken, List.filterMap_append]
  cases e <;> rfl

/-- What arrived for a task, after one more step. -/
theorem received_append (τ : List (Action × Option (ℕ × ClientItem))) (a : Action)
    (e : Option (ℕ × ClientItem)) (t : ℕ) :
    received (τ ++ [(a, e)]) t = received τ t ++ (a.receives t).toList := by
  rw [received, List.filterMap_append]
  cases h : a.receives t <;> simp [received, h]

/-- The replica at the start agrees with the sequential one. -/
theorem linear_new (deps : ReplicaDeps) (cfg : MockConfig) : Linear deps cfg [] (.new cfg) where
  alike := ⟨rfl, rfl, rfl⟩
  cached := rfl
  total := rfl
  workers t w h := by simp [new] at h
  fresh t _ := ⟨by simp [taken], rfl⟩

/-- The arrival of a task keeps the replica in agreement.

**Proof sketch.** A task that arrives has taken nothing and has nothing to count. -/
theorem Linear.spawned (h : Linear deps cfg τ s) {a : Action} {w : Worker} (ha : a.spawns = some w) :
    Linear deps cfg (τ ++ [(a, none)]) { s with workers := s.workers ++ [w] } := by
  have htaken : taken (τ ++ [(a, none)]) = taken τ := by simp [taken_append]
  have hreceived : ∀ t, received (τ ++ [(a, none)]) t = received τ t := by
    intro t
    cases a <;> cases ha <;> simp [received_append, Action.receives]
  have hw : w.uncountedCached = 0 ∧ w.uncountedTotal = 0 := by cases a <;> cases ha <;> exact ⟨rfl, rfl⟩
  refine ⟨?_, ?_, ?_, fun t w' hget => ?_, fun t ht => ?_⟩
  · rw [sequential, htaken]
    exact h.alike
  · rw [sequential, htaken, List.map_append, List.sum_append]
    simpa [hw.1, sequential] using h.cached
  · rw [sequential, htaken, List.map_append, List.sum_append]
    simpa [hw.2, sequential] using h.total
  · rw [results, replies, hreceived, htaken]
    rcases Nat.lt_or_ge t s.workers.length with hlt | hle
    · exact h.workers t w' (by rwa [List.getElem?_append_left hlt] at hget)
    · obtain ⟨hnot, hnone⟩ := h.fresh t hle
      rw [List.getElem?_append_right hle] at hget
      obtain rfl := List.mem_singleton.mp (List.mem_of_getElem? hget)
      rw [hnone, Replay.of_eq_nil t hnot, Replay.answers_eq_nil _ _ _ t hnot,
        Replay.answers_eq_nil _ _ _ t hnot]
      cases a <;> cases ha
      · exact ⟨rfl, rfl⟩
      · exact ⟨(fun _ _ h => by cases h), rfl, List.nil_prefix, fun _ => rfl⟩
  · rw [hreceived, htaken]
    exact h.fresh t (by simp at ht; omega)

/-- A step of a task keeps the replica in agreement.

**Proof sketch.** The step of the task changes the shared state as the item that it takes changes the
sequential replica (`Worker.Ok.serves`), and keeps the task in agreement (`Worker.Ok.step`). For the other
tasks neither what they took nor what they received has changed. -/
theorem Linear.ran (h : Linear deps cfg τ s) {t : ℕ} {input : Input} {item : Option ClientItem}
    {service : MockTritonService} {w w' : Worker} (hget : s.workers[t]? = some w)
    (hstep : w.step deps s.service input = some (item, service, w')) :
    Linear deps cfg (τ ++ [(.run t input, item.map fun item => (t, item))])
      ⟨service, s.workers.set t w'⟩ := by
  have heffect := Worker.step_inv hstep
  have hok := h.workers t w hget
  obtain ⟨hlike, haccounts⟩ := hok.serves h.alike heffect
  have hseq : sequential deps cfg (τ ++ [(.run t input, item.map fun item => (t, item))]) =
      serveItem deps (sequential deps cfg τ) item := by
    rw [sequential, taken_append, Replay.state_append, Replay.state_toList]
    rfl
  have hsumc := sum_map_set Worker.uncountedCached w' hget
  have hsumt := sum_map_set Worker.uncountedTotal w' hget
  refine ⟨?_, ?_, ?_, fun t' v hv => ?_, fun t' ht' => ?_⟩
  · rw [hseq]
    exact hlike
  · have hcached := haccounts.cached
    have hold := h.cached
    rw [hseq]
    show service.metrics.cachedBlocksTotal + ((s.workers.set t w').map Worker.uncountedCached).sum = _
    omega
  · have htotal := haccounts.total
    have hold := h.total
    rw [hseq]
    show service.metrics.totalBlocksTotal + ((s.workers.set t w').map Worker.uncountedTotal).sum = _
    omega
  · rw [results, replies, taken_append, received_append, Replay.of_append, Replay.answers_append,
      Replay.answers_append, Replay.of_toList, Replay.answers_toList, Replay.answers_toList]
    by_cases htt : t = t'
    · subst htt
      obtain rfl : w' = v := by
        rw [List.getElem?_set_self (List.getElem?_eq_some_iff.mp hget).1] at hv
        exact Option.some.inj hv
      simp only [if_true, Action.receives]
      exact hok.step h.alike heffect
    · rw [List.getElem?_set_ne htt] at hv
      simpa [htt, Action.receives, results, replies] using h.workers t' v hv
  · have htt : t ≠ t' := by
      have := (List.getElem?_eq_some_iff.mp hget).1
      simp at ht'
      omega
    obtain ⟨hnot, hnone⟩ := h.fresh t' (by simpa using ht')
    rw [taken_append, received_append, hnone]
    refine ⟨fun x hx => ?_, by simp [Action.receives, htt]⟩
    rcases List.mem_append.mp hx with hx | hx
    · exact hnot x hx
    · cases item <;> simp at hx
      simp [hx, htt]

/-- **The invariant** that ties the replica to the sequential one holds in every run. -/
theorem linear_of_run (hrun : (lts deps).Exec (.new cfg) τ s) : Linear deps cfg τ s := by
  refine hrun.invariant (linear_new deps cfg) fun τ s a e s' h _ hstep => ?_
  cases step_inv hstep with
  | spawned _ w ha => exact h.spawned ha
  | ran t input item service w w' hget hw => exact h.ran hget hw

/-- The chain of an item, if it is a request with a prompt. -/
def chainOf (deps : ReplicaDeps) : ClientItem → Option (List UInt64)
  | .error _ => none
  | .ok req => (prepare deps.encode req).toOption.map Work.hashes

/-- The cache of the sequential replica is the one that `lookup_insert` makes of the chains. -/
theorem sequential_cache (deps : ReplicaDeps) (cfg : MockConfig)
    (τ : List (Action × Option (ℕ × ClientItem))) :
    (sequential deps cfg τ).cache =
      (KvCacheSim.new cfg.cacheBlocks).runCalls ((taken τ).filterMap fun x => chainOf deps x.2) := by
  rw [sequential]
  generalize taken τ = ops
  induction ops using List.reverseRecOn with
  | nil => rfl
  | append_singleton ops x ih =>
    rw [Replay.state_append, List.filterMap_append, KvCacheSim.runCalls, List.foldl_append]
    change _ = ((KvCacheSim.new cfg.cacheBlocks).runCalls _).runCalls _
    rw [← ih]
    obtain ⟨t, status | req⟩ := x
    · rfl
    · rw [Replay.state, List.foldl_cons, List.foldl_nil, serve]
      cases hprepare : prepare deps.encode req with
      | error status =>
        rw [prefill_of_prepare_error _ hprepare]
        simp [chainOf, hprepare, Except.toOption, KvCacheSim.runCalls]
      | ok work =>
        rw [prefill_of_prepare_ok _ hprepare]
        simp [chainOf, hprepare, Except.toOption, MockTritonService.served, KvCacheSim.runCalls]

/-- The tasks have counted what they looked up. -/
theorem Linear.sum_eq_zero {f : Worker → ℕ} (h : ∀ w ∈ s.workers, f w = 0) :
    (s.workers.map f).sum = 0 := by
  refine List.sum_eq_zero fun x hx => ?_
  obtain ⟨w, hw, rfl⟩ := List.mem_map.mp hx
  exact h w hw

/-- When all tasks have counted what they looked up, the service is that of the sequential replica. -/
theorem Linear.service_eq (h : Linear deps cfg τ s) (hsettled : ∀ w ∈ s.workers, w.settled = true) :
    s.service = sequential deps cfg τ := by
  have hboth : ∀ w ∈ s.workers, w.uncountedCached = 0 ∧ w.uncountedTotal = 0 := fun w hw => by
    simpa [Worker.settled] using hsettled w hw
  have hcached := h.cached
  have htotal := h.total
  rw [Linear.sum_eq_zero fun w hw => (hboth w hw).1] at hcached
  rw [Linear.sum_eq_zero fun w hw => (hboth w hw).2] at htotal
  have hcfg := h.alike.cfg_left.trans h.alike.cfg_right.symm
  have hcache := h.alike.cache
  generalize sequential deps cfg τ = S at *
  obtain ⟨⟨_⟩, _, ⟨_, _⟩⟩ := S
  obtain ⟨⟨⟨_⟩, _, ⟨_, _⟩⟩, _⟩ := s
  simp_all

/-- **The replica is atomic.** In every run of the replica, with any number of calls and streams that
interleave in any way, and calls that are dropped,
* the cache is what `lookup_insert` makes of the prompts in the order in which the tasks took the mutex;
* the counters never exceed those of the replica that serves these requests one after another, and agree
  with them when no task is between the mutex and its last increment;
* a call that is answered took its request once, and is answered what this replica answers it;
* a stream takes its requests in the order of their arrival, and its items are what this replica answers
  to them: all of them but those that are still due, as long as the client receives, and a prefix
  otherwise.

**Proof sketch.** The invariant `Linear`, which every step of a task keeps (`Worker.Ok.serves` for the
shared state and `Worker.Ok.step` for the task). -/
theorem atomic_of_run (hrun : (lts deps).Exec (.new cfg) τ s) :
    s.service.cache =
        (KvCacheSim.new cfg.cacheBlocks).runCalls ((taken τ).filterMap fun x => chainOf deps x.2) ∧
      (s.service.metrics.cachedBlocksTotal ≤ (sequential deps cfg τ).metrics.cachedBlocksTotal ∧
        s.service.metrics.totalBlocksTotal ≤ (sequential deps cfg τ).metrics.totalBlocksTotal) ∧
      ((∀ w ∈ s.workers, w.settled) → s.service = sequential deps cfg τ) ∧
      (∀ t req result, s.workers[t]? = some (.call req (.done result)) →
        Replay.of t (taken τ) = [.ok req] ∧ results deps cfg τ t = [result]) ∧
      ∀ t pc out rx, s.workers[t]? = some (.stream pc out rx) →
        Replay.of t (taken τ) ++ pc.pending = received τ t ∧ out <+: replies deps cfg τ t ∧
        (rx = true → out ++ pc.due cfg = replies deps cfg τ t) := by
  have h := linear_of_run hrun
  refine ⟨h.alike.cache.trans (sequential_cache deps cfg τ), ⟨?_, ?_⟩, fun hsettled => ?_, ?_, ?_⟩
  · have := h.cached
    omega
  · have := h.total
    omega
  · exact h.service_eq hsettled
  · exact fun t req result hget => h.workers t _ hget
  · exact fun t pc out rx hget => (h.workers t _ hget).2

end Run

/-! ## A run in which a call overtakes another one -/

deriving instance DecidableEq for InferTensorContents, InferInputTensor, ModelInferRequest, Prefill,
  MockResponse, ModelStreamInferResponse, Work, PrefillPc, CallPc, TaskPc, Worker

/-- A tokenizer with a token for each character. -/
def charReplica : ReplicaDeps where
  encode text := .ok (text.toList.map fun c => c.val)
  statusText _ := ""

/-- A request with two blocks. -/
def twoBlocks : ModelInferRequest :=
  { inputs := [{ name := "text_input",
                 contents := some { bytesContents := ["aaaaaaaaaaaaaaaabbbbbbbbbbbbbbbb".toUTF8] } }] }

/-- Two calls and a stream at the same prompt: the second call takes the mutex first, and the first one is
answered first. -/
def overtaken : List Action :=
  [.spawnCall twoBlocks, .spawnCall twoBlocks, .spawnStream, .run 2 (.recv (some (.ok twoBlocks))),
    .run 0 .tick, .run 1 .tick, .run 2 .tick, .run 1 .tick, .run 0 .tick, .run 0 .tick, .run 0 .tick,
    .run 0 .tick, .run 2 .tick, .run 2 .tick, .run 1 .tick, .run 2 .tick, .run 2 .tick, .run 2 .tick]

/-- The call that took the mutex second found both blocks, and the stream has sent its first chunk. The
counter lacks what the other call has not counted. -/
theorem atomic_of_run_overtaken : ∃ τ s,
    (lts charReplica).Exec (.new .default) τ s ∧
      (taken τ).map Prod.fst = [1, 0, 2] ∧
      results charReplica .default τ 0 = [.ok (makeResponse 2 2 "mock-completion")] ∧
      [chunkItem .default 2 2 0] ++ TaskPc.due .default (.decoding ⟨2, 2, 0⟩ 1) =
        replies charReplica .default τ 2 ∧
      s.service.metrics.totalBlocksTotal = 4 ∧
      s.service.metrics.totalBlocksTotal ≤ (sequential charReplica .default τ).metrics.totalBlocksTotal := by
  have hrun := Lts.exec_get (step charReplica) (.new .default) overtaken (by decide +kernel)
  obtain ⟨-, ⟨-, hle⟩, -, hcall, hstream⟩ := atomic_of_run hrun
  exact ⟨_, _, hrun, by decide +kernel, (hcall 0 twoBlocks _ (by decide +kernel)).2,
    (hstream 2 _ _ true (by decide +kernel)).2.2 rfl, by decide +kernel, hle⟩

end Replica
