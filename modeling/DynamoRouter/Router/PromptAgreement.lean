import DynamoRouter.MockTriton.Service
import DynamoRouter.Router.Server

set_option relaxedAutoImplicit false
set_option autoImplicit false

/-!
# The prompt that the router and the replica hash

The router's picture of a replica is worth something only if the chain that the router records for a
request is the chain that the replica caches. Both sides take the text out of the request, tokenize it
and hash the tokens. The router takes the tensor named `text_input`, or else the first tensor; the
replica takes the first tensor, whatever its name. So they hash the same chain if the tensor that is so
named carries the text of the first one, and otherwise some tokenizer tells the two texts apart.

## Main definitions

* `Protocol.tensorText` — the text that a tensor carries.
* `SamePrompt` — the two sides reject the request or hash the same chain.
* `NamedFirst` — the named tensor carries the text of the first one.

## Main results

* `samePrompt_iff` — when the two sides agree.
* `prefill_of_samePrompt` — then the replica caches the chain that the router recorded.
-/

open Protocol

/-- The text that a tensor carries, if it carries one. -/
def Protocol.tensorText (tensor : Option InferInputTensor) : Option String :=
  ((tensor.bind fun i => i.contents).bind fun c => c.bytesContents.head?).bind String.fromUTF8?

/-- Given one tokenizer, the router and the replica both reject the request, or hash the same chain. -/
def SamePrompt (deps : Deps) (req : ModelInferRequest) : Prop :=
  (RouterInner.promptHashes deps req).toOption = (MockTriton.promptHashes deps.encode req).toOption

/-- The tensor named `text_input`, if there is one, carries the text of the first tensor, or neither
carries a text. -/
def NamedFirst (req : ModelInferRequest) : Prop :=
  ∀ tensor, req.inputs.find? (fun i => i.name == "text_input") = some tensor →
    tensorText (some tensor) = tensorText req.inputs.head?

/-! ## The chain as a function of the text -/

/-- The hashes of a text, if it can be tokenized. -/
def Deps.textHashes (deps : Deps) (text : String) : Option (List UInt64) :=
  (deps.encode text).toOption.map blockHashes

/-- The text of a tensor, read with an error for a missing and for an invalid one. -/
theorem toOption_readText (tensor : Option InferInputTensor) (missing invalid : Status) :
    Except.toOption (
      match (tensor.bind fun i => i.contents).bind fun c => c.bytesContents.head? with
      | none => .error missing
      | some bytes =>
        match String.fromUTF8? bytes with
        | none => .error invalid
        | some text => .ok text) = tensorText tensor := by
  rw [tensorText]
  cases (tensor.bind fun i => i.contents).bind fun c => c.bytesContents.head? with
  | none => rfl
  | some bytes =>
    simp only [Option.bind_some]
    cases String.fromUTF8? bytes <;> rfl

/-- The text that the router takes out of a request. -/
theorem toOption_extractText_router (req : ModelInferRequest) :
    (RouterInner.extractText req).toOption =
      tensorText ((req.inputs.find? fun i => i.name == "text_input").or req.inputs.head?) :=
  toOption_readText _ _ _

/-- The text that the replica takes out of a request. -/
theorem toOption_extractText_replica (req : ModelInferRequest) :
    (MockTriton.extractText req).toOption = tensorText req.inputs.head? :=
  toOption_readText _ _ _

/-- The chain that the router records. -/
theorem toOption_promptHashes_router (deps : Deps) (req : ModelInferRequest) :
    (RouterInner.promptHashes deps req).toOption =
      (tensorText ((req.inputs.find? fun i => i.name == "text_input").or req.inputs.head?)).bind
        deps.textHashes := by
  rw [← toOption_extractText_router, RouterInner.promptHashes]
  rcases RouterInner.extractText req with status | text
  · rfl
  · simp only [RouterInner.hashPrompt, Deps.tokenize, Except.toOption, Option.bind_some,
      Deps.textHashes]
    cases deps.encode text <;> rfl

/-- The chain that the replica caches. -/
theorem toOption_promptHashes_replica (deps : Deps) (req : ModelInferRequest) :
    (MockTriton.promptHashes deps.encode req).toOption =
      (tensorText req.inputs.head?).bind deps.textHashes := by
  rw [← toOption_extractText_replica, MockTriton.promptHashes]
  rcases MockTriton.extractText req with status | text
  · rfl
  · simp only [MockTriton.tokenIds, Except.toOption, Option.bind_some, Deps.textHashes]
    cases deps.encode text <;> rfl

/-! ## When the two sides agree -/

/-- A tokenizer that finds a block of tokens in one text, and no tokens in all others. -/
def Deps.only (text : String) : Deps where
  encode t := if t = text then .ok (List.replicate blockSize 0) else .ok []
  codeText _ := ""

/-- Some tokenizer tells apart what two tensors carry, unless they carry the same text. -/
theorem eq_of_forall_bind_textHashes {a b : Option String}
    (h : ∀ deps : Deps, a.bind deps.textHashes = b.bind deps.textHashes) : a = b := by
  rcases a with _ | text
  · rcases b with _ | text
    · rfl
    · have := h (.only text)
      simp [Deps.textHashes, Deps.only, Except.toOption] at this
  · have hsome := h (.only text)
    rcases b with _ | text'
    · simp [Deps.textHashes, Deps.only, Except.toOption] at hsome
    · by_contra hne
      have hne' : text' ≠ text := fun heq => hne (by rw [heq])
      have hlen : (blockHashes (List.replicate blockSize 0)).length = (blockHashes []).length := by
        simp only [Option.bind_some, Deps.textHashes, Deps.only, if_pos, if_neg hne', Except.toOption,
          Option.map_some, Option.some_inj] at hsome
        rw [hsome]
      simp [blockSize] at hlen

/-- If the named tensor carries the text of the first one, the two sides agree. -/
theorem samePrompt_of_namedFirst {req : ModelInferRequest} (h : NamedFirst req) (deps : Deps) :
    SamePrompt deps req := by
  rw [SamePrompt, toOption_promptHashes_router, toOption_promptHashes_replica]
  rcases hfind : req.inputs.find? fun i => i.name == "text_input" with _ | tensor
  · rw [hfind, Option.none_or]
  · rw [hfind, Option.some_or, h tensor hfind]

/-- If the two sides agree, then the replica caches the chain that the router recorded for it, and
reports the match of its cache with that chain. -/
theorem prefill_of_samePrompt {deps : Deps} {req : ModelInferRequest} (h : SamePrompt deps req)
    {hashes : List UInt64} (hprompt : RouterInner.promptHashes deps req = .ok hashes)
    (s : MockTritonService) :
    ∃ p, s.prefill deps.encode req = (.ok p, s.served hashes) ∧ p.cached = s.cache.leading hashes ∧
      p.total = hashes.length := by
  refine (s.prefill_eq deps.encode req).2 hashes ?_
  rw [SamePrompt, hprompt] at h
  rcases hreplica : MockTriton.promptHashes deps.encode req with status | hashes'
  · rw [hreplica] at h
    cases h
  · rw [hreplica] at h
    cases h
    rfl

/-- **When the router and the replica agree on a prompt.** Whatever the tokenizer is, both sides reject
the request or hash the same chain: exactly if no tensor is named `text_input`, or the first one so named
carries the same text as the first tensor of the request, or neither carries a text.

**Proof sketch.** Each side's chain is a function of the text of the tensor it takes, the same function.
The sides take the same tensor if none has the name; otherwise a tokenizer that knows only one of the two
texts tells them apart. -/
theorem samePrompt_iff (req : ModelInferRequest) :
    (∀ deps, SamePrompt deps req) ↔ NamedFirst req := by
  refine ⟨fun h tensor hnamed => eq_of_forall_bind_textHashes fun deps => ?_,
    samePrompt_of_namedFirst⟩
  have hdeps := h deps
  rw [SamePrompt, toOption_promptHashes_router, toOption_promptHashes_replica, hnamed,
    Option.some_or] at hdeps
  exact hdeps

/-- A tensor of a name with a text. -/
def textTensor (name text : String) : InferInputTensor :=
  { name := name, contents := some { bytesContents := [text.toUTF8] } }

/-- A tokenizer with a token for each character. -/
def charDeps : Deps where
  encode text := .ok (text.toList.map fun c => c.val)
  codeText _ := ""

/-- **The two sides hash different prompts.** The prompt is the second tensor of the request: the router
hashes it, and the replica hashes the first one. -/
theorem exists_not_samePrompt :
    ¬ SamePrompt charDeps
      { inputs := [textTensor "id" "7", textTensor "text_input" "the quick brown fox"] } := by
  unfold SamePrompt
  decide +kernel
