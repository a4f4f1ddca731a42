import DynamoRouter.Lib.ListSums
import DynamoRouter.Lib.Lts
import DynamoRouter.Loadgen.Trace
import DynamoRouter.MockTriton.Service
import Mathlib.Algebra.BigOperators.Group.Finset.Piecewise
import Mathlib.Algebra.Order.BigOperators.Group.Finset

set_option relaxedAutoImplicit false
set_option autoImplicit false

/-!
# The replay of a trace (`crates/loadgen/src/main.rs`)

The load generator spawns a task for each conversation. A task waits for a permit of a semaphore, sends
the prompts of its conversation one after another, each when the one before was answered, and gives up at
the first error. `main` waits for the tasks in order, and sums their outcomes up.

A permit that is free may go to any task that waits. The answers come from the router, at any time.

## Main definitions

* `Loadgen.inferRequest`, `Loadgen.paramI64` — a request, and a parameter of a response.
* `Loadgen.ConvTask.next` — a turn of a conversation, and `Loadgen.Replay.step`, the whole.
* `Loadgen.Replay.sentBy`, `Loadgen.Replay.answersTo` — the requests and the answers of a conversation.

## Main results

* `Loadgen.Replay.replayed_of_run` — what is sent, and what is reported.
* `Loadgen.Replay.finishes_iff` — when a replay finishes.
-/

open Protocol

namespace Loadgen

/-! ## Requests and responses -/

/-- `infer_request`. -/
def inferRequest (text : String) : ModelInferRequest :=
  { inputs := [{ name := "text_input", contents := some { bytesContents := [text.toUTF8] } }] }

/-- `InferParameter::parameter_choice`. -/
inductive ParameterChoice
  | boolParam (v : Bool)
  | int64Param (v : Int64)
  | stringParam (v : String)

/-- The parameters that `make_response` puts into a response. -/
def parameters (resp : MockResponse) : List (String × Option ParameterChoice) :=
  [("cached_blocks", some (.int64Param (Int64.ofNat resp.cachedBlocks))),
    ("total_blocks", some (.int64Param (Int64.ofNat resp.totalBlocks)))]

/-- `param_i64`. -/
def paramI64 (parameters : List (String × Option ParameterChoice)) (key : String) : Int64 :=
  match parameters.lookup key with
  | some (some (.int64Param v)) => v
  | _ => 0

/-- `RequestResult`, without the latency. -/
structure RequestResult where
  /-- The blocks that were cached. -/
  cachedBlocks : Int64
  /-- The blocks of the prompt. -/
  totalBlocks : Int64
  deriving DecidableEq

/-- The result of a request that was answered. -/
def RequestResult.of (resp : MockResponse) : RequestResult where
  cachedBlocks := paramI64 (parameters resp) "cached_blocks"
  totalBlocks := paramI64 (parameters resp) "total_blocks"

/-- What a response reports arrives as it was reported, within 64 bits. -/
theorem RequestResult.of_eq (resp : MockResponse) : RequestResult.of resp =
    ⟨Int64.ofNat resp.cachedBlocks, Int64.ofNat resp.totalBlocks⟩ := by
  simp [of, paramI64, parameters, List.lookup_cons]

/-! ## One conversation -/

/-- Where the task of a conversation is. -/
inductive ConvPc
  /-- Waiting for a permit. -/
  | acquiring
  /-- Before the turn number `k`. -/
  | turn (k : ℕ)
  /-- Waiting for the answer to the turn number `k`. -/
  | awaiting (k : ℕ)
  /-- The outcome is there, and the permit was given back. -/
  | finished
  deriving DecidableEq

/-- The task of a conversation. -/
structure ConvTask where
  /-- The conversation. -/
  conv : Conversation
  /-- Where the task is. -/
  pc : ConvPc
  /-- The results so far. -/
  results : List RequestResult
  /-- Whether a turn failed. -/
  failed : Bool

/-- Whether the task has a permit. -/
def ConvTask.holds (task : ConvTask) : Bool :=
  match task.pc with
  | .turn _ | .awaiting _ => true
  | _ => false

/-- The task of a conversation, when it is spawned. -/
def ConvTask.spawn (conv : Conversation) : ConvTask := ⟨conv, .acquiring, [], false⟩

/-- The steps that a conversation takes at most from a place on. -/
def ConvTask.stepsLeft (task : ConvTask) : ℕ :=
  match task.pc with
  | .acquiring => 2 * task.conv.turns.length + 2
  | .turn k => 2 * (task.conv.turns.length - k) + 1
  | .awaiting k => 2 * (task.conv.turns.length - k)
  | .finished => 0

/-- What `main` sums up. -/
structure Summary where
  /-- The results of all conversations. -/
  all : List RequestResult
  /-- The requests that failed. -/
  failedRequests : ℕ
  /-- The conversations that were abandoned. -/
  abandonedConversations : ℕ

/-- The blocks reported as cached, as `main` prints them. -/
def Summary.cached (s : Summary) : Int64 := (s.all.map RequestResult.cachedBlocks).sum

/-- All blocks reported, as `main` prints them. -/
def Summary.total (s : Summary) : Int64 := (s.all.map RequestResult.totalBlocks).sum

/-- The summary with one more outcome. -/
def Summary.add (s : Summary) (task : ConvTask) : Summary where
  all := s.all ++ task.results
  failedRequests := if task.failed then s.failedRequests + 1 else s.failedRequests
  abandonedConversations :=
    if task.failed then s.abandonedConversations + 1 else s.abandonedConversations

end Loadgen

open Loadgen

/-- The load generator. -/
structure Replay where
  /-- The free permits of the semaphore. -/
  permits : ℕ
  /-- The tasks, in the order of the trace. -/
  tasks : List ConvTask
  /-- The number of tasks that `main` has waited for. -/
  collected : ℕ
  /-- What `main` has summed up. -/
  summary : Summary

namespace Replay

/-- A step of the load generator. -/
inductive Action
  /-- Task `i` gets a permit. -/
  | acquire (i : ℕ)
  /-- Task `i` goes on to its next turn, or finds that there is none. -/
  | next (i : ℕ)
  /-- Task `i` gets an answer. -/
  | answer (i : ℕ) (result : Except Status MockResponse)
  /-- `main` gets the outcome of the next task. -/
  | collect

/-- Whether a step is an answer. -/
def Action.isAnswer : Action → Bool
  | .answer _ _ => true
  | _ => false

/-- The load generator, when all tasks are spawned. -/
def new (concurrency : ℕ) (convs : List Conversation) : Replay :=
  ⟨concurrency, convs.map .spawn, 0, ⟨[], 0, 0⟩⟩

/-- Task `i` moves, and `permits` permits are free then. -/
def setTask (s : Replay) (i : ℕ) (permits : ℕ) (task : ConvTask) : Replay :=
  { s with permits := permits, tasks := s.tasks.set i task }

/-- One step, with the request that is sent. -/
def step (s : Replay) : Action → Option (Option (ℕ × ModelInferRequest) × Replay)
  | .acquire i =>
    match s.tasks[i]? with
    | none => none
    | some task =>
      if task.pc = .acquiring ∧ 0 < s.permits then
        some (none, s.setTask i (s.permits - 1) { task with pc := .turn 0 })
      else none
  | .next i =>
    match s.tasks[i]? with
    | none => none
    | some task =>
      match task.pc with
      | .turn k =>
        match task.conv.turns[k]? with
        | some text =>
          some (some (i, inferRequest text), s.setTask i s.permits { task with pc := .awaiting k })
        | none => some (none, s.setTask i (s.permits + 1) { task with pc := .finished })
      | _ => none
  | .answer i result =>
    match s.tasks[i]? with
    | none => none
    | some task =>
      match task.pc with
      | .awaiting k =>
        match result with
        | .ok resp =>
          some (none, s.setTask i s.permits
            { task with pc := .turn (k + 1), results := task.results ++ [.of resp] })
        | .error _ =>
          some (none, s.setTask i (s.permits + 1) { task with pc := .finished, failed := true })
      | _ => none
  | .collect =>
    match s.tasks[s.collected]? with
    | none => none
    | some task =>
      if task.pc = .finished then
        some (none, { s with collected := s.collected + 1, summary := s.summary.add task })
      else none

/-- The load generator as a transition system. -/
def lts : Lts Replay Action (Option (ℕ × ModelInferRequest)) := .ofFun step

/-! ## What a step can do -/

/-- All that a step can do. -/
inductive Effect (s : Replay) : Action → Option (ℕ × ModelInferRequest) → Replay → Prop
  /-- A task got a permit. -/
  | acquired (i : ℕ) (task : ConvTask) (hget : s.tasks[i]? = some task) (hpc : task.pc = .acquiring)
      (hpermits : 0 < s.permits) :
      Effect s (.acquire i) none (s.setTask i (s.permits - 1) { task with pc := .turn 0 })
  /-- A task sent the prompt of a turn. -/
  | sent (i k : ℕ) (task : ConvTask) (text : String) (hget : s.tasks[i]? = some task)
      (hpc : task.pc = .turn k) (htext : task.conv.turns[k]? = some text) :
      Effect s (.next i) (some (i, inferRequest text))
        (s.setTask i s.permits { task with pc := .awaiting k })
  /-- A task came to the end of its conversation. -/
  | ended (i k : ℕ) (task : ConvTask) (hget : s.tasks[i]? = some task) (hpc : task.pc = .turn k)
      (hend : task.conv.turns[k]? = none) :
      Effect s (.next i) none (s.setTask i (s.permits + 1) { task with pc := .finished })
  /-- A turn was answered. -/
  | answered (i k : ℕ) (task : ConvTask) (resp : MockResponse) (hget : s.tasks[i]? = some task)
      (hpc : task.pc = .awaiting k) :
      Effect s (.answer i (.ok resp)) none (s.setTask i s.permits
        { task with pc := .turn (k + 1), results := task.results ++ [.of resp] })
  /-- A turn failed, and the conversation was abandoned. -/
  | abandoned (i k : ℕ) (task : ConvTask) (status : Status) (hget : s.tasks[i]? = some task)
      (hpc : task.pc = .awaiting k) :
      Effect s (.answer i (.error status)) none
        (s.setTask i (s.permits + 1) { task with pc := .finished, failed := true })
  /-- `main` took the outcome of a task. -/
  | collected (task : ConvTask) (hget : s.tasks[s.collected]? = some task)
      (hpc : task.pc = .finished) :
      Effect s .collect none { s with collected := s.collected + 1, summary := s.summary.add task }

/-- Every step has one of the effects. -/
theorem step_inv {s s' : Replay} {a : Action} {e : Option (ℕ × ModelInferRequest)}
    (h : lts.step s a e s') : Effect s a e s' := by
  rw [lts, Lts.ofFun_step] at h
  cases a with
  | acquire i =>
    simp only [step] at h
    split at h
    · cases h
    · rename_i task hget
      split_ifs at h with hcond
      cases h
      exact .acquired i task hget hcond.1 hcond.2
  | next i =>
    simp only [step] at h
    split at h
    · cases h
    · rename_i task hget
      split at h
      · rename_i k hpc
        split at h <;> rename_i htext <;> cases h
        · exact .sent i k task _ hget hpc htext
        · exact .ended i k task hget hpc htext
      · cases h
  | answer i result =>
    simp only [step] at h
    split at h
    · cases h
    · rename_i task hget
      split at h
      · rename_i k hpc
        cases result <;> cases h
        · exact .abandoned i k task _ hget hpc
        · exact .answered i k task _ hget hpc
      · cases h
  | collect =>
    simp only [step] at h
    split at h
    · cases h
    · rename_i task hget
      split_ifs at h with hpc
      cases h
      exact .collected task hget hpc

/-! ## What a task has done -/

/-- A run of the load generator: its steps, with the requests sent. -/
abbrev Trace := List (Action × Option (ℕ × ModelInferRequest))

/-- The answer to conversation `i` in a step. -/
def Action.answerTo (i : ℕ) : Action → Option (Except Status MockResponse)
  | .answer j result => if j = i then some result else none
  | _ => none

/-- The request for conversation `i` in a step. -/
def requestOf (i : ℕ) (x : Option (ℕ × ModelInferRequest)) : Option ModelInferRequest :=
  x.bind fun x => if x.1 = i then some x.2 else none

/-- The requests sent for conversation `i`, in order. -/
def sentBy (τ : Trace) (i : ℕ) : List ModelInferRequest := τ.filterMap fun x => requestOf i x.2

/-- The answers to conversation `i`, in order. -/
def answersTo (τ : Trace) (i : ℕ) : List (Except Status MockResponse) :=
  τ.filterMap fun x => x.1.answerTo i

/-- The responses among some answers. -/
def responses (answers : List (Except Status MockResponse)) : List MockResponse :=
  answers.filterMap Except.toOption

/-- All answers are responses. -/
def AllOk (answers : List (Except Status MockResponse)) : Prop := ∀ a ∈ answers, a.isOk = true

/-- A conversation was replayed to its end: all prompts were sent and answered. -/
structure Completed (turns : List String) (sent : List ModelInferRequest)
    (answers : List (Except Status MockResponse)) : Prop where
  /-- All prompts were sent, in order. -/
  sent : sent = turns.map inferRequest
  /-- All were answered. -/
  length : answers.length = turns.length
  /-- None failed. -/
  ok : AllOk answers

/-- A conversation was abandoned at turn number `k`: the prompts up to this one were sent, and all but this
one were answered. -/
structure Abandoned (turns : List String) (sent : List ModelInferRequest)
    (answers : List (Except Status MockResponse)) (k : ℕ) (status : Status) : Prop where
  /-- There is such a turn. -/
  lt : k < turns.length
  /-- The prompts up to this one were sent, in order. -/
  sent : sent = (turns.take (k + 1)).map inferRequest
  /-- The turns before it were answered. -/
  answers : ∃ oks, answers = oks ++ [.error status] ∧ oks.length = k ∧ AllOk oks

/-- What a task has sent and received, by its place. -/
def ConvPcOk (turns : List String) (sent : List ModelInferRequest)
    (answers : List (Except Status MockResponse)) (failed : Bool) : ConvPc → Prop
  | .acquiring => sent = [] ∧ answers = [] ∧ failed = false
  | .turn k => k ≤ turns.length ∧ sent = (turns.take k).map inferRequest ∧ answers.length = k ∧
      AllOk answers ∧ failed = false
  | .awaiting k => k < turns.length ∧ sent = (turns.take (k + 1)).map inferRequest ∧
      answers.length = k ∧ AllOk answers ∧ failed = false
  | .finished => failed = false ∧ Completed turns sent answers ∨
      failed = true ∧ ∃ k status, Abandoned turns sent answers k status

/-- A task is where its requests and answers have brought it. -/
structure TaskOk (task : ConvTask) (sent : List ModelInferRequest)
    (answers : List (Except Status MockResponse)) : Prop where
  /-- By its place. -/
  pc : ConvPcOk task.conv.turns sent answers task.failed task.pc
  /-- The results are those of the responses. -/
  results : task.results = (responses answers).map .of

/-- What `main` makes of some tasks. -/
def summarize (tasks : List ConvTask) : Summary := tasks.foldl Summary.add ⟨[], 0, 0⟩

/-- The tasks that have a permit. -/
def holders (s : Replay) : ℕ := (s.tasks.map fun task => task.holds.toNat).sum

/-- **The invariant of a replay.** -/
structure Inv (concurrency : ℕ) (convs : List Conversation) (τ : Trace) (s : Replay) : Prop where
  /-- A permit is free or held. -/
  permits : s.permits + s.holders = concurrency
  /-- There is a task for each conversation. -/
  convs : s.tasks.map ConvTask.conv = convs
  /-- The tasks. -/
  tasks : ∀ (i : ℕ) (task : ConvTask), s.tasks[i]? = some task →
    TaskOk task (sentBy τ i) (answersTo τ i)
  /-- The tasks that `main` has waited for are finished. -/
  collected : s.collected ≤ s.tasks.length ∧
    ∀ i < s.collected, ∀ task, s.tasks[i]? = some task → task.pc = .finished
  /-- The summary is that of these tasks. -/
  summary : s.summary = summarize (s.tasks.take s.collected)

variable {concurrency : ℕ} {convs : List Conversation} {τ : Trace} {s : Replay}

/-- One more step of a trace. -/
theorem sentBy_append (τ : Trace) (a : Action) (e : Option (ℕ × ModelInferRequest)) (i : ℕ) :
    sentBy (τ ++ [(a, e)]) i = sentBy τ i ++ (requestOf i e).toList := by
  rw [sentBy, List.filterMap_append]
  cases h : requestOf i e <;> simp [sentBy, h]

/-- One more step of a trace. -/
theorem answersTo_append (τ : Trace) (a : Action) (e : Option (ℕ × ModelInferRequest)) (i : ℕ) :
    answersTo (τ ++ [(a, e)]) i = answersTo τ i ++ (a.answerTo i).toList := by
  rw [answersTo, List.filterMap_append]
  cases h : a.answerTo i <;> simp [answersTo, h]

/-- The load generator at the start. -/
theorem inv_new (concurrency : ℕ) (convs : List Conversation) :
    Inv concurrency convs [] (.new concurrency convs) where
  permits := by
    have hzero : (new concurrency convs).holders = 0 := by
      refine List.sum_eq_zero fun x hx => ?_
      obtain ⟨task, htask, rfl⟩ := List.mem_map.mp hx
      obtain ⟨conv, -, rfl⟩ := List.mem_map.mp htask
      rfl
    rw [hzero]
    rfl
  convs := by simp [new, ConvTask.spawn, Function.comp_def]
  tasks i task hget := by
    obtain ⟨conv, -, rfl⟩ := List.mem_map.mp (List.mem_of_getElem? hget)
    exact ⟨⟨rfl, rfl, rfl⟩, rfl⟩
  collected := ⟨Nat.zero_le _, fun i hi => absurd hi (Nat.not_lt_zero i)⟩
  summary := rfl

/-- A task that moves is not finished, so `main` has not waited for it. -/
theorem Inv.collected_le (h : Inv concurrency convs τ s) {i : ℕ} {task : ConvTask}
    (hget : s.tasks[i]? = some task) (hpc : task.pc ≠ .finished) : s.collected ≤ i := by
  by_contra hlt
  exact hpc (h.collected.2 i (not_le.mp hlt) task hget)

/-- **A move of one task** keeps the invariant, if the permits add up and the task stays where its requests
and answers bring it.

**Proof sketch.** The task that moves is not finished, so that `main` has not waited for it, and the
summary is of others. The permits and the account of the task are those that are given; all else is as
before. -/
theorem Inv.setTask (h : Inv concurrency convs τ s) {a : Action}
    {e : Option (ℕ × ModelInferRequest)} {i permits : ℕ} {task task' : ConvTask}
    (hget : s.tasks[i]? = some task) (hpc : task.pc ≠ .finished) (hconv : task'.conv = task.conv)
    (hpermits : permits + task'.holds.toNat = s.permits + task.holds.toNat)
    (htask : TaskOk task' (sentBy τ i ++ (requestOf i e).toList)
      (answersTo τ i ++ (a.answerTo i).toList))
    (hother : ∀ j, j ≠ i → requestOf j e = none ∧ a.answerTo j = none) :
    Inv concurrency convs (τ ++ [(a, e)]) (s.setTask i permits task') := by
  have hle := h.collected_le hget hpc
  have hlt := (List.getElem?_eq_some_iff.mp hget).1
  refine ⟨?_, ?_, fun j task₁ hj => ?_, ⟨?_, fun j hj task₁ hget₁ => ?_⟩, ?_⟩
  · have hsum := sum_map_set (fun task : ConvTask => task.holds.toNat) task' hget
    have hold := h.permits
    simp only [holders] at hold
    show permits + ((s.tasks.set i task').map fun task => task.holds.toNat).sum = concurrency
    omega
  · rw [← h.convs]
    show (s.tasks.set i task').map ConvTask.conv = _
    rw [List.map_set, hconv]
    refine List.ext_getElem? fun j => ?_
    by_cases hj : i = j
    · subst hj
      rw [List.getElem?_set_self (by simpa using hlt), List.getElem?_map, hget]
      rfl
    · rw [List.getElem?_set_ne hj]
  · rw [sentBy_append, answersTo_append]
    change (s.tasks.set i task')[j]? = _ at hj
    by_cases hij : i = j
    · subst hij
      rw [List.getElem?_set_self hlt] at hj
      rw [← Option.some.inj hj]
      exact htask
    · rw [List.getElem?_set_ne hij] at hj
      obtain ⟨hreq, hans⟩ := hother j (Ne.symm hij)
      simpa [hreq, hans] using h.tasks j task₁ hj
  · simpa [Replay.setTask] using h.collected.1
  · change (s.tasks.set i task')[j]? = _ at hget₁
    have hj' : j < s.collected := hj
    rw [List.getElem?_set_ne (by omega)] at hget₁
    exact h.collected.2 j hj' task₁ hget₁
  · show s.summary = summarize ((s.tasks.set i task').take s.collected)
    rw [List.take_set_of_le hle]
    exact h.summary

/-- One more response. -/
theorem responses_append_ok (answers : List (Except Status MockResponse)) (resp : MockResponse) :
    responses (answers ++ [.ok resp]) = responses answers ++ [resp] := by
  simp [responses, Except.toOption]

/-- One more error. -/
theorem responses_append_error (answers : List (Except Status MockResponse)) (status : Status) :
    responses (answers ++ [.error status]) = responses answers := by
  simp [responses, Except.toOption]

/-- One more answer that is a response. -/
theorem AllOk.append {answers : List (Except Status MockResponse)} (h : AllOk answers)
    (resp : MockResponse) : AllOk (answers ++ [.ok resp]) := by
  intro a ha
  rcases List.mem_append.mp ha with ha | ha
  · exact h a ha
  · rw [List.mem_singleton.mp ha]
    rfl

/-- **Every step keeps the invariant.**

**Proof sketch.** By the effects of a step. A move of a task is `Inv.setTask`: a permit is taken at the
start and put back at the end, a request that is sent is the next prompt, and an answer adds a result or
ends the conversation. Otherwise `main` takes the outcome of the next task. -/
theorem Inv.step (h : Inv concurrency convs τ s) {s' : Replay} {a : Action}
    {e : Option (ℕ × ModelInferRequest)} (hstep : lts.step s a e s') :
    Inv concurrency convs (τ ++ [(a, e)]) s' := by
  cases step_inv hstep with
  | acquired i task hget hpc hpermits =>
    obtain ⟨hok, hresults⟩ := h.tasks i task hget
    rw [hpc] at hok
    obtain ⟨hsent, hanswers, hfailed⟩ := hok
    refine h.setTask hget (by simp [hpc]) rfl ?_ ⟨?_, ?_⟩ fun j _ => ⟨rfl, rfl⟩
    · simp only [ConvTask.holds, hpc]
      simp
      omega
    · simp [ConvPcOk, requestOf, Action.answerTo, hsent, hanswers, hfailed, AllOk]
    · simpa [Action.answerTo] using hresults
  | sent i k task text hget hpc htext =>
    obtain ⟨hok, hresults⟩ := h.tasks i task hget
    rw [hpc] at hok
    obtain ⟨-, hsent, hlength, hall, hfailed⟩ := hok
    refine h.setTask hget (by simp [hpc]) rfl ?_ ⟨?_, ?_⟩ fun j hj => ⟨?_, rfl⟩
    · simp [ConvTask.holds, hpc]
    · refine ⟨(List.getElem?_eq_some_iff.mp htext).1, ?_, by simpa [Action.answerTo] using hlength,
        by simpa [Action.answerTo] using hall, hfailed⟩
      simp [requestOf, hsent, List.take_add_one, htext]
    · simpa [Action.answerTo] using hresults
    · simp [requestOf, Ne.symm hj]
  | ended i k task hget hpc hend =>
    obtain ⟨hok, hresults⟩ := h.tasks i task hget
    rw [hpc] at hok
    obtain ⟨hle, hsent, hlength, hall, hfailed⟩ := hok
    have hk : task.conv.turns.length ≤ k := List.getElem?_eq_none_iff.mp hend
    refine h.setTask hget (by simp [hpc]) rfl ?_ ⟨.inl ⟨hfailed, ?_, ?_, ?_⟩, ?_⟩ fun j _ => ⟨rfl, rfl⟩
    · simp [ConvTask.holds, hpc]
    · simp [requestOf, hsent, List.take_of_length_le hk]
    · simpa [Action.answerTo, hlength] using le_antisymm hle hk
    · simpa [Action.answerTo] using hall
    · simpa [Action.answerTo] using hresults
  | answered i k task resp hget hpc =>
    obtain ⟨hok, hresults⟩ := h.tasks i task hget
    rw [hpc] at hok
    obtain ⟨hlt, hsent, hlength, hall, hfailed⟩ := hok
    have hanswer : (Action.answer i (.ok resp)).answerTo i = some (.ok resp) := if_pos rfl
    refine h.setTask hget (by simp [hpc]) rfl ?_ ⟨?_, ?_⟩ fun j hj => ⟨rfl, if_neg (Ne.symm hj)⟩
    · simp [ConvTask.holds, hpc]
    · rw [hanswer]
      exact ⟨hlt, by simpa [requestOf] using hsent, by simp [hlength], hall.append resp, hfailed⟩
    · rw [hanswer, Option.toList_some, responses_append_ok, List.map_append, ← hresults]
      rfl
  | abandoned i k task status hget hpc =>
    obtain ⟨hok, hresults⟩ := h.tasks i task hget
    rw [hpc] at hok
    obtain ⟨hlt, hsent, hlength, hall, -⟩ := hok
    have hanswer : (Action.answer i (.error status)).answerTo i = some (.error status) := if_pos rfl
    refine h.setTask hget (by simp [hpc]) rfl ?_ ⟨.inr ⟨rfl, k, status, hlt, ?_, ?_⟩, ?_⟩ fun j hj =>
      ⟨rfl, if_neg (Ne.symm hj)⟩
    · simp [ConvTask.holds, hpc]
    · simpa [requestOf] using hsent
    · rw [hanswer]
      exact ⟨_, rfl, hlength, hall⟩
    · rw [hanswer, Option.toList_some, responses_append_error]
      exact hresults
  | collected task hget hpc =>
    have hlt := (List.getElem?_eq_some_iff.mp hget).1
    refine ⟨h.permits, h.convs, fun i task₁ hi => ?_, ⟨hlt, fun i hi task₁ hi₁ => ?_⟩, ?_⟩
    · rw [sentBy_append, answersTo_append]
      simpa [requestOf, Action.answerTo] using h.tasks i task₁ hi
    · rcases Nat.lt_succ_iff_lt_or_eq.mp hi with hi | rfl
      · exact h.collected.2 i hi task₁ hi₁
      · rw [← Option.some.inj (hget.symm.trans hi₁)]
        exact hpc
    · show s.summary.add task = summarize (s.tasks.take (s.collected + 1))
      rw [List.take_add_one, hget, summarize, List.foldl_append, ← summarize, ← h.summary]
      rfl

/-- The invariant holds in every run. -/
theorem inv_of_run (hrun : lts.Exec (.new concurrency convs) τ s) : Inv concurrency convs τ s :=
  hrun.invariant (inv_new concurrency convs) fun _ _ _ _ _ h _ hstep => h.step hstep

/-! ## What is reported -/

/-- The errors among some answers. -/
def errors (answers : List (Except Status MockResponse)) : ℕ := answers.countP fun a => !a.isOk

/-- A number over the responses to all conversations. -/
def reported (w : MockResponse → ℕ) (τ : Trace) (n : ℕ) : ℕ :=
  ∑ i ∈ Finset.range n, ((responses (answersTo τ i)).map w).sum

/-- A number over the responses, with one more answer. -/
theorem reported_answer (w : MockResponse → ℕ) (τ : Trace) {i n : ℕ} (hi : i < n)
    (result : Except Status MockResponse) (e : Option (ℕ × ModelInferRequest)) :
    reported w (τ ++ [(.answer i result, e)]) n = reported w τ n + result.toOption.elim 0 w := by
  have hterm : ∀ j, ((responses (answersTo (τ ++ [(.answer i result, e)]) j)).map w).sum =
      ((responses (answersTo τ j)).map w).sum + if i = j then result.toOption.elim 0 w else 0 := fun j => by
    rw [answersTo_append, Action.answerTo]
    split_ifs
    · cases result with
      | error status => rw [Option.toList_some, responses_append_error]; rfl
      | ok resp => rw [Option.toList_some, responses_append_ok, List.map_append, List.sum_append]; rfl
    · rw [Option.toList_none, List.append_nil, Nat.add_zero]
  rw [reported, Finset.sum_congr rfl fun j _ => hterm j, Finset.sum_add_distrib, Finset.sum_ite_eq,
    if_pos (Finset.mem_range.mpr hi), reported]

/-- A number over the responses, with one more step that is no answer. -/
theorem reported_of_answerTo (w : MockResponse → ℕ) (τ : Trace) (n : ℕ) {a : Action}
    (h : ∀ i, a.answerTo i = none) (e : Option (ℕ × ModelInferRequest)) :
    reported w (τ ++ [(a, e)]) n = reported w τ n :=
  Finset.sum_congr rfl fun i _ => by rw [answersTo_append, h, Option.toList_none, List.append_nil]

/-- The summary of some tasks. -/
theorem summarize_eq (tasks : List ConvTask) : summarize tasks =
    ⟨tasks.flatMap ConvTask.results, tasks.countP ConvTask.failed, tasks.countP ConvTask.failed⟩ := by
  induction tasks using List.reverseRecOn with
  | nil => rfl
  | append_singleton tasks task ih =>
    rw [summarize, List.foldl_append, ← summarize, ih, List.foldl_cons, List.foldl_nil, Summary.add,
      List.flatMap_append, List.countP_append]
    cases hfailed : task.failed <;> simp [hfailed]

/-- Answers without an error. -/
theorem errors_eq_zero {answers : List (Except Status MockResponse)} (h : AllOk answers) :
    errors answers = 0 := by
  rw [errors, List.countP_eq_zero]
  intro a ha
  simp [h a ha]

/-- A finished task has failed if there is an error among its answers. -/
theorem TaskOk.failed_eq {task : ConvTask} {sent : List ModelInferRequest}
    {answers : List (Except Status MockResponse)} (h : TaskOk task sent answers)
    (hpc : task.pc = .finished) : task.failed.toNat = errors answers := by
  have hok := h.pc
  rw [hpc] at hok
  obtain ⟨hfailed, hcompleted⟩ | ⟨hfailed, k, status, habandoned⟩ := hok
  · rw [hfailed, errors_eq_zero hcompleted.ok]
    rfl
  · obtain ⟨oks, hanswers, -, hall⟩ := habandoned.answers
    have herrors := errors_eq_zero hall
    rw [hfailed, hanswers, errors, List.countP_append, ← errors, herrors]
    rfl

/-- What was sent and answered so far, wherever the task is.

**Proof sketch.** By cases on the place of the task, which tells how many turns were sent and answered. -/
theorem TaskOk.progress {task : ConvTask} {sent : List ModelInferRequest}
    {answers : List (Except Status MockResponse)} (h : TaskOk task sent answers) :
    sent <+: task.conv.turns.map inferRequest ∧ answers.length ≤ sent.length ∧
      sent.length ≤ answers.length + 1 ∧ AllOk answers.dropLast ∧
      (¬ AllOk answers → sent.length = answers.length) := by
  have hok := h.pc
  have hsentTurns : ∀ k, (task.conv.turns.take k).map inferRequest <+: task.conv.turns.map inferRequest :=
    fun k => (List.take_prefix k _).map _
  have hdrop : AllOk answers → AllOk answers.dropLast := fun hall a ha =>
    hall a (List.dropLast_subset _ ha)
  cases hpc : task.pc with
  | acquiring =>
    rw [hpc] at hok
    obtain ⟨rfl, rfl, -⟩ := hok
    exact ⟨List.nil_prefix, le_rfl, Nat.zero_le _, fun a ha => by simp at ha, fun _ => rfl⟩
  | turn k =>
    rw [hpc] at hok
    obtain ⟨hle, rfl, hlength, hall, -⟩ := hok
    refine ⟨hsentTurns k, ?_, ?_, hdrop hall, fun hnot => absurd hall hnot⟩ <;>
      simp only [List.length_map, List.length_take] <;> omega
  | awaiting k =>
    rw [hpc] at hok
    obtain ⟨hlt, rfl, hlength, hall, -⟩ := hok
    refine ⟨hsentTurns (k + 1), ?_, ?_, hdrop hall, fun hnot => absurd hall hnot⟩ <;>
      simp only [List.length_map, List.length_take] <;> omega
  | finished =>
    rw [hpc] at hok
    obtain ⟨-, rfl, hlength, hall⟩ | ⟨-, k, status, hlt, rfl, oks, rfl, hlength, hall⟩ := hok
    · refine ⟨List.prefix_rfl, ?_, ?_, hdrop hall, fun hnot => absurd hall hnot⟩ <;>
        simp only [List.length_map] <;> omega
    · refine ⟨hsentTurns (k + 1), ?_, ?_, by simpa using hall, fun _ => ?_⟩ <;>
        simp only [List.length_map, List.length_take, List.length_append, List.length_singleton] <;>
        omega

/-- The tasks, read off the trace. -/
theorem Inv.map_tasks (h : Inv concurrency convs τ s) {β : Type*} (f : ConvTask → β) (g : ℕ → β)
    (hfg : ∀ i task, s.tasks[i]? = some task → f task = g i) :
    s.tasks.map f = (List.range convs.length).map g := by
  have hlength : s.tasks.length = convs.length := by rw [← h.convs, List.length_map]
  refine List.ext_getElem (by simp [hlength]) fun i hi hi' => ?_
  rw [List.length_map] at hi
  simpa using hfg i s.tasks[i] (List.getElem?_eq_getElem hi)

/-- Numbers that are added within 64 bits. -/
theorem sum_ofNat {α : Type*} (w : α → ℕ) (l : List α) :
    (l.map fun x => Int64.ofNat (w x)).sum = Int64.ofNat (l.map w).sum := by
  induction l with
  | nil => rfl
  | cons x l ih => rw [List.map_cons, List.sum_cons, ih, List.map_cons, List.sum_cons, Int64.ofNat_add]

/-- A sum over the responses to all conversations. -/
theorem sum_flatMap_responses (w : MockResponse → ℕ) (τ : Trace) (n : ℕ) :
    (((List.range n).flatMap fun i => responses (answersTo τ i)).map w).sum = reported w τ n := by
  induction n with
  | zero => rfl
  | succ n ih =>
    rw [List.range_succ, List.flatMap_append, List.map_append, List.sum_append, ih, List.flatMap_singleton,
      reported, reported, Finset.sum_range_succ]

/-- The results that are summed up, when `main` has waited for all tasks. -/
theorem Inv.all_eq (h : Inv concurrency convs τ s) (hall : s.collected = convs.length) :
    s.summary.all = (List.range convs.length).flatMap fun i => (responses (answersTo τ i)).map .of := by
  have hlength : s.tasks.length = convs.length := by rw [← h.convs, List.length_map]
  rw [h.summary, hall, ← hlength, List.take_length, summarize_eq, List.flatMap_def, hlength,
    List.flatMap_def]
  exact congrArg List.flatten (h.map_tasks _ _ fun i task hget => (h.tasks i task hget).results)

/-- What is printed, when `main` has waited for all tasks. -/
theorem Inv.printed (h : Inv concurrency convs τ s) (hall : s.collected = convs.length) :
    s.summary.cached = Int64.ofNat (reported MockResponse.cachedBlocks τ convs.length) ∧
      s.summary.total = Int64.ofNat (reported MockResponse.totalBlocks τ convs.length) := by
  have hsum : ∀ (f : RequestResult → Int64) (w : MockResponse → ℕ),
      (∀ resp, f (.of resp) = Int64.ofNat (w resp)) →
      (s.summary.all.map f).sum = Int64.ofNat (reported w τ convs.length) := fun f w hf => by
    rw [h.all_eq hall, ← sum_flatMap_responses, ← sum_ofNat, ← List.map_flatMap, List.map_map]
    exact congrArg List.sum (List.map_congr_left fun resp _ => hf resp)
  exact ⟨hsum _ _ fun resp => by rw [RequestResult.of_eq], hsum _ _ fun resp => by rw [RequestResult.of_eq]⟩

/-- **What a replay sends, and what it reports.** In every run of the load generator, whatever it is
answered, in whatever order,
* there are never more conversations under way than permits;
* the requests of a conversation are its prompts, in order, and each is sent when the one before was
  answered; after an error none is sent;
* when `main` has waited for all tasks, each conversation was replayed to its end, or abandoned at its one
  error; the results are those of the responses, conversation by conversation; the errors and the abandoned
  conversations are as many as the errors received; and the sums are those of the responses, within 64 bits.

**Proof sketch.** The invariant `Inv`: each task is where its requests and answers bring it. -/
theorem replayed_of_run (hrun : lts.Exec (.new concurrency convs) τ s) :
    s.holders ≤ concurrency ∧
      (∀ i conv, convs[i]? = some conv →
        sentBy τ i <+: conv.turns.map inferRequest ∧
        (answersTo τ i).length ≤ (sentBy τ i).length ∧
        (sentBy τ i).length ≤ (answersTo τ i).length + 1 ∧ AllOk (answersTo τ i).dropLast ∧
        (¬ AllOk (answersTo τ i) → (sentBy τ i).length = (answersTo τ i).length)) ∧
      (s.collected = convs.length →
        (∀ i conv, convs[i]? = some conv → Completed conv.turns (sentBy τ i) (answersTo τ i) ∨
          ∃ k status, Abandoned conv.turns (sentBy τ i) (answersTo τ i) k status) ∧
        s.summary.all =
          (List.range convs.length).flatMap (fun i => (responses (answersTo τ i)).map .of) ∧
        s.summary.failedRequests = ((List.range convs.length).map fun i => errors (answersTo τ i)).sum ∧
        s.summary.abandonedConversations = s.summary.failedRequests ∧
        s.summary.cached = Int64.ofNat (reported MockResponse.cachedBlocks τ convs.length) ∧
        s.summary.total = Int64.ofNat (reported MockResponse.totalBlocks τ convs.length)) := by
  have h := inv_of_run hrun
  have hlength : s.tasks.length = convs.length := by rw [← h.convs, List.length_map]
  have htask : ∀ (i : ℕ) (conv : Conversation), convs[i]? = some conv →
      ∃ task : ConvTask, s.tasks[i]? = some task ∧ task.conv = conv := fun i conv hget => by
    rw [← h.convs, List.getElem?_map] at hget
    exact Option.map_eq_some_iff.mp hget
  refine ⟨?_, fun i conv hconv => ?_, fun hall => ?_⟩
  · have := h.permits
    omega
  · obtain ⟨task, hget, rfl⟩ := htask i conv hconv
    exact (h.tasks i task hget).progress
  have hfinished : ∀ (i : ℕ) (task : ConvTask), s.tasks[i]? = some task → task.pc = .finished :=
    fun i task hget =>
    h.collected.2 i (by rw [hall, ← hlength]; exact (List.getElem?_eq_some_iff.mp hget).1) task hget
  have hsummary := h.summary
  rw [hall, ← hlength, List.take_length, summarize_eq] at hsummary
  refine ⟨fun i conv hconv => ?_, h.all_eq hall, ?_, ?_, h.printed hall⟩
  · obtain ⟨task, hget, rfl⟩ := htask i conv hconv
    have hok := (h.tasks i task hget).pc
    rw [hfinished i task hget] at hok
    exact hok.imp And.right And.right
  · rw [hsummary, ← h.map_tasks (fun task => task.failed.toNat) _ fun i task hget =>
      (h.tasks i task hget).failed_eq (hfinished i task hget)]
    exact countP_eq_sum _ _
  · rw [hsummary]

/-! ## Waiting for answers -/

/-- Task `i` waits for an answer. -/
def Awaits (s : Replay) (i : ℕ) : Prop := ∃ task k, s.tasks[i]? = some task ∧ task.pc = .awaiting k

/-- A task goes on waiting while another one moves. -/
theorem Awaits.setTask {i j permits : ℕ} {task : ConvTask} (h : s.Awaits i) (hij : j ≠ i) :
    (s.setTask j permits task).Awaits i := by
  obtain ⟨task', k, hget, hpc⟩ := h
  exact ⟨task', k, by rw [← hget]; exact List.getElem?_set_ne hij, hpc⟩

/-- A task that does something else does not wait. -/
theorem Awaits.ne {i j : ℕ} {task : ConvTask} (h : s.Awaits i) (hget : s.tasks[j]? = some task)
    (hpc : ∀ k, task.pc ≠ .awaiting k) : j ≠ i := by
  rintro rfl
  obtain ⟨task', k, hget', hpc'⟩ := h
  obtain rfl : task = task' := Option.some_inj.mp (hget.symm.trans hget')
  exact hpc k hpc'

/-- A task waits until it is answered. -/
theorem Awaits.step {i : ℕ} {s' : Replay} {a : Action} {e : Option (ℕ × ModelInferRequest)}
    (h : s.Awaits i) (hstep : lts.step s a e s') (hanswer : a.answerTo i = none) : s'.Awaits i := by
  cases step_inv hstep with
  | acquired j task hget hpc => exact h.setTask (h.ne hget fun k => by simp [hpc])
  | sent j k task text hget hpc => exact h.setTask (h.ne hget fun k => by simp [hpc])
  | ended j k task hget hpc => exact h.setTask (h.ne hget fun k => by simp [hpc])
  | answered j k task resp hget hpc =>
    exact h.setTask fun hij => by simp [Action.answerTo, hij] at hanswer
  | abandoned j k task status hget hpc =>
    exact h.setTask fun hij => by simp [Action.answerTo, hij] at hanswer
  | collected task hget hpc => exact h

/-- A task that waits after a step has waited before, or was the one that sent.

**Proof sketch.** By the effects of a step: one that moves a task puts it at a place at which it does not
wait, unless it is the one that sends; the other tasks are as before. -/
theorem awaits_inv {i : ℕ} {s' : Replay} {a : Action} {e : Option (ℕ × ModelInferRequest)}
    (hstep : lts.step s a e s') (h : s'.Awaits i) :
    s.Awaits i ∧ a.answerTo i = none ∨ ∃ req, e = some (i, req) := by
  have hset : ∀ {j permits : ℕ} {task task' : ConvTask}, s.tasks[j]? = some task →
      (s.setTask j permits task').Awaits i → (∀ k, task'.pc ≠ .awaiting k) → j ≠ i ∧ s.Awaits i :=
    fun {j permits task task'} hget h hpc => by
      have hji : j ≠ i :=
        h.ne (List.getElem?_set_self (List.getElem?_eq_some_iff.mp hget).1) hpc
      obtain ⟨task₁, k, hget₁, hpc₁⟩ := h
      exact ⟨hji, task₁, k, (List.getElem?_set_ne hji).symm.trans hget₁, hpc₁⟩
  cases step_inv hstep with
  | acquired j task hget => exact .inl ⟨(hset hget h (by simp)).2, rfl⟩
  | sent j k task text hget =>
    by_cases hji : j = i
    · subst hji
      exact .inr ⟨_, rfl⟩
    · obtain ⟨task₁, k₁, hget₁, hpc₁⟩ := h
      exact .inl ⟨⟨task₁, k₁, (List.getElem?_set_ne hji).symm.trans hget₁, hpc₁⟩, rfl⟩
  | ended j k task hget => exact .inl ⟨(hset hget h (by simp)).2, rfl⟩
  | answered j k task resp hget =>
    obtain ⟨hji, hawaits⟩ := hset hget h (by simp)
    exact .inl ⟨hawaits, if_neg hji⟩
  | abandoned j k task status hget =>
    obtain ⟨hji, hawaits⟩ := hset hget h (by simp)
    exact .inl ⟨hawaits, if_neg hji⟩
  | collected => exact .inl ⟨h, rfl⟩

/-- A task that waits can be answered. -/
theorem Awaits.isSome_step {i : ℕ} (h : s.Awaits i) (result : Except Status MockResponse) :
    (s.step (.answer i result)).isSome := by
  obtain ⟨task, k, hget, hpc⟩ := h
  simp only [Replay.step, hget, hpc]
  cases result <;> rfl

/-- An answer is one that a task waits for. -/
theorem awaits_of_answer {i : ℕ} {result : Except Status MockResponse}
    (h : (s.step (.answer i result)).isSome) : s.Awaits i := by
  obtain ⟨⟨e, s'⟩, hstep⟩ := Option.isSome_iff_exists.mp h
  cases step_inv hstep with
  | answered _ k task _ hget hpc | abandoned _ k task _ hget hpc => exact ⟨task, k, hget, hpc⟩

/-- An answer is one to a conversation of the trace. -/
theorem lt_of_answer {i : ℕ} {s' : Replay} {result : Except Status MockResponse}
    {e : Option (ℕ × ModelInferRequest)} (h : Inv concurrency convs τ s)
    (hstep : lts.step s (.answer i result) e s') : i < convs.length := by
  rw [← h.convs, List.length_map]
  cases step_inv hstep with
  | answered _ _ _ _ hget | abandoned _ _ _ _ hget => exact (List.getElem?_eq_some_iff.mp hget).1

/-- What is sent is the prompt of a turn. -/
theorem exists_turn_of_sent {i : ℕ} {s' : Replay} {a : Action} {req : ModelInferRequest}
    (h : Inv concurrency convs τ s) (hstep : lts.step s a (some (i, req)) s') :
    ∃ conv ∈ convs, ∃ text ∈ conv.turns, req = inferRequest text := by
  cases step_inv hstep with
  | sent _ k task text hget _ htext =>
    rw [← h.convs]
    exact ⟨_, List.mem_map_of_mem (List.mem_of_getElem? hget), text, List.mem_of_getElem? htext, rfl⟩

/-- A task that sends a request waits for its answer from then on. -/
theorem awaits_of_sent {i : ℕ} {s' : Replay} {a : Action} {req : ModelInferRequest}
    (hstep : lts.step s a (some (i, req)) s') : ¬ s.Awaits i ∧ s'.Awaits i := by
  cases step_inv hstep with
  | sent _ k task text hget hpc =>
    refine ⟨fun h => h.ne hget (fun k => by simp [hpc]) rfl, { task with pc := .awaiting k }, k, ?_, rfl⟩
    exact List.getElem?_set_self (List.getElem?_eq_some_iff.mp hget).1

/-- When `main` has waited for all tasks, none waits for an answer. -/
theorem Inv.not_awaits (h : Inv concurrency convs τ s) (hall : s.collected = convs.length) (i : ℕ) :
    ¬ s.Awaits i := by
  rintro ⟨task, k, hget, hpc⟩
  have hlength : s.tasks.length = convs.length := by rw [← h.convs, List.length_map]
  have hi := (List.getElem?_eq_some_iff.mp hget).1
  have hfinished := h.collected.2 i (by omega) task hget
  rw [hpc] at hfinished
  cases hfinished

/-- **There are no more answers to wait for than permits.** -/
theorem Inv.card_awaits_le (h : Inv concurrency convs τ s) (S : Finset ℕ) (hS : ∀ i ∈ S, s.Awaits i) :
    S.card ≤ concurrency := by
  have hterm : ∀ i ∈ S, 1 ≤ ((s.tasks[i]?).map fun task => task.holds.toNat).getD 0 := fun i hi => by
    obtain ⟨task, k, hget, hpc⟩ := hS i hi
    simp [hget, ConvTask.holds, hpc]
  have hsub : S ⊆ Finset.range s.tasks.length := fun i hi => by
    obtain ⟨task, k, hget, hpc⟩ := hS i hi
    exact Finset.mem_range.mpr (List.getElem?_eq_some_iff.mp hget).1
  calc S.card ≤ ∑ i ∈ S, ((s.tasks[i]?).map fun task => task.holds.toNat).getD 0 := by
        rw [Finset.card_eq_sum_ones]
        exact Finset.sum_le_sum hterm
    _ ≤ ∑ i ∈ Finset.range s.tasks.length, ((s.tasks[i]?).map fun task => task.holds.toNat).getD 0 :=
        Finset.sum_le_sum_of_subset hsub
    _ = s.holders := sum_range_getElem? _ _
    _ ≤ concurrency := by
        have := h.permits
        omega

/-- Two conversations, and one permit. -/
def twoConvs : List Conversation := [⟨"a", ["x", "xy"]⟩, ⟨"b", ["z"]⟩]

/-- The second conversation goes first, and the first one is abandoned at its second turn. -/
def abandoning : List Action :=
  [.acquire 1, .next 1, .answer 1 (.ok ⟨2, 5, ""⟩), .next 1, .acquire 0, .next 0,
    .answer 0 (.ok ⟨1, 4, ""⟩), .next 0, .answer 0 (.error (.unavailable "reset")), .collect, .collect]

/-- The report of a replay in which a conversation is abandoned. -/
theorem replayed_of_run_abandoning : ∃ τ s,
    lts.Exec (.new 1 twoConvs) τ s ∧ s.collected = 2 ∧ s.holders ≤ 1 ∧
      s.summary.all = [⟨1, 4⟩, ⟨2, 5⟩] ∧ s.summary.abandonedConversations = s.summary.failedRequests ∧
      s.summary.failedRequests = 1 ∧
      s.summary.cached = Int64.ofNat (reported MockResponse.cachedBlocks τ 2) := by
  have hrun := Lts.exec_get step (.new 1 twoConvs) abandoning (by decide +kernel)
  obtain ⟨hholders, -, hreport⟩ := replayed_of_run hrun
  obtain ⟨-, -, -, hfailed, hcached, -⟩ := hreport (by decide +kernel)
  exact ⟨_, _, hrun, by decide +kernel, hholders, by decide +kernel, hfailed, by decide +kernel, hcached⟩

/-! ## Whether a replay finishes -/

/-- The steps that are left at most. -/
def stepsLeft (s : Replay) : ℕ := (s.tasks.map ConvTask.stepsLeft).sum + (s.tasks.length - s.collected)

/-- A move of one task, which brings it nearer to its end. -/
theorem stepsLeft_setTask {i permits : ℕ} {task task' : ConvTask} (hget : s.tasks[i]? = some task)
    (hlt : task'.stepsLeft < task.stepsLeft) : (s.setTask i permits task').stepsLeft < s.stepsLeft := by
  have hsum := sum_map_set ConvTask.stepsLeft task' hget
  show ((s.tasks.set i task').map ConvTask.stepsLeft).sum + ((s.tasks.set i task').length - s.collected) < _
  rw [List.length_set, stepsLeft]
  omega

/-- **Every step brings the replay nearer to its end.**

**Proof sketch.** By the effects of a step. The task that moves has less to do than before; that an answer
comes while there are turns left is part of the invariant. -/
theorem Inv.stepsLeft_lt (h : Inv concurrency convs τ s) {s' : Replay} {a : Action}
    {e : Option (ℕ × ModelInferRequest)} (hstep : lts.step s a e s') : s'.stepsLeft < s.stepsLeft := by
  cases step_inv hstep with
  | acquired i task hget hpc =>
    exact stepsLeft_setTask hget (by simp [ConvTask.stepsLeft, hpc])
  | sent i k task text hget hpc =>
    exact stepsLeft_setTask hget (by simp [ConvTask.stepsLeft, hpc])
  | ended i k task hget hpc =>
    exact stepsLeft_setTask hget (by simp [ConvTask.stepsLeft, hpc])
  | answered i k task resp hget hpc =>
    have hok := (h.tasks i task hget).pc
    rw [hpc] at hok
    have hlt : k < task.conv.turns.length := hok.1
    refine stepsLeft_setTask hget ?_
    simp only [ConvTask.stepsLeft, hpc]
    omega
  | abandoned i k task status hget hpc =>
    have hok := (h.tasks i task hget).pc
    rw [hpc] at hok
    have hlt : k < task.conv.turns.length := hok.1
    refine stepsLeft_setTask hget ?_
    simp only [ConvTask.stepsLeft, hpc]
    omega
  | collected task hget hpc =>
    have hlt := (List.getElem?_eq_some_iff.mp hget).1
    show (s.tasks.map ConvTask.stepsLeft).sum + (s.tasks.length - (s.collected + 1)) < _
    rw [stepsLeft]
    omega

/-- A run is no longer than the steps that are left at its start. -/
theorem length_add_stepsLeft_le (hrun : lts.Exec (.new concurrency convs) τ s) :
    τ.length + s.stepsLeft ≤ (new concurrency convs).stepsLeft := by
  induction hrun with
  | nil => simp
  | @snoc τ s s' a e hrun _ hstep ih =>
    have hlt := (inv_of_run hrun).stepsLeft_lt hstep
    rw [List.length_append, List.length_singleton]
    omega

/-- The steps of a whole replay. -/
theorem stepsLeft_new (concurrency : ℕ) (convs : List Conversation) :
    (new concurrency convs).stepsLeft = (convs.map fun conv => 2 * conv.turns.length + 3).sum := by
  have hsum : ∀ l : List Conversation, ((l.map ConvTask.spawn).map ConvTask.stepsLeft).sum + l.length =
      (l.map fun conv => 2 * conv.turns.length + 3).sum := fun l => by
    induction l with
    | nil => rfl
    | cons conv l ih =>
      simp only [List.map_cons, List.sum_cons, List.length_cons, ← ih, ConvTask.stepsLeft, ConvTask.spawn]
      omega
  rw [stepsLeft, ← hsum convs]
  simp [new]

/-- **A replay that cannot go on has finished**, if there is a permit at all: a task that waits for a
permit, for its turn or for an answer can go on, or another one holds its permit.

**Proof sketch.** A task that holds a permit is at a turn or awaits an answer, and can go on. So no task
holds one, and all permits are free; then the task that `main` waits for can get one, or is finished and
can be collected. -/
theorem Inv.collected_eq (h : Inv concurrency convs τ s) (hpos : 0 < concurrency)
    (hstuck : ∀ a, s.step a = none) : s.collected = convs.length := by
  have hlength : s.tasks.length = convs.length := by rw [← h.convs, List.length_map]
  by_contra hne
  have hlt : s.collected < s.tasks.length := lt_of_le_of_ne h.collected.1 (by omega)
  -- no task holds a permit
  have hidle : ∀ task ∈ s.tasks, task.holds = false := fun task hmem => by
    obtain ⟨i, hget⟩ := List.mem_iff_getElem?.mp hmem
    cases hpc : task.pc with
    | acquiring => simp [ConvTask.holds, hpc]
    | finished => simp [ConvTask.holds, hpc]
    | turn k =>
      have := hstuck (.next i)
      simp only [Replay.step, hget, hpc] at this
      split at this <;> cases this
    | awaiting k =>
      have := hstuck (.answer i (.error (.unavailable "")))
      simp [Replay.step, hget, hpc] at this
  have hholders : s.holders = 0 := List.sum_eq_zero fun x hx => by
    obtain ⟨task, hmem, rfl⟩ := List.mem_map.mp hx
    rw [hidle task hmem]
    rfl
  have hpermits := h.permits
  have hget := List.getElem?_eq_getElem hlt
  have hmem := List.getElem_mem hlt
  cases hpc : s.tasks[s.collected].pc with
  | acquiring =>
    have := hstuck (.acquire s.collected)
    simp only [Replay.step, hget, hpc, true_and] at this
    rw [if_pos (by omega)] at this
    cases this
  | finished =>
    have := hstuck .collect
    simp [Replay.step, hget, hpc] at this
  | turn k => simpa [ConvTask.holds, hpc] using hidle _ hmem
  | awaiting k => simpa [ConvTask.holds, hpc] using hidle _ hmem

/-- **A replay finishes**: it takes at most `2 * turns + 3` steps for each conversation, and if all requests
are answered it gets to its end, unless the semaphore has no permit and there is a conversation, when it
hangs at once.

**Proof sketch.** Every step brings a task, or `main`, nearer to its end (`Inv.stepsLeft_lt`); and
`Inv.collected_eq`. Without a permit the first state is stuck. -/
theorem finishes_iff (concurrency : ℕ) (convs : List Conversation) :
    (∀ τ s, lts.Exec (.new concurrency convs) τ s →
      τ.length ≤ (convs.map fun conv => 2 * conv.turns.length + 3).sum) ∧
    ((∀ τ s, lts.Exec (.new concurrency convs) τ s → (∀ a, s.step a = none) →
      s.collected = convs.length) ↔ 0 < concurrency ∨ convs = []) := by
  refine ⟨fun τ s hrun => ?_, fun hall => ?_, ?_⟩
  · rw [← stepsLeft_new concurrency]
    exact (Nat.le_add_right _ _).trans (length_add_stepsLeft_le hrun)
  · by_contra hnot
    obtain ⟨hzero, hne⟩ := not_or.mp hnot
    obtain rfl : concurrency = 0 := by omega
    have hpc : ∀ (i : ℕ) (task : ConvTask), (new 0 convs).tasks[i]? = some task →
        task.pc = .acquiring := fun i task hget => by
      obtain ⟨conv, -, rfl⟩ := List.mem_map.mp (List.mem_of_getElem? hget)
      rfl
    have hstuck : ∀ a, (new 0 convs).step a = none := fun a => by
      cases a with
      | acquire i =>
        simp only [step]
        split
        · rfl
        · exact if_neg fun h => absurd h.2 (Nat.lt_irrefl 0)
      | next i =>
        simp only [step]
        split
        · rfl
        · rename_i task hget
          rw [hpc i task hget]
      | answer i result =>
        simp only [step]
        split
        · rfl
        · rename_i task hget
          rw [hpc i task hget]
      | collect =>
        simp only [step]
        split
        · rfl
        · rename_i task hget
          rw [hpc _ task hget]
          rfl
    have hend : 0 = convs.length := hall [] _ .nil hstuck
    exact hne (List.eq_nil_of_length_eq_zero hend.symm)
  · rintro (hpos | rfl) τ s hrun hstuck
    · exact (inv_of_run hrun).collected_eq hpos hstuck
    · have hle := (inv_of_run hrun).collected.1
      have hlength := congrArg List.length (inv_of_run hrun).convs
      rw [List.length_map] at hlength
      exact Nat.le_zero.mp (hle.trans hlength.le)

end Replay
