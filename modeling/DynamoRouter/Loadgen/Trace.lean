import Mathlib.Data.List.Forall2
import DynamoRouter.Lib.ListLoops

set_option relaxedAutoImplicit false
set_option autoImplicit false

/-!
# The trace of the load generator (`crates/loadgen/src/trace.rs`)

`load_sharegpt` reads a list of conversations and makes the prompts of a replay of them: the `k`-th
prompt of a conversation is its whole history up to the `k`-th message of the human.

Reading the file and parsing it belong to libraries; their result is the argument `parsed`.

## Main definitions

* `Loadgen.loadSharegpt` — the function, and `buildTurns`, its inner loop.
* `Loadgen.render` — a history as text.
* `Loadgen.Replays`, `Loadgen.Selects` — what a conversation and a whole trace should become.

## Main results

* `Loadgen.replays_conversation` — the prompts of one conversation.
* `Loadgen.selects_of_pos` — which conversations are chosen, with a cap of at least one.
* `Loadgen.loadSharegpt_selects_iff` — when the trace is what it should be.
-/

namespace Loadgen

/-- `RawTurn`: one message. -/
structure RawTurn where
  /-- Who wrote it. -/
  «from» : String
  /-- The message. -/
  value : String
  deriving DecidableEq, Repr

/-- `RawConversation`. -/
structure RawConversation where
  /-- The name of the conversation; empty if the trace has none. -/
  id : String
  /-- The messages. -/
  conversations : List RawTurn
  deriving DecidableEq, Repr

/-- `Conversation`: the prompts that replay a conversation. -/
structure Conversation where
  /-- The name of the conversation. -/
  id : String
  /-- `turns[k]` is the full prompt of the `k`-th request. -/
  turns : List String
  deriving DecidableEq, Repr

/-- One message in the inner loop, on `(turns, history)`. -/
def pushTurn (acc : List String × String) (t : RawTurn) : List String × String :=
  if t.from == "human" then
    let history := acc.2 ++ "USER: " ++ t.value ++ "\n"
    (acc.1 ++ [history], history)
  else (acc.1, acc.2 ++ "ASSISTANT: " ++ t.value ++ "\n")

/-- The inner loop: the `turns` of a conversation. -/
def buildTurns (messages : List RawTurn) : List String := (messages.foldl pushTurn ([], "")).1

/-- The outer loop, from the conversations chosen so far. -/
def selectLoop (maxConversations : ℕ) (out : List Conversation) :
    List RawConversation → List Conversation
  | [] => out
  | rc :: raw =>
    let turns := buildTurns rc.conversations
    let out := if !turns.isEmpty then out ++ [{ id := rc.id, turns := turns }] else out
    if maxConversations ≤ out.length then out -- `break`
    else selectLoop maxConversations out raw

/-- `load_sharegpt`, on the result of opening and parsing the trace. -/
def loadSharegpt {E : Type} (parsed : Except E (List RawConversation)) (maxConversations : ℕ) :
    Except E (List Conversation) :=
  match parsed with
  | .error e => .error e
  | .ok raw => .ok (selectLoop maxConversations [] raw)

/-! ## What a replay should be -/

/-- Whether a message is from the human. -/
def RawTurn.isHuman (t : RawTurn) : Bool := t.from == "human"

/-- A message as a line of the history. -/
def RawTurn.line (t : RawTurn) : String :=
  (if t.isHuman then "USER: " else "ASSISTANT: ") ++ t.value ++ "\n"

/-- A history as text. -/
def render (messages : List RawTurn) : String := String.join (messages.map RawTurn.line)

/-- Whether a conversation has a message from the human. -/
def RawConversation.hasHuman (rc : RawConversation) : Bool := rc.conversations.any RawTurn.isHuman

/-- One text is an initial part of another one, and not all of it. -/
def ProperPrefix (x y : String) : Prop := ∃ z, z ≠ "" ∧ y = x ++ z

/-- The prompts of `c` replay `rc`. -/
structure Replays (rc : RawConversation) (c : Conversation) : Prop where
  /-- The name is kept. -/
  id : c.id = rc.id
  /-- One prompt for each message from the human. -/
  length : c.turns.length = rc.conversations.countP RawTurn.isHuman
  /-- Where the `i`-th message is the `k`-th one from the human, the `k`-th prompt is the history up to
  it. -/
  turn : ∀ i t, rc.conversations[i]? = some t → t.isHuman = true →
    c.turns[(rc.conversations.take i).countP RawTurn.isHuman]? =
      some (render (rc.conversations.take (i + 1)))
  /-- Each prompt goes on from the one before. -/
  grows : c.turns.IsChain ProperPrefix

/-- A trace is made of the first conversations with a message from the human, up to the cap. -/
structure Selects (raw : List RawConversation) (maxConversations : ℕ) (out : List Conversation) :
    Prop where
  /-- The conversations, in the order of the input. -/
  replays : List.Forall₂ Replays ((raw.filter RawConversation.hasHuman).take maxConversations) out
  /-- The cap is kept. -/
  length_le : out.length ≤ maxConversations

/-! ## The inner loop -/

/-- The history after one more message. -/
def addLine (history : String) (t : RawTurn) : String := history ++ t.line

/-- The inner loop adds a line for each message, and keeps the history after each message from the
human. -/
theorem pushTurn_eq (acc : List String × String) (t : RawTurn) :
    pushTurn acc t =
      (if t.isHuman then acc.1 ++ [addLine acc.2 t] else acc.1, addLine acc.2 t) := by
  have hfrom : (t.from == "human") = t.isHuman := rfl
  rw [pushTurn, hfrom, addLine, RawTurn.line]
  cases t.isHuman with
  | true => simp [String.append_assoc]
  | false => simp [String.append_assoc]

/-- **The prompts of a conversation** are the checkpoints of its history. -/
theorem buildTurns_eq (messages : List RawTurn) :
    buildTurns messages = ListLoops.checkpoints addLine RawTurn.isHuman "" messages := by
  have hfold : ∀ (messages : List RawTurn) (acc : List String × String),
      (messages.foldl pushTurn acc).1 =
        acc.1 ++ ListLoops.checkpoints addLine RawTurn.isHuman acc.2 messages := by
    intro messages
    induction messages with
    | nil =>
      intro acc
      exact (List.append_nil _).symm
    | cons t messages ih =>
      intro acc
      rw [List.foldl_cons, ih, pushTurn_eq, ListLoops.checkpoints]
      cases t.isHuman with
      | true => rw [if_pos rfl, if_pos rfl, List.append_assoc, List.singleton_append]
      | false => rw [if_neg Bool.false_ne_true, if_neg Bool.false_ne_true]
  exact hfold messages ([], "")

/-- The history of some messages is their text. -/
theorem foldl_addLine (history : String) (messages : List RawTurn) :
    messages.foldl addLine history = history ++ render messages := by
  induction messages generalizing history with
  | nil => exact String.append_empty.symm
  | cons t messages ih =>
    rw [List.foldl_cons, ih, addLine, render, render, List.map_cons, String.join_cons,
      String.append_assoc]

/-- A line is not empty. -/
theorem line_ne_empty (t : RawTurn) : t.line ≠ "" := by
  rw [RawTurn.line]
  split_ifs <;> simp

/-- A longer history begins with a shorter one. -/
theorem properPrefix_addLine (history : String) (t : RawTurn) :
    ProperPrefix history (addLine history t) := ⟨t.line, line_ne_empty t, rfl⟩

/-- What begins with a text that begins with a third one, begins with the third one. -/
theorem properPrefix_trans {x y z : String} (hxy : ProperPrefix x y) (hyz : ProperPrefix y z) :
    ProperPrefix x z := by
  obtain ⟨u, hu, rfl⟩ := hxy
  obtain ⟨v, hv, rfl⟩ := hyz
  refine ⟨u ++ v, ?_, String.append_assoc⟩
  simp [hu]

/-- A conversation without a message from the human has no prompts, and only such a one. -/
theorem isEmpty_buildTurns (rc : RawConversation) :
    (buildTurns rc.conversations).isEmpty = !rc.hasHuman := by
  rw [buildTurns_eq, ListLoops.isEmpty_checkpoints]
  rfl

/-- **The prompts of one conversation** replay it.

**Proof sketch.** `buildTurns_eq`, and what `ListLoops` says about the checkpoints of a fold. -/
theorem replays_conversation (rc : RawConversation) :
    Replays rc { id := rc.id, turns := buildTurns rc.conversations } where
  id := rfl
  length := by
    rw [buildTurns_eq]
    exact ListLoops.length_checkpoints _ _
  turn i t ht hhuman := by
    have htext : render (rc.conversations.take (i + 1)) =
        (rc.conversations.take (i + 1)).foldl addLine "" := by
      rw [foldl_addLine, String.empty_append]
    rw [buildTurns_eq, htext]
    exact ListLoops.getElem?_checkpoints ht hhuman
  grows := by
    rw [buildTurns_eq]
    have hpairwise := ListLoops.pairwise_checkpoints (p := RawTurn.isHuman) (s := "")
      (l := rc.conversations) (R := ProperPrefix) (fun _ _ _ => properPrefix_trans)
      properPrefix_addLine
    exact hpairwise.isChain

/-! ## The outer loop -/

/-- What the outer loop pushes for a conversation. -/
def replayOf (rc : RawConversation) : Option Conversation :=
  if rc.hasHuman then some { id := rc.id, turns := buildTurns rc.conversations } else none

/-- **The outer loop** collects the replays up to the cap. -/
theorem selectLoop_eq (maxConversations : ℕ) (out : List Conversation)
    (raw : List RawConversation) :
    selectLoop maxConversations out raw = ListLoops.collect replayOf maxConversations out raw := by
  induction raw generalizing out with
  | nil => rfl
  | cons rc raw ih =>
    have hpush : (if !(buildTurns rc.conversations).isEmpty then
        out ++ [{ id := rc.id, turns := buildTurns rc.conversations }] else out) =
        out ++ (replayOf rc).toList := by
      rw [isEmpty_buildTurns, Bool.not_not, replayOf]
      split_ifs <;> simp
    rw [selectLoop, ListLoops.collect, ← hpush, ih]

/-- The replays of a trace. -/
theorem filterMap_replayOf (raw : List RawConversation) :
    raw.filterMap replayOf = (raw.filter RawConversation.hasHuman).map fun rc =>
      { id := rc.id, turns := buildTurns rc.conversations } := by
  induction raw with
  | nil => rfl
  | cons rc raw ih =>
    cases hhuman : rc.hasHuman with
    | true => simp [replayOf, hhuman, ← ih]
    | false => simp [replayOf, hhuman, ← ih]

/-- **With a cap of at least one** the outer loop chooses what it should. -/
theorem selects_of_pos {maxConversations : ℕ} (h : 0 < maxConversations)
    (raw : List RawConversation) :
    Selects raw maxConversations (selectLoop maxConversations [] raw) := by
  rw [selectLoop_eq, ListLoops.collect_of_lt (by simpa using h), filterMap_replayOf,
    List.nil_append, List.length_nil, Nat.sub_zero, ← List.map_take]
  exact
    { replays := List.forall₂_map_right_iff.mpr
        (List.forall₂_same.mpr fun rc _ => replays_conversation rc)
      length_le := by
        rw [List.length_map]
        exact List.length_take_le _ _ }

/-- With the cap `0` nothing should be chosen. -/
theorem selects_zero_iff {raw : List RawConversation} {out : List Conversation} :
    Selects raw 0 out ↔ out = [] := by
  constructor
  · intro h
    exact List.eq_nil_of_length_eq_zero (Nat.le_zero.mp h.length_le)
  · rintro rfl
    refine ⟨?_, Nat.le_refl 0⟩
    rw [List.take_zero]
    exact List.Forall₂.nil

/-- **When the trace is what it should be.** `load_sharegpt` answers the first conversations with a
message from the human, up to the cap, and for each its prompts, exactly if the cap is not `0`, or the
first conversation of the trace has no message from the human, or there is none.

**Proof sketch.** The cap is tested after a conversation was pushed, so with the cap `0` the first
conversation is still taken (`ListLoops.collect_zero`). -/
theorem loadSharegpt_selects_iff {E : Type} (raw : List RawConversation) (maxConversations : ℕ) :
    (∃ out, loadSharegpt (.ok raw : Except E (List RawConversation)) maxConversations = .ok out ∧
      Selects raw maxConversations out) ↔
      0 < maxConversations ∨ ∀ rc ∈ raw.head?, rc.hasHuman = false := by
  show (∃ out, Except.ok (selectLoop maxConversations [] raw) = Except.ok out ∧
    Selects raw maxConversations out) ↔ _
  simp only [Except.ok.injEq, exists_eq_left']
  rcases Nat.eq_zero_or_pos maxConversations with rfl | hpos
  · rw [selects_zero_iff, selectLoop_eq, ListLoops.collect_zero, List.filterMap_eq_nil_iff]
    simp [replayOf]
  · exact iff_of_true (selects_of_pos hpos raw) (.inl hpos)

/-- A trace of one conversation. -/
def oneConversation : List RawConversation :=
  [{ id := "conv1", conversations := [{ «from» := "human", value := "What is Rust?" }] }]

/-- **The cap `0` is not kept.** One conversation is chosen from a trace that begins with a message
from the human. -/
theorem exists_not_selects : ∃ out,
    loadSharegpt (.ok oneConversation : Except String (List RawConversation)) 0 = .ok out ∧
      out.length = 1 ∧ ¬ Selects oneConversation 0 out :=
  ⟨_, rfl, rfl, fun h => absurd h.length_le (by decide)⟩

end Loadgen
