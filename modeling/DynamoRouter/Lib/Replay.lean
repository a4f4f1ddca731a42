import Mathlib.Data.List.Infix

set_option relaxedAutoImplicit false
set_option autoImplicit false

/-!
# One operation after another

Operations of several owners, served by a sequential object: its state after them, the operations of one
owner, and what this owner is answered.

## Main definitions

* `Replay.state`, `Replay.of`, `Replay.answers` — the state, the operations of an owner, its answers.

## Main results

* `Replay.answers_append` — the answers to later operations are given in the state after the earlier ones.
* `Replay.simulation` — two objects that simulate each other give the same answers.
-/

namespace Replay

variable {σ ι ω β : Type*} [DecidableEq ι]

/-- The state after the operations. -/
def state (step : σ → ω → σ) (s : σ) (ops : List (ι × ω)) : σ := ops.foldl (fun s x => step s x.2) s

/-- The operations of owner `t`. -/
def of (t : ι) (ops : List (ι × ω)) : List ω :=
  ops.filterMap fun x => if x.1 = t then some x.2 else none

/-- What owner `t` is answered. -/
def answers (step : σ → ω → σ) (answer : σ → ω → List β) (t : ι) : σ → List (ι × ω) → List β
  | _, [] => []
  | s, x :: ops => (if x.1 = t then answer s x.2 else []) ++ answers step answer t (step s x.2) ops

variable (step : σ → ω → σ) (answer : σ → ω → List β) (s : σ) (t : ι)

omit [DecidableEq ι] in
/-- The state after more operations. -/
theorem state_append (ops ops' : List (ι × ω)) :
    state step s (ops ++ ops') = state step (state step s ops) ops' := List.foldl_append

/-- The operations of an owner among more operations. -/
theorem of_append (ops ops' : List (ι × ω)) : of t (ops ++ ops') = of t ops ++ of t ops' :=
  List.filterMap_append

/-- **The answers to later operations** are given in the state after the earlier ones. -/
theorem answers_append (ops ops' : List (ι × ω)) : answers step answer t s (ops ++ ops') =
    answers step answer t s ops ++ answers step answer t (state step s ops) ops' := by
  induction ops generalizing s with
  | nil => rfl
  | cons x ops ih => rw [List.cons_append, answers, answers, ih, List.append_assoc]; rfl

omit [DecidableEq ι] in
/-- The state after at most one operation. -/
theorem state_toList (op : Option ω) :
    state step s (op.map fun op => (t, op)).toList = op.elim s (step s) := by
  cases op <;> rfl

/-- At most one operation, of owner `t'`. -/
theorem of_toList (t' : ι) (op : Option ω) :
    of t (op.map fun op => (t', op)).toList = if t' = t then op.toList else [] := by
  cases op <;> by_cases h : t' = t <;> simp [of, h]

/-- The answers to at most one operation, of owner `t'`. -/
theorem answers_toList (t' : ι) (op : Option ω) :
    answers step answer t s (op.map fun op => (t', op)).toList =
      if t' = t then op.toList.flatMap (answer s) else [] := by
  cases op <;> by_cases h : t' = t <;> simp [answers, h]

/-- An owner of no operation has none. -/
theorem of_eq_nil {ops : List (ι × ω)} (h : ∀ x ∈ ops, x.1 ≠ t) : of t ops = [] := by
  rw [of, List.filterMap_eq_nil_iff]
  exact fun x hx => if_neg (h x hx)

/-- An owner that has none owns no operation. -/
theorem ne_of_of_eq_nil {ops : List (ι × ω)} (h : of t ops = []) : ∀ x ∈ ops, x.1 ≠ t := by
  intro x hx heq
  rw [of, List.filterMap_eq_nil_iff] at h
  simpa [heq] using h x hx

/-- An owner without operations is not answered. -/
theorem answers_eq_nil {ops : List (ι × ω)} (h : ∀ x ∈ ops, x.1 ≠ t) :
    answers step answer t s ops = [] := by
  induction ops generalizing s with
  | nil => rfl
  | cons x ops ih =>
    rw [answers, if_neg (h x (by simp)), List.nil_append]
    exact ih _ fun y hy => h y (by simp [hy])

variable {σ' : Type*} {step answer} {step' : σ' → ω → σ'} {answer' : σ' → ω → List β}

/-- **Simulation.** Two sequential objects that stay related, and answer the same in related states, give
the same answers.

**Proof sketch.** By induction on the operations: the first one is answered alike, and leads to related
states. -/
theorem simulation {P : ω → Prop} {R : σ → σ' → Prop}
    (hstep : ∀ s s' op, R s s' → P op → R (step s op) (step' s' op))
    (hanswer : ∀ s s' op, R s s' → P op → answer s op = answer' s' op)
    {s : σ} {s' : σ'} (h : R s s') {ops : List (ι × ω)} (hops : ∀ x ∈ ops, P x.2) :
    R (state step s ops) (state step' s' ops) ∧
      ∀ t, answers step answer t s ops = answers step' answer' t s' ops := by
  induction ops generalizing s s' with
  | nil => exact ⟨h, fun _ => rfl⟩
  | cons x ops ih =>
    have hx : P x.2 := hops x (by simp)
    obtain ⟨hstate, hanswers⟩ := ih (hstep s s' x.2 h hx) fun y hy => hops y (by simp [hy])
    refine ⟨hstate, fun t => ?_⟩
    rw [answers, answers, hanswer s s' x.2 h hx, hanswers]

end Replay
