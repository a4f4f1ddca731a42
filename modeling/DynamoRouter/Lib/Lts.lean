import Mathlib.Data.List.Infix
import Mathlib.Tactic.Tauto

set_option relaxedAutoImplicit false
set_option autoImplicit false

/-!
# Labelled transition systems

Runs of a labelled transition system `M` from a start state, each with its *trace*: the list of
the actions taken, each with the observation the step emitted. A run carries a *guard*, a
predicate on the trace so far, the state and the next action that every step of the run meets;
the guard `unguarded` admits every step. Statements about "every run whose steps all meet a
condition" are statements about guarded runs.

## Main definitions

* `Lts.Run` — guarded runs, grown at their last step.
* `Lts.Exec` — runs without a guard.
* `Lts.ofFun` — the system of a partial step function, and `Lts.run?`, which runs it under a guard.
* `Lts.Simulation` — a forward simulation that keeps the observations.

## Main results

* `Lts.Run.invariant` — an inductive invariant of trace and state holds along every run.
* `Lts.Simulation.run` — a simulation carries every run over, with the same trace.
* `Lts.Run.refines` — a system whose steps are silent or matched shows what the other one observes.
* `Lts.Run.forall_isPrefix_iff` — if guarded runs obey a law and a step that breaks the guard
  breaks the law, the runs that obey the law at every point are exactly the guarded ones.
* `Lts.Run.project_on`, `Lts.Run.project` — along every run of a system, a part of it takes a run of its
  own.
* `Lts.Run.countP_le`, `Lts.Run.exists_extension` — a measure bounds a run, and drives it to its goal.
-/

/-- A labelled transition system: `step s a e s'` says that action `a` takes the state `s` to
`s'`, and that `e` is observed on the way. -/
structure Lts (σ α ε : Type*) where
  /-- The transition relation. -/
  step : σ → α → ε → σ → Prop

namespace Lts

variable {σ α ε : Type*}

/-- The runs of `M` from `s₀` whose every step meets the guard `ok`, with their traces. The guard
sees the trace before the step, the state the step is taken in, and the action. -/
inductive Run (M : Lts σ α ε) (ok : List (α × ε) → σ → α → Prop) (s₀ : σ) :
    List (α × ε) → σ → Prop
  | nil : Run M ok s₀ [] s₀
  | snoc {τ : List (α × ε)} {s s' : σ} {a : α} {e : ε} (hrun : Run M ok s₀ τ s) (hok : ok τ s a)
      (hstep : M.step s a e s') : Run M ok s₀ (τ ++ [(a, e)]) s'

/-- The guard that every step meets. -/
def unguarded : List (α × ε) → σ → α → Prop := fun _ _ _ => True

/-- The runs of `M` from `s₀`, without a guard. -/
abbrev Exec (M : Lts σ α ε) (s₀ : σ) : List (α × ε) → σ → Prop := M.Run unguarded s₀

/-- At most one observation and one next state for each state and action. -/
def Deterministic (M : Lts σ α ε) : Prop :=
  ∀ {s a e e' s₁ s₂}, M.step s a e s₁ → M.step s a e' s₂ → e = e' ∧ s₁ = s₂

variable {M : Lts σ α ε} {ok : List (α × ε) → σ → α → Prop} {s₀ s : σ} {τ : List (α × ε)}

namespace Run

/-- A run may be taken under any weaker guard. -/
theorem mono {ok' : List (α × ε) → σ → α → Prop} (h : M.Run ok s₀ τ s)
    (hle : ∀ τ s a, ok τ s a → ok' τ s a) : M.Run ok' s₀ τ s := by
  induction h with
  | nil => exact .nil
  | snoc _ hok hstep ih => exact .snoc ih (hle _ _ _ hok) hstep

/-- Forgetting the guard. -/
theorem exec (h : M.Run ok s₀ τ s) : M.Exec s₀ τ s := h.mono fun _ _ _ _ => trivial

/-- **The invariant rule.** What holds at the start and is preserved by every guarded step holds
of the trace and the state of every run. -/
theorem invariant {I : List (α × ε) → σ → Prop} (h : M.Run ok s₀ τ s) (h0 : I [] s₀)
    (hstep : ∀ τ s a e s', I τ s → ok τ s a → M.step s a e s' → I (τ ++ [(a, e)]) s') :
    I τ s := by
  induction h with
  | nil => exact h0
  | snoc _ hok hs ih => exact hstep _ _ _ _ _ ih hok hs

/-- Splitting a nonempty run at its last step. -/
theorem snoc_inv {a : α} {e : ε} {s' : σ} (h : M.Run ok s₀ (τ ++ [(a, e)]) s') :
    ∃ s, M.Run ok s₀ τ s ∧ ok τ s a ∧ M.step s a e s' := by
  generalize hτ : τ ++ [(a, e)] = τ' at h
  cases h with
  | nil => simp at hτ
  | snoc hrun hok hstep =>
    obtain ⟨rfl, hae⟩ := List.append_inj' hτ rfl
    obtain ⟨rfl, rfl⟩ : a = _ ∧ e = _ := by simpa using hae
    exact ⟨_, hrun, hok, hstep⟩

/-- The only run with the empty trace stays at the start. -/
theorem nil_inv (h : M.Run ok s₀ [] s) : s = s₀ := by
  generalize hτ : ([] : List (α × ε)) = τ at h
  cases h with
  | nil => rfl
  | snoc => simp at hτ

/-- Runs are closed under initial segments. -/
theorem of_isPrefix (h : M.Run ok s₀ τ s) {τ₁ : List (α × ε)} (hτ : τ₁ <+: τ) :
    ∃ s₁, M.Run ok s₀ τ₁ s₁ := by
  induction h with
  | nil =>
    obtain rfl := List.prefix_nil.mp hτ
    exact ⟨_, .nil⟩
  | snoc hrun hok hstep ih =>
    rcases List.prefix_concat_iff.mp hτ with rfl | hτ
    · exact ⟨_, hrun.snoc hok hstep⟩
    · exact ih hτ

/-- In a deterministic system the trace determines the state reached. -/
theorem state_unique (hM : M.Deterministic) {ok' : List (α × ε) → σ → α → Prop}
    (h : M.Run ok s₀ τ s) : ∀ {s'}, M.Run ok' s₀ τ s' → s = s' := by
  induction h with
  | nil => exact fun h' => h'.nil_inv.symm
  | snoc _ _ hstep ih =>
    intro s' h'
    obtain ⟨s₁, hrun', -, hstep'⟩ := h'.snoc_inv
    obtain rfl := ih hrun'
    exact (hM hstep hstep').2

/-- In a deterministic system the actions determine the trace and the state reached. -/
theorem trace_unique (hM : M.Deterministic) {ok' : List (α × ε) → σ → α → Prop}
    (h : M.Run ok s₀ τ s) : ∀ {τ' s'}, M.Run ok' s₀ τ' s' → τ.map Prod.fst = τ'.map Prod.fst →
      τ = τ' ∧ s = s' := by
  induction h with
  | nil =>
    intro τ' s' h' heq
    obtain rfl : τ' = [] := by simpa using heq.symm
    exact ⟨rfl, h'.nil_inv.symm⟩
  | @snoc τ s₁ s a e _ _ hstep ih =>
    intro τ' s' h' heq
    cases h' with
    | nil => simp at heq
    | snoc hrun' _ hstep' =>
      rw [List.map_append, List.map_append] at heq
      obtain ⟨hτ, hae⟩ := List.append_inj' heq rfl
      obtain ⟨rfl, rfl⟩ := ih hrun' hτ
      obtain rfl : a = _ := by simpa using hae
      obtain ⟨rfl, rfl⟩ := hM hstep hstep'
      exact ⟨rfl, rfl⟩

/-- **Exactness of a guard.** Suppose guarded runs obey `law`, and a step taken from a guarded run
in breach of the guard leads out of `law`. Then the runs that obey `law` at every point are exactly
those whose every step meets the guard.

**Proof sketch.** Left to right, induction on the run: its initial segments obey `law`, so it is
guarded up to the last step; were that step in breach of the guard, `law` would fail at the end.
Right to left, an initial segment of a guarded run is guarded, and by determinism it ends in the
same state. -/
theorem forall_isPrefix_iff (hM : M.Deterministic) (law : List (α × ε) → σ → Prop)
    (hlaw : ∀ {τ s}, M.Run ok s₀ τ s → law τ s)
    (hbreach : ∀ {τ s a e s'}, M.Run ok s₀ τ s → M.step s a e s' → ¬ ok τ s a →
      ¬ law (τ ++ [(a, e)]) s')
    (h : M.Exec s₀ τ s) :
    (∀ τ₁ s₁, τ₁ <+: τ → M.Exec s₀ τ₁ s₁ → law τ₁ s₁) ↔ M.Run ok s₀ τ s := by
  constructor
  · induction h with
    | nil => exact fun _ => .nil
    | @snoc τ s s' a e hrun hu hstep ih =>
      intro hall
      have hguard : M.Run ok s₀ τ s :=
        ih fun τ₁ s₁ hτ₁ => hall τ₁ s₁ (hτ₁.trans (List.prefix_append _ _))
      by_cases hok : ok τ s a
      · exact hguard.snoc hok hstep
      · exact absurd (hall _ _ (List.prefix_refl _) (.snoc hrun hu hstep))
          (hbreach hguard hstep hok)
  · intro hguard τ₁ s₁ hτ₁ hrun₁
    obtain ⟨s₂, hrun₂⟩ := hguard.of_isPrefix hτ₁
    obtain rfl := hrun₁.state_unique hM hrun₂
    exact hlaw hrun₂

end Run

/-! ## Systems of a step function -/

/-- The system of a partial step function, which answers the observation and the next state. -/
def ofFun (f : σ → α → Option (ε × σ)) : Lts σ α ε := ⟨fun s a e s' => f s a = some (e, s')⟩

/-- A step of `ofFun f` is a defined value of `f`. -/
@[simp] theorem ofFun_step (f : σ → α → Option (ε × σ)) {s s' : σ} {a : α} {e : ε} :
    (ofFun f).step s a e s' ↔ f s a = some (e, s') := Iff.rfl

/-- The system of a step function is deterministic. -/
theorem ofFun_deterministic (f : σ → α → Option (ε × σ)) : (ofFun f).Deterministic := by
  intro s a e e' s₁ s₂ h₁ h₂
  simpa using h₁.symm.trans h₂

/-- A computed step. -/
theorem step_get (f : σ → α → Option (ε × σ)) (s : σ) (a : α) (h : (f s a).isSome) :
    (ofFun f).step s a ((f s a).get h).1 ((f s a).get h).2 := (Option.some_get h).symm

/-- Take the actions in order, under a guard that can be decided; the trace and the state reached, or
`none` where a step is not enabled or breaks the guard. -/
def run? (f : σ → α → Option (ε × σ)) (ok : List (α × ε) → σ → α → Prop)
    [∀ τ s a, Decidable (ok τ s a)] : List (α × ε) × σ → List α → Option (List (α × ε) × σ)
  | r, [] => some r
  | (τ, s), a :: as =>
    if ok τ s a then (f s a).bind fun r => run? f ok (τ ++ [(a, r.1)], r.2) as else none

/-- What `run?` reaches, a guarded run reaches. -/
theorem run_of_run? {f : σ → α → Option (ε × σ)} [∀ τ s a, Decidable (ok τ s a)] {as : List α} :
    ∀ {τ s τ' s'}, (ofFun f).Run ok s₀ τ s → run? f ok (τ, s) as = some (τ', s') →
      (ofFun f).Run ok s₀ τ' s' := by
  induction as with
  | nil =>
    intro τ s τ' s' h heq
    obtain ⟨rfl, rfl⟩ : τ = τ' ∧ s = s' := by simpa [run?] using heq
    exact h
  | cons a as ih =>
    intro τ s τ' s' h heq
    rw [run?] at heq
    split_ifs at heq with hok
    obtain ⟨⟨e, s₁⟩, hf, hrest⟩ := Option.bind_eq_some_iff.mp heq
    exact ih (h.snoc hok hf) hrest

/-- A computed guarded run: the trace and the state that `run?` answers are those of a run. -/
theorem run_get (f : σ → α → Option (ε × σ)) (s₀ : σ) (ok : List (α × ε) → σ → α → Prop)
    [∀ τ s a, Decidable (ok τ s a)] (as : List α) (h : (run? f ok ([], s₀) as).isSome) :
    (ofFun f).Run ok s₀ ((run? f ok ([], s₀) as).get h).1 ((run? f ok ([], s₀) as).get h).2 :=
  run_of_run? .nil (Option.some_get h).symm

/-- Every step meets the trivial guard. -/
instance (τ : List (α × ε)) (s : σ) (a : α) : Decidable (unguarded τ s a) :=
  inferInstanceAs (Decidable True)

/-- A computed run without a guard. -/
theorem exec_get (f : σ → α → Option (ε × σ)) (s₀ : σ) (as : List α)
    (h : (run? f unguarded ([], s₀) as).isSome) :
    (ofFun f).Exec s₀ ((run? f unguarded ([], s₀) as).get h).1
      ((run? f unguarded ([], s₀) as).get h).2 :=
  run_get f s₀ unguarded as h

/-! ## Simulation -/

/-- `R` is a forward simulation of `M` by `N` on the actions of `A`: each step of `M` is matched by
a step of `N` with the same action and the same observation. -/
def Simulation {σ' : Type*} (M : Lts σ α ε) (N : Lts σ' α ε) (A : α → Prop)
    (R : σ → σ' → Prop) : Prop :=
  ∀ s t a e s', R s t → A a → M.step s a e s' → ∃ t', N.step t a e t' ∧ R s' t'

/-- A simulation carries every run of `M` by actions of `A` to a run of `N` with the same trace,
ending in a related state. -/
theorem Simulation.run {σ' : Type*} {N : Lts σ' α ε} {A : α → Prop} {R : σ → σ' → Prop} {t₀ : σ'}
    (hsim : Simulation M N A R) (h0 : R s₀ t₀) (h : M.Run (fun _ _ a => A a) s₀ τ s) :
    ∃ t, N.Exec t₀ τ t ∧ R s t := by
  induction h with
  | nil => exact ⟨t₀, .nil, h0⟩
  | snoc _ hA hstep ih =>
    obtain ⟨t, hexec, hR⟩ := ih
    obtain ⟨t', hstep', hR'⟩ := hsim _ _ _ _ _ hR hA hstep
    exact ⟨t', hexec.snoc trivial hstep', hR'⟩

/-- **Refinement.** A step of `M` may be silent, or show an observation of `N`. If every guarded step of `M`
is silent and keeps the relation `R`, or is matched by a guarded step of `N` with the observation that it
shows, then every guarded run of `M` shows what some guarded run of `N` observes, and ends in a state that
is related to the end of this one. -/
theorem Run.refines {σ' α' ε' : Type*} {M : Lts σ α (Option ε')} {N : Lts σ' α' ε'}
    {ok : List (α × Option ε') → σ → α → Prop} {ok' : List (α' × ε') → σ' → α' → Prop}
    {τ : List (α × Option ε')} {t₀ : σ'} (R : σ → σ' → Prop) (h0 : R s₀ t₀)
    (hstep : ∀ τ s a e s' τ' t, N.Run ok' t₀ τ' t → R s t → ok τ s a → M.step s a e s' →
      e = none ∧ R s' t ∨ ∃ a' e' t', e = some e' ∧ ok' τ' t a' ∧ N.step t a' e' t' ∧ R s' t')
    (h : M.Run ok s₀ τ s) :
    ∃ τ' t, N.Run ok' t₀ τ' t ∧ τ'.map Prod.snd = τ.filterMap Prod.snd ∧ R s t := by
  induction h with
  | nil => exact ⟨[], t₀, .nil, rfl, h0⟩
  | @snoc τ s s' a e _ hok hs ih =>
    obtain ⟨τ', t, hrun, hseen, hR⟩ := ih
    rw [List.filterMap_append]
    rcases hstep τ s a e s' τ' t hrun hR hok hs with ⟨rfl, hR'⟩ | ⟨a', e', t', rfl, hok', hs', hR'⟩
    · refine ⟨τ', t, hrun, ?_, hR'⟩
      rw [hseen, List.filterMap_cons_none rfl, List.filterMap_nil, List.append_nil]
    · refine ⟨τ' ++ [(a', e')], t', hrun.snoc hok' hs', ?_, hR'⟩
      rw [List.map_append, hseen]
      rfl

/-! ## Projection -/

/-- **A part of a system runs as a system.** Let `f` be a part of the state of `M`, and let `g` say which
steps of `M` are steps of that part. If every step of a guarded run of `M` either is such a step of `N`,
under a guard `ok'`, or leaves the part alone, then along every guarded run of `M` the part takes a run of
`N` under the guard `ok'`. -/
theorem Run.project_on {σ' α' ε' : Type*} {N : Lts σ' α' ε'}
    {ok' : List (α' × ε') → σ' → α' → Prop} (f : σ → σ') (g : α × ε → Option (α' × ε'))
    (hstep : ∀ τ s a e s', M.Run ok s₀ τ s → ok τ s a → M.step s a e s' →
      (∃ a' e', g (a, e) = some (a', e') ∧ ok' (τ.filterMap g) (f s) a' ∧ N.step (f s) a' e' (f s')) ∨
        g (a, e) = none ∧ f s' = f s)
    (h : M.Run ok s₀ τ s) : N.Run ok' (f s₀) (τ.filterMap g) (f s) := by
  induction h with
  | nil => exact .nil
  | snoc hrun hok hs ih =>
    rw [List.filterMap_append]
    rcases hstep _ _ _ _ _ hrun hok hs with ⟨a', e', hg, hok', hs'⟩ | ⟨hg, hf⟩
    · rw [List.filterMap_cons_some hg, List.filterMap_nil]
      exact ih.snoc hok' hs'
    · rw [List.filterMap_cons_none hg, List.filterMap_nil, List.append_nil, hf]
      exact ih

/-- A part of a system runs as a system, without a guard. -/
theorem Run.project {σ' α' ε' : Type*} {N : Lts σ' α' ε'} (f : σ → σ') (g : α × ε → Option (α' × ε'))
    (hstep : ∀ s a e s', M.step s a e s' →
      (∃ a' e', g (a, e) = some (a', e') ∧ N.step (f s) a' e' (f s')) ∨
        g (a, e) = none ∧ f s' = f s)
    (h : M.Run ok s₀ τ s) : N.Exec (f s₀) (τ.filterMap g) (f s) :=
  Run.project_on f g (fun _ s a e s' _ _ hs =>
    (hstep s a e s' hs).imp_left fun ⟨a', e', hg, hs'⟩ => ⟨a', e', hg, trivial, hs'⟩) h

/-! ## Measures -/

/-- **The rule of a measure.** If the steps that `p` counts make a measure smaller, and the others do not
make it larger, then a run has no more of them than the measure has room for. -/
theorem Run.countP_le (measure : σ → ℕ) (p : α → Bool)
    (hstep : ∀ τ s a e s', M.Run ok s₀ τ s → ok τ s a → M.step s a e s' →
      measure s' + (p a).toNat ≤ measure s)
    (h : M.Run ok s₀ τ s) : (τ.countP fun x => p x.1) + measure s ≤ measure s₀ := by
  induction h with
  | nil => simp
  | @snoc τ s s' a e hrun hok hs ih =>
    have hle := hstep _ _ _ _ _ hrun hok hs
    have hone : ([(a, e)].countP fun x => p x.1) = (p a).toNat := by
      cases hp : p a <;> simp [hp]
    rw [List.countP_append, hone]
    omega

/-- **The rule of progress.** If from every state of a run that is not at its goal there is a step, of the
kind `p`, that makes a measure smaller, then every run can go on to its goal by steps of this kind.

**Proof sketch.** Induction on the measure of the state reached. -/
theorem Run.exists_extension (measure : σ → ℕ) (goal : σ → Prop) (p : α → Prop)
    (hprogress : ∀ τ s, M.Run ok s₀ τ s → ¬ goal s →
      ∃ a e s', p a ∧ ok τ s a ∧ M.step s a e s' ∧ measure s' < measure s)
    (h : M.Run ok s₀ τ s) :
    ∃ τ' s', M.Run ok s₀ (τ ++ τ') s' ∧ (∀ x ∈ τ', p x.1) ∧ goal s' := by
  induction hm : measure s using Nat.strong_induction_on generalizing τ s with
  | h m ih =>
    by_cases hgoal : goal s
    · exact ⟨[], s, by rwa [List.append_nil], by simp, hgoal⟩
    · obtain ⟨a, e, s', hp, hok, hs, hlt⟩ := hprogress τ s h hgoal
      obtain ⟨τ', s'', hrun, hall, hgoal'⟩ := ih (measure s') (hm ▸ hlt) (h.snoc hok hs) rfl
      refine ⟨(a, e) :: τ', s'', by rwa [List.append_cons], fun x hx => ?_, hgoal'⟩
      rcases List.mem_cons.mp hx with rfl | hx
      · exact hp
      · exact hall x hx

end Lts
