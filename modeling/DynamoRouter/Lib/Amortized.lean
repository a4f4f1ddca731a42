import Mathlib.Algebra.BigOperators.Ring.Finset
import DynamoRouter.Lib.Lts

set_option relaxedAutoImplicit false
set_option autoImplicit false

/-!
# Amortized cost

A system of a step function, run with a meter: each step adds its cost to a counter beside the state. If a
potential pays for what a step costs beyond its budget, then a run costs at most the sum of the budgets of
its steps, and what the potential was at the start.

## Main definitions

* `Lts.metered` — the system with a meter.

## Main results

* `Lts.metered_le` — the method of potentials.
-/

namespace Lts

variable {σ α ε : Type*} (f : σ → α → Option (ε × σ)) (cost : σ → α → ℕ)

/-- One step, with its cost added to the meter. -/
def meteredStep (s : σ × ℕ) (a : α) : Option (ε × σ × ℕ) :=
  (f s.1 a).map fun r => (r.1, r.2, s.2 + cost s.1 a)

/-- The system of a step function with a meter. -/
def metered : Lts (σ × ℕ) α ε := .ofFun (meteredStep f cost)

variable {f cost} {s₀ s : σ} {k : ℕ} {τ : List (α × ε)}

/-- A metered step is a step. -/
theorem metered_step_inv {s s' : σ × ℕ} {a : α} {e : ε} (h : (metered f cost).step s a e s') :
    (ofFun f).step s.1 a e s'.1 ∧ s'.2 = s.2 + cost s.1 a := by
  obtain ⟨⟨e', t⟩, hf, heq⟩ := Option.map_eq_some_iff.mp h
  cases heq
  exact ⟨hf, rfl⟩

/-- **The method of potentials.** If each step costs no more than its budget, at a fixed rate, and what it
takes from the potential, then a run costs no more than all the budgets and what it takes from the
potential.

**Proof sketch.** By induction on the run: the meter and the potential together rise by at most the budget
of a step. -/
theorem metered_le (potential : σ → ℕ) (rate : ℕ) (budget : α × ε → ℕ)
    (hstep : ∀ s a e s', (ofFun f).step s a e s' →
      cost s a + potential s' ≤ potential s + rate * budget (a, e))
    (h : (metered f cost).Exec (s₀, 0) τ (s, k)) :
    k + potential s ≤ potential s₀ + rate * (τ.map budget).sum := by
  have hall := h.invariant
    (I := fun τ x => x.2 + potential x.1 ≤ potential s₀ + rate * (τ.map budget).sum)
    (by simp) fun τ x a e x' hI _ hx => by
      obtain ⟨hx, hcost⟩ := metered_step_inv hx
      have hpay := hstep x.1 a e x'.1 hx
      rw [List.map_append, List.sum_append, List.map_singleton, List.sum_singleton, Nat.mul_add]
      omega
  exact hall

end Lts
