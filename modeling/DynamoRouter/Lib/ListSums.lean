import Mathlib.Algebra.BigOperators.Group.Finset.Piecewise
import Mathlib.Algebra.BigOperators.Ring.Finset
import Mathlib.Algebra.Order.BigOperators.Group.Finset

set_option relaxedAutoImplicit false
set_option autoImplicit false

/-!
# Sums over lists

Two accounts of a sum over a list: when one entry of the list changes, and when the list is split among
several owners.

## Main results

* `sum_map_set` — the sum when one entry changed.
* `sum_range_getElem?` — the sum by the places of the entries.
* `countP_eq_sum`, `countP_eq_card` — a count as a sum, and as a number of places.
* `sum_countP_eq_some` — a count by the values of a function.
* `sum_filterMap_comm` — sums over the members of several lists that are filtered from one.
* `sum_filterMap_owners` — they may be taken over the one or the other of two kinds of owners.
-/

/-- **The account of a sum** when one entry of the list changes. -/
theorem sum_map_set {α : Type*} (f : α → ℕ) {l : List α} {i : ℕ} {a : α} (a' : α) (hget : l[i]? = some a) :
    ((l.set i a').map f).sum + f a = (l.map f).sum + f a' := by
  induction l generalizing i with
  | nil => simp at hget
  | cons x l ih =>
    cases i with
    | zero =>
      obtain rfl : x = a := by simpa using hget
      simp only [List.set_cons_zero, List.map_cons, List.sum_cons]
      omega
    | succ i =>
      have hrest := ih (i := i) (by simpa using hget)
      simp only [List.set_cons_succ, List.map_cons, List.sum_cons]
      omega

/-- A sum over the entries of a list, by their places. -/
theorem sum_range_getElem? {α : Type*} (f : α → ℕ) (l : List α) :
    ∑ i ∈ Finset.range l.length, ((l[i]?).map f).getD 0 = (l.map f).sum := by
  induction l using List.reverseRecOn with
  | nil => rfl
  | append_singleton l x ih =>
    rw [List.length_append, List.length_singleton, Finset.sum_range_succ, List.map_append, List.sum_append,
      ← ih, List.getElem?_concat_length]
    refine congrArg₂ _ (Finset.sum_congr rfl fun i hi => ?_) (by simp)
    rw [List.getElem?_append_left (Finset.mem_range.mp hi)]

/-- **Sums over the members of several lists** that are filtered from one, as a sum over this one. -/
theorem sum_filterMap_comm {α β ι : Type*} (S : Finset ι) (g : ι → α → Option β) (w : β → ℕ)
    (l : List α) : ∑ i ∈ S, ((l.filterMap (g i)).map w).sum =
      (l.map fun x => ∑ i ∈ S, (g i x).elim 0 w).sum := by
  induction l with
  | nil => simp
  | cons x l ih =>
    rw [List.map_cons, List.sum_cons, ← ih, ← Finset.sum_add_distrib]
    refine Finset.sum_congr rfl fun i _ => ?_
    rw [List.filterMap_cons]
    cases g i x <;> simp

/-- What the one owner of a member has. -/
theorem sum_elim_of_owner {β ι : Type*} {S : Finset ι} {g : ι → Option β} (w : β → ℕ) {i : ι} {y : β}
    (hi : i ∈ S) (hy : g i = some y) (hne : ∀ j, j ≠ i → g j = none) :
    ∑ j ∈ S, (g j).elim 0 w = w y := by
  rw [Finset.sum_eq_single_of_mem i hi, hy, Option.elim_some]
  intro j _ hj
  rw [hne j hj, Option.elim_none]

/-- **Two kinds of owners.** If each member of a list is nobody's, or has one owner of each kind, a sum over
the members may be taken over the owners of the one kind or over those of the other.

**Proof sketch.** Both are a sum over the list (`sum_filterMap_comm`), in which a member counts as much as
for its owner (`sum_elim_of_owner`). -/
theorem sum_filterMap_owners {α β ι κ : Type*} {S : Finset ι} {S' : Finset κ} {f : ι → α → Option β}
    {g : κ → α → Option β} {l : List α} (w : β → ℕ)
    (howned : ∀ x ∈ l, ((∀ i, f i x = none) ∧ ∀ k, g k x = none) ∨
      ∃ i ∈ S, ∃ k ∈ S', ∃ y, (f i x = some y ∧ ∀ j, j ≠ i → f j x = none) ∧
        g k x = some y ∧ ∀ j, j ≠ k → g j x = none) :
    ∑ i ∈ S, ((l.filterMap (f i)).map w).sum = ∑ k ∈ S', ((l.filterMap (g k)).map w).sum := by
  rw [sum_filterMap_comm, sum_filterMap_comm]
  refine congrArg List.sum (List.map_congr_left fun x hx => ?_)
  rcases howned x hx with ⟨hf, hg⟩ | ⟨i, hi, k, hk, y, ⟨hf, hf'⟩, hg, hg'⟩
  · simp only [hf, hg, Option.elim_none, Finset.sum_const_zero]
  · rw [sum_elim_of_owner w hi hf hf', sum_elim_of_owner w hk hg hg']

/-- A count as a sum. -/
theorem countP_eq_sum {α : Type*} (p : α → Bool) (l : List α) :
    l.countP p = (l.map fun x => (p x).toNat).sum := by
  induction l with
  | nil => rfl
  | cons x l ih =>
    rw [List.countP_cons, List.map_cons, List.sum_cons, ih]
    cases p x <;> simp [Nat.add_comm]

/-- A count by the places of the entries. -/
theorem countP_eq_card {α : Type*} (p : α → Bool) (l : List α) :
    l.countP p = ((Finset.range l.length).filter fun i => (l[i]?).any p).card := by
  rw [countP_eq_sum, ← sum_range_getElem? fun x => (p x).toNat, Finset.card_filter]
  refine Finset.sum_congr rfl fun i _ => ?_
  cases l[i]? with
  | none => rfl
  | some x => cases h : p x <;> simp [h]

/-- A list counts strictly fewer entries, if one of its entries is not counted any more. -/
theorem countP_lt_countP {α : Type*} {p q : α → Bool} {l : List α} {a : α}
    (hpq : ∀ x ∈ l, p x = true → q x = true) (ha : a ∈ l) (hp : p a = false) (hq : q a = true) :
    l.countP p < l.countP q := by
  obtain ⟨l₁, l₂, rfl⟩ := List.append_of_mem ha
  have h₁ : l₁.countP p ≤ l₁.countP q :=
    List.countP_mono_left fun x hx => hpq x (List.mem_append_left _ hx)
  have h₂ : l₂.countP p ≤ l₂.countP q :=
    List.countP_mono_left fun x hx => hpq x (List.mem_append_right _ (List.mem_cons_of_mem _ hx))
  simp only [List.countP_append, List.countP_cons, hp, hq]
  simp
  omega

/-- The entries that `f` sends to some value, counted value by value. -/
theorem sum_countP_eq_some {α ι : Type*} [Fintype ι] [DecidableEq ι] (f : α → Option ι) (l : List α) :
    ∑ r, l.countP (fun x => decide (f x = some r)) = l.countP fun x => (f x).isSome := by
  induction l with
  | nil => simp
  | cons x l ih =>
    simp only [List.countP_cons, Finset.sum_add_distrib, ih]
    cases h : f x <;> simp
