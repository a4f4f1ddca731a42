import Mathlib.Data.Fintype.Card
import Mathlib.Data.Finset.Card
import Mathlib.Data.List.Nodup

set_option relaxedAutoImplicit false
set_option autoImplicit false

/-!
# A batch of updates at points

A *batch* is a list of orders for a function `f : ι → α`. An order `(i, b)` replaces the value at `i`
by `g b (f i)`, for a fixed `g : β → α → α`; the orders of a batch are carried out one after another.

In a batch with at most one order for each key, no order sees the effect of another one. So the result
is that of carrying out all orders at once, and their order in the list does not matter.

## Main definitions

* `PointUpdates.update1 g f x` — one order carried out.
* `PointUpdates.updates g f l` — a batch carried out.

## Main results

* `PointUpdates.updates_of_mem`, `PointUpdates.updates_of_notMem` — the values after a batch.
* `PointUpdates.updates_perm` — the order of the batch does not matter.
* `PointUpdates.updates_updates` — where `g b` is idempotent, a second batch of the same orders does
  nothing.
* `PointUpdates.card_filter_updates` — how many values have a property after a batch for all keys.
-/

namespace PointUpdates

variable {ι α β : Type*} [DecidableEq ι] {g : β → α → α} {f : ι → α} {l l' : List (ι × β)}

/-- What ties two functions together point by point, still does after an update of both at one point, if it
does there. -/
theorem forall_update_update {γ : Type*} {P : ι → α → γ → Prop} {f : ι → α} {f' : ι → γ} {i : ι} {a : α}
    {c : γ} (hi : P i a c) (h : ∀ j, P j (f j) (f' j)) (j : ι) :
    P j (Function.update f i a j) (Function.update f' i c j) := by
  by_cases hj : j = i
  · subst hj
    rw [Function.update_self, Function.update_self]
    exact hi
  · rw [Function.update_of_ne hj, Function.update_of_ne hj]
    exact h j

/-- One order carried out. -/
def update1 (g : β → α → α) (f : ι → α) (x : ι × β) : ι → α :=
  Function.update f x.1 (g x.2 (f x.1))

/-- A batch carried out, one order after another. -/
def updates (g : β → α → α) (f : ι → α) (l : List (ι × β)) : ι → α := l.foldl (update1 g) f

/-- The value at the key of an order. -/
@[simp] theorem update1_self (g : β → α → α) (f : ι → α) (x : ι × β) :
    update1 g f x x.1 = g x.2 (f x.1) := Function.update_self _ _ _

/-- The value at another key. -/
theorem update1_of_ne (g : β → α → α) (f : ι → α) {x : ι × β} {i : ι} (h : i ≠ x.1) :
    update1 g f x i = f i := Function.update_of_ne h _ _

/-! ## The values after a batch -/

/-- **A key without an order** keeps its value. -/
theorem updates_of_notMem {i : ι} (h : i ∉ l.map Prod.fst) : updates g f l i = f i := by
  induction l generalizing f with
  | nil => rfl
  | cons x l ih =>
    rw [List.map_cons, List.mem_cons, not_or] at h
    have hrest : updates g (update1 g f x) l i = update1 g f x i := ih h.2
    exact hrest.trans (update1_of_ne g f h.1)

/-- **A key with an order** gets the value that the order makes of the old one: no other order of the
batch is about it. -/
theorem updates_of_mem (hl : (l.map Prod.fst).Nodup) {i : ι} {b : β} (h : (i, b) ∈ l) :
    updates g f l i = g b (f i) := by
  induction l generalizing f with
  | nil => cases h
  | cons x l ih =>
    rw [List.map_cons, List.nodup_cons] at hl
    rcases List.mem_cons.mp h with rfl | hmem
    · have hrest : updates g (update1 g f (i, b)) l i = update1 g f (i, b) i :=
        updates_of_notMem hl.1
      exact hrest.trans (update1_self g f (i, b))
    · have hne : i ≠ x.1 := by
        rintro rfl
        exact hl.1 (List.mem_map.mpr ⟨_, hmem, rfl⟩)
      have hrest : updates g (update1 g f x) l i = g b (update1 g f x i) := ih hl.2 hmem
      rw [update1_of_ne g f hne] at hrest
      exact hrest

/-! ## The order of the batch -/

/-- **The order of a batch does not matter.**

**Proof sketch.** `updates_of_mem` and `updates_of_notMem` give the value at each key from the orders
that are in the batch, wherever they stand. -/
theorem updates_perm (hl : (l.map Prod.fst).Nodup) (h : l'.Perm l) : updates g f l' = updates g f l := by
  have hl' : (l'.map Prod.fst).Nodup := (h.map Prod.fst).nodup_iff.mpr hl
  funext i
  by_cases hi : i ∈ l.map Prod.fst
  · obtain ⟨⟨j, b⟩, hmem, rfl⟩ := List.mem_map.mp hi
    rw [updates_of_mem hl hmem, updates_of_mem hl' (h.mem_iff.mpr hmem)]
  · have hi' : i ∉ l'.map Prod.fst := fun hmem => hi ((h.map Prod.fst).mem_iff.mp hmem)
    rw [updates_of_notMem hi, updates_of_notMem hi']

/-- **A second batch of the same orders does nothing**, where an order does nothing the second time. -/
theorem updates_updates (hg : ∀ b a, g b (g b a) = g b a) (hl : (l.map Prod.fst).Nodup)
    (h : l'.Perm l) : updates g (updates g f l) l' = updates g f l := by
  rw [updates_perm hl h]
  funext i
  by_cases hi : i ∈ l.map Prod.fst
  · obtain ⟨⟨j, b⟩, hmem, rfl⟩ := List.mem_map.mp hi
    rw [updates_of_mem hl hmem, updates_of_mem hl hmem, hg]
  · rw [updates_of_notMem hi]

/-! ## A batch for all keys -/

/-- A batch that is as long as there are keys has an order for each of them. -/
theorem mem_keys_of_length [Fintype ι] (hl : (l.map Prod.fst).Nodup)
    (hlen : l.length = Fintype.card ι) (i : ι) : i ∈ l.map Prod.fst := by
  have hcard : (l.map Prod.fst).toFinset.card = Fintype.card ι := by
    rw [List.toFinset_card_of_nodup hl, List.length_map, hlen]
  rw [← List.mem_toFinset, Finset.eq_univ_of_card _ hcard]
  exact Finset.mem_univ i

/-- **The number of values with a property after a batch for all keys** is the number of its orders
that make a value with the property, if that does not depend on the old value. -/
theorem card_filter_updates [Fintype ι] (hl : (l.map Prod.fst).Nodup)
    (hlen : l.length = Fintype.card ι) {p : α → Bool} {q : β → Bool} (hpq : ∀ b a, p (g b a) = q b) :
    (Finset.univ.filter fun i => p (updates g f l i) = true).card = l.countP fun x => q x.2 := by
  have hp : ∀ x ∈ l, p (updates g f l x.1) = q x.2 := fun x hx => by
    rw [updates_of_mem hl hx, hpq]
  have hset : (Finset.univ.filter fun i => p (updates g f l i) = true) =
      ((l.map Prod.fst).filter fun i => p (updates g f l i)).toFinset := by
    ext i
    simp [mem_keys_of_length hl hlen i]
  calc (Finset.univ.filter fun i => p (updates g f l i) = true).card
      = ((l.map Prod.fst).filter fun i => p (updates g f l i)).length := by
        rw [hset, List.toFinset_card_of_nodup (hl.filter _)]
    _ = l.countP fun x => p (updates g f l x.1) := by
        rw [← List.countP_eq_length_filter, List.countP_map]
        rfl
    _ = l.countP fun x => q x.2 := List.countP_congr fun x hx => by rw [hp x hx]

end PointUpdates
