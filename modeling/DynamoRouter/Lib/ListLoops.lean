import Mathlib.Data.List.Basic
import Mathlib.Data.List.Count
import Mathlib.Data.List.TakeDrop

set_option relaxedAutoImplicit false
set_option autoImplicit false

/-!
# Two loops over a list

A loop that folds a list and notes its state after each element of a kind, and a loop that collects the
images of the elements that have one until a cap is reached.

The second loop tests its cap *after* it took an element. So it keeps to every cap but `0`, where it
still takes the first element.

## Main definitions

* `ListLoops.checkpoints` — the states of a fold after the elements with a property.
* `ListLoops.collect` — the loop with a cap.

## Main results

* `ListLoops.checkpoints_append` — the checkpoints of one list after another.
* `ListLoops.length_checkpoints`, `ListLoops.getElem?_checkpoints` — how many checkpoints there are, and
  which.
* `ListLoops.pairwise_checkpoints` — a relation that every step goes along, orders the checkpoints.
* `ListLoops.collect_of_lt`, `ListLoops.collect_zero` — what the loop with a cap answers.
-/

namespace ListLoops

variable {α β σ : Type*}

/-! ## Checkpoints of a fold -/

/-- The states of the fold of a list from `s`, after each element with the property `p`. -/
def checkpoints (step : σ → α → σ) (p : α → Bool) : σ → List α → List σ
  | _, [] => []
  | s, a :: l =>
    if p a then step s a :: checkpoints step p (step s a) l else checkpoints step p (step s a) l

section Checkpoints

variable {step : σ → α → σ} {p : α → Bool} {s : σ} {l : List α}

/-- The checkpoints of a list are those of its first part, and those of the rest from the state that
the first part leads to. -/
theorem checkpoints_append (s : σ) (l l' : List α) :
    checkpoints step p s (l ++ l') =
      checkpoints step p s l ++ checkpoints step p (l.foldl step s) l' := by
  induction l generalizing s with
  | nil => rfl
  | cons a l ih =>
    rw [List.cons_append, checkpoints, checkpoints, List.foldl_cons, ih]
    split_ifs
    · rw [List.cons_append]
    · rfl

/-- There are as many checkpoints as elements with the property. -/
theorem length_checkpoints (s : σ) (l : List α) :
    (checkpoints step p s l).length = l.countP p := by
  induction l generalizing s with
  | nil => rfl
  | cons a l ih =>
    rw [checkpoints, List.countP_cons]
    split_ifs
    · rw [List.length_cons, ih]
    · rw [ih, Nat.add_zero]

/-- There is no checkpoint if no element has the property, and only then. -/
theorem isEmpty_checkpoints (s : σ) (l : List α) :
    (checkpoints step p s l).isEmpty = !l.any p := by
  induction l generalizing s with
  | nil => rfl
  | cons a l ih =>
    rw [checkpoints, List.any_cons]
    cases p a with
    | true => rfl
    | false => exact ih _

/-- **The checkpoint of an element** is the state of the fold up to it, and it comes after the
checkpoints of the elements before.

**Proof sketch.** The list is split before the element and after it (`checkpoints_append`). -/
theorem getElem?_checkpoints {i : ℕ} {a : α} (h : l[i]? = some a) (ha : p a = true) :
    (checkpoints step p s l)[(l.take i).countP p]? = some ((l.take (i + 1)).foldl step s) := by
  obtain ⟨hi, hget⟩ := List.getElem?_eq_some_iff.mp h
  have hdrop : l.drop i = a :: l.drop (i + 1) := by rw [List.drop_eq_getElem_cons hi, hget]
  have htake : l.take (i + 1) = l.take i ++ [a] := by rw [List.take_succ_eq_append_getElem hi, hget]
  have hsplit : checkpoints step p s l = checkpoints step p s (l.take i) ++
      checkpoints step p ((l.take i).foldl step s) (a :: l.drop (i + 1)) := by
    rw [← checkpoints_append, ← hdrop, List.take_append_drop]
  have hlen : (checkpoints step p s (l.take i)).length = (l.take i).countP p :=
    length_checkpoints s _
  rw [hsplit, List.getElem?_append_right (Nat.le_of_eq hlen), hlen, Nat.sub_self, checkpoints, if_pos ha, htake,
    List.foldl_append]
  rfl

/-- The checkpoints are related to the start, if every step goes along a transitive relation. -/
theorem rel_of_mem_checkpoints {R : σ → σ → Prop} (htrans : ∀ a b c, R a b → R b c → R a c)
    (hstep : ∀ s a, R s (step s a)) {x : σ} (hx : x ∈ checkpoints step p s l) : R s x := by
  induction l generalizing s with
  | nil => cases hx
  | cons a l ih =>
    rw [checkpoints] at hx
    split_ifs at hx
    · rcases List.mem_cons.mp hx with rfl | hx
      · exact hstep s a
      · exact htrans _ _ _ (hstep s a) (ih hx)
    · exact htrans _ _ _ (hstep s a) (ih hx)

/-- **The order of the checkpoints.** If every step goes along a transitive relation, each checkpoint
is related to all later ones. -/
theorem pairwise_checkpoints {R : σ → σ → Prop} (htrans : ∀ a b c, R a b → R b c → R a c)
    (hstep : ∀ s a, R s (step s a)) : (checkpoints step p s l).Pairwise R := by
  induction l generalizing s with
  | nil => exact List.Pairwise.nil
  | cons a l ih =>
    rw [checkpoints]
    split_ifs
    · exact List.Pairwise.cons (fun x hx => rel_of_mem_checkpoints htrans hstep hx) ih
    · exact ih

end Checkpoints

/-! ## Collecting up to a cap -/

/-- Collect the images under `f` of the elements that have one, until there are `max` of them. The cap
is tested after each element. -/
def collect (f : α → Option β) (max : ℕ) (out : List β) : List α → List β
  | [] => out
  | a :: l =>
    if max ≤ (out ++ (f a).toList).length then out ++ (f a).toList
    else collect f max (out ++ (f a).toList) l

section Collect

variable {f : α → Option β} {max : ℕ}

/-- **Below the cap** the loop collects the first images, up to the cap. -/
theorem collect_of_lt {out : List β} (h : out.length < max) (l : List α) :
    collect f max out l = out ++ (l.filterMap f).take (max - out.length) := by
  induction l generalizing out with
  | nil => simp [collect]
  | cons a l ih =>
    rw [collect]
    cases hfa : f a with
    | none =>
      rw [Option.toList_none, List.append_nil, if_neg (Nat.not_le.mpr h), ih h, List.filterMap_cons_none hfa]
    | some b =>
      rw [Option.toList_some, List.filterMap_cons_some hfa]
      obtain ⟨k, hk⟩ : ∃ k, max - out.length = k + 1 := ⟨max - out.length - 1, by omega⟩
      rw [hk, List.take_succ_cons]
      have hlen : (out ++ [b]).length = out.length + 1 := List.length_append
      split_ifs with hcap
      · obtain rfl : k = 0 := by omega
        rw [List.take_zero]
      · have hrest : max - (out ++ [b]).length = k := by omega
        rw [ih (Nat.not_le.mp hcap), hrest, List.append_assoc, List.singleton_append]

/-- **With the cap `0`** the loop still takes the first element. -/
theorem collect_zero (l : List α) : collect f 0 [] l = l.head?.toList.filterMap f := by
  cases l with
  | nil => rfl
  | cons a l =>
    rw [collect, if_pos (Nat.zero_le _), List.nil_append]
    cases hfa : f a <;> simp [hfa]

end Collect

end ListLoops
