import Mathlib.Data.Finset.Card
import Mathlib.Data.Finset.Image
import Mathlib.Order.Interval.Finset.Nat
import Mathlib.Tactic.Linarith

set_option relaxedAutoImplicit false
set_option autoImplicit false

/-!
# The first elements of a finite set under a ranking

A *ranking* of a finite set `T` is a function `f` into a linear order, injective on `T`; `x` ranks
ahead of `y` if `f x < f y`. The set of the `n` first elements of `T` is what a store of capacity
`n` keeps when it throws out the lowest-ranked elements one at a time.

## Main definitions

* `Ranking.ahead f T x` — the elements of `T` that rank ahead of `x`.
* `Ranking.firsts f n T` — the elements of `T` with fewer than `n` elements ahead of them.

## Main results

* `Ranking.card_firsts` — `firsts f n T` has `min n |T|` elements.
* `Ranking.eq_firsts` — the only subset of that size whose elements all rank ahead of the others.
* `Ranking.firsts_union` — the stack property: adding elements to the `n` first ones, or to the
  whole set, leaves the same `n` first elements, if those thrown out stay behind `n` others.
-/

namespace Ranking

variable {K L : Type*} [LinearOrder L] {f g : K → L} {n m : ℕ} {S T : Finset K} {x y z : K}

/-- The elements of `T` that rank ahead of `x`. -/
def ahead (f : K → L) (T : Finset K) (x : K) : Finset K := T.filter fun y => f y < f x

/-- The `n` first elements of `T` in the ranking `f`. -/
def firsts (f : K → L) (n : ℕ) (T : Finset K) : Finset K :=
  T.filter fun x => (ahead f T x).card < n

/-- Membership in `ahead`, spelled out. -/
@[simp] theorem mem_ahead : y ∈ ahead f T x ↔ y ∈ T ∧ f y < f x := Finset.mem_filter

/-- Membership in `firsts`, spelled out. -/
@[simp] theorem mem_firsts : x ∈ firsts f n T ↔ x ∈ T ∧ (ahead f T x).card < n :=
  Finset.mem_filter

/-- The first elements of `T` are elements of `T`. -/
theorem firsts_subset : firsts f n T ⊆ T := Finset.filter_subset _ _

/-- A larger set has more elements ahead of `x`. -/
theorem ahead_mono (h : S ⊆ T) : ahead f S x ⊆ ahead f T x := Finset.filter_subset_filter _ h

/-- Elements ahead of an earlier element are ahead of a later one. -/
theorem ahead_subset_of_le (h : f x ≤ f y) : ahead f T x ⊆ ahead f T y := fun _ hz => by
  rw [mem_ahead] at hz ⊢
  exact ⟨hz.1, hz.2.trans_le h⟩

/-- The number of elements ahead grows strictly along the ranking. -/
theorem card_ahead_lt (hx : x ∈ T) (h : f x < f y) : (ahead f T x).card < (ahead f T y).card := by
  refine Finset.card_lt_card ((Finset.ssubset_iff_of_subset (ahead_subset_of_le h.le)).mpr ?_)
  exact ⟨x, by simp [hx, h], by simp⟩

/-- What ranks ahead of a first element is a first element. -/
theorem mem_firsts_of_lt (hy : y ∈ firsts f n T) (hx : x ∈ T) (h : f x < f y) :
    x ∈ firsts f n T := by
  rw [mem_firsts] at hy ⊢
  exact ⟨hx, (card_ahead_lt hx h).trans hy.2⟩

/-- A larger capacity keeps more. -/
theorem firsts_mono (h : m ≤ n) : firsts f m T ⊆ firsts f n T := fun x hx => by
  rw [mem_firsts] at hx ⊢
  exact ⟨hx.1, hx.2.trans_le h⟩

/-- Within the capacity everything is kept. -/
theorem firsts_of_card_le (h : T.card ≤ n) : firsts f n T = T := by
  refine Finset.Subset.antisymm firsts_subset fun x hx => mem_firsts.mpr ⟨hx, ?_⟩
  have hne : ahead f T x ⊂ T :=
    (Finset.ssubset_iff_of_subset (Finset.filter_subset _ _)).mpr ⟨x, hx, by simp⟩
  exact (Finset.card_lt_card hne).trans_le h

/-- Rankings with the same order on `T` have the same first elements. -/
theorem firsts_congr {L' : Type*} [LinearOrder L'] {g : K → L'}
    (h : ∀ x ∈ T, ∀ y ∈ T, f x < f y ↔ g x < g y) : firsts f n T = firsts g n T := by
  have hahead : ∀ x ∈ T, ahead f T x = ahead g T x := fun x hx =>
    Finset.filter_congr fun y hy => h y hy x hx
  exact Finset.filter_congr fun x hx => by rw [hahead x hx]

/-- **The number of first elements**: `min n |T|`.

**Proof sketch.** Send each element of `T` to the number of elements ahead of it. This is injective
(`card_ahead_lt`) with values below `|T|`, so its image is `{0, …, |T| - 1}`; the first elements are
those with value below `n`. -/
theorem card_firsts (hf : Set.InjOn f T) (n : ℕ) : (firsts f n T).card = min n T.card := by
  classical
  set place : K → ℕ := fun x => (ahead f T x).card with hplace
  have hinj : Set.InjOn place T := by
    intro x hx y hy hxy
    by_contra hne
    rcases lt_or_gt_of_ne fun h => hne (hf hx hy h) with h | h
    · exact (card_ahead_lt hx h).ne hxy
    · exact (card_ahead_lt hy h).ne' hxy
  have himage : T.image place = Finset.range T.card := by
    refine Finset.eq_of_subset_of_card_le (fun i hi => ?_) ?_
    · obtain ⟨x, hx, rfl⟩ := Finset.mem_image.mp hi
      have : ahead f T x ⊂ T :=
        (Finset.ssubset_iff_of_subset (Finset.filter_subset _ _)).mpr ⟨x, hx, by simp⟩
      exact Finset.mem_range.mpr (Finset.card_lt_card this)
    · rw [Finset.card_image_of_injOn hinj, Finset.card_range]
  have hfirsts : (firsts f n T).image place = Finset.range (min n T.card) := by
    have h : (firsts f n T).image place = (T.image place).filter (· < n) := by
      rw [Finset.filter_image]
      rfl
    rw [h, himage]
    ext i
    simp only [Finset.mem_filter, Finset.mem_range, lt_min_iff]
    exact and_comm
  have hsub : Set.InjOn place (firsts f n T) :=
    hinj.mono (Finset.coe_subset.mpr firsts_subset)
  rw [← Finset.card_image_of_injOn hsub, hfirsts, Finset.card_range]

/-- **The first elements are determined by their number and their order**: a subset of
`min n |T|` elements, each ahead of everything left out, is `firsts f n T`. -/
theorem eq_firsts (hf : Set.InjOn f T) (hS : S ⊆ T) (hcard : S.card = min n T.card)
    (hahead : ∀ x ∈ S, ∀ y ∈ T, y ∉ S → f x < f y) : S = firsts f n T := by
  refine Finset.eq_of_subset_of_card_le (fun x hx => ?_) (by rw [card_firsts hf, hcard])
  rw [mem_firsts]
  refine ⟨hS hx, ?_⟩
  have hsub : ahead f T x ⊂ S := by
    refine (Finset.ssubset_iff_of_subset fun y hy => ?_).mpr ⟨x, hx, by simp⟩
    rw [mem_ahead] at hy
    by_contra hyS
    exact (hahead x hx y hy.1 hyS).asymm hy.2
  have := Finset.card_lt_card hsub
  omega

/-- Everything left out is behind `n` elements that were kept. -/
theorem le_card_firsts_ahead (hf : Set.InjOn f T) (hy : y ∈ T) (hyn : y ∉ firsts f n T) :
    n ≤ ((firsts f n T).filter fun x => f x < f y).card := by
  have hn : n ≤ (ahead f T y).card := by
    by_contra h
    exact hyn (mem_firsts.mpr ⟨hy, not_le.mp h⟩)
  have hall : (firsts f n T).filter (fun x => f x < f y) = firsts f n T := by
    refine Finset.filter_true_of_mem fun x hx => ?_
    by_contra hlt
    rcases (not_lt.mp hlt).lt_or_eq with h | h
    · exact hyn (mem_firsts_of_lt hx hy h)
    · exact hyn (hf hy (firsts_subset hx) h ▸ hx)
  rw [hall, card_firsts hf]
  have : (ahead f T y).card ≤ T.card := Finset.card_le_card (Finset.filter_subset _ _)
  omega

/-- The elements of `S` dominate what `T` has beyond them: each is behind `n` elements of `S`. -/
def Dominates (f : K → L) (n : ℕ) (S T : Finset K) : Prop :=
  ∀ y ∈ T, y ∉ S → n ≤ (ahead f S y).card

/-- **The stack property.** A subset that dominates the rest has the same `n` first elements as the
whole set.

**Proof sketch.** An element of `T` outside `S` is behind `n` elements, so it is not among the
first. For `x` in `S`, an element of `T` outside `S` and ahead of `x` would put `n` elements of `S`
ahead of `x`; so below the capacity the elements ahead of `x` in `T` are those in `S`. -/
theorem firsts_eq_of_dominates (hST : S ⊆ T) (hdom : Dominates f n S T) :
    firsts f n S = firsts f n T := by
  ext x
  simp only [mem_firsts]
  constructor
  · rintro ⟨hxS, hlt⟩
    refine ⟨hST hxS, ?_⟩
    have heq : ahead f T x = ahead f S x := by
      refine Finset.Subset.antisymm (fun y hy => ?_) (ahead_mono hST)
      rw [mem_ahead] at hy ⊢
      refine ⟨?_, hy.2⟩
      by_contra hyS
      have := Finset.card_le_card (ahead_subset_of_le (T := S) hy.2.le)
      have := hdom y hy.1 hyS
      omega
    rwa [heq]
  · rintro ⟨hxT, hlt⟩
    have hsub := Finset.card_le_card (ahead_mono (f := f) (x := x) hST)
    refine ⟨?_, by omega⟩
    by_contra hxS
    have := hdom x hxT hxS
    omega

/-- **The stack property for a store.** A store that kept the `n` first elements of `T` under `f`,
and then takes in `B` under a new ranking `g`, keeps the same `n` first elements as if it had kept
all of `T`, as long as `g` puts the new elements ahead and otherwise agrees with `f`. -/
theorem firsts_union [DecidableEq K] {B : Finset K} (hf : Set.InjOn f T)
    (hg : ∀ x ∈ T, ∀ y ∈ T, y ∉ B → f x < f y → g x < g y) :
    firsts g n (firsts f n T ∪ B) = firsts g n (T ∪ B) := by
  refine firsts_eq_of_dominates (Finset.union_subset_union_left firsts_subset) fun y hy hyn => ?_
  rw [Finset.mem_union, not_or] at hyn
  have hyT : y ∈ T := (Finset.mem_union.mp hy).resolve_right hyn.2
  refine (le_card_firsts_ahead hf hyT hyn.1).trans (Finset.card_le_card fun x hx => ?_)
  rw [Finset.mem_filter] at hx
  rw [mem_ahead]
  exact ⟨Finset.mem_union_left _ hx.1, hg x (firsts_subset hx.1) y hyT hyn.2 hx.2⟩

/-- Throwing out an element behind all others leaves the first elements, if there are enough. -/
theorem firsts_erase_last [DecidableEq K] (hz : z ∈ T) (hlast : ∀ y ∈ T, y ≠ z → f y < f z)
    (h : n < T.card) : firsts f n (T.erase z) = firsts f n T := by
  refine firsts_eq_of_dominates (Finset.erase_subset _ _) fun y hy hyn => ?_
  obtain rfl : y = z := by simpa [hy] using hyn
  have hall : ahead f (T.erase y) y = T.erase y := Finset.filter_true_of_mem fun x hx =>
    hlast x (Finset.mem_of_mem_erase hx) (Finset.ne_of_mem_erase hx)
  rw [hall, Finset.card_erase_of_mem hz]
  omega

/-- Relabelling the elements relabels the first elements. -/
theorem firsts_image {K' : Type*} [DecidableEq K'] {ψ : K → K'} (hψ : Function.Injective ψ)
    (g : K' → L) (n : ℕ) (T : Finset K) :
    firsts g n (T.image ψ) = (firsts (g ∘ ψ) n T).image ψ := by
  have hahead : ∀ x, (ahead g (T.image ψ) (ψ x)).card = (ahead (g ∘ ψ) T x).card := fun x => by
    rw [ahead, Finset.filter_image, Finset.card_image_of_injective _ hψ]
    rfl
  rw [firsts, Finset.filter_image]
  congr 1
  exact Finset.filter_congr fun x _ => by rw [hahead]

end Ranking
