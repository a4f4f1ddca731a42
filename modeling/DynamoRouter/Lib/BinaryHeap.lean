import Mathlib.Data.Multiset.Sort

set_option relaxedAutoImplicit false
set_option autoImplicit false

/-!
# Max-heaps

A binary max-heap shows its contents only through `pop`, which takes out a largest element. It is
represented here by its elements in the order in which `pop` will take them out, so that the head
of the list is the root; the array layout behind that order cannot be observed.

## Main definitions

* `BinaryHeap α` — a heap over a linear order, with its elements in decreasing order.
* `BinaryHeap.push`, `BinaryHeap.pop`, `BinaryHeap.collect`.
-/

/-- A max-heap over a linear order: its elements, largest first. -/
structure BinaryHeap (α : Type*) [LinearOrder α] where
  /-- The elements in the order of popping. -/
  toList : List α
  /-- The order of popping is decreasing. -/
  sorted : toList.Pairwise (· ≥ ·)

namespace BinaryHeap

variable {α : Type*} [LinearOrder α]

/-- The heap without elements. -/
def empty : BinaryHeap α := ⟨[], .nil⟩

/-- The number of elements. -/
def len (q : BinaryHeap α) : ℕ := q.toList.length

/-- Add an element. -/
def push (q : BinaryHeap α) (x : α) : BinaryHeap α :=
  ⟨q.toList.orderedInsert (· ≥ ·) x, q.sorted.orderedInsert x q.toList⟩

/-- Take out a largest element, if there is one. -/
def pop (q : BinaryHeap α) : Option (α × BinaryHeap α) :=
  match q with
  | ⟨[], _⟩ => none
  | ⟨x :: xs, h⟩ => some (x, ⟨xs, h.of_cons⟩)

/-- The heap of a collection, in whatever order the collection is listed. -/
def collect (m : Multiset α) : BinaryHeap α := ⟨m.sort (· ≥ ·), m.pairwise_sort (· ≥ ·)⟩

/-- The elements after a push. -/
@[simp] theorem mem_push {q : BinaryHeap α} {x y : α} :
    y ∈ (q.push x).toList ↔ y = x ∨ y ∈ q.toList := List.mem_orderedInsert _

/-- A push of a new element keeps the elements distinct. -/
theorem nodup_push {q : BinaryHeap α} (h : q.toList.Nodup) {x : α} (hx : x ∉ q.toList) :
    (q.push x).toList.Nodup :=
  (List.perm_orderedInsert (· ≥ ·) x q.toList).nodup_iff.mpr (List.nodup_cons.mpr ⟨hx, h⟩)

/-- The elements of a collected heap are as distinct as those of the collection. -/
theorem nodup_collect {m : Multiset α} : (collect m).toList.Nodup ↔ m.Nodup := by
  rw [← Multiset.coe_nodup, collect, Multiset.sort_eq]

/-- The elements of a collected heap. -/
@[simp] theorem mem_collect {m : Multiset α} {x : α} : x ∈ (collect m).toList ↔ x ∈ m :=
  Multiset.mem_sort _

/-- A collected heap has as many elements as the collection. -/
@[simp] theorem len_collect (m : Multiset α) : (collect m).len = m.card := Multiset.length_sort _

end BinaryHeap
