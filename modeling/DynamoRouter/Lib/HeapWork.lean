import DynamoRouter.Lib.HeapSize

set_option relaxedAutoImplicit false
set_option autoImplicit false

/-!
# The work on the heap of an LRU map

What the operations of a `LazyLru` do to its heap, counted in entries: one for each entry that is pushed,
one for each entry of a heap that is rebuilt, and one for each entry that is popped, stale or not. The
length of the heap is a potential: a push puts two units into the account and takes one out, a pop takes
one out, and a heap is only rebuilt when it has more than twice the entries of the map.

## Main definitions

* `LazyLru.tickWork`, `LazyLru.evictWork` — the work of a round of touches, and of an eviction.

## Main results

* `LazyLru.tickWork_le`, `LazyLru.evictWork_eq` — the amortized work: two for each touch, and nothing for
  an eviction.
-/

namespace LazyLru

variable {K : Type*} [LinearOrder K]

/-- The entries that the eviction loop pops. -/
def evictPops (budget : ℕ) (m : Finmap fun _ : K => ℕ × ℕ) : List (Entry K) → ℕ
  | [] => 0
  | e :: es =>
    if budget < m.keys.card then
      evictPops budget (if m.lookup e.key = some e.stamp then m.erase e.key else m) es + 1
    else 0

/-- The work of an eviction. -/
def evictWork (budget : ℕ) (c : LazyLru K) : ℕ := evictPops budget c.map c.heap.toList

/-- The work of a compaction: the entries of the new heap, if there is one. -/
def compactWork (floor : ℕ) (c : LazyLru K) : ℕ := if 2 * max c.size floor < c.heap.len then c.size else 0

/-- The work of a round of touches: a push for each touch, and the compaction. -/
def tickWork (floor : ℕ) (c : LazyLru K) (hs : List K) : ℕ :=
  hs.length + compactWork floor (hs.foldl (push (c.clock + 1)) { c with clock := c.clock + 1 })

/-- Every entry is popped or left. -/
theorem evictPops_add_length (b : ℕ) (es : List (Entry K)) (hes : es.Pairwise (· ≥ ·)) :
    ∀ m : Finmap fun _ : K => ℕ × ℕ,
      evictPops b m es + (evictLoop b m es hes).2.toList.length = es.length := by
  induction es with
  | nil => exact fun _ => rfl
  | cons e es ih =>
    intro m
    by_cases hb : b < m.keys.card
    · have hrest := ih hes.of_cons (if m.lookup e.key = some e.stamp then m.erase e.key else m)
      simp only [evictPops, evictLoop, if_pos hb, List.length_cons]
      omega
    · simp only [evictPops, evictLoop, if_neg hb]
      omega

/-- **An eviction is paid for** by the entries that it takes off the heap. -/
theorem evictWork_eq (b : ℕ) (c : LazyLru K) :
    evictWork b c + (c.evictTo b).heap.len = c.heap.len :=
  evictPops_add_length b c.heap.toList c.heap.sorted c.map

/-- **A compaction is paid for** by the entries that it takes off the heap. -/
theorem compactWork_le (floor : ℕ) (c : LazyLru K) :
    compactWork floor c + (c.compactIfBloated floor).heap.len ≤ c.heap.len := by
  rw [compactWork, len_heap_compactIfBloated]
  split_ifs <;> omega

/-- A round of touches pushes an entry for each. -/
theorem len_heap_foldl_push (a : ℕ) (c : LazyLru K) (hs : List K) :
    (hs.foldl (push a) c).heap.len = c.heap.len + hs.length := by
  induction hs generalizing c with
  | nil => rfl
  | cons h hs ih =>
    have hpush : (c.push a h).heap.len = c.heap.len + 1 :=
      (List.perm_orderedInsert (· ≥ ·) _ c.heap.toList).length_eq
    rw [List.foldl_cons, ih, hpush, List.length_cons]
    omega

/-- **A round of touches costs two for each touch**, amortized.

**Proof sketch.** Each push adds one entry to the heap, and the compaction is paid for by the entries that
it takes off it (`compactWork_le`). -/
theorem tickWork_le (floor : ℕ) (c : LazyLru K) (hs : List K) :
    tickWork floor c hs + (c.tick floor hs).heap.len ≤ c.heap.len + 2 * hs.length := by
  have hcompact :=
    compactWork_le floor (hs.foldl (push (c.clock + 1)) { c with clock := c.clock + 1 })
  have hlen := len_heap_foldl_push (c.clock + 1) { c with clock := c.clock + 1 } hs
  simp only at hlen
  rw [tickWork, tick]
  omega

end LazyLru
