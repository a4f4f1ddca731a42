import DynamoRouter.Lib.LazyLru
import DynamoRouter.Protocol.Blocks

set_option relaxedAutoImplicit false
set_option autoImplicit false

/-!
# The router's prefix cache (`crates/router/src/prefix_cache.rs`)

The router's picture of what one replica has cached: a flat map `hash -> (last_access, seq)` over
chained block hashes with a lazily cleaned heap, an instance of `LazyLru` at 64-bit hashes. The
counters `clock` and `seq` are natural numbers; each grows by one for each call and for each touched
block, so the code's `u64` counters do not wrap in a run of fewer than `2 ^ 64` of these.

## Main definitions

* `PrefixCache` — the cache; `PrefixCache.touch`, `matchPrefix`, `insert`, `lookup`, `evictTo`.

## Main results

* `PrefixCache.toLazyLru_insert`, `toLazyLru_matchPrefix` — both are one round of touches: `insert`
  of the whole list, `matchPrefix` of its leading present blocks.
-/

/-- `PrefixCache`: the map, the heap, the clock and the sequence counter. -/
structure PrefixCache extends LazyLru UInt64

namespace PrefixCache

/-- `COMPACT_FLOOR`. -/
def compactFloor : ℕ := 1024

/-- `PrefixCache::new`. -/
def new : PrefixCache := { toLazyLru := .empty }

/-- `num_blocks`. -/
def numBlocks (c : PrefixCache) : ℕ := c.size

/-- The `for` loop of `touch`: with `onlyPresent`, stop at the first block that is not in the map.
Answers the number of blocks touched. -/
def touchLoop (onlyPresent : Bool) (access : ℕ) : PrefixCache → List UInt64 → ℕ × PrefixCache
  | c, [] => (0, c)
  | c, h :: hs =>
    if onlyPresent && !c.contains h then (0, c)
    else
      let r := touchLoop onlyPresent access { c with toLazyLru := c.toLazyLru.push access h } hs
      (r.1 + 1, r.2)

/-- `compact_if_bloated`. -/
def compactIfBloated (c : PrefixCache) : PrefixCache :=
  { c with toLazyLru := c.toLazyLru.compactIfBloated compactFloor }

/-- `touch`: one clock tick. -/
def touch (c : PrefixCache) (hashes : List UInt64) (onlyPresent : Bool) : ℕ × PrefixCache :=
  let c := { c with clock := c.clock + 1 }
  let r := touchLoop onlyPresent c.clock c hashes
  (r.1, r.2.compactIfBloated)

/-- `match_prefix`: count the leading blocks present, and refresh them. -/
def matchPrefix (c : PrefixCache) (hashes : List UInt64) : ℕ × PrefixCache := c.touch hashes true

/-- `insert`: insert or refresh the full chain. -/
def insert (c : PrefixCache) (hashes : List UInt64) : PrefixCache := (c.touch hashes false).2

/-- `lookup`: count the leading blocks present, without refreshing them. -/
def lookup (c : PrefixCache) (hashes : List UInt64) : ℕ := c.leading hashes

/-- `evict_to`: evict the least recently used blocks until at most `budget` are left. -/
def evictTo (c : PrefixCache) (budget : ℕ) : PrefixCache :=
  { c with toLazyLru := c.toLazyLru.evictTo budget }

/-- Touching a list without a presence check. -/
theorem touchLoop_false (access : ℕ) (c : PrefixCache) (hs : List UInt64) :
    touchLoop false access c hs =
      (hs.length, { toLazyLru := hs.foldl (LazyLru.push access) c.toLazyLru }) := by
  induction hs generalizing c with
  | nil => rfl
  | cons h hs ih => simp [touchLoop, ih]

/-- Touching a list with the presence check touches its leading present blocks: touching present
blocks does not change which blocks are present. -/
theorem touchLoop_true (access : ℕ) (c : PrefixCache) (hs : List UInt64) :
    touchLoop true access c hs = touchLoop false access c (hs.takeWhile c.contains) := by
  induction hs generalizing c with
  | nil => rfl
  | cons h hs ih =>
    by_cases hh : c.contains h
    · have hkeys : ({ c with toLazyLru := c.toLazyLru.push access h } : PrefixCache).contains =
          c.contains := LazyLru.contains_push hh access
      rw [touchLoop, ih, hkeys]
      simp [touchLoop, hh]
    · simp [touchLoop, hh]

/-- `insert` is one round of touches of the whole list. -/
theorem toLazyLru_insert (c : PrefixCache) (hs : List UInt64) :
    (c.insert hs).toLazyLru = c.toLazyLru.tick compactFloor hs := by
  rw [insert, touch, touchLoop_false]
  rfl

/-- `match_prefix` is one round of touches of the leading present blocks. -/
theorem toLazyLru_matchPrefix (c : PrefixCache) (hs : List UInt64) :
    (c.matchPrefix hs).2.toLazyLru =
      c.toLazyLru.tick compactFloor (hs.takeWhile c.contains) := by
  rw [matchPrefix, touch, touchLoop_true, touchLoop_false]
  rfl

/-- `match_prefix` counts what `lookup` counts. -/
theorem matchPrefix_fst (c : PrefixCache) (hs : List UInt64) :
    (c.matchPrefix hs).1 = c.lookup hs := by
  rw [matchPrefix, touch, touchLoop_true, touchLoop_false]
  rfl

end PrefixCache
