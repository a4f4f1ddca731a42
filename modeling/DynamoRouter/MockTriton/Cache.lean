import DynamoRouter.Lib.LazyLru
import DynamoRouter.Protocol.Blocks

set_option relaxedAutoImplicit false
set_option autoImplicit false

/-!
# The replica's KV cache (`crates/mock-triton/src/cache.rs`)

The mock replica's ground truth of what it has cached: an instance of `LazyLru` at 64-bit hashes
with a fixed capacity, whose one operation looks a chain up, caches it and evicts over capacity.

The state of the cache is a function of the history of calls alone, whatever was evicted in between:
it holds the `capacity` first hashes of all hashes ever passed, in the order of the latest call that
touched them and, within a call, of the position of their last occurrence.

## Main definitions

* `KvCacheSim` — the cache; `KvCacheSim.lookupInsert`.
* `KvCacheSim.historyRank` — the place of a hash in the order read off a history of calls.

## Main results

* `KvCacheSim.runCalls_history` — the cached set and the answers, from the history alone.
-/

/-- `KvCacheSim`: the LRU map, the heap and the counters, with a capacity. -/
structure KvCacheSim extends LazyLru UInt64 where
  /-- The number of blocks the cache can hold. -/
  capacity : ℕ

namespace KvCacheSim

/-- `COMPACT_FLOOR`. -/
def compactFloor : ℕ := 1024

/-- `KvCacheSim::new`. -/
def new (capacity : ℕ) : KvCacheSim := { toLazyLru := .empty, capacity := capacity }

/-- `len`. -/
def len (s : KvCacheSim) : ℕ := s.size

/-- `compact_if_bloated`. -/
def compactIfBloated (s : KvCacheSim) : KvCacheSim :=
  { s with toLazyLru := s.toLazyLru.compactIfBloated compactFloor }

/-- `evict_over_capacity`. -/
def evictOverCapacity (s : KvCacheSim) : KvCacheSim :=
  { s with toLazyLru := s.toLazyLru.evictTo s.capacity }

/-- `lookup_insert`: count the leading blocks already cached, then cache all blocks and evict over
capacity. -/
def lookupInsert (s : KvCacheSim) (hashes : List UInt64) : ℕ × KvCacheSim :=
  let s := { s with clock := s.clock + 1 }
  let cached := s.leading hashes
  let s := { s with toLazyLru := hashes.foldl (LazyLru.push s.clock) s.toLazyLru }
  (cached, s.compactIfBloated.evictOverCapacity)

/-- A call counts the leading blocks cached before it. -/
theorem lookupInsert_fst (s : KvCacheSim) (hs : List UInt64) :
    (s.lookupInsert hs).1 = s.leading hs := rfl

/-- A call is one round of touches, followed by an eviction to the capacity. -/
theorem toLazyLru_lookupInsert (s : KvCacheSim) (hs : List UInt64) :
    (s.lookupInsert hs).2.toLazyLru = (s.toLazyLru.tick compactFloor hs).evictTo s.capacity := rfl

/-- A call leaves the capacity alone. -/
@[simp] theorem capacity_lookupInsert (s : KvCacheSim) (hs : List UInt64) :
    (s.lookupInsert hs).2.capacity = s.capacity := rfl

/-! ## The order of a history -/

/-- The calls one after another. -/
def runCalls (s : KvCacheSim) (calls : List (List UInt64)) : KvCacheSim :=
  calls.foldl (fun s hs => (s.lookupInsert hs).2) s

/-- All hashes passed in a history of calls. -/
def passed (calls : List (List UInt64)) : Finset UInt64 := calls.flatten.toFinset

/-- The place of a hash in the order of a history, from the highest rank down: by the latest call
that touched it, later calls first, then by the position of its last occurrence in that call, earlier
positions first. -/
def historyRank (calls : List (List UInt64)) (h : UInt64) : ℕᵒᵈ ×ₗ ℕ :=
  let i := LazyLru.lastIdx (fun hs => decide (h ∈ hs)) calls
  LazyLru.place (i, LazyLru.lastIdx (· == h) (calls.getD i []))

/-- A hash was passed if one of the calls contains it. -/
theorem mem_passed {calls : List (List UInt64)} {h : UInt64} :
    h ∈ passed calls ↔ calls.any fun hs => decide (h ∈ hs) := by
  simp [passed]

/-- The hashes passed with one more call. -/
theorem passed_concat (calls : List (List UInt64)) (hs : List UInt64) :
    passed (calls ++ [hs]) = passed calls ∪ hs.toFinset := by
  simp [passed]

/-- The rank of a hash of the last call. -/
theorem historyRank_concat_of_mem {calls : List (List UInt64)} {hs : List UInt64} {h : UInt64}
    (hh : h ∈ hs) : historyRank (calls ++ [hs]) h =
      LazyLru.place (calls.length, LazyLru.lastIdx (· == h) hs) := by
  simp [historyRank, LazyLru.lastIdx_concat, hh]

/-- The rank of an earlier hash that the last call does not contain. -/
theorem historyRank_concat_of_notMem {calls : List (List UInt64)} {hs : List UInt64} {h : UInt64}
    (hp : h ∈ passed calls) (hh : h ∉ hs) :
    historyRank (calls ++ [hs]) h = historyRank calls h := by
  have hlt := LazyLru.lastIdx_lt (mem_passed.mp hp)
  simp only [historyRank, LazyLru.lastIdx_concat, hh, decide_false, Bool.false_eq_true, if_false]
  rw [List.getD_eq_getElem?_getD, List.getElem?_append_left hlt, ← List.getD_eq_getElem?_getD]

/-- A hash of the last call ranks ahead of an earlier one that the call does not contain. -/
theorem historyRank_concat_lt {calls : List (List UInt64)} {hs : List UInt64} {x y : UInt64}
    (hx : x ∈ hs) (hy : y ∈ passed calls) (hyn : y ∉ hs) :
    historyRank (calls ++ [hs]) x < historyRank (calls ++ [hs]) y := by
  rw [historyRank_concat_of_mem hx, historyRank_concat_of_notMem hy hyn, historyRank,
    LazyLru.place_lt_iff]
  exact .inl (LazyLru.lastIdx_lt (mem_passed.mp hy))

/-- Distinct passed hashes have distinct ranks. -/
theorem historyRank_injOn (calls : List (List UInt64)) :
    Set.InjOn (historyRank calls) (passed calls) := by
  intro x hx y hy heq
  obtain ⟨hi, hj⟩ := Prod.mk.inj (LazyLru.place_injective heq)
  obtain ⟨hs, -, hget, hxs⟩ := LazyLru.lastIdx_spec (mem_passed.mp hx)
  obtain ⟨hs', -, hget', hys⟩ := LazyLru.lastIdx_spec (mem_passed.mp hy)
  rw [← hi, hget] at hget'
  obtain rfl : hs = hs' := Option.some_inj.mp hget'
  rw [← hi, List.getD_eq_getElem?_getD, hget, Option.getD_some] at hj
  exact LazyLru.lastIdx_beq_inj (of_decide_eq_true hxs) (of_decide_eq_true hys) hj

/-! ## The cache is its history -/

/-- The cache `s` is what the history `calls` determines: it holds the first hashes of the history,
and its eviction order on them is the order of the history. -/
structure Tracks (calls : List (List UInt64)) (s : KvCacheSim) : Prop where
  /-- Heap, map and counters are linked. -/
  wf : s.Wf
  /-- The cached hashes. -/
  keys : s.map.keys = Ranking.firsts (historyRank calls) s.capacity (passed calls)
  /-- The eviction order is the order of the history. -/
  order : ∀ x ∈ s.map.keys, ∀ y ∈ s.map.keys,
    s.rank x < s.rank y ↔ historyRank calls x < historyRank calls y

/-- The empty cache is what the empty history determines. -/
theorem tracks_new (capacity : ℕ) : Tracks [] (new capacity) where
  wf := LazyLru.wf_empty
  keys := rfl
  order x hx := absurd hx (Finset.notMem_empty x)

/-- After a round of touches the eviction order is that of the longer history.

**Proof sketch.** By cases whether the two blocks are touched. Touched blocks are in front of the others,
and among themselves in the order of the touches; the others stay in their order. -/
theorem Tracks.order_tick {calls : List (List UInt64)} {s : KvCacheSim} (h : Tracks calls s)
    {hs : List UInt64} {x y : UInt64} (hx : x ∈ (s.tick compactFloor hs).map.keys)
    (hy : y ∈ (s.tick compactFloor hs).map.keys) :
    (s.tick compactFloor hs).rank x < (s.tick compactFloor hs).rank y ↔
      historyRank (calls ++ [hs]) x < historyRank (calls ++ [hs]) y := by
  have hold : ∀ z ∈ (s.tick compactFloor hs).map.keys, z ∉ hs → z ∈ s.map.keys := fun z hz hzn => by
    rw [LazyLru.keys_tick, Finset.mem_union, List.mem_toFinset] at hz
    exact hz.resolve_right hzn
  have hpassed : ∀ z ∈ s.map.keys, z ∈ passed calls := fun z hz =>
    Ranking.firsts_subset (h.keys ▸ hz)
  by_cases hxs : x ∈ hs <;> by_cases hys : y ∈ hs
  · rw [LazyLru.rank_tick_lt_iff_of_mem hxs hys, historyRank_concat_of_mem hxs,
      historyRank_concat_of_mem hys, LazyLru.place_lt_iff]
    simp
  · have hy' := hold y hy hys
    simp only [LazyLru.rank_tick_lt_of_mem_of_notMem h.wf compactFloor hxs hy' hys,
      historyRank_concat_lt hxs (hpassed y hy') hys]
  · have hx' := hold x hx hxs
    simp only [(LazyLru.rank_tick_lt_of_mem_of_notMem h.wf compactFloor hys hx' hxs).asymm,
      (historyRank_concat_lt hys (hpassed x hx') hxs).asymm]
  · have hx' := hold x hx hxs
    have hy' := hold y hy hys
    rw [LazyLru.rank_tick_lt_iff_of_notMem hxs hys, h.order x hx' y hy',
      historyRank_concat_of_notMem (hpassed x hx') hxs,
      historyRank_concat_of_notMem (hpassed y hy') hys]

/-- **One call.** If the cache is what the history determines, so it is after one more call.

**Proof sketch.** The round of touches adds the hashes of the call to the cached ones, and the
eviction keeps the first `capacity` of them in the order of the longer history. That the hashes
evicted earlier make no difference is the stack property `Ranking.firsts_union`: a hash evicted
earlier, and not touched by the call, stays behind the hashes that were kept. -/
theorem Tracks.lookupInsert {calls : List (List UInt64)} {s : KvCacheSim} (h : Tracks calls s)
    (hs : List UInt64) : Tracks (calls ++ [hs]) (s.lookupInsert hs).2 := by
  have hwf : (s.tick compactFloor hs).Wf := h.wf.tick compactFloor hs
  refine ⟨hwf.evictTo s.capacity, ?_, fun x hx y hy => ?_⟩
  · calc (s.lookupInsert hs).2.map.keys
        = Ranking.firsts (s.tick compactFloor hs).rank s.capacity
            (s.tick compactFloor hs).map.keys := LazyLru.keys_evictTo hwf s.capacity
      _ = Ranking.firsts (historyRank (calls ++ [hs])) s.capacity
            (s.tick compactFloor hs).map.keys :=
          Ranking.firsts_congr fun x hx y hy => h.order_tick hx hy
      _ = Ranking.firsts (historyRank (calls ++ [hs])) s.capacity
            (Ranking.firsts (historyRank calls) s.capacity (passed calls) ∪ hs.toFinset) := by
          rw [LazyLru.keys_tick, h.keys]
      _ = Ranking.firsts (historyRank (calls ++ [hs])) s.capacity
            (passed calls ∪ hs.toFinset) := by
          refine Ranking.firsts_union (historyRank_injOn calls) fun x hx y hy hyn hlt => ?_
          rw [List.mem_toFinset] at hyn
          by_cases hxs : x ∈ hs
          · exact historyRank_concat_lt hxs hy hyn
          · rwa [historyRank_concat_of_notMem hx hxs, historyRank_concat_of_notMem hy hyn]
      _ = Ranking.firsts (historyRank (calls ++ [hs])) s.capacity (passed (calls ++ [hs])) := by
          rw [passed_concat]
  · have hsub : (s.lookupInsert hs).2.map.keys ⊆ (s.tick compactFloor hs).map.keys :=
      (hwf.evictsTo s.capacity).subset
    rw [← h.order_tick (hsub hx) (hsub hy)]
    unfold LazyLru.rank
    rw [toLazyLru_lookupInsert] at hx hy ⊢
    rw [LazyLru.stamp_evictTo hwf hx, LazyLru.stamp_evictTo hwf hy]

/-- A history leaves the capacity alone. -/
@[simp] theorem capacity_runCalls (s : KvCacheSim) (calls : List (List UInt64)) :
    (s.runCalls calls).capacity = s.capacity := by
  induction calls generalizing s with
  | nil => rfl
  | cons hs calls ih => exact ih (s.lookupInsert hs).2

/-- The cache after a history is what the history determines. -/
theorem tracks_runCalls (capacity : ℕ) (calls : List (List UInt64)) :
    Tracks calls ((new capacity).runCalls calls) := by
  induction calls using List.reverseRecOn with
  | nil => exact tracks_new capacity
  | append_singleton calls hs ih =>
    rw [runCalls, List.foldl_append]
    exact ih.lookupInsert hs

/-- The hashes cached after a history. -/
theorem keys_runCalls (capacity : ℕ) (calls : List (List UInt64)) :
    ((new capacity).runCalls calls).map.keys =
      Ranking.firsts (historyRank calls) capacity (passed calls) := by
  have h := (tracks_runCalls capacity calls).keys
  rwa [capacity_runCalls] at h

/-- **The replica's KV cache is characterised by its history**: after any history of calls the cached
set is the set of the `min capacity n` highest-ranked of the `n` distinct hashes ever passed; the next
call answers the length of the longest leading run of its list in that set; and a larger capacity
caches a larger set and answers a larger count.

**Proof sketch.** `tracks_runCalls` for the set, `Ranking.card_firsts` for its size; a call counts the
leading blocks cached before it; and `Ranking.firsts_mono` for the comparison of capacities. -/
theorem runCalls_history (capacity : ℕ) (calls : List (List UInt64)) :
    ((new capacity).runCalls calls).map.keys =
        Ranking.firsts (historyRank calls) capacity (passed calls) ∧
      ((new capacity).runCalls calls).len = min capacity (passed calls).card ∧
      (∀ hs, (((new capacity).runCalls calls).lookupInsert hs).1 =
        (hs.takeWhile (· ∈ Ranking.firsts (historyRank calls) capacity (passed calls))).length) ∧
      ∀ capacity', capacity ≤ capacity' →
        ((new capacity).runCalls calls).map.keys ⊆ ((new capacity').runCalls calls).map.keys ∧
        ∀ hs, (((new capacity).runCalls calls).lookupInsert hs).1 ≤
          (((new capacity').runCalls calls).lookupInsert hs).1 := by
  refine ⟨keys_runCalls capacity calls, ?_, fun hs => ?_, fun capacity' hle => ?_⟩
  · rw [len, LazyLru.size, keys_runCalls, Ranking.card_firsts (historyRank_injOn calls)]
  · rw [lookupInsert_fst, LazyLru.leading, ← keys_runCalls]
    congr 2
    funext h
    rw [Bool.eq_iff_iff, LazyLru.contains_iff, decide_eq_true_iff]
  · have hsub : ((new capacity).runCalls calls).map.keys ⊆
        ((new capacity').runCalls calls).map.keys := by
      rw [keys_runCalls, keys_runCalls]
      exact Ranking.firsts_mono hle
    refine ⟨hsub, fun hs => ?_⟩
    rw [lookupInsert_fst, lookupInsert_fst]
    exact LazyLru.leading_mono hsub hs

end KvCacheSim
