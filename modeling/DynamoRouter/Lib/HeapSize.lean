import DynamoRouter.Lib.Recency

set_option relaxedAutoImplicit false
set_option autoImplicit false

/-!
# The size of a lazily cleaned heap

Stale entries are not free: they stay in the heap until they are popped or the heap is rebuilt. A rebuild
happens after a round of touches, when the heap holds more than twice as many entries as the map; the
eviction that follows may then take away most of the map. Still the heap stays within three times the
map, as long as a round touches no key twice and starts within the budget.

The reason is in the order of popping. Either the eviction reaches into the keys of the round; then all
older entries are popped, and what is left are the entries of the round, none of which is stale. Or the
keys of the round are all kept, so that the round has at most as many keys as the budget, and the map
was at most twice the budget.

## Main definitions

* `LazyLru.HeapOk` — the entries of the heap are distinct, and not ahead of the counters.
* `LazyLru.LeavesHeap` — what the eviction loop does to the heap.

## Main results

* `LazyLru.leavesHeap_evictLoop` — the eviction loop, as far as the heap is concerned.
* `LazyLru.len_heap_evictTo_tick` — the size of the heap after a round of touches and an eviction.
-/

namespace LazyLru

variable {K : Type*} [LinearOrder K]

/-! ## The heap after a round of touches -/

/-- The entries of the heap are distinct, and not ahead of the counters. -/
structure HeapOk (c : LazyLru K) : Prop where
  /-- No entry occurs twice. -/
  nodup : c.heap.toList.Nodup
  /-- Access times do not exceed the clock. -/
  access_le : ∀ e ∈ c.heap.toList, e.stamp.1 ≤ c.clock
  /-- Sequence numbers do not exceed the counter. -/
  seq_le : ∀ e ∈ c.heap.toList, e.stamp.2 ≤ c.seq

/-- The entries of the access time `a` are not stale. -/
def Fresh (a : ℕ) (c : LazyLru K) : Prop :=
  ∀ e ∈ c.heap.toList, e.stamp.1 = a → c.map.lookup e.key = some e.stamp

/-- The heap of the empty map is in order. -/
theorem heapOk_empty : HeapOk (empty : LazyLru K) where
  nodup := List.nodup_nil
  access_le _ he := absurd he List.not_mem_nil
  seq_le _ he := absurd he List.not_mem_nil

/-- Advancing the clock keeps the heap in order. -/
theorem HeapOk.advance {c : LazyLru K} (h : c.HeapOk) {clock : ℕ} (hclock : c.clock ≤ clock) :
    HeapOk { c with clock := clock } where
  nodup := h.nodup
  access_le e he := (h.access_le e he).trans hclock
  seq_le := h.seq_le

/-- A touch keeps the heap in order: its entry carries a new sequence number. -/
theorem HeapOk.push {c : LazyLru K} (h : c.HeapOk) (k : K) : (c.push c.clock k).HeapOk := by
  have hnew : entry (c.clock, c.seq + 1) k ∉ c.heap.toList := fun hmem => by
    have := h.seq_le _ hmem
    simp only [stamp_entry] at this
    omega
  refine ⟨BinaryHeap.nodup_push h.nodup hnew, fun e he => ?_, fun e he => ?_⟩
  · rcases BinaryHeap.mem_push.mp he with rfl | he
    · exact le_rfl
    · exact h.access_le e he
  · rcases BinaryHeap.mem_push.mp he with rfl | he
    · exact le_rfl
    · exact (h.seq_le e he).trans (Nat.le_succ _)

/-- A list of touches keeps the heap in order. -/
theorem HeapOk.foldl_push {c : LazyLru K} (h : c.HeapOk) (hs : List K) :
    (hs.foldl (LazyLru.push c.clock) c).HeapOk := by
  induction hs generalizing c with
  | nil => exact h
  | cons k hs ih => exact ih (h.push k)

/-- The entries of a list of distinct touches are not stale.

**Proof sketch.** Induction on the list: the entries of its access time belong to keys touched before,
which are not touched again. -/
theorem fresh_foldl_push {a : ℕ} {hs : List K} (hnd : hs.Nodup) : ∀ {c : LazyLru K},
    (∀ e ∈ c.heap.toList, e.stamp.1 = a → c.map.lookup e.key = some e.stamp ∧ e.key ∉ hs) →
    Fresh a (hs.foldl (push a) c) := by
  induction hs with
  | nil => exact fun h e he ha => (h e he ha).1
  | cons k hs ih =>
    intro c h
    obtain ⟨hk, hnd⟩ := List.nodup_cons.mp hnd
    refine ih hnd fun e he ha => ?_
    rcases BinaryHeap.mem_push.mp he with rfl | he
    · exact ⟨by simp [push], hk⟩
    · obtain ⟨hlive, hnot⟩ := h e he ha
      rw [List.mem_cons, not_or] at hnot
      obtain ⟨hne, hnot⟩ := hnot
      refine ⟨?_, hnot⟩
      rw [push, Finmap.lookup_insert_of_ne _ hne]
      exact hlive

/-- The rebuilt heap holds the entries of the map. -/
theorem toList_compactIfBloated (floor : ℕ) (c : LazyLru K) :
    (c.compactIfBloated floor).heap = c.heap ∨
      (c.compactIfBloated floor).heap = .collect (entries c.map) := by
  unfold compactIfBloated
  split_ifs
  · exact .inr rfl
  · exact .inl rfl

/-- The length of the heap after a compaction: a rebuilt heap has an entry for each key. -/
theorem len_heap_compactIfBloated (floor : ℕ) (c : LazyLru K) :
    (c.compactIfBloated floor).heap.len =
      if 2 * max c.size floor < c.heap.len then c.size else c.heap.len := by
  unfold compactIfBloated
  split_ifs
  · rw [BinaryHeap.len_collect]
    exact card_entries c.map
  · rfl

/-- After a compaction the heap is within twice the map. -/
theorem len_heap_compactIfBloated_le (floor : ℕ) (c : LazyLru K) :
    (c.compactIfBloated floor).heap.len ≤ 2 * max c.size floor := by
  rw [len_heap_compactIfBloated]
  split_ifs <;> omega

/-- Compaction keeps the heap in order. -/
theorem HeapOk.compactIfBloated {c : LazyLru K} (h : c.HeapOk) (hc : c.Wf) (floor : ℕ) :
    (c.compactIfBloated floor).HeapOk := by
  rcases toList_compactIfBloated floor c with heap | heap
  · refine ⟨heap ▸ h.nodup, fun e he => ?_, fun e he => ?_⟩
    · rw [clock_compactIfBloated]
      exact h.access_le e (heap ▸ he)
    · rw [seq_compactIfBloated]
      exact h.seq_le e (heap ▸ he)
  · have hmem : ∀ e ∈ (c.compactIfBloated floor).heap.toList, c.map.lookup e.key = some e.stamp :=
      fun e he => by
        rw [heap, BinaryHeap.mem_collect, mem_entries] at he
        exact he
    refine ⟨?_, fun e he => ?_, fun e he => ?_⟩
    · rw [heap, BinaryHeap.nodup_collect]
      exact nodup_entries c.map
    · rw [clock_compactIfBloated]
      exact hc.access_le _ _ (hmem e he)
    · rw [seq_compactIfBloated]
      exact hc.seq_le _ _ (hmem e he)

/-- Compaction makes no entry stale. -/
theorem Fresh.compactIfBloated {a : ℕ} {c : LazyLru K} (h : Fresh a c) (floor : ℕ) :
    Fresh a (c.compactIfBloated floor) := by
  intro e he ha
  rw [map_compactIfBloated]
  rcases toList_compactIfBloated floor c with heap | heap
  · exact h e (heap ▸ he) ha
  · rw [heap, BinaryHeap.mem_collect, mem_entries] at he
    exact he

/-- A round of touches keeps the heap in order. -/
theorem HeapOk.tick {c : LazyLru K} (h : c.HeapOk) (hc : c.Wf) (floor : ℕ) (hs : List K) :
    (c.tick floor hs).HeapOk :=
  ((h.advance (Nat.le_succ c.clock)).foldl_push hs).compactIfBloated
    ((hc.advance (Nat.le_succ c.clock)).foldl_push hs) floor

/-- The entries of a round of distinct touches are not stale. -/
theorem HeapOk.fresh_tick {c : LazyLru K} (h : c.HeapOk) (floor : ℕ) {hs : List K} (hnd : hs.Nodup) :
    Fresh (c.clock + 1) (c.tick floor hs) := by
  refine (fresh_foldl_push hnd fun e he ha => ?_).compactIfBloated floor
  have := h.access_le e he
  omega

/-- After a round the heap is within twice the map. -/
theorem len_heap_tick_le (floor : ℕ) (c : LazyLru K) (hs : List K) :
    (c.tick floor hs).heap.len ≤ 2 * max (c.tick floor hs).size floor := by
  have hsize : (c.tick floor hs).size =
      (hs.foldl (push (c.clock + 1)) { c with clock := c.clock + 1 }).size := by
    rw [tick, size, map_compactIfBloated, size]
  rw [hsize]
  exact len_heap_compactIfBloated_le floor _

/-! ## The heap after an eviction -/

/-- What the eviction loop does to the heap `es` of the map `m`, where it leaves `es'` and `m'`. -/
structure LeavesHeap (m m' : Finmap fun _ : K => ℕ × ℕ) (es es' : List (Entry K)) : Prop where
  /-- Entries are popped from the front. -/
  suffix : es' <:+ es
  /-- An entry is popped for each removed key. -/
  pops : es'.length + m.keys.card ≤ es.length + m'.keys.card
  /-- No entry that is left would have popped before that of a removed key. -/
  behind : ∀ k st, m.lookup k = some st → k ∉ m'.keys → ∀ e ∈ es', e ≤ entry st k
  /-- An entry that was not stale, and is left, is not stale. -/
  current : es.Nodup → ∀ e ∈ es', m.lookup e.key = some e.stamp → m'.lookup e.key = some e.stamp

/-- The loop that stops leaves everything. -/
theorem leavesHeap_refl (m : Finmap fun _ : K => ℕ × ℕ) (es : List (Entry K)) :
    LeavesHeap m m es es where
  suffix := List.suffix_rfl
  pops := by omega
  behind _ _ hst hk := absurd (mem_keys_of_lookup hst) hk
  current _ _ _ h := h

/-- **The eviction loop, as far as the heap is concerned.**

**Proof sketch.** Induction on the entries in the order of popping, as in `evictLoop_spec`. A popped entry
is not below any entry that is left, and if it removes a key then it is the entry of that key. -/
theorem leavesHeap_evictLoop (b : ℕ) (es : List (Entry K)) (hes : es.Pairwise (· ≥ ·)) :
    ∀ m : Finmap fun _ : K => ℕ × ℕ,
      LeavesHeap m (evictLoop b m es hes).1 es (evictLoop b m es hes).2.toList := by
  induction es with
  | nil => exact fun m => leavesHeap_refl m []
  | cons e es ih =>
    intro m
    by_cases hb : b < m.keys.card
    · simp only [evictLoop, if_pos hb]
      by_cases hcur : m.lookup e.key = some e.stamp
      · -- the popped entry is current: its key is evicted
        rw [if_pos hcur]
        obtain ⟨hsuffix, hpops, hbehind, hcurrent⟩ := ih hes.of_cons (m.erase e.key)
        have hkey : e.key ∈ m.keys := mem_keys_of_lookup hcur
        refine ⟨hsuffix.trans (List.suffix_cons e es), ?_, fun k st hst hk e' he' => ?_,
          fun hnd e' he' hst => ?_⟩
        · rw [Finmap.keys_erase, Finset.card_erase_of_mem hkey] at hpops
          simp only [List.length_cons]
          omega
        · by_cases hke : k = e.key
          · have he : entry st k = e := by
              rw [hke, hcur, Option.some_inj] at hst
              rw [← hst, hke, entry_stamp_key]
            rw [he]
            exact List.rel_of_pairwise_cons hes (hsuffix.subset he')
          · exact hbehind k st (by rwa [Finmap.lookup_erase_ne hke]) hk e' he'
        · -- an entry that is left is not the popped one
          obtain ⟨hnot, hnd⟩ := List.nodup_cons.mp hnd
          have hne : e'.key ≠ e.key := fun heq => by
            rw [heq, hcur, Option.some_inj] at hst
            have : e = e' := by rw [← entry_stamp_key e, ← entry_stamp_key e', hst, heq]
            exact hnot (this ▸ hsuffix.subset he')
          exact hcurrent hnd e' he' (by rwa [Finmap.lookup_erase_ne hne])
      · -- the popped entry is stale: discarded
        rw [if_neg hcur]
        obtain ⟨hsuffix, hpops, hbehind, hcurrent⟩ := ih hes.of_cons m
        refine ⟨hsuffix.trans (List.suffix_cons e es), ?_, hbehind, fun hnd => ?_⟩
        · simp only [List.length_cons]
          omega
        · exact hcurrent (List.nodup_cons.mp hnd).2
    · simp only [evictLoop, if_neg hb]
      exact leavesHeap_refl m (e :: es)

/-- What `evictTo` does to the heap. -/
theorem leavesHeap_evictTo (b : ℕ) (c : LazyLru K) :
    LeavesHeap c.map (c.evictTo b).map c.heap.toList (c.evictTo b).heap.toList :=
  leavesHeap_evictLoop b c.heap.toList c.heap.sorted c.map

/-- An eviction keeps the heap in order. -/
theorem HeapOk.evictTo {c : LazyLru K} (h : c.HeapOk) (b : ℕ) : (c.evictTo b).HeapOk := by
  have hsuffix := (leavesHeap_evictTo b c).suffix
  exact ⟨h.nodup.sublist hsuffix.sublist, fun e he => h.access_le e (hsuffix.subset he),
    fun e he => h.seq_le e (hsuffix.subset he)⟩

/-- A heap of distinct entries, none of which is stale, is within the map. -/
theorem length_le_of_current {m : Finmap fun _ : K => ℕ × ℕ} {es : List (Entry K)} (hnd : es.Nodup)
    (h : ∀ e ∈ es, m.lookup e.key = some e.stamp) : es.length ≤ m.keys.card := by
  have hkeys : (es.map Entry.key).Nodup := by
    refine hnd.map_on fun e he e' he' hk => ?_
    have hst := h e he
    rw [hk, h e' he', Option.some_inj] at hst
    rw [← entry_stamp_key e, ← entry_stamp_key e', hk, hst]
  have hsub : (es.map Entry.key).toFinset ⊆ m.keys := fun k hk => by
    obtain ⟨e, he, rfl⟩ := List.mem_map.mp (List.mem_toFinset.mp hk)
    exact mem_keys_of_lookup (h e he)
  have hcard := Finset.card_le_card hsub
  rwa [List.toFinset_card_of_nodup hkeys, List.length_map] at hcard

/-- If the eviction reaches into the round, then the heap it leaves is within the map.

**Proof sketch.** Every entry that is left is not older than the one that was evicted from the round, so it
is of the round too; and the entries of the round are not stale. -/
theorem len_heap_le_of_evicted {c : LazyLru K} (h : c.HeapOk) (hfresh : Fresh c.clock c) {b : ℕ} {k : K}
    {st : ℕ × ℕ} (hst : c.map.lookup k = some st) (hround : st.1 = c.clock)
    (hk : k ∉ (c.evictTo b).map.keys) : (c.evictTo b).heap.len ≤ (c.evictTo b).size := by
  have hleaves := leavesHeap_evictTo b c
  refine length_le_of_current (h.evictTo b).nodup fun e he => ?_
  have hmem : e ∈ c.heap.toList := hleaves.suffix.subset he
  have hle : c.clock ≤ e.stamp.1 := by
    have hentry : entry e.stamp e.key ≤ entry st k := hleaves.behind k st hst hk e he
    have hplace := place_le_of_entry_le hentry
    rw [← not_lt, place_lt_iff] at hplace
    omega
  exact hleaves.current h.nodup e he (hfresh e hmem (le_antisymm (h.access_le e hmem) hle))

/-- **The heap stays within three times the map.** Let a map within the budget, whose heap is in order, be
touched at distinct keys, and then cut down to the budget. Then its heap has at most three times as many
entries as the map, which counts for at least `floor`.

**Proof sketch.** Within the budget nothing is popped, and the bound is that of the compaction. Over the
budget, if the eviction reaches into the round, use `len_heap_le_of_evicted`. Otherwise all keys of the
round are kept, so there are at most `b` of them, and at most `2 * b` keys in all; the heap had at most
twice as many entries, and one was popped for each key over the budget. -/
theorem len_heap_evictTo_tick {c : LazyLru K} (hc : c.Wf) (h : c.HeapOk) (floor : ℕ) {b : ℕ}
    (hb : c.size ≤ b) {hs : List K} (hnd : hs.Nodup) :
    ((c.tick floor hs).evictTo b).heap.len ≤ 3 * max ((c.tick floor hs).evictTo b).size floor := by
  set c' := c.tick floor hs with hc'
  have hwf : c'.Wf := hc.tick floor hs
  have hsize : (c'.evictTo b).size = min b c'.size := size_evictTo hwf b
  have hlen : c'.heap.len ≤ 2 * max c'.size floor := len_heap_tick_le floor c hs
  have hpops : (c'.evictTo b).heap.len + c'.size ≤ c'.heap.len + (c'.evictTo b).size :=
    (leavesHeap_evictTo b c').pops
  by_cases hkept : ∀ k ∈ hs, k ∈ (c'.evictTo b).map.keys
  · -- the keys of the round are kept, so there are few of them
    have hround : hs.length ≤ (c'.evictTo b).size := by
      rw [← List.toFinset_card_of_nodup hnd]
      exact Finset.card_le_card fun k hk => hkept k (List.mem_toFinset.mp hk)
    have hgrow : c'.size ≤ c.size + hs.length := by
      rw [size, hc', keys_tick, ← List.toFinset_card_of_nodup hnd]
      exact Finset.card_union_le _ _
    omega
  · push Not at hkept
    obtain ⟨k, hk, hnot⟩ := hkept
    have hst : c'.map.lookup k = some (c.clock + 1, c.seq + lastIdx (· == k) hs + 1) := by
      rw [hc', lookup_tick, if_pos hk]
    have hclock : c'.clock = c.clock + 1 := clock_tick floor c hs
    have hfresh : Fresh c'.clock c' := hclock ▸ h.fresh_tick floor hnd
    have hok : c'.HeapOk := h.tick hc floor hs
    have hle := len_heap_le_of_evicted hok hfresh hst hclock.symm hnot
    omega

end LazyLru
