import Mathlib.Data.Finmap
import Mathlib.Data.List.TakeWhile
import Mathlib.Data.Prod.Lex
import DynamoRouter.Lib.BinaryHeap
import DynamoRouter.Lib.Ranking

set_option relaxedAutoImplicit false
set_option autoImplicit false

/-!
# LRU maps with a lazily cleaned heap

A set of keys, each stamped with the time of its last access and a sequence number, kept in a map;
beside it a heap of eviction candidates. Every touch of a key writes a fresh stamp to the map and
pushes it on the heap, and leaves the key's older heap entries behind: these are *stale*. Eviction
pops the heap and removes a key only if the popped stamp is the one in the map. A heap that has
outgrown the map is rebuilt from it.

The least recently accessed key goes first; among keys with the same access time, the one with the
largest sequence number.

## Main definitions

* `LazyLru K` — the map, the heap and the two counters.
* `LazyLru.push`, `LazyLru.compactIfBloated`, `LazyLru.evictTo` — the operations.
* `LazyLru.tick` — one round of touches: advance the clock, push a list of keys, compact.
* `LazyLru.rank` — the order of eviction on keys; `LazyLru.Wf` — the invariant linking heap and map.
* `LazyLru.lastIdx` — the position of the last element of a list with a property.

## Main results

* `LazyLru.keys_evictTo`, `LazyLru.lookup_evictTo` — **eviction is exact**: it keeps the `b` first
  keys of the eviction order, with their stamps, however many stale entries the heap holds.
* `LazyLru.lookup_tick` — the stamps after a round of touches.
* `LazyLru.Wf.tick`, `LazyLru.Wf.evictTo` — the operations keep the invariant.
* `LazyLru.mem_evictTo_tick_iff` — after a round of distinct keys, eviction keeps the first `b`.
-/

namespace LazyLru

/-! ## Last positions -/

/-- The index of the last element of the list that satisfies `p` (`0` if there is none). -/
def lastIdx {α : Type*} (p : α → Bool) : List α → ℕ
  | [] => 0
  | _ :: xs => if xs.any p then lastIdx p xs + 1 else 0

/-- The last index is below the length, if some element satisfies `p`. -/
theorem lastIdx_lt {α : Type*} {p : α → Bool} : ∀ {xs : List α}, xs.any p → lastIdx p xs < xs.length
  | [], h => by simp at h
  | x :: xs, h => by
    rw [lastIdx]
    split_ifs with hany
    · have := lastIdx_lt hany
      simp only [List.length_cons]
      omega
    · simp

/-- The element at the last index satisfies `p`, if some element does. -/
theorem lastIdx_spec {α : Type*} {p : α → Bool} : ∀ {xs : List α}, xs.any p →
    ∃ x ∈ xs, xs[lastIdx p xs]? = some x ∧ p x
  | [], h => by simp at h
  | x :: xs, h => by
    rw [lastIdx]
    split_ifs with hany
    · obtain ⟨y, hy, hget, hp⟩ := lastIdx_spec hany
      exact ⟨y, List.mem_cons_of_mem _ hy, by rwa [List.getElem?_cons_succ], hp⟩
    · refine ⟨x, List.mem_cons_self, rfl, ?_⟩
      rw [List.any_cons, Bool.or_eq_true] at h
      exact h.resolve_right hany

/-- Appending an element that satisfies `p` makes it the last one; another one changes nothing. -/
theorem lastIdx_concat {α : Type*} (p : α → Bool) (xs : List α) (x : α) :
    lastIdx p (xs ++ [x]) = if p x then xs.length else lastIdx p xs := by
  induction xs with
  | nil => simp [lastIdx]
  | cons y ys ih =>
    simp only [List.cons_append, lastIdx, List.any_append, List.any_cons, List.any_nil,
      Bool.or_false, ih, List.length_cons]
    by_cases hx : p x <;> simp [hx]

/-- Equal last positions in one list belong to equal elements. -/
theorem lastIdx_beq_inj {α : Type*} [DecidableEq α] {x y : α} :
    ∀ {xs : List α}, x ∈ xs → y ∈ xs → lastIdx (· == x) xs = lastIdx (· == y) xs → x = y
  | [], hx, _, _ => by simp at hx
  | z :: zs, hx, hy, h => by
    simp only [lastIdx, List.any_beq', List.elem_eq_mem, decide_eq_true_eq] at h
    split_ifs at h with hxz hyz hyz
    · exact lastIdx_beq_inj hxz hyz (by omega)
    · have h1 : x = z := (List.mem_cons.mp hx).resolve_right hxz
      have h2 : y = z := (List.mem_cons.mp hy).resolve_right hyz
      rw [h1, h2]

/-- In a list without repetition the last position of an element is its only one. -/
theorem lastIdx_getElem {α : Type*} [DecidableEq α] :
    ∀ {xs : List α} {i : ℕ} (hi : i < xs.length), xs.Nodup → lastIdx (· == xs[i]) xs = i
  | x :: xs, 0, _, hnd => by
    rw [List.nodup_cons] at hnd
    simp [lastIdx, hnd.1]
  | x :: xs, i + 1, hi, hnd => by
    have hi' : i < xs.length := by simpa using hi
    simp only [List.getElem_cons_succ, lastIdx, List.any_beq', List.elem_eq_mem,
      List.getElem_mem, decide_true, if_true]
    rw [lastIdx_getElem hi' (List.nodup_cons.mp hnd).2]

end LazyLru

/-! ## Stamps and the eviction order -/

/-- A heap entry `(Reverse(access), seq, key)`, compared lexicographically. -/
abbrev LazyLru.Entry (K : Type*) := ℕᵒᵈ ×ₗ (ℕ ×ₗ K)

/-- An LRU map over the keys `K`: the stamps `(access, seq)` of the present keys, the lazily cleaned
heap of eviction candidates, the clock of the last round of touches, and the number of touches. -/
structure LazyLru (K : Type*) [LinearOrder K] where
  /-- The stamp of each present key. -/
  map : Finmap fun _ : K => ℕ × ℕ
  /-- The eviction candidates, stale ones included. -/
  heap : BinaryHeap (LazyLru.Entry K)
  /-- The access time of the last round. -/
  clock : ℕ
  /-- The sequence number of the last touch. -/
  seq : ℕ

namespace LazyLru

section Entries

variable {K : Type*}

/-- The heap entry of a key with a given stamp. -/
def entry (st : ℕ × ℕ) (h : K) : Entry K := toLex (OrderDual.toDual st.1, toLex (st.2, h))

/-- The key of a heap entry. -/
def Entry.key (e : Entry K) : K := (ofLex (ofLex e).2).2

/-- The stamp of a heap entry. -/
def Entry.stamp (e : Entry K) : ℕ × ℕ := (OrderDual.ofDual (ofLex e).1, (ofLex (ofLex e).2).1)

/-- The place of a stamp in the eviction order, earlier ones being kept longer: the most recent
access first and, within one access time, the smallest sequence number first. -/
def place (st : ℕ × ℕ) : ℕᵒᵈ ×ₗ ℕ := toLex (OrderDual.toDual st.1, st.2)

/-- The key of an entry. -/
@[simp] theorem key_entry (st : ℕ × ℕ) (h : K) : (entry st h).key = h := rfl

/-- The stamp of an entry. -/
@[simp] theorem stamp_entry (st : ℕ × ℕ) (h : K) : (entry st h).stamp = st := rfl

/-- An entry is given by its stamp and its key. -/
@[simp] theorem entry_stamp_key (e : Entry K) : entry e.stamp e.key = e := rfl

end Entries

variable {K : Type*} [LinearOrder K]

/-- The eviction order on stamps, spelled out. -/
theorem place_lt_iff {st st' : ℕ × ℕ} :
    place st < place st' ↔ st'.1 < st.1 ∨ st.1 = st'.1 ∧ st.2 < st'.2 := by
  simp only [place, Prod.Lex.toLex_lt_toLex, OrderDual.toDual_lt_toDual,
    OrderDual.toDual.injective.eq_iff]

/-- Stamps with the same place are equal. -/
theorem place_injective : Function.Injective place := by
  rintro ⟨a, q⟩ ⟨a', q'⟩ h
  simpa [place, Prod.ext_iff] using h

/-- A smaller entry of the heap has an earlier or equal place. -/
theorem place_le_of_entry_le {st st' : ℕ × ℕ} {h h' : K} (hle : entry st h ≤ entry st' h') :
    place st ≤ place st' := by
  rw [← not_lt, place_lt_iff]
  simp only [entry, Prod.Lex.toLex_le_toLex, OrderDual.toDual_lt_toDual,
    OrderDual.toDual.injective.eq_iff] at hle
  omega

/-- Whether a key is present. -/
def contains (c : LazyLru K) (h : K) : Bool := (c.map.lookup h).isSome

/-- The number of leading keys of the list that are present. -/
def leading (c : LazyLru K) (hs : List K) : ℕ := (hs.takeWhile c.contains).length

/-- The empty map. -/
def empty : LazyLru K := ⟨∅, .empty, 0, 0⟩

/-- The number of present keys. -/
def size (c : LazyLru K) : ℕ := c.map.keys.card

/-- The stamp of a present key (`(0, 0)` for an absent one). -/
def stamp (c : LazyLru K) (h : K) : ℕ × ℕ := (c.map.lookup h).getD (0, 0)

/-- The eviction order on keys: the place of the key's stamp. -/
def rank (c : LazyLru K) (h : K) : ℕᵒᵈ ×ₗ ℕ := place (c.stamp h)

/-! ## The operations -/

/-- Touch one key at time `access`: stamp it afresh and push the stamp on the heap. -/
def push (access : ℕ) (c : LazyLru K) (h : K) : LazyLru K :=
  { c with
    seq := c.seq + 1
    map := c.map.insert h (access, c.seq + 1)
    heap := c.heap.push (entry (access, c.seq + 1) h) }

/-- Rebuild the heap from the map once it holds more than twice as many entries as the map, the map
counting for at least `floor`. -/
def compactIfBloated (floor : ℕ) (c : LazyLru K) : LazyLru K :=
  if 2 * max c.size floor < c.heap.len then
    { c with heap := .collect (c.map.entries.map fun b => entry b.2 b.1) }
  else c

/-- The eviction loop on a map and the entries of a heap in the order of popping: while the map is
over the budget, pop an entry, and remove its key if the entry is not stale. -/
def evictLoop (budget : ℕ) (m : Finmap fun _ : K => ℕ × ℕ) :
    (es : List (Entry K)) → es.Pairwise (· ≥ ·) → (Finmap fun _ : K => ℕ × ℕ) × BinaryHeap (Entry K)
  | [], h => (m, ⟨[], h⟩)
  | e :: es, h =>
    if budget < m.keys.card then
      evictLoop budget (if m.lookup e.key = some e.stamp then m.erase e.key else m) es h.of_cons
    else (m, ⟨e :: es, h⟩)

/-- Evict keys until at most `budget` are left. -/
def evictTo (budget : ℕ) (c : LazyLru K) : LazyLru K :=
  let r := evictLoop budget c.map c.heap.toList c.heap.sorted
  { c with map := r.1, heap := r.2 }

/-- The eviction loop finds the heap empty while the map is still over the budget. -/
def FindsHeapEmpty (budget : ℕ) (m : Finmap fun _ : K => ℕ × ℕ) : List (Entry K) → Prop
  | [] => budget < m.keys.card
  | e :: es => budget < m.keys.card ∧
      FindsHeapEmpty budget (if m.lookup e.key = some e.stamp then m.erase e.key else m) es

/-- One round of touches: advance the clock, touch every key of the list, compact. -/
def tick (floor : ℕ) (c : LazyLru K) (hs : List K) : LazyLru K :=
  (hs.foldl (push (c.clock + 1)) { c with clock := c.clock + 1 }).compactIfBloated floor

/-- The loop of `evictTo`, one turn at a time: it stops within the budget or when the heap is empty,
and otherwise pops one entry. -/
theorem evictTo_eq (budget : ℕ) (c : LazyLru K) :
    c.evictTo budget =
      if budget < c.size then
        match c.heap.pop with
        | none => c
        | some (e, heap) =>
          evictTo budget { c with
            map := if c.map.lookup e.key = some e.stamp then c.map.erase e.key else c.map
            heap := heap }
      else c := by
  obtain ⟨m, ⟨es, hes⟩, clock, seq⟩ := c
  cases es with
  | nil => simp [evictTo, evictLoop, BinaryHeap.pop]
  | cons e es =>
    by_cases hb : budget < m.keys.card <;> simp [evictTo, evictLoop, BinaryHeap.pop, size, hb]

/-! ## The map under the operations -/

/-- The stamp of a present key is in the map. -/
theorem lookup_eq_stamp {c : LazyLru K} {h : K} (hh : h ∈ c.map.keys) :
    c.map.lookup h = some (c.stamp h) := by
  obtain ⟨st, hst⟩ := Finmap.mem_iff.mp (Finmap.mem_keys.mp hh)
  simp [stamp, hst]

/-- A key with a stamp is present. -/
theorem mem_keys_of_lookup {m : Finmap fun _ : K => ℕ × ℕ} {h : K} {st : ℕ × ℕ}
    (hst : m.lookup h = some st) : h ∈ m.keys :=
  Finmap.mem_keys.mpr (Finmap.mem_of_lookup_eq_some hst)

/-- The stamp read off a lookup. -/
theorem stamp_eq_of_lookup {c : LazyLru K} {h : K} {st : ℕ × ℕ} (hst : c.map.lookup h = some st) :
    c.stamp h = st := by simp [stamp, hst]

/-- A key is present if the map has a stamp for it. -/
@[simp] theorem contains_iff {c : LazyLru K} {h : K} : c.contains h = true ↔ h ∈ c.map.keys := by
  rw [contains, Finmap.lookup_isSome, Finmap.mem_keys]

/-- Touching a present key does not change which keys are present. -/
theorem contains_push {c : LazyLru K} {h : K} (hh : c.contains h) (a : ℕ) :
    (c.push a h).contains = c.contains := by
  funext k
  by_cases hk : k = h
  · subst hk
    simpa [contains, push] using hh
  · simp [contains, push, Finmap.lookup_insert_of_ne _ hk]

/-- A map with more keys counts more leading keys. -/
theorem leading_mono {c c' : LazyLru K} (h : c.map.keys ⊆ c'.map.keys) (hs : List K) :
    c.leading hs ≤ c'.leading hs := by
  induction hs with
  | nil => exact le_rfl
  | cons k hs ih =>
    simp only [leading, List.takeWhile_cons] at ih ⊢
    split_ifs with hk hk'
    · exact Nat.succ_le_succ ih
    · exact absurd (contains_iff.mpr (h (contains_iff.mp hk))) hk'
    · exact Nat.zero_le _
    · exact le_rfl

/-- At most the whole list is counted. -/
theorem leading_le_length (c : LazyLru K) (hs : List K) : c.leading hs ≤ hs.length :=
  (List.takeWhile_sublist _).length_le

/-- If the first `m` keys are present, they are counted. -/
theorem le_leading {c : LazyLru K} {hs : List K} {m : ℕ} (hm : m ≤ hs.length)
    (h : ∀ k ∈ hs.take m, k ∈ c.map.keys) : m ≤ c.leading hs := by
  induction hs generalizing m with
  | nil => exact hm
  | cons k hs ih =>
    cases m with
    | zero => exact Nat.zero_le _
    | succ m =>
      rw [List.take_succ_cons, List.forall_mem_cons] at h
      have := ih (Nat.le_of_succ_le_succ hm) h.2
      rw [leading, List.takeWhile_cons, if_pos (contains_iff.mpr h.1), List.length_cons]
      exact Nat.succ_le_succ this

/-- A list of distinct keys has at most as many present leading keys as there are present keys. -/
theorem leading_le_size {c : LazyLru K} {hs : List K} (hnd : hs.Nodup) :
    c.leading hs ≤ c.size := by
  have hsub : (hs.takeWhile c.contains).toFinset ⊆ c.map.keys := fun h hh =>
    contains_iff.mp (List.mem_takeWhile_imp (List.mem_toFinset.mp hh))
  rw [leading, ← List.toFinset_card_of_nodup (hnd.sublist (List.takeWhile_sublist _))]
  exact Finset.card_le_card hsub

/-- Compaction leaves the map alone. -/
@[simp] theorem map_compactIfBloated (floor : ℕ) (c : LazyLru K) :
    (c.compactIfBloated floor).map = c.map := by
  unfold compactIfBloated
  split_ifs <;> rfl

/-- Compaction leaves the clock alone. -/
@[simp] theorem clock_compactIfBloated (floor : ℕ) (c : LazyLru K) :
    (c.compactIfBloated floor).clock = c.clock := by
  unfold compactIfBloated
  split_ifs <;> rfl

/-- Compaction leaves the sequence number alone. -/
@[simp] theorem seq_compactIfBloated (floor : ℕ) (c : LazyLru K) :
    (c.compactIfBloated floor).seq = c.seq := by
  unfold compactIfBloated
  split_ifs <;> rfl

/-- Eviction leaves the clock alone. -/
@[simp] theorem clock_evictTo (b : ℕ) (c : LazyLru K) : (c.evictTo b).clock = c.clock := rfl

/-- Eviction leaves the sequence number alone. -/
@[simp] theorem seq_evictTo (b : ℕ) (c : LazyLru K) : (c.evictTo b).seq = c.seq := rfl

/-- Touches leave the clock alone. -/
@[simp] theorem clock_foldl_push (a : ℕ) (c : LazyLru K) (hs : List K) :
    (hs.foldl (push a) c).clock = c.clock := by
  induction hs generalizing c with
  | nil => rfl
  | cons h hs ih => rw [List.foldl_cons, ih]; rfl

/-- Each touch takes one sequence number. -/
@[simp] theorem seq_foldl_push (a : ℕ) (c : LazyLru K) (hs : List K) :
    (hs.foldl (push a) c).seq = c.seq + hs.length := by
  induction hs generalizing c with
  | nil => rfl
  | cons h hs ih =>
    rw [List.foldl_cons, ih, List.length_cons]
    simp only [push]
    omega

/-- The map after a list of touches: each touched key carries the stamp of its last touch. -/
theorem lookup_foldl_push (a : ℕ) (c : LazyLru K) (hs : List K) (h : K) :
    (hs.foldl (push a) c).map.lookup h =
      if h ∈ hs then some (a, c.seq + lastIdx (· == h) hs + 1) else c.map.lookup h := by
  induction hs generalizing c with
  | nil => simp
  | cons k hs ih =>
    rw [List.foldl_cons, ih]
    by_cases hmem : h ∈ hs
    · simp only [hmem, if_true, List.mem_cons, or_true, push, lastIdx, List.any_beq',
        List.elem_eq_mem, decide_true]
      rw [Nat.add_right_comm c.seq 1, Nat.add_assoc c.seq]
    · by_cases hk : h = k
      · subst hk
        simp [push, lastIdx, hmem]
      · simp [push, hmem, hk, Finmap.lookup_insert_of_ne]

/-- The clock after a round. -/
@[simp] theorem clock_tick (floor : ℕ) (c : LazyLru K) (hs : List K) :
    (c.tick floor hs).clock = c.clock + 1 := by simp [tick]

/-- The sequence number after a round. -/
@[simp] theorem seq_tick (floor : ℕ) (c : LazyLru K) (hs : List K) :
    (c.tick floor hs).seq = c.seq + hs.length := by simp [tick]

/-- **The stamps after a round of touches.** -/
theorem lookup_tick (floor : ℕ) (c : LazyLru K) (hs : List K) (h : K) :
    (c.tick floor hs).map.lookup h =
      if h ∈ hs then some (c.clock + 1, c.seq + lastIdx (· == h) hs + 1)
      else c.map.lookup h := by
  simp [tick, lookup_foldl_push]

/-- The keys after a round of touches. -/
theorem keys_tick (floor : ℕ) (c : LazyLru K) (hs : List K) :
    (c.tick floor hs).map.keys = c.map.keys ∪ hs.toFinset := by
  ext h
  rw [Finmap.mem_keys, ← Finmap.lookup_isSome, lookup_tick, Finset.mem_union, List.mem_toFinset,
    Finmap.mem_keys, ← Finmap.lookup_isSome]
  by_cases hh : h ∈ hs <;> simp [hh]

/-- The stamp of a key touched in a round. -/
theorem stamp_tick_of_mem {floor : ℕ} {c : LazyLru K} {hs : List K} {h : K} (hh : h ∈ hs) :
    (c.tick floor hs).stamp h = (c.clock + 1, c.seq + lastIdx (· == h) hs + 1) :=
  stamp_eq_of_lookup (by rw [lookup_tick, if_pos hh])

/-- The stamp of a key not touched in a round. -/
theorem stamp_tick_of_notMem {floor : ℕ} {c : LazyLru K} {hs : List K} {h : K} (hh : h ∉ hs) :
    (c.tick floor hs).stamp h = c.stamp h := by
  unfold stamp
  rw [lookup_tick, if_neg hh]

/-! ## The invariant -/

/-- The heap holds an entry for every key of the map, with the key's stamp. -/
def Live (m : Finmap fun _ : K => ℕ × ℕ) (es : List (Entry K)) : Prop :=
  ∀ h st, m.lookup h = some st → entry st h ∈ es

/-- The invariant linking heap, map and counters: every present key has its matching heap entry, no
stamp is ahead of the counters, and no two keys share a sequence number. -/
structure Wf (c : LazyLru K) : Prop where
  /-- Every present key can be popped. -/
  live : Live c.map c.heap.toList
  /-- Access times do not exceed the clock. -/
  access_le : ∀ h st, c.map.lookup h = some st → st.1 ≤ c.clock
  /-- Sequence numbers do not exceed the counter. -/
  seq_le : ∀ h st, c.map.lookup h = some st → st.2 ≤ c.seq
  /-- Sequence numbers tell keys apart. -/
  seq_inj : ∀ h h' st st', c.map.lookup h = some st → c.map.lookup h' = some st' →
    st.2 = st'.2 → h = h'

/-- The empty map satisfies the invariant. -/
theorem wf_empty : Wf (empty : LazyLru K) where
  live h st hst := by simp [empty] at hst
  access_le h st hst := by simp [empty] at hst
  seq_le h st hst := by simp [empty] at hst
  seq_inj h h' st st' hst := by simp [empty] at hst

/-- Distinct present keys have distinct places in the eviction order. -/
theorem Wf.rank_injOn {c : LazyLru K} (hc : c.Wf) : Set.InjOn c.rank c.map.keys := by
  intro h hh h' hh' heq
  have hst : c.stamp h = c.stamp h' := place_injective heq
  exact hc.seq_inj h h' _ _ (lookup_eq_stamp hh) (lookup_eq_stamp hh') (by rw [hst])

/-- Advancing the clock keeps the invariant. -/
theorem Wf.advance {c : LazyLru K} (hc : c.Wf) {clock : ℕ} (h : c.clock ≤ clock) :
    Wf { c with clock := clock } where
  live := hc.live
  access_le k st hst := (hc.access_le k st hst).trans h
  seq_le := hc.seq_le
  seq_inj := hc.seq_inj

/-- A touch keeps the invariant.

**Proof sketch.** A key of the new map has the new stamp, which is on the heap and comes after all others,
or an old one, of which the invariant speaks. -/
theorem Wf.push {c : LazyLru K} (hc : c.Wf) (h : K) : (c.push c.clock h).Wf := by
  -- a key of the new map carries either the fresh stamp or an old one, of another key
  have hcases : ∀ k st, (c.push c.clock h).map.lookup k = some st →
      k = h ∧ st = (c.clock, c.seq + 1) ∨ k ≠ h ∧ c.map.lookup k = some st := by
    intro k st hst
    by_cases hk : k = h
    · subst hk
      exact .inl ⟨rfl, by simpa [LazyLru.push, eq_comm] using hst⟩
    · exact .inr ⟨hk, by simpa [LazyLru.push, Finmap.lookup_insert_of_ne _ hk] using hst⟩
  refine ⟨fun k st hst => ?_, fun k st hst => ?_, fun k st hst => ?_,
    fun k k' st st' hst hst' heq => ?_⟩
  · rcases hcases k st hst with ⟨rfl, rfl⟩ | ⟨-, hold⟩
    · exact BinaryHeap.mem_push.mpr (.inl rfl)
    · exact BinaryHeap.mem_push.mpr (.inr (hc.live k st hold))
  · rcases hcases k st hst with ⟨rfl, rfl⟩ | ⟨-, hold⟩
    · exact le_rfl
    · exact hc.access_le k st hold
  · rcases hcases k st hst with ⟨rfl, rfl⟩ | ⟨-, hold⟩
    · exact le_rfl
    · exact (hc.seq_le k st hold).trans (Nat.le_succ _)
  · rcases hcases k st hst with ⟨rfl, rfl⟩ | ⟨-, hold⟩ <;>
      rcases hcases k' st' hst' with ⟨rfl, rfl⟩ | ⟨-, hold'⟩
    · rfl
    · have := hc.seq_le k' st' hold'
      simp only at heq
      omega
    · have := hc.seq_le k st hold
      simp only at heq
      omega
    · exact hc.seq_inj k k' st st' hold hold' heq

/-- A list of touches keeps the invariant. -/
theorem Wf.foldl_push {c : LazyLru K} (hc : c.Wf) (hs : List K) :
    (hs.foldl (LazyLru.push c.clock) c).Wf := by
  induction hs generalizing c with
  | nil => exact hc
  | cons h hs ih => exact ih (hc.push h)

/-- Compaction keeps the invariant: the rebuilt heap holds exactly the entries of the map. -/
theorem Wf.compactIfBloated {c : LazyLru K} (hc : c.Wf) (floor : ℕ) :
    (c.compactIfBloated floor).Wf := by
  unfold LazyLru.compactIfBloated
  split_ifs
  · refine ⟨fun h st hst => ?_, hc.access_le, hc.seq_le, hc.seq_inj⟩
    rw [BinaryHeap.mem_collect, Multiset.mem_map]
    exact ⟨⟨h, st⟩, Finmap.lookup_eq_some_iff.mp hst, rfl⟩
  · exact hc

/-- A round of touches keeps the invariant. -/
theorem Wf.tick {c : LazyLru K} (hc : c.Wf) (floor : ℕ) (hs : List K) : (c.tick floor hs).Wf :=
  ((hc.advance (Nat.le_succ c.clock)).foldl_push hs).compactIfBloated floor

/-! ## Eviction is exact -/

/-- What the eviction loop does to a map whose keys can all be popped: it keeps `min b |m|` keys with
their stamps, all of which pop after the keys it removed, and the kept keys can still be popped. -/
structure EvictsTo (b : ℕ) (m m' : Finmap fun _ : K => ℕ × ℕ) (es' : List (Entry K)) : Prop where
  /-- Only present keys are kept. -/
  subset : m'.keys ⊆ m.keys
  /-- As many keys are kept as the budget allows. -/
  card : m'.keys.card = min b m.keys.card
  /-- Kept keys keep their stamps. -/
  lookup : ∀ h ∈ m'.keys, m'.lookup h = m.lookup h
  /-- Kept keys pop after removed ones. -/
  le : ∀ x ∈ m'.keys, ∀ y ∈ m.keys, y ∉ m'.keys → ∀ st st', m.lookup x = some st →
    m.lookup y = some st' → entry st x ≤ entry st' y
  /-- Kept keys can be popped. -/
  live : Live m' es'

/-- **The eviction loop is exact.**

**Proof sketch.** Induction on the entries in the order of popping. Within the budget nothing
happens. Over the budget with an empty heap is impossible, since a present key has an entry. A popped
entry that is the current one of its key is the largest of all entries, so its key pops before every
other present key; a stale one is the entry of no present key, so the rest of the heap still covers
the map. -/
theorem evictLoop_spec (b : ℕ) (es : List (Entry K)) (hes : es.Pairwise (· ≥ ·)) :
    ∀ m : Finmap fun _ : K => ℕ × ℕ, Live m es →
      EvictsTo b m (evictLoop b m es hes).1 (evictLoop b m es hes).2.toList := by
  induction es with
  | nil =>
    intro m hlive
    have hm : m.keys = ∅ := Finset.eq_empty_of_forall_notMem fun h hh => by
      obtain ⟨st, hst⟩ := Finmap.mem_iff.mp (Finmap.mem_keys.mp hh)
      simpa using hlive h st hst
    exact ⟨subset_rfl, by simp [evictLoop, hm], fun _ _ => rfl,
      fun _ _ _ hy hy' => absurd hy hy', hlive⟩
  | cons e es ih =>
    intro m hlive
    by_cases hb : b < m.keys.card
    · simp only [evictLoop, if_pos hb]
      by_cases hcur : m.lookup e.key = some e.stamp
      · -- the popped entry is current: its key is evicted
        rw [if_pos hcur]
        have hkey : e.key ∈ m.keys := mem_keys_of_lookup hcur
        have hlive' : Live (m.erase e.key) es := fun h st hst => by
          have hne : h ≠ e.key := by
            rintro rfl
            simp at hst
          rw [Finmap.lookup_erase_ne hne] at hst
          refine (List.mem_cons.mp (hlive h st hst)).resolve_left fun heq => hne ?_
          rw [← heq, key_entry]
        obtain ⟨hsub, hcard, hlook, hle, hlv⟩ := ih hes.of_cons (m.erase e.key) hlive'
        rw [Finmap.keys_erase] at hsub
        refine ⟨hsub.trans (Finset.erase_subset _ _), ?_, fun h hh => ?_, ?_, hlv⟩
        · rw [hcard, Finmap.keys_erase, Finset.card_erase_of_mem hkey]
          omega
        · rw [hlook h hh, Finmap.lookup_erase_ne (Finset.ne_of_mem_erase (hsub hh))]
        · intro x hx y hy hyn st st' hst hst'
          have hxne : x ≠ e.key := Finset.ne_of_mem_erase (hsub hx)
          by_cases hye : y = e.key
          · have he : entry st' y = e := by
              rw [hye, hcur, Option.some_inj] at hst'
              rw [← hst', hye, entry_stamp_key]
            rw [he]
            rcases List.mem_cons.mp (hlive x st hst) with h | h
            · exact h.le
            · exact List.rel_of_pairwise_cons hes h
          · refine hle x hx y ?_ hyn st st' ?_ ?_
            · rw [Finmap.keys_erase]
              exact Finset.mem_erase.mpr ⟨hye, hy⟩
            · rwa [Finmap.lookup_erase_ne hxne]
            · rwa [Finmap.lookup_erase_ne hye]
      · -- the popped entry is stale: discarded
        rw [if_neg hcur]
        refine ih hes.of_cons m fun h st hst => ?_
        refine (List.mem_cons.mp (hlive h st hst)).resolve_left fun heq => hcur ?_
        rw [← heq, key_entry, stamp_entry, hst]
    · simp only [evictLoop, if_neg hb]
      exact ⟨subset_rfl, by omega, fun _ _ => rfl, fun _ _ _ hy hy' => absurd hy hy', hlive⟩

/-- What `evictTo` does to a map that satisfies the invariant. -/
theorem Wf.evictsTo {c : LazyLru K} (hc : c.Wf) (b : ℕ) :
    EvictsTo b c.map (c.evictTo b).map (c.evictTo b).heap.toList :=
  evictLoop_spec b c.heap.toList c.heap.sorted c.map hc.live

/-- **Eviction keeps the first `b` keys of the eviction order.** -/
theorem keys_evictTo {c : LazyLru K} (hc : c.Wf) (b : ℕ) :
    (c.evictTo b).map.keys = Ranking.firsts c.rank b c.map.keys := by
  have h := hc.evictsTo b
  refine Ranking.eq_firsts hc.rank_injOn h.subset h.card fun x hx y hy hyn => ?_
  have hle := h.le x hx y hy hyn _ _ (lookup_eq_stamp (h.subset hx)) (lookup_eq_stamp hy)
  refine lt_of_le_of_ne (place_le_of_entry_le hle) fun heq => hyn ?_
  rwa [← hc.rank_injOn (h.subset hx) hy heq]

/-- Evicted keys are gone, and the others keep their stamps. -/
theorem lookup_evictTo {c : LazyLru K} (hc : c.Wf) (b : ℕ) (h : K) :
    (c.evictTo b).map.lookup h =
      if h ∈ Ranking.firsts c.rank b c.map.keys then c.map.lookup h else none := by
  rw [← keys_evictTo hc]
  split_ifs with hh
  · exact (hc.evictsTo b).lookup h hh
  · exact Finmap.lookup_eq_none.mpr fun hm => hh (Finmap.mem_keys.mpr hm)

/-- Surviving keys keep their stamps. -/
theorem stamp_evictTo {c : LazyLru K} (hc : c.Wf) {b : ℕ} {h : K}
    (hh : h ∈ (c.evictTo b).map.keys) : (c.evictTo b).stamp h = c.stamp h := by
  unfold stamp
  rw [(hc.evictsTo b).lookup h hh]

/-- The number of keys after eviction. -/
theorem size_evictTo {c : LazyLru K} (hc : c.Wf) (b : ℕ) : (c.evictTo b).size = min b c.size :=
  (hc.evictsTo b).card

/-- The loop finds the heap empty exactly when it leaves the map over the budget. -/
theorem findsHeapEmpty_iff {b : ℕ} {es : List (Entry K)} (hes : es.Pairwise (· ≥ ·)) :
    ∀ {m : Finmap fun _ : K => ℕ × ℕ},
      FindsHeapEmpty b m es ↔ b < (evictLoop b m es hes).1.keys.card := by
  induction es with
  | nil => exact Iff.rfl
  | cons e es ih =>
    intro m
    by_cases hb : b < m.keys.card
    · rw [FindsHeapEmpty, and_iff_right hb, ih hes.of_cons, evictLoop, if_pos hb]
    · rw [FindsHeapEmpty, evictLoop, if_neg hb]
      exact and_iff_left_of_imp fun h => absurd h hb

/-- **Eviction never runs out of heap entries.** -/
theorem Wf.not_findsHeapEmpty {c : LazyLru K} (hc : c.Wf) (b : ℕ) :
    ¬ FindsHeapEmpty b c.map c.heap.toList := by
  rw [findsHeapEmpty_iff c.heap.sorted, not_lt]
  exact (size_evictTo hc b).le.trans (min_le_left b c.size)

/-- Eviction keeps the invariant. -/
theorem Wf.evictTo {c : LazyLru K} (hc : c.Wf) (b : ℕ) : (c.evictTo b).Wf := by
  have h := hc.evictsTo b
  have hold : ∀ k st, (c.evictTo b).map.lookup k = some st → c.map.lookup k = some st :=
    fun k st hst => by rw [← h.lookup k (mem_keys_of_lookup hst), hst]
  exact ⟨h.live, fun k st hst => hc.access_le k st (hold k st hst),
    fun k st hst => hc.seq_le k st (hold k st hst),
    fun k k' st st' hst hst' => hc.seq_inj k k' st st' (hold k st hst) (hold k' st' hst')⟩

/-! ## A round of touches and the eviction order -/

/-- A key touched in the round ranks ahead of one that was not. -/
theorem rank_tick_lt_of_mem_of_notMem {c : LazyLru K} (hc : c.Wf) (floor : ℕ) {hs : List K}
    {x y : K} (hx : x ∈ hs) (hy : y ∈ c.map.keys) (hyn : y ∉ hs) :
    (c.tick floor hs).rank x < (c.tick floor hs).rank y := by
  have := hc.access_le y _ (lookup_eq_stamp hy)
  unfold rank
  rw [stamp_tick_of_mem hx, stamp_tick_of_notMem hyn, place_lt_iff]
  exact .inl (by simp only; omega)

/-- Two keys touched in the round rank by their last positions. -/
theorem rank_tick_lt_iff_of_mem {c : LazyLru K} {floor : ℕ} {hs : List K} {x y : K} (hx : x ∈ hs)
    (hy : y ∈ hs) : (c.tick floor hs).rank x < (c.tick floor hs).rank y ↔
      lastIdx (· == x) hs < lastIdx (· == y) hs := by
  unfold rank
  rw [stamp_tick_of_mem hx, stamp_tick_of_mem hy, place_lt_iff]
  simp only [lt_irrefl, true_and, false_or]
  omega

/-- Two keys not touched in the round rank as before. -/
theorem rank_tick_lt_iff_of_notMem {c : LazyLru K} {floor : ℕ} {hs : List K} {x y : K}
    (hx : x ∉ hs) (hy : y ∉ hs) :
    (c.tick floor hs).rank x < (c.tick floor hs).rank y ↔ c.rank x < c.rank y := by
  unfold rank
  rw [stamp_tick_of_notMem hx, stamp_tick_of_notMem hy]

/-- **Retention.** After a round of distinct keys, eviction to `b` keeps exactly the first `b` keys
of the round.

**Proof sketch.** The keys ahead of the one at position `i` are those at smaller positions: keys of
earlier rounds are behind, and within the round the order is by position. -/
theorem mem_evictTo_tick_iff {c : LazyLru K} (hc : c.Wf) (floor : ℕ) {b i : ℕ} {hs : List K}
    (hnd : hs.Nodup) (hi : i < hs.length) :
    hs[i] ∈ ((c.tick floor hs).evictTo b).map.keys ↔ i < b := by
  have hpos : ∀ (j : ℕ) (hj : j < hs.length), (c.tick floor hs).rank hs[j] <
      (c.tick floor hs).rank hs[i] ↔ j < i := fun j hj => by
    rw [rank_tick_lt_iff_of_mem (List.getElem_mem hj) (List.getElem_mem hi),
      lastIdx_getElem hj hnd, lastIdx_getElem hi hnd]
  have hahead : Ranking.ahead (c.tick floor hs).rank (c.tick floor hs).map.keys hs[i] =
      (hs.take i).toFinset := by
    ext x
    rw [Ranking.mem_ahead, List.mem_toFinset, List.mem_take_iff_getElem, keys_tick,
      Finset.mem_union, List.mem_toFinset]
    constructor
    · rintro ⟨hx, hlt⟩
      by_cases hxs : x ∈ hs
      · obtain ⟨j, hj, rfl⟩ := List.mem_iff_getElem.mp hxs
        exact ⟨j, by rw [hpos j hj] at hlt; omega, rfl⟩
      · have := rank_tick_lt_of_mem_of_notMem hc floor (List.getElem_mem hi)
          (hx.resolve_right hxs) hxs
        exact absurd hlt this.asymm
    · rintro ⟨j, hj, rfl⟩
      exact ⟨.inr (List.getElem_mem _), (hpos j (by omega)).mpr (by omega)⟩
  rw [keys_evictTo (hc.tick floor hs), Ranking.mem_firsts, hahead,
    List.toFinset_card_of_nodup (hnd.sublist (List.take_sublist _ _)), List.length_take]
  have : hs[i] ∈ (c.tick floor hs).map.keys := by
    rw [keys_tick]
    exact Finset.mem_union_right _ (List.mem_toFinset.mpr (List.getElem_mem hi))
  simp only [this, true_and]
  omega

end LazyLru
