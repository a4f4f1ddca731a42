import DynamoRouter.Lib.LazyLru

set_option relaxedAutoImplicit false
set_option autoImplicit false

/-!
# Eviction by recency, without a heap

What the lazily cleaned heap is there to compute. The blocks of a map are listed by recency: the latest
access first and, within one access time, the smallest sequence number first. An eviction should keep the
first blocks of this list. The naive way to get there is to scan the whole map for the oldest block,
remove it, and start over.

## Main definitions

* `LazyLru.byRecency` — the entries of a map by recency.
* `LazyLru.Oldest`, `LazyLru.ScansTo` — the block that a scan finds, and repeated scans.

## Main results

* `LazyLru.Wf.byRecency_evictTo` — eviction keeps the first entries of the list.
* `LazyLru.Wf.scansTo_iff` — eviction is the same as repeated scans.
-/

namespace LazyLru

variable {K : Type*}

/-! ## The entries by recency -/

/-- The entries of a map. -/
def entries (m : Finmap fun _ : K => ℕ × ℕ) : Multiset (Entry K) :=
  m.entries.map fun b => entry b.2 b.1

/-- No entry occurs twice. -/
theorem nodup_entries (m : Finmap fun _ : K => ℕ × ℕ) : (entries m).Nodup := by
  refine Multiset.Nodup.map (fun a b hab => ?_) m.nodupKeys.nodup
  obtain ⟨k, st⟩ := a
  obtain ⟨k', st'⟩ := b
  have hk : k = k' := congrArg Entry.key hab
  have hst : st = st' := congrArg Entry.stamp hab
  rw [hk, hst]

/-- One entry for each key. -/
theorem card_entries (m : Finmap fun _ : K => ℕ × ℕ) : (entries m).card = m.keys.card := by
  rw [entries, Multiset.card_map]
  exact (Multiset.card_map _ _).symm

variable [LinearOrder K]

/-- The entries of a map by recency: the latest access first, then the smallest sequence number. -/
def byRecency (m : Finmap fun _ : K => ℕ × ℕ) : List (Entry K) := (entries m).sort (· ≤ ·)

variable {m m' : Finmap fun _ : K => ℕ × ℕ}

/-- A smaller place makes a smaller entry. -/
theorem entry_lt_of_place_lt {st st' : ℕ × ℕ} (h : place st < place st') (k k' : K) :
    entry st k < entry st' k' := by
  rw [place_lt_iff] at h
  simp only [entry, Prod.Lex.toLex_lt_toLex, OrderDual.toDual_lt_toDual,
    OrderDual.toDual.injective.eq_iff]
  rcases h with hlt | ⟨heq, hlt⟩
  · exact .inl hlt
  · exact .inr ⟨heq, .inl hlt⟩

/-- The entries of a map are the stamps of its keys. -/
@[simp] theorem mem_entries {e : Entry K} : e ∈ entries m ↔ m.lookup e.key = some e.stamp := by
  rw [entries, Multiset.mem_map]
  constructor
  · rintro ⟨⟨k, st⟩, hmem, rfl⟩
    exact Finmap.lookup_eq_some_iff.mpr hmem
  · intro h
    exact ⟨⟨e.key, e.stamp⟩, Finmap.lookup_eq_some_iff.mp h, entry_stamp_key e⟩

/-- The list by recency has the entries of the map. -/
@[simp] theorem mem_byRecency {e : Entry K} : e ∈ byRecency m ↔ m.lookup e.key = some e.stamp := by
  rw [byRecency, Multiset.mem_sort, mem_entries]

/-- One entry for each key. -/
@[simp] theorem length_byRecency (m : Finmap fun _ : K => ℕ × ℕ) :
    (byRecency m).length = m.keys.card := by
  rw [byRecency, Multiset.length_sort, card_entries]

/-- The list by recency is strictly increasing. -/
theorem pairwise_byRecency (m : Finmap fun _ : K => ℕ × ℕ) : (byRecency m).Pairwise (· < ·) := by
  have hle : (byRecency m).Pairwise (· ≤ ·) := Multiset.pairwise_sort _ _
  have hne : (byRecency m).Pairwise (· ≠ ·) := by
    have := nodup_entries m
    rwa [← Multiset.sort_eq (entries m) (· ≤ ·), Multiset.coe_nodup] at this
  exact hle.imp₂ (fun _ _ => lt_of_le_of_ne) hne

/-- No two keys have the same sequence number. -/
def SeqInj (m : Finmap fun _ : K => ℕ × ℕ) : Prop :=
  ∀ k k' st st', m.lookup k = some st → m.lookup k' = some st' → st.2 = st'.2 → k = k'

/-- If no two keys have the same sequence number, then the list by recency is sorted by the access time,
the latest first, and then by the sequence number, the smallest first. -/
theorem SeqInj.pairwise_byRecency (hseq : SeqInj m) :
    (byRecency m).Pairwise fun e e' => place e.stamp < place e'.stamp := by
  refine (LazyLru.pairwise_byRecency m).imp_of_mem fun {e e'} he he' hlt => ?_
  have hentry : entry e.stamp e.key ≤ entry e'.stamp e'.key := hlt.le
  have hle : place e.stamp ≤ place e'.stamp := place_le_of_entry_le hentry
  refine lt_of_le_of_ne hle fun heq => hlt.ne ?_
  have hst : e.stamp = e'.stamp := place_injective heq
  have hk := hseq _ _ _ _ (mem_byRecency.mp he) (mem_byRecency.mp he') (by rw [hst])
  rw [← entry_stamp_key e, ← entry_stamp_key e', hst, hk]

/-- The list by recency is the only strictly increasing list of the entries. -/
theorem byRecency_eq {l : List (Entry K)} (hl : l.Pairwise (· < ·))
    (hmem : ∀ e, e ∈ l ↔ m.lookup e.key = some e.stamp) : byRecency m = l := by
  have hnodup : (byRecency m).Nodup := (pairwise_byRecency m).imp ne_of_lt
  have hperm : (byRecency m).Perm l :=
    (List.perm_ext_iff_of_nodup hnodup (hl.imp ne_of_lt)).mpr fun e => by rw [mem_byRecency, hmem]
  exact hperm.eq_of_pairwise (fun a b _ _ hab hba => absurd hba hab.asymm) (pairwise_byRecency m) hl

/-- A map is given by its list. -/
theorem byRecency_injective : Function.Injective (byRecency : (Finmap fun _ : K => ℕ × ℕ) → _) := by
  intro m m' h
  refine Finmap.ext_lookup fun k => Option.ext fun st => ?_
  have hk : entry st k ∈ byRecency m ↔ entry st k ∈ byRecency m' := by rw [h]
  simpa using hk

/-! ## Eviction by recency -/

/-- **An exact eviction keeps the first entries by recency**, with their stamps.

**Proof sketch.** The kept entries, in their order, followed by the removed ones, in theirs, are strictly
increasing: kept entries come before removed ones. So this is the list of the whole map, and the kept
entries are its first part. -/
theorem EvictsTo.byRecency_eq {b : ℕ} {es : List (Entry K)} (h : EvictsTo b m m' es) :
    byRecency m' = (byRecency m).take b := by
  set removed := (byRecency m).filter fun e => decide (e.key ∉ m'.keys) with hremoved
  have hold : ∀ e ∈ byRecency m', m.lookup e.key = some e.stamp := fun e he => by
    rw [mem_byRecency] at he
    rw [← h.lookup _ (mem_keys_of_lookup he), he]
  have hmem : ∀ e, e ∈ removed ↔ m.lookup e.key = some e.stamp ∧ e.key ∉ m'.keys := fun e => by
    rw [hremoved, List.mem_filter, mem_byRecency, decide_eq_true_iff]
  have hsplit : byRecency m = byRecency m' ++ removed := by
    refine LazyLru.byRecency_eq ?_ fun e => ?_
    · rw [List.pairwise_append]
      refine ⟨pairwise_byRecency m', (pairwise_byRecency m).filter _, fun x hx y hy => ?_⟩
      obtain ⟨hy, hyn⟩ := (hmem y).mp hy
      have hxk : x.key ∈ m'.keys := mem_keys_of_lookup (mem_byRecency.mp hx)
      have hle := h.le x.key hxk y.key (mem_keys_of_lookup hy) hyn _ _ (hold x hx) hy
      rw [entry_stamp_key, entry_stamp_key] at hle
      exact lt_of_le_of_ne hle fun heq => hyn (heq ▸ hxk)
    · rw [List.mem_append, hmem]
      constructor
      · rintro (he | he)
        · exact hold e he
        · exact he.1
      · intro he
        by_cases hk : e.key ∈ m'.keys
        · exact .inl (mem_byRecency.mpr ((h.lookup _ hk).trans he))
        · exact .inr ⟨he, hk⟩
  have hlen : (byRecency m').length = min b (byRecency m).length := by
    rw [length_byRecency, length_byRecency, h.card]
  have hadd : (byRecency m).length = (byRecency m').length + removed.length := by
    rw [hsplit, List.length_append]
  rcases Nat.le_total b (byRecency m).length with hb | hb
  · rw [hsplit, List.take_left' (by omega)]
  · have hnil : removed = [] := List.eq_nil_of_length_eq_zero (by omega)
    rw [List.take_of_length_le hb, hsplit, hnil, List.append_nil]

/-- **Eviction keeps the first entries by recency**, however many stale entries the heap holds. -/
theorem Wf.byRecency_evictTo {c : LazyLru K} (hc : c.Wf) (b : ℕ) :
    byRecency (c.evictTo b).map = (byRecency c.map).take b :=
  (hc.evictsTo b).byRecency_eq

/-! ## Repeated scans -/

/-- The block that a scan of the whole map finds: of the smallest access time and, among those, of the
largest sequence number. -/
def Oldest (m : Finmap fun _ : K => ℕ × ℕ) (k : K) : Prop :=
  ∃ st, m.lookup k = some st ∧
    ∀ k' st', m.lookup k' = some st' → st.1 < st'.1 ∨ st.1 = st'.1 ∧ st'.2 ≤ st.2

/-- The oldest block is in the map. -/
theorem Oldest.mem_keys {k : K} (h : Oldest m k) : k ∈ m.keys := by
  obtain ⟨st, hst, -⟩ := h
  exact mem_keys_of_lookup hst

/-- `ScansTo i m m'`: remove the oldest block of `m`, and start over, `i` times, to arrive at `m'`. -/
inductive ScansTo : ℕ → (Finmap fun _ : K => ℕ × ℕ) → (Finmap fun _ : K => ℕ × ℕ) → Prop
  | nil (m : Finmap fun _ : K => ℕ × ℕ) : ScansTo 0 m m
  | cons {i : ℕ} {m m' : Finmap fun _ : K => ℕ × ℕ} {k : K} (hold : Oldest m k)
      (hrest : ScansTo i (m.erase k) m') : ScansTo (i + 1) m m'

/-- What is in a map from which a key was removed. -/
theorem lookup_erase_eq_some_iff {k k' : K} {st : ℕ × ℕ} :
    (m.erase k).lookup k' = some st ↔ k' ≠ k ∧ m.lookup k' = some st := by
  by_cases hk : k' = k
  · subst hk
    simp
  · rw [Finmap.lookup_erase_ne hk, and_iff_right hk]

/-- Removing a key keeps the sequence numbers apart. -/
theorem SeqInj.erase (h : SeqInj m) (k : K) : SeqInj (m.erase k) := by
  intro k₁ k₂ st₁ st₂ h₁ h₂ heq
  exact h k₁ k₂ st₁ st₂ (lookup_erase_eq_some_iff.mp h₁).2 (lookup_erase_eq_some_iff.mp h₂).2 heq

/-- The oldest block is the last one by recency.

**Proof sketch.** Both lists have the same blocks, and both are ordered, since no block has a place behind
the oldest one. Lists that are ordered and have the same members are equal (`LazyLru.byRecency_eq`). -/
theorem Oldest.byRecency_eq {k : K} (hseq : SeqInj m) (h : Oldest m k) :
    byRecency (m.erase k) = (byRecency m).take (m.keys.card - 1) := by
  obtain ⟨st, hst, hle⟩ := h
  have hsplit : byRecency m = byRecency (m.erase k) ++ [entry st k] := by
    refine LazyLru.byRecency_eq ?_ fun e => ?_
    · rw [List.pairwise_append]
      refine ⟨pairwise_byRecency _, List.pairwise_singleton _ _, fun x hx y hy => ?_⟩
      obtain rfl := List.mem_singleton.mp hy
      obtain ⟨hne, hx⟩ := lookup_erase_eq_some_iff.mp (mem_byRecency.mp hx)
      rw [← entry_stamp_key x]
      refine entry_lt_of_place_lt (place_lt_iff.mpr ?_) x.key k
      rcases hle _ _ hx with hlt | ⟨heq, hle⟩
      · exact .inl hlt
      · exact .inr ⟨heq.symm, lt_of_le_of_ne hle fun hq => hne (hseq _ _ _ _ hx hst hq)⟩
    · rw [List.mem_append, List.mem_singleton, mem_byRecency, lookup_erase_eq_some_iff]
      constructor
      · rintro (he | rfl)
        · exact he.2
        · exact hst
      · intro he
        by_cases hk : e.key = k
        · refine .inr ?_
          rw [hk, hst, Option.some_inj] at he
          rw [← entry_stamp_key e, hk, he]
        · exact .inl ⟨hk, he⟩
  have hlen : (byRecency (m.erase k)).length = m.keys.card - 1 := by
    rw [← length_byRecency m, hsplit, List.length_append, List.length_singleton, Nat.add_sub_cancel]
  rw [hsplit, List.take_left' hlen]

/-- A map that is not empty has an oldest block. -/
theorem exists_oldest (h : 0 < m.keys.card) : ∃ k, Oldest m k := by
  have hne : byRecency m ≠ [] := List.ne_nil_of_length_pos (by rwa [length_byRecency])
  set e := (byRecency m).getLast hne
  refine ⟨e.key, e.stamp, mem_byRecency.mp (List.getLast_mem hne), fun k' st' hst' => ?_⟩
  have hmem : entry st' k' ∈ byRecency m := mem_byRecency.mpr hst'
  have hle : entry st' k' ≤ entry e.stamp e.key :=
    ((pairwise_byRecency m).imp le_of_lt).rel_getLast hmem
  have hplace := place_le_of_entry_le hle
  rw [← not_lt, place_lt_iff] at hplace
  omega

/-- Repeated scans leave the first entries by recency. -/
theorem ScansTo.byRecency_eq {i : ℕ} (h : ScansTo i m m') (hseq : SeqInj m) :
    byRecency m' = (byRecency m).take (m.keys.card - i) := by
  induction h with
  | nil m => rw [Nat.sub_zero, ← length_byRecency, List.take_length]
  | @cons i m m' k hold _ ih =>
    rw [ih (hseq.erase k), hold.byRecency_eq hseq, List.take_take, Finmap.keys_erase,
      Finset.card_erase_of_mem hold.mem_keys, Nat.min_eq_left (by omega), Nat.sub_sub, Nat.add_comm 1]

/-- A map can be scanned as often as it has blocks. -/
theorem exists_scansTo {i : ℕ} : ∀ {m : Finmap fun _ : K => ℕ × ℕ}, i ≤ m.keys.card →
    ∃ m', ScansTo i m m' := by
  induction i with
  | zero => exact fun _ => ⟨_, .nil _⟩
  | succ i ih =>
    intro m hi
    obtain ⟨k, hold⟩ := exists_oldest (m := m) (by omega)
    have hcard : i ≤ (m.erase k).keys.card := by
      rw [Finmap.keys_erase, Finset.card_erase_of_mem hold.mem_keys]
      omega
    obtain ⟨m', hrest⟩ := ih hcard
    exact ⟨m', .cons hold hrest⟩

/-- **Eviction is the same as repeated scans**: to scan the map for its oldest block, remove it, and start
over, until the budget is met.

**Proof sketch.** Both leave the first entries by recency, and a map is given by its list. -/
theorem Wf.scansTo_iff {c : LazyLru K} (hc : c.Wf) (b : ℕ) :
    ScansTo (c.size - b) c.map m' ↔ m' = (c.evictTo b).map := by
  have hkeep : ∀ m', ScansTo (c.size - b) c.map m' → m' = (c.evictTo b).map := fun m' h => by
    refine byRecency_injective ?_
    rw [h.byRecency_eq hc.seq_inj, hc.byRecency_evictTo b]
    rcases Nat.le_total b c.size with hb | hb
    · rw [show c.map.keys.card - (c.size - b) = b from Nat.sub_sub_self hb]
    · have hlen : (byRecency c.map).length ≤ b := by rwa [length_byRecency]
      rw [Nat.sub_eq_zero_of_le hb, List.take_of_length_le hlen, List.take_of_length_le]
      rw [length_byRecency, Nat.sub_zero]
  refine ⟨hkeep m', ?_⟩
  rintro rfl
  obtain ⟨m', h⟩ := exists_scansTo (m := c.map) (i := c.size - b) (Nat.sub_le _ _)
  exact hkeep m' h ▸ h

end LazyLru
