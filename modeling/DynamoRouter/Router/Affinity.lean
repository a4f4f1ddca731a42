import Mathlib.Algebra.Order.Ring.Rat
import DynamoRouter.Protocol.Blocks
import DynamoRouter.Router.SchedulerInvariant

set_option relaxedAutoImplicit false
set_option autoImplicit false

/-!
# Prefix affinity

What `CacheAware` routing is for: a prompt that shares a prefix with an earlier one is routed to a
replica that has the blocks of that prefix, whatever the caches held before.

With nothing in flight and exact arithmetic the scores order the replicas by their matches, so the
scoring loop answers the first of the replicas with the longest match. Eviction keeps the leading
blocks of the prompt routed last, so the replica of the first prompt has the shared blocks.

## Main definitions

* `Scheduler.FirstBest` — a replica of a list is the first with the longest match.

## Main results

* `PrefixCache.le_lookup_evictTo_insert` — the leading blocks of the last prompt are retained.
* `Scheduler.routeCacheAware_of_firstBest` — the decision of an idle scheduler.
* `Scheduler.prefix_affinity` — the second prompt finds the blocks shared with the first.
-/

namespace PrefixCache

/-- **Retention.** After a chain of distinct hashes was inserted and the cache cut down to the budget,
a prompt that starts with the same `m` blocks finds them, for every `m` up to the budget. -/
theorem le_lookup_evictTo_insert {c : PrefixCache} (hc : c.Wf) {hs hs' : List UInt64}
    (hnd : hs.Nodup) {m budget : ℕ} (hm : m ≤ hs.length) (hm' : m ≤ hs'.length)
    (htake : hs'.take m = hs.take m) (hbudget : m ≤ budget) :
    m ≤ ((c.insert hs).evictTo budget).lookup hs' := by
  refine LazyLru.le_leading hm' fun k hk => ?_
  rw [htake, List.mem_take_iff_getElem] at hk
  obtain ⟨i, hi, rfl⟩ := hk
  rw [Nat.min_eq_left hm] at hi
  have hmem := (LazyLru.mem_evictTo_tick_iff hc compactFloor hnd
    (lt_of_lt_of_le hi hm)).mpr (lt_of_lt_of_le hi hbudget)
  rwa [← toLazyLru_insert] at hmem

/-- A lookup of distinct hashes counts at most the blocks of the cache. -/
theorem lookup_le_min {c : PrefixCache} {hs : List UInt64} (hnd : hs.Nodup) {budget : ℕ}
    (hc : c.numBlocks ≤ budget) : c.lookup hs ≤ min hs.length budget :=
  le_min (LazyLru.leading_le_length _ _) ((LazyLru.leading_le_size hnd).trans hc)

end PrefixCache

namespace Scheduler

section Fold

variable {F : Type} {n : ℕ} [Mul F] [Sub F] [LT F] [DecidableLT F] [ScoreArith F]

/-- The scoring loop answers a replica whose score beats the start and every earlier one, and is
beaten by no later one. -/
theorem foldl_consider_eq (s : Scheduler F n) (hashes : List UInt64) {l₁ l₂ : List (Fin n)}
    {b : Fin n} (acc : Fin n × F × ℕ) (h₀ : acc.2.1 < s.score hashes b)
    (h₁ : ∀ j ∈ l₁, s.score hashes j < s.score hashes b)
    (h₂ : ∀ j ∈ l₂, ¬ s.score hashes b < s.score hashes j) :
    (l₁ ++ b :: l₂).foldl (s.consider hashes) acc =
      (b, s.score hashes b, (s.replicas b).cache.lookup hashes) := by
  have hbefore : (l₁.foldl (s.consider hashes) acc).2.1 < s.score hashes b := by
    rcases s.foldl_consider hashes l₁ acc with ⟨heq, -⟩ | ⟨-, j, hj, heq⟩
    · rw [heq]
      exact h₀
    · rw [heq]
      exact h₁ j hj
  have hconsider : s.consider hashes (l₁.foldl (s.consider hashes) acc) b =
      (b, s.score hashes b, (s.replicas b).cache.lookup hashes) := if_pos hbefore
  rw [List.foldl_append, List.foldl_cons, hconsider]
  rcases s.foldl_consider hashes l₂ (b, s.score hashes b, (s.replicas b).cache.lookup hashes) with
    ⟨heq, -⟩ | ⟨⟨j, hj, hlt⟩, -⟩
  · exact heq
  · exact absurd hlt (h₂ j hj)

end Fold

section Exact

variable {n : ℕ}

/-- `b` is the first of the list `l₁ ++ b :: l₂` with the longest match. -/
structure FirstBest (s : Scheduler ℚ n) (hashes : List UInt64) (l₁ : List (Fin n)) (b : Fin n)
    (l₂ : List (Fin n)) : Prop where
  /-- The list is the list of available replicas. -/
  available : s.available = l₁ ++ b :: l₂
  /-- Earlier replicas match less. -/
  before : ∀ j ∈ l₁, (s.replicas j).cache.lookup hashes < (s.replicas b).cache.lookup hashes
  /-- Later replicas do not match more. -/
  after : ∀ j ∈ l₂, (s.replicas j).cache.lookup hashes ≤ (s.replicas b).cache.lookup hashes

/-- If some replica is available, then one of them is the first with the longest match. -/
theorem exists_firstBest {s : Scheduler ℚ n} {i : Fin n} (hi : s.availMask i = true)
    (hashes : List UInt64) : ∃ l₁ b l₂, s.FirstBest hashes l₁ b l₂ := by
  have hmem := mem_available.mpr hi
  obtain ⟨b, hb⟩ : ∃ b, b ∈ s.available.argmax fun j => (s.replicas j).cache.lookup hashes := by
    refine Option.ne_none_iff_exists'.mp fun hnone => ?_
    rw [List.argmax_eq_none.mp hnone] at hmem
    exact List.not_mem_nil hmem
  obtain ⟨l₁, l₂, heq, hbl⟩ := List.eq_append_cons_of_mem (List.argmax_mem hb)
  have hle : ∀ j ∈ s.available, (s.replicas j).cache.lookup hashes ≤
      (s.replicas b).cache.lookup hashes := fun j hj => List.le_of_mem_argmax hj hb
  refine ⟨l₁, b, l₂, heq, fun j hj => ?_, fun j hj => hle j (by simp [heq, hj])⟩
  have hj' : j ∈ s.available := by simp [heq, hj]
  -- an equally good earlier replica would be the one that `argmax` answers
  refine lt_of_le_of_ne (hle j hj') fun heqj => ?_
  have hidx := List.index_of_argmax hb hj' heqj.ge
  rw [heq, List.idxOf_append_of_notMem hbl, List.idxOf_append_of_mem hj, List.idxOf_cons_self] at hidx
  have := List.idxOf_lt_length_of_mem hj
  omega

/-- Every available replica matches at most what the best one matches. -/
theorem FirstBest.le {s : Scheduler ℚ n} {hashes : List UInt64} {l₁ l₂ : List (Fin n)} {b : Fin n}
    (h : s.FirstBest hashes l₁ b l₂) {j : Fin n} (hj : s.availMask j = true) :
    (s.replicas j).cache.lookup hashes ≤ (s.replicas b).cache.lookup hashes := by
  have hmem := mem_available.mpr hj
  rw [h.available, List.mem_append, List.mem_cons] at hmem
  rcases hmem with hmem | rfl | hmem
  · exact (h.before j hmem).le
  · exact le_rfl
  · exact h.after j hmem

/-- With nothing in flight a score is the weighted match. -/
theorem score_of_idle {s : Scheduler ℚ n} (hidle : ∀ r, s.inflight r = 0) (hashes : List UInt64)
    (i : Fin n) :
    s.score hashes i = s.cfg.alpha * ((s.replicas i).cache.lookup hashes : ℕ) := by
  have hi : (s.replicas i).inflight = 0 := hidle i
  simp [score, hi, ScoreArith.ofUsize]

/-- **The decision of an idle scheduler.** With nothing in flight and a positive weight of matches,
the first replica with the longest match is chosen, unless its match is below `min_match_blocks`.

**Proof sketch.** With nothing in flight a score is a multiple of the match. So the scan keeps the first
replica with the longest match, whose score is at least 0 and exceeds the one at the start. -/
theorem routeCacheAware_of_firstBest {s : Scheduler ℚ n} (hidle : ∀ r, s.inflight r = 0)
    (hα : 0 < s.cfg.alpha) {hashes : List UInt64} {l₁ l₂ : List (Fin n)} {b : Fin n}
    (h : s.FirstBest hashes l₁ b l₂) :
    s.routeCacheAware hashes =
      if (s.replicas b).cache.lookup hashes < s.cfg.minMatchBlocks then
        (s.available.argmin s.inflight).map fun least =>
          (least, (s.replicas least).cache.lookup hashes)
      else some (b, (s.replicas b).cache.lookup hashes) := by
  have hscore := score_of_idle hidle hashes
  have hstart : (ScoreArith.f64Min : ℚ) < s.score hashes b := by
    have hneg : (ScoreArith.f64Min : ℚ) < 0 := by decide +kernel
    have hpos : (0 : ℚ) ≤ ((s.replicas b).cache.lookup hashes : ℕ) := Nat.cast_nonneg _
    rw [hscore]
    exact lt_of_lt_of_le hneg (mul_nonneg hα.le hpos)
  have hlt : ∀ j ∈ l₁, s.score hashes j < s.score hashes b := fun j hj => by
    rw [hscore, hscore]
    exact mul_lt_mul_of_pos_left (Nat.cast_lt.mpr (h.before j hj)) hα
  have hnlt : ∀ j ∈ l₂, ¬ s.score hashes b < s.score hashes j := fun j hj => by
    rw [hscore, hscore, not_lt]
    exact mul_le_mul_of_nonneg_left (Nat.cast_le.mpr (h.after j hj)) hα.le
  unfold routeCacheAware
  cases hav : s.available with
  | nil => simp [h.available] at hav
  | cons first rest =>
    have hfold := s.foldl_consider_eq hashes (first, ScoreArith.f64Min, 0) hstart hlt hnlt
    rw [← h.available, hav] at hfold
    simp only [hfold]

/-- The replica an idle scheduler chooses is the first with the longest match, or no available replica
matches `min_match_blocks`. -/
theorem firstBest_or_of_routeCacheAware {s : Scheduler ℚ n} (hidle : ∀ r, s.inflight r = 0)
    (hα : 0 < s.cfg.alpha) {hashes : List UInt64} {idx : Fin n} {m : ℕ}
    (h : s.routeCacheAware hashes = some (idx, m)) :
    (∃ l₁ l₂, s.FirstBest hashes l₁ idx l₂) ∨
      ∀ j, s.availMask j = true → (s.replicas j).cache.lookup hashes < s.cfg.minMatchBlocks := by
  obtain ⟨l₁, b, l₂, hbest⟩ := exists_firstBest (availMask_of_routeCacheAware h) hashes
  rw [routeCacheAware_of_firstBest hidle hα hbest] at h
  split_ifs at h with hmin
  · exact .inr fun j hj => lt_of_le_of_lt (hbest.le hj) hmin
  · obtain rfl : b = idx := (Prod.mk.inj (Option.some_inj.mp h)).1
    exact .inl ⟨l₁, l₂, hbest⟩

/-! ## A request and its completion -/

/-- The state after a request was routed to `idx` and completed. -/
def served (s : Scheduler ℚ n) (hashes : List UInt64) (idx : Fin n) (rr : ℕ) : Scheduler ℚ n :=
  (s.commit hashes idx rr).complete idx

/-- The in-flight counts are as before. -/
theorem inflight_served (s : Scheduler ℚ n) (hashes : List UInt64) (idx : Fin n) (rr : ℕ)
    (r : Fin n) : (s.served hashes idx rr).inflight r = s.inflight r := by
  by_cases hr : r = idx
  · subst hr
    simp [served, inflight, complete, replicas_commit_self]
  · rw [inflight, served, complete, replicas_setReplica_of_ne _ _ hr,
      replicas_commit_of_ne _ _ _ hr, inflight]

/-- The same replicas are available. -/
theorem availMask_served (s : Scheduler ℚ n) (hashes : List UInt64) (idx : Fin n) (rr : ℕ)
    (r : Fin n) : (s.served hashes idx rr).availMask r = s.availMask r := by
  have hinflight := s.inflight_served hashes idx rr r
  have hhealthy : ((s.served hashes idx rr).replicas r).healthy = (s.replicas r).healthy := by
    by_cases hr : r = idx
    · subst hr
      simp [served, complete, replicas_commit_self]
    · rw [served, complete, replicas_setReplica_of_ne _ _ hr, replicas_commit_of_ne _ _ _ hr]
  unfold inflight at hinflight
  rw [availMask, availMask, hinflight, hhealthy]
  rfl

/-- The cache of the replica that served the request. -/
theorem cache_served_self {s : Scheduler ℚ n} (hp : s.policy = .cacheAware) (hashes : List UInt64)
    (idx : Fin n) (rr : ℕ) : ((s.served hashes idx rr).replicas idx).cache =
      ((s.replicas idx).cache.insert hashes).evictTo s.cfg.blockBudget := by
  rw [served, cache_complete, replicas_commit_self, if_pos hp]

/-- The other caches are as before. -/
theorem cache_served_of_ne (s : Scheduler ℚ n) (hashes : List UInt64) {idx r : Fin n} (rr : ℕ)
    (hr : r ≠ idx) : ((s.served hashes idx rr).replicas r).cache = (s.replicas r).cache := by
  rw [served, cache_complete, replicas_commit_of_ne _ _ _ hr]

/-- The same replicas are listed as available. -/
theorem available_served (s : Scheduler ℚ n) (hashes : List UInt64) (idx : Fin n) (rr : ℕ) :
    (s.served hashes idx rr).available = s.available := by
  rw [available, available]
  exact List.filter_congr fun r _ => s.availMask_served hashes idx rr r

/-! ## Affinity -/

/-- What a pick of an idle scheduler with a healthy replica does. -/
theorem pick_of_idle {s : Scheduler ℚ n} (hp : s.policy = .cacheAware)
    (hidle : ∀ r, s.inflight r = 0) (hhealthy : ∃ r, s.isHealthy r = true)
    (hmax : 1 ≤ s.cfg.maxInflight) (hashes : List UInt64) :
    ∃ d s', s.pick hashes = some (.ok d, s') ∧
      s.routeCacheAware hashes = some (d.replica, d.matchedBlocks) ∧
      s'.complete d.replica = s.served hashes d.replica s.rrNext := by
  obtain ⟨r, hr⟩ := hhealthy
  have havail : s.availMask r = true :=
    availMask_iff.mpr ⟨hr, lt_of_eq_of_lt (hidle r) (Nat.succ_le_iff.mp hmax)⟩
  obtain ⟨d, s', hpick⟩ := pick_ok_of_availMask havail hashes
  obtain ⟨harm, rfl⟩ := pick_cacheAware_inv hp hpick
  exact ⟨d, _, hpick, harm, rfl⟩

/-- The second decision: it is the first replica with the longest match after the first request was
served, provided that match reaches `min_match_blocks`. -/
theorem matchedBlocks_of_firstBest {s : Scheduler ℚ n} (hidle : ∀ r, s.inflight r = 0)
    (hα : 0 < s.cfg.alpha) {hashes : List UInt64} {l₁ l₂ : List (Fin n)} {b idx : Fin n} {m : ℕ}
    (hbest : s.FirstBest hashes l₁ b l₂)
    (hmin : s.cfg.minMatchBlocks ≤ (s.replicas b).cache.lookup hashes)
    (h : s.routeCacheAware hashes = some (idx, m)) :
    idx = b ∧ m = (s.replicas b).cache.lookup hashes := by
  rw [routeCacheAware_of_firstBest hidle hα hbest, if_neg (not_lt.mpr hmin)] at h
  obtain ⟨rfl, rfl⟩ := Prod.mk.inj (Option.some_inj.mp h)
  exact ⟨rfl, rfl⟩

/-- After a prompt of distinct blocks was served, its replica is the first with the longest match of
the same prompt.

**Proof sketch.** Its match is all that the budget allows, which no cache exceeds. Before, either it
was the first with the longest match, so earlier replicas match strictly less; or no replica matched
`min_match_blocks`, which it matches now. -/
theorem firstBest_served {s : Scheduler ℚ n} (hinv : s.Inv) (hp : s.policy = .cacheAware)
    (hidle : ∀ r, s.inflight r = 0) (hα : 0 < s.cfg.alpha) {hashes : List UInt64}
    (hnd : hashes.Nodup) (hmin : s.cfg.minMatchBlocks ≤ min hashes.length s.cfg.blockBudget)
    {idx : Fin n} {m : ℕ} (h : s.routeCacheAware hashes = some (idx, m)) (rr : ℕ) :
    (((s.served hashes idx rr).replicas idx).cache.lookup hashes =
      min hashes.length s.cfg.blockBudget) ∧
    ∃ l₁ l₂, (s.served hashes idx rr).FirstBest hashes l₁ idx l₂ := by
  have hself : ((s.served hashes idx rr).replicas idx).cache.lookup hashes =
      min hashes.length s.cfg.blockBudget := by
    rw [cache_served_self hp]
    have hwf := PrefixCache.wf_insert (hinv.replica idx).wf hashes
    exact le_antisymm (PrefixCache.lookup_le_min hnd (PrefixCache.numBlocks_evictTo_le hwf _))
      (PrefixCache.le_lookup_evictTo_insert (hinv.replica idx).wf hnd (min_le_left _ _)
        (min_le_left _ _) rfl (min_le_right _ _))
  have hle : ∀ j, (s.replicas j).cache.lookup hashes ≤ min hashes.length s.cfg.blockBudget :=
    fun j => PrefixCache.lookup_le_min hnd (hinv.replica j).numBlocks_le
  obtain ⟨l₁, l₂, hav, hlt⟩ : ∃ l₁ l₂, s.available = l₁ ++ idx :: l₂ ∧
      ∀ j ∈ l₁, (s.replicas j).cache.lookup hashes < min hashes.length s.cfg.blockBudget := by
    rcases firstBest_or_of_routeCacheAware hidle hα h with ⟨l₁, l₂, hbest⟩ | hcold
    · exact ⟨l₁, l₂, hbest.available, fun j hj => lt_of_lt_of_le (hbest.before j hj) (hle idx)⟩
    · obtain ⟨l₁, l₂, hav⟩ :=
        List.append_of_mem (mem_available.mpr (availMask_of_routeCacheAware h))
      refine ⟨l₁, l₂, hav, fun j hj => lt_of_lt_of_le (hcold j ?_) hmin⟩
      exact mem_available.mp (by simp [hav, hj])
  have hnodup : (l₁ ++ idx :: l₂).Nodup := hav ▸ (List.nodup_finRange n).filter _
  have hne : ∀ j ∈ l₁ ++ l₂, j ≠ idx := fun j hj hji => by
    have := (List.nodup_middle.mp hnodup)
    rw [List.nodup_cons] at this
    exact this.1 (hji ▸ hj)
  refine ⟨hself, l₁, l₂, (s.available_served hashes idx rr).trans hav, fun j hj => ?_, fun j hj => ?_⟩
  · rw [cache_served_of_ne _ _ _ (hne j (List.mem_append_left _ hj)), hself]
    exact hlt j hj
  · rw [cache_served_of_ne _ _ _ (hne j (List.mem_append_right _ hj)), hself]
    exact hle j

open Protocol in
/-- **Prefix affinity.** From any reachable `CacheAware` state with nothing in flight and a healthy
replica, route the prompt `t₁`, complete it, and route `t₂`. If the blocks of `t₁` are distinct, and
the blocks that the prompts share, up to the budget, reach `min_match_blocks`, then the second decision
reports at least those blocks; and if the prompts are equal then it is for the same replica and reports
all blocks up to the budget.

**Proof sketch.** The first pick leaves the shared blocks, up to the budget, in the cache of its replica,
which is idle and available again once the request is complete. So the best match for the second prompt
has at least these blocks, and with nothing in flight the best match wins. If the prompts are equal, then
the replica of the first pick is the first best match. -/
theorem prefix_affinity {cfg : SchedulerConfig ℚ} {τ : List (Op n × Answer n)} {s : Scheduler ℚ n}
    (h : (lts ℚ n).Exec (new n .cacheAware cfg) τ s) (hidle : ∀ r, s.inflight r = 0)
    (hhealthy : ∃ r, s.isHealthy r = true) (hmax : 1 ≤ cfg.maxInflight) (hα : 0 < cfg.alpha)
    {t₁ t₂ : List UInt32} (hnd : (blockHashes t₁).Nodup)
    (hmin : cfg.minMatchBlocks ≤ min (sharedTokens t₁ t₂ / blockSize) cfg.blockBudget) :
    ∃ d₁ s₁ d₂ s₂, s.pick (blockHashes t₁) = some (.ok d₁, s₁) ∧
      (s₁.complete d₁.replica).pick (blockHashes t₂) = some (.ok d₂, s₂) ∧
      min (sharedTokens t₁ t₂ / blockSize) cfg.blockBudget ≤ d₂.matchedBlocks ∧
      (t₁ = t₂ → d₂.replica = d₁.replica ∧
        d₂.matchedBlocks = min (blockHashes t₂).length cfg.blockBudget) := by
  have hinv := inv_of_exec h
  have hp : s.policy = .cacheAware := policy_of_exec h
  obtain rfl : s.cfg = cfg := cfg_of_exec h
  obtain ⟨d₁, s₁, hpick₁, hroute₁, hserved⟩ := pick_of_idle hp hidle hhealthy hmax (blockHashes t₁)
  have havail₁ := availMask_of_routeCacheAware hroute₁
  -- the state of the second pick is idle again, with the same replicas available
  set s' := s.served (blockHashes t₁) d₁.replica s.rrNext with hs'
  have hidle' : ∀ r, s'.inflight r = 0 := fun r => (inflight_served _ _ _ _ r).trans (hidle r)
  have havail₁' : s'.availMask d₁.replica = true := (availMask_served _ _ _ _ _).trans havail₁
  obtain ⟨d₂, s₂, hpick₂, hroute₂, -⟩ := pick_of_idle (s := s') hp hidle'
    ⟨_, (availMask_iff.mp havail₁').1⟩ hmax (blockHashes t₂)
  refine ⟨d₁, s₁, d₂, s₂, hpick₁, hserved ▸ hpick₂, ?_, ?_⟩
  · -- the first replica has the shared blocks, so the best one has them
    obtain ⟨l₁, b, l₂, hbest⟩ := exists_firstBest havail₁' (blockHashes t₂)
    have hshared : min (sharedTokens t₁ t₂ / blockSize) s.cfg.blockBudget ≤
        (s'.replicas d₁.replica).cache.lookup (blockHashes t₂) := by
      rw [hs', cache_served_self hp]
      refine PrefixCache.le_lookup_evictTo_insert (hinv.replica _).wf hnd ?_ ?_ ?_ (min_le_right _ _)
      · rw [length_blockHashes]
        exact (min_le_left _ _).trans (Nat.div_le_div_right (sharedTokens_le_length t₁ t₂))
      · rw [length_blockHashes]
        exact (min_le_left _ _).trans (Nat.div_le_div_right 
          (sharedTokens_comm t₁ t₂ ▸ sharedTokens_le_length t₂ t₁))
      · exact (take_blockHashes_of_sharedTokens (min_le_left _ _)).symm
    have hle := hshared.trans (hbest.le havail₁')
    rw [(matchedBlocks_of_firstBest hidle' hα hbest (hmin.trans hle) hroute₂).2]
    exact hle
  · rintro rfl
    rw [sharedTokens_self, ← length_blockHashes] at hmin
    obtain ⟨hself, l₁, l₂, hbest⟩ :=
      firstBest_served hinv hp hidle hα hnd hmin hroute₁ s.rrNext
    obtain ⟨hidx, hm⟩ := matchedBlocks_of_firstBest hidle' hα hbest (hself ▸ hmin) hroute₂
    exact ⟨hidx, hm.trans hself⟩

/-- Affinity of two prompts of three and two blocks at two replicas that each hold two blocks of other
prompts. -/
theorem prefix_affinity_two : ∃ τ s d₁ s₁ d₂ s₂,
    (lts ℚ 2).Exec (new 2 .cacheAware smallConfig) τ s ∧
      s.pick (Protocol.blockHashes (List.replicate 48 5)) = some (.ok d₁, s₁) ∧
      (s₁.complete d₁.replica).pick (Protocol.blockHashes (List.replicate 40 5)) =
        some (.ok d₂, s₂) ∧ 2 ≤ d₂.matchedBlocks := by
  have hrun := Lts.exec_get step (new 2 .cacheAware smallConfig)
    [.pick [1, 2], .pick [3, 4], .complete 0, .complete 1] (by decide +kernel)
  have hnd : (Protocol.blockHashes (List.replicate 48 5)).Nodup := by decide +kernel
  have hshared : min (Protocol.sharedTokens (List.replicate 48 (5 : UInt32)) (List.replicate 40 5) /
      Protocol.blockSize) smallConfig.blockBudget = 2 := by decide +kernel
  obtain ⟨d₁, s₁, d₂, s₂, h₁, h₂, hle, -⟩ := prefix_affinity hrun (by decide +kernel)
    ⟨0, by decide +kernel⟩ (by decide) (by decide +kernel) hnd
    (le_of_le_of_eq (by decide) hshared.symm)
  exact ⟨_, _, d₁, s₁, d₂, s₂, hrun, h₁, h₂, hshared.ge.trans hle⟩

end Exact

end Scheduler
