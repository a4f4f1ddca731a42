import Mathlib.Logic.Function.Basic
import Mathlib.Order.Nat
import DynamoRouter.Protocol.Blocks

set_option relaxedAutoImplicit false
set_option autoImplicit false

/-!
# What a block hash commits to (`crates/protocol/src/blocks.rs`)

The nested loops of `block_hashes` compute one flat fold: hash `i` is the FNV hash of the first
`i + 1` blocks. So the hashes of a prompt are a prefix of the hashes of every longer prompt.

One round of FNV-1a is injective in the running hash, and injective in the token: the multiplier is odd,
hence invertible modulo `2 ^ 64`, and the exclusive or with the zero-extended token can be undone. So two
chains that have parted stay apart as long as the tokens agree. They can only meet again through another
difference in the tokens.

## Main definitions

* `Protocol.fnvHash` — the flat fold.

## Main results

* `Protocol.getElem?_blockHashes` — hash `i` is the flat fold of the first `i + 1` blocks.
* `Protocol.blockHashes_homomorphism` — the chain is a prefix homomorphism.
* `Protocol.fnvStep_injective`, `Protocol.fnvStep_injective_token` — one round loses nothing.
* `Protocol.blockHashes_diverge` — parted chains do not meet.
-/

namespace Protocol

/-- The FNV-1a hash of a token list, from the offset basis. -/
def fnvHash (tokens : List UInt32) : UInt64 := tokens.foldl fnvStep 0xcbf29ce484222325

/-! ## The chain as a flat fold -/

/-- The hashes of a chain of blocks are the folds of the first blocks, joined. -/
theorem getElem?_chainHashes (prev : UInt64) (blocks : List (List UInt32)) (i : ℕ) :
    (chainHashes prev blocks)[i]? =
      if i < blocks.length then some ((blocks.take (i + 1)).flatten.foldl fnvStep prev) else none := by
  induction blocks generalizing prev i with
  | nil => simp [chainHashes]
  | cons block blocks ih =>
    cases i with
    | zero => simp [chainHashes]
    | succ i => simp [chainHashes, ih, List.foldl_append]

/-- The first `m` full chunks of `k` elements, joined, are the first `m * k` elements. -/
theorem flatten_take_chunksExact {α : Type*} {k : ℕ} (l : List α) {m : ℕ} (hm : m ≤ l.length / k) :
    ((chunksExact k l).take m).flatten = l.take (m * k) := by
  induction m with
  | zero => simp
  | succ m ih =>
    have hlt : m < (chunksExact k l).length := by
      simp only [chunksExact, List.length_map, List.length_range]
      omega
    have hchunk : (chunksExact k l)[m] = (l.drop (m * k)).take k := by simp [chunksExact]
    rw [← List.take_append_getElem hlt, List.flatten_append, ih (by omega), hchunk,
      List.flatten_singleton, Nat.add_mul, Nat.one_mul, List.take_add]

/-- **Hash `i` is the flat fold of the first `i + 1` blocks.** -/
theorem getElem?_blockHashes (tokens : List UInt32) {i : ℕ} (hi : i < tokens.length / blockSize) :
    (blockHashes tokens)[i]? = some (fnvHash (tokens.take ((i + 1) * blockSize))) := by
  rw [blockHashes, getElem?_chainHashes, if_pos (by simpa [chunksExact] using hi),
    flatten_take_chunksExact tokens hi]
  rfl

/-- The hashes of a list are the first hashes of every list that it starts. -/
theorem blockHashes_isPrefix {t u : List UInt32} (h : t <+: u) : blockHashes t <+: blockHashes u := by
  obtain ⟨v, rfl⟩ := h
  have htake : (blockHashes (t ++ v)).take (t.length / blockSize) = blockHashes t := by
    have hlen : t.length / blockSize * blockSize ≤ t.length := Nat.div_mul_le_self _ _
    rw [take_blockHashes, List.take_append_of_le_length hlen, ← take_blockHashes,
      ← length_blockHashes, List.take_length]
  rw [← htake]
  exact List.take_prefix _ _

/-- **The chain is a prefix homomorphism.** A token list has a hash for each full block; hash `i` is the
FNV fold of its first `16 * (i + 1)` tokens; the hashes stay when tokens are appended; and lists that
start with the same `p` tokens start with the same `p / 16` hashes. -/
theorem blockHashes_homomorphism (t : List UInt32) :
    (blockHashes t).length = t.length / 16 ∧
    (∀ i, i < t.length / 16 → (blockHashes t)[i]? =
      some ((t.take (16 * (i + 1))).foldl fnvStep 0xcbf29ce484222325)) ∧
    (∀ u, blockHashes t <+: blockHashes (t ++ u)) ∧
    ∀ u c, c <+: t → c <+: u →
      ∃ l, l.length = c.length / 16 ∧ l <+: blockHashes t ∧ l <+: blockHashes u := by
  refine ⟨length_blockHashes t, fun i hi => ?_, fun u => ?_, fun u c hct hcu => ?_⟩
  · rw [getElem?_blockHashes t hi, Nat.mul_comm 16]
    rfl
  · exact blockHashes_isPrefix (List.prefix_append t u)
  · exact ⟨blockHashes c, length_blockHashes c, blockHashes_isPrefix hct, blockHashes_isPrefix hcu⟩

/-- Two prompts of three and two blocks that share the tokens of one block and a half share its hash. -/
theorem blockHashes_homomorphism_shared : ∃ l, l.length = 1 ∧
    l <+: blockHashes (List.replicate 24 5 ++ List.replicate 24 6) ∧
    l <+: blockHashes (List.replicate 24 5 ++ List.replicate 8 7) :=
  (blockHashes_homomorphism _).2.2.2 _ (List.replicate 24 5) (List.prefix_append _ _)
    (List.prefix_append _ _)

/-! ## No round loses information -/

/-- The multiplier can be undone modulo `2 ^ 64`. -/
theorem fnvPrime_mul_injective : Function.Injective fun h : UInt64 => h * 0x100000001b3 := by
  intro a b hab
  have hinv : ∀ h : UInt64, h * 0x100000001b3 * 0xce965057aff6957b = h := fun h => by
    rw [UInt64.mul_assoc]
    exact UInt64.mul_one h
  rw [← hinv a, ← hinv b]
  exact congrArg (· * 0xce965057aff6957b) hab

/-- **One round is injective in the running hash.** -/
theorem fnvStep_injective (t : UInt32) : Function.Injective fun h => fnvStep h t := by
  intro a b hab
  exact (UInt64.xor_left_inj _).mp (fnvPrime_mul_injective hab)

/-- **One round is injective in the token.** -/
theorem fnvStep_injective_token (h : UInt64) : Function.Injective (fnvStep h) := by
  intro t u htu
  exact UInt32.toUInt64_inj.mp ((UInt64.xor_right_inj _).mp (fnvPrime_mul_injective htu))

/-- A fold of injective steps is injective in its start. -/
theorem foldl_injective {σ α : Type*} {f : σ → α → σ}
    (hf : ∀ x, Function.Injective fun s => f s x) (l : List α) :
    Function.Injective fun s => l.foldl f s := by
  induction l with
  | nil => exact Function.injective_id
  | cons x l ih =>
    intro a b hab
    exact hf x (ih hab)

/-- Two hashes that differ stay different over the same further tokens. -/
theorem fnvHash_append_ne {t u : List UInt32} (h : fnvHash t ≠ fnvHash u) (v : List UInt32) :
    fnvHash (t ++ v) ≠ fnvHash (u ++ v) := by
  unfold fnvHash at h ⊢
  rw [List.foldl_append, List.foldl_append]
  exact (foldl_injective fnvStep_injective v).ne h

/-- One token that differs makes the hashes differ, whatever is around it. -/
theorem fnvHash_ne_of_token {a b : UInt32} (h : a ≠ b) (t v : List UInt32) :
    fnvHash (t ++ a :: v) ≠ fnvHash (t ++ b :: v) := by
  unfold fnvHash
  rw [List.foldl_append, List.foldl_append, List.foldl_cons, List.foldl_cons]
  exact (foldl_injective fnvStep_injective v).ne ((fnvStep_injective_token _).ne h)

/-! ## Chains that have parted -/

/-- Lists that agree from position `a` to position `b` have the same part there. -/
theorem take_drop_of_agree {α : Type*} {x y : List α} {a b : ℕ}
    (h : ∀ p, a ≤ p → p < b → x[p]? = y[p]?) : (x.drop a).take (b - a) = (y.drop a).take (b - a) := by
  apply List.ext_getElem?
  intro q
  rw [List.getElem?_take, List.getElem?_take, List.getElem?_drop, List.getElem?_drop]
  split_ifs with hq
  · exact h (a + q) (Nat.le_add_right a q) (by omega)
  · rfl

/-- **Parted chains do not meet over equal tokens.** If two hashes differ at index `i`, and the tokens
of the blocks `i + 1, …, k` are equal, then the hashes differ at index `k`. -/
theorem blockHashes_ne_of_ne {x y : List UInt32} (hlen : x.length = y.length) {i k : ℕ} (hik : i ≤ k)
    (hk : k < x.length / blockSize) (hne : (blockHashes x)[i]? ≠ (blockHashes y)[i]?)
    (htokens : ∀ p, (i + 1) * blockSize ≤ p → p < (k + 1) * blockSize → x[p]? = y[p]?) :
    (blockHashes x)[k]? ≠ (blockHashes y)[k]? := by
  have hk' : k < y.length / blockSize := hlen ▸ hk
  rw [getElem?_blockHashes x (lt_of_le_of_lt hik hk), getElem?_blockHashes y (lt_of_le_of_lt hik hk'),
    ne_eq, Option.some_inj] at hne
  rw [getElem?_blockHashes x hk, getElem?_blockHashes y hk', ne_eq, Option.some_inj]
  -- the first `k + 1` blocks are the first `i + 1` blocks and then the equal ones
  have hsplit : ∀ l : List UInt32, l.take ((k + 1) * blockSize) = l.take ((i + 1) * blockSize) ++
      (l.drop ((i + 1) * blockSize)).take ((k + 1) * blockSize - (i + 1) * blockSize) := fun l => by
    have hle := Nat.mul_le_mul_right blockSize (Nat.succ_le_succ hik)
    rw [← List.take_add, Nat.add_sub_cancel' hle]
  rw [hsplit x, hsplit y, take_drop_of_agree htokens]
  exact fnvHash_append_ne hne _

/-- Lists that differ in one token of the first `m` have different hashes of their first `m` tokens. -/
theorem fnvHash_take_ne {x y : List UInt32} (hlen : x.length = y.length) {j m : ℕ} (hjm : j < m)
    (hj : j < x.length) (hne : x[j]? ≠ y[j]?) (hsame : ∀ p, p ≠ j → x[p]? = y[p]?) :
    fnvHash (x.take m) ≠ fnvHash (y.take m) := by
  have hj' : j < y.length := hlen ▸ hj
  have hsplit : ∀ (l : List UInt32) (hl : j < l.length),
      l.take m = l.take j ++ l[j] :: (l.drop (j + 1)).take (m - (j + 1)) := fun l hl => by
    have hm : m = j + (1 + (m - (j + 1))) := by omega
    conv_lhs => rw [hm, List.take_add, List.drop_eq_getElem_cons hl, Nat.add_comm 1,
      List.take_succ_cons]
  have hbefore : x.take j = y.take j := by
    have := take_drop_of_agree (x := x) (y := y) (a := 0) (b := j) fun p _ hp => hsame p (ne_of_lt hp)
    simpa using this
  have hafter := take_drop_of_agree (x := x) (y := y) (a := j + 1) (b := m) fun p hp _ =>
    hsame p (ne_of_gt (Nat.succ_le_iff.mp hp))
  rw [hsplit x hj, hsplit y hj', hbefore, hafter]
  rw [List.getElem?_eq_getElem hj, List.getElem?_eq_getElem hj', ne_eq, Option.some_inj] at hne
  exact fnvHash_ne_of_token hne _ _

/-- **The chain tells diverging prompts apart.** Let two prompts have the same length. If they differ in
exactly one token, at a position `j` of a full block, then the hashes agree at every index below `j / 16`
and differ at every index from there on. And whenever the hashes differ at an index `i`, and the later
tokens of the full blocks are equal, the hashes differ at every later index.

**Proof sketch.** Hash `k` is a fold from the hash at `i` over the tokens between; the rounds are
injective in the running hash (`fnvStep_injective`), and the round of the token that differs is
injective in the token (`fnvStep_injective_token`). -/
theorem blockHashes_diverge {x y : List UInt32} (hlen : x.length = y.length) :
    (∀ j, j / 16 < x.length / 16 → x[j]? ≠ y[j]? → (∀ p, p ≠ j → x[p]? = y[p]?) →
      (∀ i, i < j / 16 → (blockHashes x)[i]? = (blockHashes y)[i]?) ∧
      ∀ i, j / 16 ≤ i → i < x.length / 16 → (blockHashes x)[i]? ≠ (blockHashes y)[i]?) ∧
    ∀ i, (blockHashes x)[i]? ≠ (blockHashes y)[i]? →
      (∀ p, 16 * (i + 1) ≤ p → p < 16 * (x.length / 16) → x[p]? = y[p]?) →
      ∀ k, i ≤ k → k < x.length / 16 → (blockHashes x)[k]? ≠ (blockHashes y)[k]? := by
  refine ⟨fun j hj hne hsame => ⟨fun i hi => ?_, fun i hji hi => ?_⟩, fun i hne htokens k hik hk => ?_⟩
  · have hi' : i < x.length / blockSize := lt_trans hi hj
    rw [getElem?_blockHashes x hi', getElem?_blockHashes y (hlen ▸ hi')]
    have hbefore := take_drop_of_agree (x := x) (y := y) (a := 0) (b := (i + 1) * blockSize)
      fun p _ hp => hsame p (by simp only [blockSize] at hp; omega)
    rw [List.drop_zero, List.drop_zero, Nat.sub_zero] at hbefore
    rw [hbefore]
  · rw [getElem?_blockHashes x hi, getElem?_blockHashes y (hlen ▸ hi), ne_eq, Option.some_inj]
    exact fnvHash_take_ne hlen (by simp only [blockSize]; omega) (by omega) hne hsame
  · refine blockHashes_ne_of_ne hlen hik hk hne fun p hp hpk => htokens p ?_ ?_
    · simp only [blockSize] at hp
      omega
    · simp only [blockSize] at hpk
      omega

/-- Two prompts of two blocks and a half that differ in their second token. -/
theorem blockHashes_diverge_second :
    (blockHashes (5 :: 6 :: List.replicate 38 7))[1]? ≠
      (blockHashes (5 :: 8 :: List.replicate 38 7))[1]? :=
  ((blockHashes_diverge (by simp)).1 1 (by simp) (by simp) (fun p hp => by
    rcases p with _ | _ | p
    · rfl
    · exact absurd rfl hp
    · rfl)).2 1 (by simp) (by simp)

end Protocol
