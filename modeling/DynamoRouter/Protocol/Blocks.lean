import Mathlib.Data.List.Basic
import Mathlib.Data.List.TakeDrop
import Mathlib.Order.Defs.LinearOrder

set_option relaxedAutoImplicit false
set_option autoImplicit false

/-!
# Chained block hashes (`crates/protocol/src/blocks.rs`)

A prompt is cut into blocks of `BLOCK_SIZE` tokens, the incomplete last block is dropped, and each
block is hashed with FNV-1a starting from the hash of the block before it. Hash `i` therefore
depends on the blocks `0, …, i`.

## Main definitions

* `Protocol.blockHashes` — the hash chain of a token list.
* `Protocol.sharedTokens` — the number of leading tokens two lists have in common.

## Main results

* `Protocol.length_blockHashes` — one hash for each full block.
* `Protocol.take_blockHashes` — the first `m` hashes are those of the first `m` blocks' tokens.
* `Protocol.take_blockHashes_of_sharedTokens` — lists that share their first tokens share the hashes
  of the full blocks among them.
-/

/-- Hashes are compared as unsigned 64-bit integers. -/
instance instLinearOrderUInt64 : LinearOrder UInt64 where
  le_refl := UInt64.le_refl
  le_trans _ _ _ := UInt64.le_trans
  le_antisymm _ _ := UInt64.le_antisymm
  le_total := UInt64.le_total
  lt_iff_le_not_ge a b := by
    rw [UInt64.lt_iff_toNat_lt, UInt64.le_iff_toNat_le, UInt64.le_iff_toNat_le]
    omega
  toDecidableLE := inferInstance
  toDecidableEq := inferInstance
  toDecidableLT := inferInstance

namespace Protocol

/-- `BLOCK_SIZE`: the number of tokens in a block. -/
def blockSize : ℕ := 16

/-- One round of the inner loop: `h ^= t as u64; h = h.wrapping_mul(0x100000001b3)`. -/
def fnvStep (h : UInt64) (t : UInt32) : UInt64 := (h ^^^ t.toUInt64) * 0x100000001b3

/-- `chunks_exact`: the consecutive full chunks of `k` elements, without the remainder. -/
def chunksExact {α : Type*} (k : ℕ) (l : List α) : List (List α) :=
  (List.range (l.length / k)).map fun i => (l.drop (i * k)).take k

/-- The outer loop of `block_hashes`: push the hash of each block, started from the one before. -/
def chainHashes (prev : UInt64) : List (List UInt32) → List UInt64
  | [] => []
  | block :: blocks =>
    let h := block.foldl fnvStep prev
    h :: chainHashes h blocks

/-- `block_hashes`. -/
def blockHashes (tokens : List UInt32) : List UInt64 :=
  chainHashes 0xcbf29ce484222325 (chunksExact blockSize tokens)

/-- The number of leading elements that two lists have in common. -/
def sharedTokens {α : Type*} [DecidableEq α] : List α → List α → ℕ
  | x :: xs, y :: ys => if x = y then sharedTokens xs ys + 1 else 0
  | _, _ => 0

/-- One hash for each block. -/
@[simp] theorem length_chainHashes (prev : UInt64) (blocks : List (List UInt32)) :
    (chainHashes prev blocks).length = blocks.length := by
  induction blocks generalizing prev with
  | nil => rfl
  | cons block blocks ih => simp [chainHashes, ih]

/-- The chain of the first blocks is the first part of the chain. -/
theorem take_chainHashes (prev : UInt64) (blocks : List (List UInt32)) (m : ℕ) :
    (chainHashes prev blocks).take m = chainHashes prev (blocks.take m) := by
  induction blocks generalizing prev m with
  | nil => simp [chainHashes]
  | cons block blocks ih =>
    cases m with
    | zero => simp [chainHashes]
    | succ m => simp [chainHashes, ih]

/-- The first `m` chunks of `k` elements lie in the first `m * k` elements. -/
theorem take_chunksExact {α : Type*} {k : ℕ} (hk : 0 < k) (l : List α) (m : ℕ) :
    (chunksExact k l).take m = chunksExact k (l.take (m * k)) := by
  have hlen : (l.take (m * k)).length / k = min m (l.length / k) := by
    rw [List.length_take]
    rcases Nat.le_total (m * k) l.length with h | h
    · rw [Nat.min_eq_left h, Nat.mul_div_cancel m hk,
        Nat.min_eq_left ((Nat.le_div_iff_mul_le hk).mpr h)]
    · rw [Nat.min_eq_right h, Nat.min_eq_right (Nat.div_le_of_le_mul (by rwa [Nat.mul_comm]))]
  unfold chunksExact
  rw [← List.map_take, List.take_range, hlen]
  refine List.map_congr_left fun i hi => ?_
  have him : i + 1 ≤ m := by
    have := List.mem_range.mp hi
    omega
  have hle : i * k + k ≤ m * k := by
    have := Nat.mul_le_mul_right k him
    rwa [Nat.add_mul, Nat.one_mul] at this
  rw [List.drop_take, List.take_take, Nat.min_eq_left (by omega)]

/-- One hash for each full block of tokens. -/
@[simp] theorem length_blockHashes (tokens : List UInt32) :
    (blockHashes tokens).length = tokens.length / blockSize := by
  simp [blockHashes, chunksExact]

/-- The first `m` hashes are the hashes of the tokens of the first `m` blocks. -/
theorem take_blockHashes (tokens : List UInt32) (m : ℕ) :
    (blockHashes tokens).take m = blockHashes (tokens.take (m * blockSize)) := by
  rw [blockHashes, take_chainHashes, take_chunksExact (by decide)]
  rfl

/-- Lists agree on the tokens they share. -/
theorem take_sharedTokens {α : Type*} [DecidableEq α] : ∀ {xs ys : List α} {k : ℕ},
    k ≤ sharedTokens xs ys → xs.take k = ys.take k
  | _, _, 0, _ => by simp
  | [], _, k + 1, h => by simp [sharedTokens] at h
  | _ :: _, [], k + 1, h => by simp [sharedTokens] at h
  | x :: xs, y :: ys, k + 1, h => by
    rw [sharedTokens] at h
    split_ifs at h with hxy
    · have hk : k ≤ sharedTokens xs ys := by omega
      rw [List.take_succ_cons, List.take_succ_cons, hxy, take_sharedTokens hk]
    · omega

/-- No more tokens are shared than there are. -/
theorem sharedTokens_le_length {α : Type*} [DecidableEq α] : ∀ xs ys : List α,
    sharedTokens xs ys ≤ xs.length
  | [], _ => by simp [sharedTokens]
  | _ :: _, [] => by simp [sharedTokens]
  | x :: xs, y :: ys => by
    rw [sharedTokens]
    have := sharedTokens_le_length xs ys
    split_ifs <;> simp only [List.length_cons] <;> omega

/-- Sharing is symmetric. -/
theorem sharedTokens_comm {α : Type*} [DecidableEq α] : ∀ xs ys : List α,
    sharedTokens xs ys = sharedTokens ys xs
  | [], [] => rfl
  | [], _ :: _ => rfl
  | _ :: _, [] => rfl
  | x :: xs, y :: ys => by
    rw [sharedTokens, sharedTokens, sharedTokens_comm xs ys]
    simp only [eq_comm]

/-- A list shares all its tokens with itself. -/
theorem sharedTokens_self {α : Type*} [DecidableEq α] (xs : List α) :
    sharedTokens xs xs = xs.length := by
  induction xs with
  | nil => rfl
  | cons x xs ih => simp [sharedTokens, ih]

/-- **Shared tokens give shared hashes**: the hashes of the full blocks among the shared tokens.

**Proof sketch.** The first hashes are those of the first tokens, and these are the same in both. -/
theorem take_blockHashes_of_sharedTokens {xs ys : List UInt32} {m : ℕ}
    (hm : m ≤ sharedTokens xs ys / blockSize) :
    (blockHashes xs).take m = (blockHashes ys).take m := by
  have hle : m * blockSize ≤ sharedTokens xs ys := by
    rwa [Nat.le_div_iff_mul_le (by decide)] at hm
  rw [take_blockHashes, take_blockHashes, take_sharedTokens hle]

end Protocol
