/-
This file follows the batch root of `merkle.cpp` level by level. The `j`-th level of a list of
leaves is what `j` passes of the loop of `merkle` leave of it: one digest for each block of
`2 ^ j` leaves, the last block possibly short. A digest of a full block depends on the leaves of
that block only, and the root is the single digest of the first level of length one, the level
`(n - 1).size` for `n` leaves.
-/

import Mathlib
import EosioChain.Merkle

namespace Eosio.Chain

variable {Digest : Type} [Inhabited Digest] (hashPair : Digest → Digest → Digest)

/-- The `j`-th level of the batch root of `ids`. -/
def merkleLevels (ids : List Digest) : Nat → List Digest
  | 0 => ids
  | j + 1 => merkleLevel hashPair (merkleLevels ids j)

theorem merkleLevels_zero (ids : List Digest) : merkleLevels hashPair ids 0 = ids :=
  rfl

theorem merkleLevels_succ (ids : List Digest) (j : Nat) :
    merkleLevels hashPair ids (j + 1) = merkleLevel hashPair (merkleLevels hashPair ids j) :=
  rfl

/-- The levels above the first are the levels of the first pass. -/
theorem merkleLevels_succ_eq (ids : List Digest) (j : Nat) :
    merkleLevels hashPair ids (j + 1) = merkleLevels hashPair (merkleLevel hashPair ids) j := by
  induction j with
  | zero => rfl
  | succ j inductionHypothesis => rw [merkleLevels_succ, inductionHypothesis, merkleLevels_succ]

variable {hashPair}

/-! ### One pass -/

theorem getD_map_range {α : Type} {f : Nat → α} {k i : Nat} {d : α} (below : i < k) :
    ((List.range k).map f).getD i d = f i := by
  simp [List.getD_eq_getElem?_getD, below]

/-- A digest of a pass pairs two neighbours of the level below. -/
theorem getD_merkleLevel {ids : List Digest} {i : Nat} (inside : 2 * i + 1 < ids.length) :
    (merkleLevel hashPair ids).getD i default =
      hashPair (ids.getD (2 * i) default) (ids.getD (2 * i + 1) default) := by
  have padded : ∀ k, k < ids.length →
      (if ids.length % 2 = 1 then ids ++ [ids.getLastD default] else ids).getD k default =
        ids.getD k default := by
    intro k below
    split
    · exact List.getD_append _ _ _ _ below
    · rfl
  have pairs : i < (if ids.length % 2 = 1 then ids ++ [ids.getLastD default] else ids).length / 2 := by
    split
    · simp only [List.length_append, List.length_singleton]
      omega
    · omega
  rw [merkleLevel, getD_map_range pairs, padded _ (by omega), padded _ inside]

/-- The last digest of an odd level is paired with itself. -/
theorem getD_merkleLevel_last {ids : List Digest} {i : Nat} (odd : ids.length = 2 * i + 1) :
    (merkleLevel hashPair ids).getD i default =
      hashPair (ids.getD (2 * i) default) (ids.getD (2 * i) default) := by
  have isOdd : ids.length % 2 = 1 := by omega
  have last : ids.getLastD default = ids.getD (2 * i) default := by
    rw [List.getLastD_eq_getLast?, List.getLast?_eq_getElem?, List.getD_eq_getElem?_getD, odd]
    rfl
  have pairs : i < (ids ++ [ids.getLastD default]).length / 2 := by
    simp only [List.length_append, List.length_singleton]
    omega
  rw [merkleLevel]
  simp only [isOdd, if_true]
  rw [getD_map_range pairs, List.getD_append _ _ _ _ (by omega),
    List.getD_append_right _ _ _ _ (by omega), odd,
    show 2 * i + 1 - (2 * i + 1) = 0 by omega, List.getD_cons_zero, last]

/-! ### Levels -/

/-- The `j`-th level of `n` leaves has one digest per block of `2 ^ j` leaves. -/
theorem length_merkleLevels {ids : List Digest} (nonempty : ids ≠ []) (j : Nat) :
    (merkleLevels hashPair ids j).length = (ids.length - 1) / 2 ^ j + 1 := by
  induction j with
  | zero =>
    have := List.length_pos_iff.mpr nonempty
    rw [merkleLevels_zero, Nat.pow_zero, Nat.div_one]
    omega
  | succ j inductionHypothesis =>
    rw [merkleLevels_succ, length_merkleLevel, inductionHypothesis, Nat.pow_succ,
      ← Nat.div_div_eq_div_mul]
    omega

/-- A digest of a full block of `2 ^ j` leaves is the same in every list that starts with them. -/
theorem getD_merkleLevels_append {ids more : List Digest} :
    ∀ {j i : Nat}, (i + 1) * 2 ^ j ≤ ids.length →
      (merkleLevels hashPair (ids ++ more) j).getD i default =
        (merkleLevels hashPair ids j).getD i default
  | 0, i, full => by
    simp only [merkleLevels_zero]
    exact List.getD_append _ _ _ _ (by omega)
  | j + 1, i, full => by
    have positive : 0 < 2 ^ j := Nat.two_pow_pos j
    have nonempty : ids ≠ [] := by
      intro empty
      simp only [empty, List.length_nil, Nat.le_zero, Nat.mul_eq_zero] at full
      rcases full with zero | zero
      · omega
      · exact absurd zero (Nat.two_pow_pos _).ne'
    -- both neighbours of the pair lie in full blocks of the level below
    have halves : (i + 1) * 2 ^ (j + 1) = (2 * i + 1) * 2 ^ j + 2 ^ j := by ring
    have leftFull : (2 * i + 1) * 2 ^ j ≤ ids.length := by omega
    have rightFull : (2 * i + 1 + 1) * 2 ^ j ≤ ids.length := by
      have : (2 * i + 1 + 1) * 2 ^ j = (i + 1) * 2 ^ (j + 1) := by ring
      omega
    have pairInside : 2 * i + 1 < (merkleLevels hashPair ids j).length := by
      rw [length_merkleLevels nonempty, Nat.lt_succ_iff, Nat.le_div_iff_mul_le positive]
      omega
    have longer : (merkleLevels hashPair ids j).length ≤
        (merkleLevels hashPair (ids ++ more) j).length := by
      rw [length_merkleLevels nonempty, length_merkleLevels (by simp [nonempty])]
      have : ids.length - 1 ≤ (ids ++ more).length - 1 := by simp only [List.length_append]; omega
      have := Nat.div_le_div_right (c := 2 ^ j) this
      omega
    rw [merkleLevels_succ, merkleLevels_succ, getD_merkleLevel pairInside,
      getD_merkleLevel (Nat.lt_of_lt_of_le pairInside longer),
      getD_merkleLevels_append leftFull, getD_merkleLevels_append rightFull]

/-- The digest at position `p` of the last level that has one: a copy of it pairs with it when
`p` is even, its left neighbour when `p` is odd. -/
theorem getD_merkleLevels_succ_last {ids : List Digest} (nonempty : ids ≠ []) (j : Nat) :
    (merkleLevels hashPair ids (j + 1)).getD ((ids.length - 1) / 2 ^ j / 2) default =
      if (ids.length - 1) / 2 ^ j % 2 = 0 then
        hashPair ((merkleLevels hashPair ids j).getD ((ids.length - 1) / 2 ^ j) default)
          ((merkleLevels hashPair ids j).getD ((ids.length - 1) / 2 ^ j) default)
      else
        hashPair ((merkleLevels hashPair ids j).getD ((ids.length - 1) / 2 ^ j - 1) default)
          ((merkleLevels hashPair ids j).getD ((ids.length - 1) / 2 ^ j) default) := by
  have level : (merkleLevels hashPair ids j).length = (ids.length - 1) / 2 ^ j + 1 :=
    length_merkleLevels nonempty j
  rw [merkleLevels_succ]
  split
  · next even =>
    have odd : (merkleLevels hashPair ids j).length = 2 * ((ids.length - 1) / 2 ^ j / 2) + 1 := by
      omega
    rw [getD_merkleLevel_last odd]
    rw [show 2 * ((ids.length - 1) / 2 ^ j / 2) = (ids.length - 1) / 2 ^ j by omega]
  · next odd =>
    have inside : 2 * ((ids.length - 1) / 2 ^ j / 2) + 1 < (merkleLevels hashPair ids j).length := by
      omega
    rw [getD_merkleLevel inside]
    rw [show 2 * ((ids.length - 1) / 2 ^ j / 2) = (ids.length - 1) / 2 ^ j - 1 by omega,
      show (ids.length - 1) / 2 ^ j - 1 + 1 = (ids.length - 1) / 2 ^ j by omega]

/-- Halving a positive number takes one bit off it. -/
theorem size_div_two_add_one {m : Nat} (positive : 0 < m) : (m / 2).size + 1 = m.size := by
  have decomposed := Nat.bit_testBit_zero_shiftRight_one m
  conv_rhs => rw [← decomposed]
  rw [Nat.size_bit (by rw [decomposed]; omega), Nat.shiftRight_one]

/-- **The batch root is the single digest of level `(n - 1).size`.** -/
theorem merkle_eq_getD_merkleLevels {ids : List Digest} (nonempty : ids ≠ []) :
    merkle hashPair ids = (merkleLevels hashPair ids (ids.length - 1).size).getD 0 default := by
  -- by induction on the number of leaves, which each pass roughly halves
  induction hLength : ids.length using Nat.strong_induction_on generalizing ids with
  | _ n inductionHypothesis =>
    have positive := List.length_pos_iff.mpr nonempty
    rw [merkle]
    by_cases single : ids.length = 1
    · obtain ⟨leaf, rfl⟩ := List.length_eq_one_iff.mp single
      subst hLength
      rfl
    · have shorter : (merkleLevel hashPair ids).length < n := by
        rw [length_merkleLevel]; omega
      have stillNonempty : merkleLevel hashPair ids ≠ [] := by
        rw [← List.length_pos_iff, length_merkleLevel]; omega
      rw [if_neg (by omega), if_neg single, inductionHypothesis _ shorter stillNonempty rfl,
        length_merkleLevel]
      have halved : (ids.length + 1) / 2 - 1 = (ids.length - 1) / 2 := by omega
      rw [halved, ← hLength, ← size_div_two_add_one (by omega : 0 < ids.length - 1),
        merkleLevels_succ_eq]

/-- The root of two or more leaves is a hash of a pair. -/
theorem exists_merkle_eq_hashPair {ids : List Digest} (several : 2 ≤ ids.length) :
    ∃ left right, merkle hashPair ids = hashPair left right := by
  have nonempty : ids ≠ [] := List.ne_nil_of_length_pos (by omega)
  have sizePositive : 0 < (ids.length - 1).size := Nat.size_pos.mpr (by omega)
  obtain ⟨k, top⟩ : ∃ k, (ids.length - 1).size = k + 1 := ⟨_, (Nat.succ_pred_eq_of_pos sizePositive).symm⟩
  rw [merkle_eq_getD_merkleLevels nonempty, top, merkleLevels_succ]
  -- the first digest of a pass pairs the first digest below with its neighbour or with itself
  have level : (merkleLevels hashPair ids k).length = (ids.length - 1) / 2 ^ k + 1 :=
    length_merkleLevels nonempty k
  by_cases single : (merkleLevels hashPair ids k).length = 1
  · have odd : (merkleLevels hashPair ids k).length = 2 * 0 + 1 := single
    exact ⟨_, _, getD_merkleLevel_last odd⟩
  · have positive : 0 < (merkleLevels hashPair ids k).length := by
      rw [level]
      exact Nat.succ_pos _
    have pair : 2 * 0 + 1 < (merkleLevels hashPair ids k).length := by omega
    exact ⟨_, _, getD_merkleLevel pair⟩

end Eosio.Chain
