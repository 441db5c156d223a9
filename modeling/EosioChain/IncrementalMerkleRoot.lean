/-
This file proves that the incremental tree of `incremental_merkle.hpp` computes the batch root of
`merkle.cpp`: after the leaves `ids` are appended one by one to an empty tree, `get_root` and the
value the last `append` returns are `merkle(ids)`, whatever the hash of a pair is.

The tree keeps, for each set bit `j` of its node count, the root of the last full block of
`2 ^ j` leaves (`blockRoots`), followed by the current root. One pass of the collapse loop of
`append` climbs one level: the appended leaf is a left or a right child at level `j` as bit `j` of
the old count is clear or set, and the carry of adding one to the count decides which block roots
the new tree keeps. The count is a `uint64_t`: once `2 ^ 64` leaves are appended it wraps to zero
and `get_root` forgets the tree, so the agreement holds for fewer leaves only.
-/

import EosioChain.BinaryCarry
import EosioChain.MerkleLevels

namespace Eosio.Chain

open BinaryCarry

variable {Digest : Type} [Inhabited Digest] (hashPair : Digest → Digest → Digest)

/-! ### The depth of an append -/

theorem clzPower2_two_pow : ∀ s : Fin 65, clzPower2 (UInt64.ofNat (2 ^ s.val)) = s.val := by
  decide

/-- Smearing the bits of `m` gives the power of two just above `m`. -/
theorem nextPowerOf2_ofNat {m : Nat} (fits : m + 1 < 2 ^ 64) :
    nextPowerOf2 (UInt64.ofNat (m + 1)) = UInt64.ofNat (2 ^ m.size) := by
  have start : (UInt64.ofNat (m + 1) - 1).toNat = m := by
    rw [UInt64.toNat_sub, UInt64.toNat_ofNat', Nat.mod_eq_of_lt fits]
    change (2 ^ 64 - 1 + (m + 1)) % 2 ^ 64 = m
    omega
  simp only [nextPowerOf2]
  -- name the value after each of the six smearing steps
  generalize value0 : UInt64.ofNat (m + 1) - 1 = word0
  generalize value1 : word0 ||| word0 >>> 1 = word1
  generalize value2 : word1 ||| word1 >>> 2 = word2
  generalize value3 : word2 ||| word2 >>> 4 = word3
  generalize value4 : word3 ||| word3 >>> 8 = word4
  generalize value5 : word4 ||| word4 >>> 16 = word5
  generalize value6 : word5 ||| word5 >>> 32 = word6
  have smeared0 : Smeared m word0.toNat 1 := by
    rw [← value0, start]
    exact smeared_self m
  have smeared6 : Smeared m word6.toNat 64 := by
    rw [← value6, ← value5, ← value4, ← value3, ← value2, ← value1]
    exact (((((smeared0.toNat_or_shiftRight rfl (by decide)).toNat_or_shiftRight rfl
      (by decide)).toNat_or_shiftRight rfl (by decide)).toNat_or_shiftRight rfl
      (by decide)).toNat_or_shiftRight rfl (by decide)).toNat_or_shiftRight rfl (by decide)
  have mask := smeared6.eq_two_pow_size_sub_one (by omega)
  rw [← UInt64.toNat_inj, UInt64.toNat_add, mask, UInt64.toNat_ofNat']
  change (2 ^ m.size - 1 + 1) % 2 ^ 64 = 2 ^ m.size % 2 ^ 64
  rw [Nat.sub_add_cancel (Nat.one_le_two_pow)]

/-- **The collapse loop of the append of leaf `m` runs over the `size m` levels of `m`.** -/
theorem calcluateMaxDepth_ofNat {m : Nat} (fits : m + 1 < 2 ^ 64) :
    (calcluateMaxDepth (UInt64.ofNat (m + 1)) - 1).toNat = m.size := by
  have nonzero : UInt64.ofNat (m + 1) ≠ 0 := by
    intro zero
    have counted := congrArg UInt64.toNat zero
    rw [UInt64.toNat_ofNat', Nat.mod_eq_of_lt fits] at counted
    exact Nat.succ_ne_zero m counted
  have sizeFits : m.size < 65 := Nat.lt_succ_of_le (Nat.size_le.mpr (by omega))
  have depth := clzPower2_two_pow ⟨m.size, sizeFits⟩
  dsimp only at depth
  rw [calcluateMaxDepth, if_neg nonzero, nextPowerOf2_ofNat fits, depth]
  omega

/-! ### The active nodes -/

/-- The roots the tree keeps for `count` leaves at `levels`: for each level `j` where bit `j` of
`count` is set, the root of the last full block of `2 ^ j` leaves. -/
def blockRoots (ids : List Digest) (count : Nat) (levels : List Nat) : List Digest :=
  (levels.filter count.testBit).map fun j =>
    (merkleLevels hashPair ids j).getD (count / 2 ^ j - 1) default

variable {hashPair}

theorem blockRoots_range_succ (ids : List Digest) (count j : Nat) :
    blockRoots hashPair ids count (List.range (j + 1)) =
      blockRoots hashPair ids count (List.range j) ++
        if count.testBit j then [(merkleLevels hashPair ids j).getD (count / 2 ^ j - 1) default]
        else [] := by
  rw [blockRoots, blockRoots, List.range_succ, List.filter_append, List.map_append,
    List.filter_cons, List.filter_nil]
  cases count.testBit j <;> rfl

theorem blockRoots_range'_succ (ids : List Digest) (count j k : Nat) :
    blockRoots hashPair ids count (List.range' j (k + 1)) =
      (if count.testBit j then [(merkleLevels hashPair ids j).getD (count / 2 ^ j - 1) default]
        else []) ++ blockRoots hashPair ids count (List.range' (j + 1) k) := by
  rw [blockRoots, blockRoots, List.range'_succ, List.filter_cons]
  cases count.testBit j <;> rfl

section Append

variable {ids : List Digest} {digest : Digest}

/-- The root of the full block to the left of the new leaf is the same before and after it. -/
theorem getD_merkleLevels_append_left {j : Nat} (set : ids.length.testBit j = true) :
    (merkleLevels hashPair (ids ++ [digest]) j).getD (ids.length / 2 ^ j - 1) default =
      (merkleLevels hashPair ids j).getD (ids.length / 2 ^ j - 1) default := by
  rw [Nat.testBit_eq_decide_div_mod_eq, decide_eq_true_iff] at set
  have positive : 1 ≤ ids.length / 2 ^ j := Nat.pos_of_ne_zero fun zero => by simp [zero] at set
  have full : (ids.length / 2 ^ j - 1 + 1) * 2 ^ j ≤ ids.length := by
    rw [Nat.sub_add_cancel positive]
    exact Nat.div_mul_le_self _ _
  exact getD_merkleLevels_append full

/-- The digest of the appended leaf one level up: a left digest is paired with a copy of
itself, a right one with the root of the full block to its left. -/
theorem getD_merkleLevels_append_succ (j : Nat) :
    (merkleLevels hashPair (ids ++ [digest]) (j + 1)).getD (ids.length / 2 ^ (j + 1)) default =
      if ids.length.testBit j then
        hashPair ((merkleLevels hashPair ids j).getD (ids.length / 2 ^ j - 1) default)
          ((merkleLevels hashPair (ids ++ [digest]) j).getD (ids.length / 2 ^ j) default)
      else
        hashPair ((merkleLevels hashPair (ids ++ [digest]) j).getD (ids.length / 2 ^ j) default)
          ((merkleLevels hashPair (ids ++ [digest]) j).getD (ids.length / 2 ^ j) default) := by
  have nonempty : ids ++ [digest] ≠ [] := List.append_ne_nil_of_right_ne_nil _ (List.cons_ne_nil _ _)
  have lengthPred : (ids ++ [digest]).length - 1 = ids.length := by simp
  have halved : ids.length / 2 ^ (j + 1) = ids.length / 2 ^ j / 2 := by
    rw [Nat.pow_succ, Nat.div_div_eq_div_mul]
  have last := @getD_merkleLevels_succ_last _ _ hashPair _ nonempty j
  rw [lengthPred] at last
  rw [halved, last]
  cases set : ids.length.testBit j
  · have even : ids.length / 2 ^ j % 2 = 0 := by
      rw [Nat.testBit_eq_decide_div_mod_eq, decide_eq_false_iff_not] at set
      omega
    rw [if_pos even, if_neg Bool.false_ne_true]
  · have odd : ¬ ids.length / 2 ^ j % 2 = 0 := by
      rw [Nat.testBit_eq_decide_div_mod_eq, decide_eq_true_iff] at set
      omega
    rw [if_neg odd, if_pos rfl, getD_merkleLevels_append_left set]

/-- **One pass of the collapse loop** takes the state of the append of `digest` after `ids` at
level `j` to its state at level `j + 1`: the index of the new leaf's block, the digest of that
block, whether it is still partial, the old active nodes left to read and the new ones pushed. -/
theorem collapse_succ {k j : Nat} {index : UInt64} (atIndex : index.toNat = ids.length / 2 ^ j)
    (extra : List Digest) :
    IncrementalMerkle.collapse hashPair (k + 1) index
        ((merkleLevels hashPair (ids ++ [digest]) j).getD (ids.length / 2 ^ j) default)
        (decide (ids.length % 2 ^ j + 1 ≠ 2 ^ j))
        (blockRoots hashPair ids ids.length (List.range' j (k + 1)) ++ extra)
        (blockRoots hashPair (ids ++ [digest]) (ids.length + 1) (List.range j)) =
      IncrementalMerkle.collapse hashPair k (index >>> 1)
        ((merkleLevels hashPair (ids ++ [digest]) (j + 1)).getD (ids.length / 2 ^ (j + 1)) default)
        (decide (ids.length % 2 ^ (j + 1) + 1 ≠ 2 ^ (j + 1)))
        (blockRoots hashPair ids ids.length (List.range' (j + 1) k) ++ extra)
        (blockRoots hashPair (ids ++ [digest]) (ids.length + 1) (List.range (j + 1))) := by
  have parity : index &&& 1 = 0 ↔ ids.length.testBit j = false := by
    rw [toNat_and_one_eq_zero_iff, atIndex, Nat.testBit_eq_decide_div_mod_eq,
      decide_eq_false_iff_not]
    omega
  rw [IncrementalMerkle.collapse, getD_merkleLevels_append_succ, blockRoots_range'_succ,
    blockRoots_range_succ]
  cases bit : ids.length.testBit j
  · -- a left child: no old active node is read
    rw [if_pos (parity.mpr bit)]
    by_cases carry : ids.length % 2 ^ j + 1 = 2 ^ j
    · -- its block is full, so it is pushed, and the carry sets bit `j` of the new count
      simp [carry, carry_succ_iff, bit, testBit_succ_of_carry carry,
        succ_div_two_pow_of_carry carry]
    · simp [carry, carry_succ_iff, bit, testBit_succ_of_not_carry carry]
  · -- a right child: its left sibling is the next old active node
    rw [if_neg (fun left => by simp [parity.mp left] at bit)]
    by_cases carry : ids.length % 2 ^ j + 1 = 2 ^ j
    · -- the sibling completes a full block and is dropped
      simp [carry, carry_succ_iff, bit, testBit_succ_of_carry carry]
    · -- the block stays partial, so the sibling is still needed
      rw [testBit_succ_of_not_carry carry, succ_div_two_pow_of_not_carry carry, bit,
        getD_merkleLevels_append_left bit]
      simp [carry, carry_succ_iff, bit]

/-- **The collapse loop from level `j` to the top** pushes the block roots of the new count and
ends with the batch root of the leaves. -/
theorem collapse_eq_blockRoots (extra : List Digest) : ∀ (k j : Nat) (index : UInt64),
    j + k = ids.length.size → index.toNat = ids.length / 2 ^ j →
    IncrementalMerkle.collapse hashPair k index
        ((merkleLevels hashPair (ids ++ [digest]) j).getD (ids.length / 2 ^ j) default)
        (decide (ids.length % 2 ^ j + 1 ≠ 2 ^ j))
        (blockRoots hashPair ids ids.length (List.range' j k) ++ extra)
        (blockRoots hashPair (ids ++ [digest]) (ids.length + 1) (List.range j)) =
      blockRoots hashPair (ids ++ [digest]) (ids.length + 1) (List.range ids.length.size) ++
        [merkle hashPair (ids ++ [digest])]
  | 0, j, index, top, _ => by
    -- level `size m` holds the root alone
    rw [Nat.add_zero] at top
    subst top
    have nonempty : ids ++ [digest] ≠ [] :=
      List.append_ne_nil_of_right_ne_nil _ (List.cons_ne_nil _ _)
    have lengthPred : (ids ++ [digest]).length - 1 = ids.length := by simp
    rw [IncrementalMerkle.collapse, Nat.div_eq_of_lt (Nat.lt_size_self _),
      merkle_eq_getD_merkleLevels nonempty, lengthPred]
  | k + 1, j, index, top, atIndex => by
    have nextIndex : (index >>> 1).toNat = ids.length / 2 ^ (j + 1) := by
      rw [toNat_shiftRight_one, atIndex, Nat.pow_succ, Nat.div_div_eq_div_mul]
    rw [collapse_succ atIndex]
    exact collapse_eq_blockRoots extra k (j + 1) (index >>> 1) (by omega) nextIndex

end Append

namespace IncrementalMerkle

variable (hashPair) in
/-- `tree` is the incremental tree of the leaves `ids`: it has counted them without overflow, and
its active nodes are the block roots of their number followed by their batch root. -/
structure Represents (tree : IncrementalMerkle Digest) (ids : List Digest) : Prop where
  length_lt : ids.length < 2 ^ 64
  nodeCount_eq : tree.nodeCount = UInt64.ofNat ids.length
  activeNodes_eq : ids ≠ [] →
    tree.activeNodes = blockRoots hashPair ids ids.length (List.range (ids.length - 1).size) ++
      [merkle hashPair ids]

theorem represents_empty : Represents hashPair empty [] :=
  ⟨Nat.two_pow_pos 64, rfl, fun nonempty => absurd rfl nonempty⟩

variable {tree : IncrementalMerkle Digest} {ids : List Digest}

/-- The old active nodes start with the block roots the collapse loop reads: when the number of
leaves is a power of two, the last of them is the batch root itself. -/
theorem Represents.exists_activeNodes_eq (represents : Represents hashPair tree ids) :
    ∃ extra, tree.activeNodes =
      blockRoots hashPair ids ids.length (List.range' 0 ids.length.size) ++ extra := by
  by_cases empty : ids = []
  · subst empty
    exact ⟨tree.activeNodes, rfl⟩
  have positive : 0 < ids.length := List.length_pos_iff.mpr empty
  rw [represents.activeNodes_eq empty, ← List.range_eq_range']
  have grows : (ids.length - 1).size ≤ ids.length.size := Nat.size_le_size (Nat.sub_le _ _)
  have bounded : ids.length.size ≤ (ids.length - 1).size + 1 := by
    have below := Nat.lt_size_self (ids.length - 1)
    rw [Nat.size_le, Nat.pow_succ]
    omega
  by_cases same : ids.length.size = (ids.length - 1).size
  · exact ⟨[merkle hashPair ids], by rw [same]⟩
  -- a power of two: the root is the block root of the top level
  have top : ids.length.size = (ids.length - 1).size + 1 := by omega
  have topBit := testBit_size_sub_one positive
  have atLeast : 2 ^ (ids.length - 1).size ≤ ids.length := Nat.lt_size.mp (by omega)
  have below : ids.length < 2 ^ (ids.length - 1).size * 2 := by
    have withinSize := Nat.lt_size_self ids.length
    rw [top, Nat.pow_succ] at withinSize
    exact withinSize
  have single : ids.length / 2 ^ (ids.length - 1).size = 1 :=
    Nat.div_eq_of_lt_le (by omega) (by omega)
  rw [top, Nat.add_sub_cancel] at topBit
  refine ⟨[], ?_⟩
  rw [List.append_nil, top, blockRoots_range_succ, topBit, if_pos rfl, single, Nat.sub_self,
    ← merkle_eq_getD_merkleLevels empty]

theorem ofNat_add_one (count : Nat) : UInt64.ofNat count + 1 = UInt64.ofNat (count + 1) :=
  (UInt64.ofNat_add count 1).symm

/-- **Appending keeps the tree representing its leaves**, and returns their new batch root. -/
theorem Represents.append (represents : Represents hashPair tree ids) (digest : Digest)
    (fits : ids.length + 1 < 2 ^ 64) :
    Represents hashPair (append hashPair tree digest).1 (ids ++ [digest]) ∧
      (append hashPair tree digest).2 = merkle hashPair (ids ++ [digest]) := by
  have depth : (calcluateMaxDepth (tree.nodeCount + 1) - 1).toNat = ids.length.size := by
    rw [represents.nodeCount_eq, ofNat_add_one]
    exact calcluateMaxDepth_ofNat fits
  obtain ⟨extra, active⟩ := represents.exists_activeNodes_eq
  have atIndex : tree.nodeCount.toNat = ids.length / 2 ^ 0 := by
    rw [represents.nodeCount_eq, UInt64.toNat_ofNat', Nat.mod_eq_of_lt (by omega), Nat.pow_zero,
      Nat.div_one]
  have collapsed := @collapse_eq_blockRoots _ _ hashPair ids digest extra ids.length.size 0
    tree.nodeCount (Nat.zero_add _) atIndex
  -- at level zero the top is the new leaf and nothing is partial or pushed yet
  have leaf : (merkleLevels hashPair (ids ++ [digest]) 0).getD (ids.length / 2 ^ 0) default =
      digest := by
    rw [merkleLevels_zero, Nat.pow_zero, Nat.div_one,
      List.getD_append_right _ _ _ _ (Nat.le_refl _), Nat.sub_self, List.getD_cons_zero]
  have whole : decide (ids.length % 2 ^ 0 + 1 ≠ 2 ^ 0) = false := by simp [Nat.mod_one]
  have nothingPushed :
      blockRoots hashPair (ids ++ [digest]) (ids.length + 1) (List.range 0) = [] := rfl
  rw [leaf, whole, ← active, nothingPushed] at collapsed
  have updated : (IncrementalMerkle.append hashPair tree digest).1.activeNodes =
      blockRoots hashPair (ids ++ [digest]) (ids.length + 1) (List.range ids.length.size) ++
        [merkle hashPair (ids ++ [digest])] := by
    simp only [IncrementalMerkle.append]
    rw [depth]
    exact collapsed
  refine ⟨⟨by simpa using fits, ?_, fun _ => ?_⟩, ?_⟩
  · simp only [IncrementalMerkle.append, List.length_append, List.length_singleton]
    rw [represents.nodeCount_eq, ofNat_add_one]
  · simpa using updated
  · simp only [IncrementalMerkle.append]
    rw [depth, collapsed, List.getLastD_concat]

/-- **A run of appends keeps the tree representing its leaves.** -/
theorem Represents.appendAll (represents : Represents hashPair tree ids) (more : List Digest)
    (fits : (ids ++ more).length < 2 ^ 64) :
    Represents hashPair (appendAll hashPair tree more) (ids ++ more) := by
  induction more generalizing tree ids with
  | nil => simpa [IncrementalMerkle.appendAll] using represents
  | cons digest more inductionHypothesis =>
    have next := (represents.append digest (by simp at fits; omega)).1
    have moreFits : (ids ++ [digest] ++ more).length < 2 ^ 64 := by simpa using fits
    have run := inductionHypothesis next moreFits
    rw [List.append_assoc, List.singleton_append] at run
    exact run

/-- A representing tree answers `get_root` with the batch root of its leaves. -/
theorem Represents.getRoot_eq (represents : Represents hashPair tree ids) :
    getRoot tree = merkle hashPair ids := by
  by_cases empty : ids = []
  · subst empty
    have zero : tree.nodeCount = 0 := represents.nodeCount_eq
    rw [getRoot, zero, merkle]
    rfl
  have positive : 0 < ids.length := List.length_pos_iff.mpr empty
  have counted : 0 < tree.nodeCount := by
    rw [represents.nodeCount_eq, UInt64.lt_iff_toNat_lt, UInt64.toNat_ofNat',
      Nat.mod_eq_of_lt represents.length_lt]
    exact positive
  rw [getRoot, if_pos counted, represents.activeNodes_eq empty, List.getLastD_concat]

variable (hashPair) in
/-- **The incremental tree agrees with the batch root**: appending the leaves `ids ++ [digest]`
one by one to an empty tree, with fewer than `2 ^ 64` of them, the last append returns
`merkle (ids ++ [digest])` and `get_root` answers it. -/
theorem append_appendAll_eq_merkle (ids : List Digest) (digest : Digest)
    (fits : ids.length + 1 < 2 ^ 64) :
    (append hashPair (appendAll hashPair empty ids) digest).2 = merkle hashPair (ids ++ [digest]) ∧
      getRoot (append hashPair (appendAll hashPair empty ids) digest).1 =
        merkle hashPair (ids ++ [digest]) := by
  have represents : Represents hashPair (appendAll hashPair empty ids) ids := by
    simpa using represents_empty.appendAll ids (by simp; omega)
  obtain ⟨next, returned⟩ := represents.append digest fits
  exact ⟨returned, next.getRoot_eq⟩

theorem append_appendAll_eq_merkle_of_two_leaves :
    [1].length + 1 < 2 ^ 64 ∧
      ((append (fun left right : Nat => left + right + 1)
          (appendAll (fun left right : Nat => left + right + 1) empty [1]) 2).2 =
          merkle (fun left right : Nat => left + right + 1) ([1] ++ [2]) ∧
        getRoot (append (fun left right : Nat => left + right + 1)
          (appendAll (fun left right : Nat => left + right + 1) empty [1]) 2).1 =
          merkle (fun left right : Nat => left + right + 1) ([1] ++ [2])) :=
  ⟨by decide, append_appendAll_eq_merkle (fun left right : Nat => left + right + 1) [1] 2 (by decide)⟩

/-! ### The node count wraps -/

theorem nodeCount_appendAll (tree : IncrementalMerkle Digest) (digests : List Digest) :
    (appendAll hashPair tree digests).nodeCount = tree.nodeCount + UInt64.ofNat digests.length := by
  induction digests generalizing tree with
  | nil => simp [appendAll]
  | cons digest digests inductionHypothesis =>
    have counted := inductionHypothesis (append hashPair tree digest).1
    simp only [appendAll, List.foldl_cons] at counted ⊢
    rw [counted, List.length_cons, UInt64.ofNat_add]
    simp only [IncrementalMerkle.append]
    rw [UInt64.add_assoc, UInt64.add_comm 1]
    rfl

/-- After `2 ^ 64` appends the node count has wrapped to zero and `get_root` returns the empty
digest, while the batch root of as many leaves is a hash: with a hash that never returns the
empty digest, the two differ. -/
theorem getRoot_appendAll_wraps :
    getRoot (appendAll (fun left right : Nat => left + right + 1) empty (List.replicate (2 ^ 64) 0)) ≠
      merkle (fun left right : Nat => left + right + 1) (List.replicate (2 ^ 64) 0) := by
  have wrapped : (appendAll (fun left right : Nat => left + right + 1) empty
      (List.replicate (2 ^ 64) 0)).nodeCount = 0 := by
    rw [nodeCount_appendAll, List.length_replicate]
    rfl
  have several : 2 ≤ (List.replicate (2 ^ 64) 0).length := by
    rw [List.length_replicate]
    decide
  obtain ⟨left, right, root⟩ :=
    @exists_merkle_eq_hashPair Nat _ (fun left right => left + right + 1) _ several
  rw [getRoot, wrapped, if_neg (by decide), root]
  exact fun zero => Nat.succ_ne_zero _ zero.symm

end IncrementalMerkle

end Eosio.Chain
