/-
This file models the two merkle roots of the chain library: the batch root of
`merkle.cpp`, which pairs a level of digests at a time and duplicates the last digest of an
odd level, and the incremental tree of `incremental_merkle.hpp`, which keeps only the
`_active_nodes` a future append needs and rebuilds them on every append.

The digest type is left abstract and the hash of a canonical pair, `DigestType::hash(
make_canonical_pair(l, r))`, is a parameter `hashPair`: nothing here depends on what it computes.
The node count is the source's `uint64_t`, so the bit tricks of `next_power_of_2` and
`clz_power_2` are modelled on `UInt64` as written.
-/

import Mathlib

namespace Eosio.Chain

variable {Digest : Type} [Inhabited Digest] (hashPair : Digest → Digest → Digest)

/-! ### The batch root -/

/-- One pass of the `while` loop of `merkle`: an odd level is padded with a copy of its last
digest, then neighbouring digests are hashed pairwise. -/
def merkleLevel (ids : List Digest) : List Digest :=
  let padded := if ids.length % 2 = 1 then ids ++ [ids.getLastD default] else ids
  (List.range (padded.length / 2)).map fun i =>
    hashPair (padded.getD (2 * i) default) (padded.getD (2 * i + 1) default)

theorem length_merkleLevel (ids : List Digest) :
    (merkleLevel hashPair ids).length = (ids.length + 1) / 2 := by
  unfold merkleLevel
  split
  · simp only [List.length_map, List.length_range, List.length_append, List.length_singleton]
  · simp only [List.length_map, List.length_range]
    omega

/-- `merkle(deque<digest_type> ids)`: the root of a level-by-level pairing, `digest_type()` for no
digests. -/
def merkle (ids : List Digest) : Digest :=
  if ids.length = 0 then default
  else if ids.length = 1 then ids.headD default
  else merkle (merkleLevel hashPair ids)
termination_by ids.length
decreasing_by rw [length_merkleLevel]; omega

/-! ### The incremental tree -/

/-- `detail::next_power_of_2`: the smallest power of two at least `value`, by smearing the bits of
`value - 1` downwards. -/
def nextPowerOf2 (value : UInt64) : UInt64 :=
  let value := value - 1
  let value := value ||| value >>> 1
  let value := value ||| value >>> 2
  let value := value ||| value >>> 4
  let value := value ||| value >>> 8
  let value := value ||| value >>> 16
  let value := value ||| value >>> 32
  value + 1

/-- `detail::clz_power_2`: for a power of two, the number of the masks it misses. The name says
leading zeros; on a power of two it counts the trailing ones. -/
def clzPower2 (value : UInt64) : Int :=
  let lz : Int := 64
  let lz := if value ≠ 0 then lz - 1 else lz
  let lz := if value &&& 0x00000000FFFFFFFF ≠ 0 then lz - 32 else lz
  let lz := if value &&& 0x0000FFFF0000FFFF ≠ 0 then lz - 16 else lz
  let lz := if value &&& 0x00FF00FF00FF00FF ≠ 0 then lz - 8 else lz
  let lz := if value &&& 0x0F0F0F0F0F0F0F0F ≠ 0 then lz - 4 else lz
  let lz := if value &&& 0x3333333333333333 ≠ 0 then lz - 2 else lz
  let lz := if value &&& 0x5555555555555555 ≠ 0 then lz - 1 else lz
  lz

/-- `detail::calcluate_max_depth`: the depth of the smallest balanced tree holding `nodeCount`
leaves. -/
def calcluateMaxDepth (nodeCount : UInt64) : Int :=
  if nodeCount = 0 then 0
  else clzPower2 (nextPowerOf2 nodeCount) + 1

/-- `incremental_merkle_impl`: the number of leaves appended so far and the active nodes, the
last of which is the current root. -/
structure IncrementalMerkle (Digest : Type) where
  nodeCount : UInt64
  activeNodes : List Digest
deriving Repr

namespace IncrementalMerkle

/-- The empty tree of the default constructor. -/
def empty : IncrementalMerkle Digest := ⟨0, []⟩

/-- The `while (current_depth > 0)` loop of `append`, one level per step. `top` is the collapsed
value so far, `active` what remains of the old active nodes after `active_iter`, and `updated` the
new active nodes in the order they are pushed. The final push of `top` ends the loop. -/
def collapse : (depth : Nat) → (index : UInt64) → (top : Digest) → (isPartial : Bool) →
    (active : List Digest) → (updated : List Digest) → List Digest
  | 0, _, top, _, _, updated => updated ++ [top]
  | depth + 1, index, top, isPartial, active, updated =>
    if index &&& 1 = 0 then
      -- a "left" value with an implied "right" copy of itself: only a fully realised node is
      -- kept for later appends
      collapse depth (index >>> 1) (hashPair top top) true active
        (if isPartial then updated else updated ++ [top])
    else
      -- a "right" value: the realised "left" sibling is read from the old active nodes and is
      -- kept only while the subtree above is still partial
      let leftValue := active.headD default
      collapse depth (index >>> 1) (hashPair leftValue top) isPartial active.tail
        (if isPartial then updated ++ [leftValue] else updated)

/-- `incremental_merkle_impl::append`: the tree with `digest` appended, and the new root it
returns. -/
def append (tree : IncrementalMerkle Digest) (digest : Digest) :
    IncrementalMerkle Digest × Digest :=
  let maxDepth := calcluateMaxDepth (tree.nodeCount + 1)
  let updated := collapse hashPair (maxDepth - 1).toNat tree.nodeCount digest false
    tree.activeNodes []
  (⟨tree.nodeCount + 1, updated⟩, updated.getLastD default)

/-- The tree after `digests` are appended to `tree` one after the other, as the block header
state appends the id of each block it builds on. -/
def appendAll (tree : IncrementalMerkle Digest) (digests : List Digest) : IncrementalMerkle Digest :=
  digests.foldl (fun tree digest => (append hashPair tree digest).1) tree

/-- `incremental_merkle_impl::get_root`. -/
def getRoot (tree : IncrementalMerkle Digest) : Digest :=
  if tree.nodeCount > 0 then tree.activeNodes.getLastD default else default

end IncrementalMerkle

end Eosio.Chain
