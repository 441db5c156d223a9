/-
This file models the fork database of `fork_database.cpp`: the reversible blocks, indexed by id,
with the root (the last irreversible block) and the head (the best valid block).

A block state carries only what the fork database reads of it: its id, the id of the previous
block, its block number, its last irreversible block number and the validated flag.
`calculate_id` writes the block number into the first four bytes of the id, and
`block_header::block_num` is one more than the number in the previous id; both are fields of
`ForkBlock`, so no block state breaks them. A `block_state_ptr` is modelled by the state it points
to: the only field the database changes in place is `validated`, which `mark_valid` and
`rollback_head_to_root` update in the index. The uniqueness of ids in the multi-index container is
a field of `ForkDatabase`.
-/

import Mathlib
import EosioChain.Transition
import EosioChain.Worklist

namespace Eosio.Chain

/-- `block_id_type`: the block number `calculate_id` writes into the first four bytes, and the
rest of the hash. -/
structure BlockId (Hash : Type) where
  blockNum : Nat
  digest : Hash
deriving DecidableEq

variable {Hash : Type}

/-- `sha256_less`, which the index consults only between ids of one block number: the order of
the rest of the hash. -/
def BlockId.sortKey [LinearOrder Hash] (id : BlockId Hash) : Lex (Nat × Hash) :=
  toLex (id.blockNum, id.digest)

/-- The part of a `block_state` the fork database reads. -/
structure ForkBlock (Hash : Type) where
  id : BlockId Hash
  previous : BlockId Hash
  blockNum : Nat
  dposIrreversibleBlocknum : Nat
  validated : Bool
  idBlockNum : id.blockNum = blockNum
  previousBlockNum : previous.blockNum + 1 = blockNum

namespace ForkBlock

/-- The same block state with its validated flag set to `validated`. -/
def withValidated (b : ForkBlock Hash) (validated : Bool) : ForkBlock Hash :=
  { b with validated }

@[simp] theorem withValidated_id (b : ForkBlock Hash) (validated : Bool) :
    (b.withValidated validated).id = b.id := rfl

@[simp] theorem withValidated_previous (b : ForkBlock Hash) (validated : Bool) :
    (b.withValidated validated).previous = b.previous := rfl

@[simp] theorem withValidated_blockNum (b : ForkBlock Hash) (validated : Bool) :
    (b.withValidated validated).blockNum = b.blockNum := rfl

@[simp] theorem withValidated_dposIrreversibleBlocknum (b : ForkBlock Hash) (validated : Bool) :
    (b.withValidated validated).dposIrreversibleBlocknum = b.dposIrreversibleBlocknum := rfl

@[simp] theorem withValidated_validated (b : ForkBlock Hash) (validated : Bool) :
    (b.withValidated validated).validated = validated := rfl

theorem withValidated_self (b : ForkBlock Hash) : b.withValidated b.validated = b := rfl

/-- What `first_preferred` compares: the last irreversible block number, then the block
number. -/
def preference (b : ForkBlock Hash) : Lex (Nat × Nat) :=
  toLex (b.dposIrreversibleBlocknum, b.blockNum)

@[simp] theorem preference_withValidated (b : ForkBlock Hash) (validated : Bool) :
    (b.withValidated validated).preference = b.preference := rfl

end ForkBlock

/-- `first_preferred(lhs, rhs)`: `std::tie(lhs.dpos_irreversible_blocknum, lhs.block_num) >
std::tie(rhs.dpos_irreversible_blocknum, rhs.block_num)`. -/
def firstPreferred (lhs rhs : ForkBlock Hash) : Bool :=
  decide (rhs.preference < lhs.preference)

/-- The key of the `by_lib_block_num` index, in the index's order: valid blocks first
(`std::greater<bool>`), then the preferred one first, then the lower id. -/
def libBlockNumKey [LinearOrder Hash] (b : ForkBlock Hash) :
    Lex (Boolᵒᵈ × Lex ((Lex (Nat × Nat))ᵒᵈ × Lex (Nat × Hash))) :=
  toLex (OrderDual.toDual b.validated, toLex (OrderDual.toDual b.preference, b.id.sortKey))

/-- `fork_database_impl`: the index, its root and its head. -/
structure ForkDatabase (Hash : Type) where
  index : List (ForkBlock Hash)
  idsUnique : (index.map ForkBlock.id).Nodup
  root : ForkBlock Hash
  head : ForkBlock Hash

namespace ForkDatabase

variable [LinearOrder Hash]

/-! ### Lookups -/

/-- `get_block`: the indexed block with id `id`. -/
def getBlock (s : ForkDatabase Hash) (id : BlockId Hash) : Option (ForkBlock Hash) :=
  s.index.find? fun b => decide (b.id = id)

/-- `get_block_header`: the root when `id` is its id, otherwise the indexed block. -/
def getBlockHeader (s : ForkDatabase Hash) (id : BlockId Hash) : Option (ForkBlock Hash) :=
  if s.root.id = id then some s.root else s.getBlock id

/-- `index.get<by_lib_block_num>().begin()`: the first block of the index in its order. -/
def candidate (s : ForkDatabase Hash) : Option (ForkBlock Hash) :=
  s.index.argmin libBlockNumKey

/-- The ids of the indexed blocks built directly on `id`, as `by_prev` lists them. -/
def childIds (s : ForkDatabase Hash) (id : BlockId Hash) : List (BlockId Hash) :=
  (s.index.filter fun b => decide (b.previous = id)).map ForkBlock.id

/-! ### Changing the index -/

/-- Keep the indexed blocks that satisfy `keep`. -/
def filterIndex (s : ForkDatabase Hash) (keep : ForkBlock Hash → Bool) : ForkDatabase Hash :=
  { s with
    index := s.index.filter keep
    idsUnique := (List.filter_sublist.map ForkBlock.id).nodup s.idsUnique }

/-- Apply `update`, which keeps ids, to every indexed block. -/
def mapIndex (s : ForkDatabase Hash) (update : ForkBlock Hash → ForkBlock Hash)
    (keepsId : ∀ b, (update b).id = b.id) : ForkDatabase Hash :=
  { s with
    index := s.index.map update
    idsUnique := by
      have sameIds : s.index.map (ForkBlock.id ∘ update) = s.index.map ForkBlock.id :=
        List.map_congr_left fun b _ => keepsId b
      rw [List.map_map, sameIds]
      exact s.idsUnique }

/-- Insert `n`, whose id is not indexed yet, into the index. -/
def insertBlock (s : ForkDatabase Hash) (n : ForkBlock Hash)
    (fresh : n.id ∉ s.index.map ForkBlock.id) : ForkDatabase Hash :=
  { s with
    index := s.index ++ [n]
    idsUnique := by
      rw [List.map_append, List.map_singleton]
      exact s.idsUnique.append (List.nodup_singleton _)
        (List.disjoint_singleton.mpr fresh) }

/-- Set the validated flag of the indexed block with id `id`. -/
def markIndexed (s : ForkDatabase Hash) (id : BlockId Hash) : ForkDatabase Hash :=
  s.mapIndex (fun b => if b.id = id then b.withValidated true else b) fun b => by split <;> rfl

/-- The head update of `add`: the first block of the index becomes the head when it is valid. -/
def adoptValidCandidate (s : ForkDatabase Hash) : ForkDatabase Hash :=
  match s.candidate with
  | some candidate => if candidate.validated then { s with head := candidate } else s
  | none => s

/-- The head update of `mark_valid`: the first block of the index becomes the head when it is
preferred over the head. -/
def adoptPreferredCandidate (s : ForkDatabase Hash) : ForkDatabase Hash :=
  match s.candidate with
  | some candidate => if firstPreferred candidate s.head then { s with head := candidate } else s
  | none => s

/-! ### The operations -/

/-- `fork_database::reset(root_bhs)`: an empty index whose root and head are the validated
root. -/
def reset (rootBhs : ForkBlock Hash) : ForkDatabase Hash :=
  { index := [], idsUnique := List.nodup_nil, root := rootBhs.withValidated true,
    head := rootBhs.withValidated true }

/-- `fork_database::rollback_head_to_root`: every indexed block loses its validated flag and the
head goes back to the root. -/
def rollbackHeadToRoot (s : ForkDatabase Hash) : ForkDatabase Hash :=
  let cleared := s.mapIndex (fun b => b.withValidated false) fun _ => rfl
  { cleared with head := s.root }

/-- `fork_database_impl::add(n, ignore_duplicate, validate = false, ...)`: `n` must build on the
root or an indexed block; after the insertion the first block of the index becomes the head when
it is valid. -/
def add (s : ForkDatabase Hash) (n : ForkBlock Hash) (ignoreDuplicate : Bool) :
    Except String (ForkDatabase Hash) :=
  match s.getBlockHeader n.previous with
  | none => .error "unlinkable block"
  | some _ =>
    if duplicate : n.id ∈ s.index.map ForkBlock.id then
      if ignoreDuplicate then .ok s else .error "duplicate block added"
    else .ok (s.insertBlock n duplicate).adoptValidCandidate

/-- `fork_database::mark_valid(h)`: set the flag of the indexed block with the id of `h`, and move
the head to the first block of the index when that is preferred over it. -/
def markValid (s : ForkDatabase Hash) (h : ForkBlock Hash) : Except String (ForkDatabase Hash) :=
  if h.validated then .ok s
  else if h.id ∉ s.index.map ForkBlock.id then
    .error "block state not in fork database; cannot mark as valid"
  else
    .ok (s.markIndexed h.id).adoptPreferredCandidate

/-- The `remove_queue` of `fork_database::remove(id)`: `id` and every indexed block built on a
block of the queue, none of them the head. The walk visits each indexed block at most once, so
the fuel of one more entry than the index holds is never the reason it stops. -/
def removeQueue (s : ForkDatabase Hash) (id : BlockId Hash) : Option (List (BlockId Hash)) :=
  Worklist.drain s.childIds (fun queued => decide (queued ≠ s.head.id)) (s.index.length + 1) [id] 0

/-- `fork_database::remove(id)`: remove `id` and every block built on it. -/
def remove (s : ForkDatabase Hash) (id : BlockId Hash) : Except String (ForkDatabase Hash) :=
  match s.removeQueue id with
  | some queue => .ok (s.filterIndex fun b => decide (b.id ∉ queue))
  | none => .error "removing the block and its descendants would remove the current head block"

theorem getBlock_eq_some {s : ForkDatabase Hash} {id : BlockId Hash} {b : ForkBlock Hash}
    (found : s.getBlock id = some b) : b ∈ s.index ∧ b.id = id := by
  unfold getBlock at found
  have matched := List.find?_some found
  rw [decide_eq_true_eq] at matched
  exact ⟨List.mem_of_find?_eq_some found, matched⟩

theorem getBlock_blockNum {s : ForkDatabase Hash} {id : BlockId Hash} {b : ForkBlock Hash}
    (found : s.getBlock id = some b) : b.blockNum = id.blockNum := by
  rw [← b.idBlockNum, (getBlock_eq_some found).2]

theorem getBlockHeader_blockNum {s : ForkDatabase Hash} {id : BlockId Hash} {p : ForkBlock Hash}
    (found : s.getBlockHeader id = some p) : p.blockNum = id.blockNum := by
  unfold getBlockHeader at found
  split at found
  · rename_i isRoot
    rw [← Option.some.inj found, ← s.root.idBlockNum, isRoot]
  · exact getBlock_blockNum found

/-! ### Branches -/

/-- The first two loops of `fork_database::fetch_branch_from`: while `b` lies above block number
`target`, append it to `branch` and go on from its previous block, the root or an indexed
block. -/
def climbTo (s : ForkDatabase Hash) (target : Nat) (branch : List (ForkBlock Hash))
    (b : ForkBlock Hash) : Except String (List (ForkBlock Hash) × ForkBlock Hash) :=
  if target < b.blockNum then
    match _found : s.getBlockHeader b.previous with
    | some parent => s.climbTo target (branch ++ [b]) parent
    | none => .error "block ${id} does not exist"
  else .ok (branch, b)
termination_by b.blockNum
decreasing_by
  rw [getBlockHeader_blockNum _found, ← b.previousBlockNum]
  exact Nat.lt_succ_self _

/-- The third loop of `fetch_branch_from`: while the two blocks build on different blocks, append
each to its branch and go on from their previous blocks, which `get_block` must find. -/
def climbTogether (s : ForkDatabase Hash) (firstBranch secondBranch : List (ForkBlock Hash))
    (first second : ForkBlock Hash) :
    Except String (List (ForkBlock Hash) × List (ForkBlock Hash) × ForkBlock Hash × ForkBlock Hash) :=
  if first.previous ≠ second.previous then
    match _firstFound : s.getBlock first.previous, s.getBlock second.previous with
    | some firstParent, some secondParent =>
      s.climbTogether (firstBranch ++ [first]) (secondBranch ++ [second]) firstParent secondParent
    | none, _ => .error "block ${id} does not exist"
    | some _, none => .error "block ${id} does not exist"
  else .ok (firstBranch, secondBranch, first, second)
termination_by first.blockNum
decreasing_by
  rw [getBlock_blockNum _firstFound, ← first.previousBlockNum]
  exact Nat.lt_succ_self _

/-- `fork_database::fetch_branch_from(first, second)`: the blocks from `first` and from `second`
down to the blocks that build on the same previous block. -/
def fetchBranchFrom (s : ForkDatabase Hash) (first second : BlockId Hash) :
    Except String (List (ForkBlock Hash) × List (ForkBlock Hash)) :=
  match s.getBlockHeader first, s.getBlockHeader second with
  | none, _ => .error "block ${id} does not exist"
  | some _, none => .error "block ${id} does not exist"
  | some firstBranch, some secondBranch => do
    let (resultFirst, firstBranch) ← s.climbTo secondBranch.blockNum [] firstBranch
    let (resultSecond, secondBranch) ← s.climbTo firstBranch.blockNum [] secondBranch
    if firstBranch.id = secondBranch.id then return (resultFirst, resultSecond)
    let (resultFirst, resultSecond, firstBranch, secondBranch) ←
      s.climbTogether resultFirst resultSecond firstBranch secondBranch
    -- both blocks are set once the loop ends, so `if( first_branch && second_branch )` holds
    return (resultFirst ++ [firstBranch], resultSecond ++ [secondBranch])

/-- The loop of `fork_database::advance_root` collecting `blocks_to_remove`: the previous ids of
`b` and of its indexed ancestors, up to the first previous id that is not indexed, which must be
the root's. -/
def previousIds (s : ForkDatabase Hash) (b : ForkBlock Hash) : Except String (List (BlockId Hash)) :=
  match _found : s.getBlock b.previous with
  | some parent => (b.previous :: ·) <$> s.previousIds parent
  | none =>
    if b.previous = s.root.id then .ok [b.previous]
    else .error "invariant violation: orphaned branch was present in forked database"
termination_by b.blockNum
decreasing_by
  rw [getBlock_blockNum _found, ← b.previousBlockNum]
  exact Nat.lt_succ_self _

/-- `fork_database::advance_root(id)`: the valid indexed block `id` becomes the root. It leaves the
index on its own, so that the blocks built on it stay; its ancestors, the old root among them, are
removed with every block built on them. -/
def advanceRoot (s : ForkDatabase Hash) (id : BlockId Hash) : Except String (ForkDatabase Hash) :=
  match s.getBlock id with
  | none => .error "cannot advance root to a block that does not exist in the fork database"
  | some newRoot =>
    if !newRoot.validated then
      .error "cannot advance root to a block that has not yet been validated"
    else do
      let blocksToRemove ← s.previousIds newRoot
      let erased := s.filterIndex fun b => decide (b.id ≠ id)
      let removed ← blocksToRemove.foldlM (fun db blockId => db.remove blockId) erased
      pure { removed with root := newRoot }

/-! ### Runs -/

/-- One call of a mutator that returns normally. `advance_root` is allowed at any id; the
controller calls it with an id on the branch of the head. -/
inductive Step : ForkDatabase Hash → ForkDatabase Hash → Prop
  | add {s s' : ForkDatabase Hash} (n : ForkBlock Hash) (ignoreDuplicate : Bool) :
      s.add n ignoreDuplicate = .ok s' → Step s s'
  | markValid {s s' : ForkDatabase Hash} (h : ForkBlock Hash) :
      s.markValid h = .ok s' → Step s s'
  | remove {s s' : ForkDatabase Hash} (id : BlockId Hash) : s.remove id = .ok s' → Step s s'
  | rollbackHeadToRoot (s : ForkDatabase Hash) : Step s s.rollbackHeadToRoot
  | advanceRoot {s s' : ForkDatabase Hash} (id : BlockId Hash) :
      s.advanceRoot id = .ok s' → Step s s'

/-- The fork databases reached from `reset(root)`. -/
def Reachable : ForkDatabase Hash → Prop :=
  Transition.Reachable (fun s => ∃ rootBhs, s = reset rootBhs) Step

end ForkDatabase

end Eosio.Chain
