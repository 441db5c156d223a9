/-
This file proves that `fetch_branch_from` returns the branches of its two blocks above their
lowest common ancestor, in a fork database that is a tree hanging from its root.

The lineage of a block is the block and its ancestors down to the root. Along a lineage each
block builds on the next and the block numbers go down by one, so a lineage holds at most one
block of each number, and the lineage of a block on it is the rest of it from that block on.
The three loops of `fetch_branch_from` are proved by recursions of their own shape: the first two
stop at the block of the lower number, and the third steps two distinct blocks of one number down
together until they build on the same block. Two distinct blocks that build on a common block
have no common ancestor above it, which makes that block the lowest common ancestor.
-/

import Mathlib
import EosioChain.ForkInvariant

namespace Eosio.Chain

namespace ForkDatabase

variable {Hash : Type} [LinearOrder Hash] {s : ForkDatabase Hash}

/-! ### Lineages -/

/-- A block and its ancestors, down to the root, following `get_block_header`. -/
def lineage (s : ForkDatabase Hash) (b : ForkBlock Hash) : List (ForkBlock Hash) :=
  match _found : s.getBlockHeader b.previous with
  | some parent => b :: s.lineage parent
  | none => [b]
termination_by b.blockNum
decreasing_by
  rw [getBlockHeader_blockNum _found, ← b.previousBlockNum]
  exact Nat.lt_succ_self _

/-- The blocks of the tree: the root and the indexed blocks. -/
def Placed (s : ForkDatabase Hash) (b : ForkBlock Hash) : Prop :=
  b = s.root ∨ b ∈ s.index

/-- `c` is the lowest common ancestor of `x` and `y`: it lies on both lineages, and every block
that lies on both lies on its lineage. -/
def LowestCommonAncestor (s : ForkDatabase Hash) (x y c : ForkBlock Hash) : Prop :=
  c ∈ s.lineage x ∧ c ∈ s.lineage y ∧ ∀ d ∈ s.lineage x, d ∈ s.lineage y → d ∈ s.lineage c

theorem lineage_of_parent {b parent : ForkBlock Hash}
    (found : s.getBlockHeader b.previous = some parent) : s.lineage b = b :: s.lineage parent := by
  rw [lineage]
  split
  · rename_i other otherFound
    rw [found, Option.some.injEq] at otherFound
    rw [otherFound]
  · rename_i missing
    rw [found] at missing
    cases missing

theorem lineage_of_missing {b : ForkBlock Hash} (missing : s.getBlockHeader b.previous = none) :
    s.lineage b = [b] := by
  rw [lineage]
  split
  · rename_i other otherFound
    rw [missing] at otherFound
    cases otherFound
  · rfl

theorem exists_lineage_eq_cons (b : ForkBlock Hash) : ∃ rest, s.lineage b = b :: rest := by
  cases found : s.getBlockHeader b.previous with
  | some parent => exact ⟨_, lineage_of_parent found⟩
  | none => exact ⟨[], lineage_of_missing found⟩

theorem mem_lineage_self (b : ForkBlock Hash) : b ∈ s.lineage b := by
  obtain ⟨rest, lineageEq⟩ := exists_lineage_eq_cons (s := s) b
  rw [lineageEq]
  exact List.mem_cons_self

theorem parent_blockNum {b parent : ForkBlock Hash}
    (found : s.getBlockHeader b.previous = some parent) : parent.blockNum + 1 = b.blockNum := by
  rw [getBlockHeader_blockNum found, b.previousBlockNum]

/-- Each block of a lineage builds on the next. -/
theorem isChain_lineage (b : ForkBlock Hash) :
    (s.lineage b).IsChain fun u v => v.id = u.previous := by
  induction b using lineage.induct s with
  | case1 b parent found inductionHypothesis =>
    obtain ⟨rest, parentLineage⟩ := exists_lineage_eq_cons (s := s) parent
    rw [lineage_of_parent found]
    rw [parentLineage] at inductionHypothesis ⊢
    have builds : parent.id = b.previous := by
      rcases getBlockHeader_eq_some found with ⟨isParent, isRoot⟩ | ⟨_, sameId⟩
      · rw [isParent, isRoot]
      · exact sameId
    exact List.isChain_cons_cons.mpr ⟨builds, inductionHypothesis⟩
  | case2 b missing =>
    rw [lineage_of_missing missing]
    exact List.isChain_singleton b

theorem blockNum_le_of_mem_lineage {b z : ForkBlock Hash} (member : z ∈ s.lineage b) :
    z.blockNum ≤ b.blockNum := by
  induction b using lineage.induct s with
  | case1 b parent found inductionHypothesis =>
    rw [lineage_of_parent found, List.mem_cons] at member
    rcases member with rfl | inParent
    · exact Nat.le_refl _
    · have below := parent_blockNum found
      have atMost := inductionHypothesis inParent
      omega
  | case2 b missing =>
    rw [lineage_of_missing missing, List.mem_singleton] at member
    rw [member]

/-- Block numbers go down strictly along a lineage. -/
theorem pairwise_lineage (b : ForkBlock Hash) :
    (s.lineage b).Pairwise fun u v => v.blockNum < u.blockNum := by
  induction b using lineage.induct s with
  | case1 b parent found inductionHypothesis =>
    rw [lineage_of_parent found, List.pairwise_cons]
    refine ⟨fun z member => ?_, inductionHypothesis⟩
    have atMost := blockNum_le_of_mem_lineage member
    have below := parent_blockNum found
    omega
  | case2 b missing =>
    rw [lineage_of_missing missing]
    exact List.pairwise_singleton _ b

/-- A lineage holds at most one block of each number. -/
theorem eq_of_mem_lineage {b u v : ForkBlock Hash} (uMember : u ∈ s.lineage b)
    (vMember : v ∈ s.lineage b) (sameNumber : u.blockNum = v.blockNum) : u = v := by
  induction b using lineage.induct s with
  | case1 b parent found inductionHypothesis =>
    -- the first block is above every other block of the lineage
    rw [lineage_of_parent found, List.mem_cons] at uMember vMember
    have parentNumber := parent_blockNum found
    rcases uMember with rfl | uParent <;> rcases vMember with rfl | vParent
    · rfl
    · have atMost := blockNum_le_of_mem_lineage vParent
      omega
    · have atMost := blockNum_le_of_mem_lineage uParent
      omega
    · exact inductionHypothesis uParent vParent
  | case2 b missing =>
    rw [lineage_of_missing missing, List.mem_singleton] at uMember vMember
    rw [uMember, vMember]

/-- The lineage of a block on a lineage is the rest of it. -/
theorem lineage_eq_append_of_mem {b z : ForkBlock Hash} (member : z ∈ s.lineage b) :
    ∃ above, s.lineage b = above ++ s.lineage z := by
  induction b using lineage.induct s with
  | case1 b parent found inductionHypothesis =>
    rw [lineage_of_parent found, List.mem_cons] at member
    rcases member with rfl | inParent
    · exact ⟨[], by rw [List.nil_append, lineage_of_parent found]⟩
    · obtain ⟨above, parentLineage⟩ := inductionHypothesis inParent
      exact ⟨b :: above, by rw [lineage_of_parent found, parentLineage, List.cons_append]⟩
  | case2 b missing =>
    rw [lineage_of_missing missing, List.mem_singleton] at member
    exact ⟨[], by rw [member, List.nil_append]⟩

/-- A block of a lineage that is not above `z`, itself on the lineage, is on the lineage of
`z`. -/
theorem mem_lineage_of_blockNum_le {b z u : ForkBlock Hash} (zMember : z ∈ s.lineage b)
    (uMember : u ∈ s.lineage b) (notAbove : u.blockNum ≤ z.blockNum) : u ∈ s.lineage z := by
  obtain ⟨above, lineageEq⟩ := lineage_eq_append_of_mem zMember
  have sorted := pairwise_lineage (s := s) b
  rw [lineageEq, List.pairwise_append] at sorted
  rw [lineageEq, List.mem_append] at uMember
  rcases uMember with inAbove | onLineage
  · have below := sorted.2.2 u inAbove z (mem_lineage_self z)
    omega
  · exact onLineage

/-- The last block above `c` on a lineage through `c` builds on `c`. -/
theorem previous_eq_of_getLast {b c u : ForkBlock Hash} {above : List (ForkBlock Hash)}
    (lineageEq : s.lineage b = above ++ s.lineage c) (last : u ∈ above.getLast?) :
    u.previous = c.id := by
  have chain := isChain_lineage (s := s) b
  rw [lineageEq, List.isChain_append] at chain
  obtain ⟨rest, cLineage⟩ := exists_lineage_eq_cons (s := s) c
  exact (chain.2.2 u last c (by rw [cLineage]; rfl)).symm

/-- Two distinct blocks on lineages through `c` that both build on `c` leave `c` the lowest
common ancestor of the lineages' first blocks. -/
theorem lowestCommonAncestor_of_getLast_ne {x y c : ForkBlock Hash}
    {firstAbove secondAbove : List (ForkBlock Hash)}
    (firstLineage : s.lineage x = firstAbove ++ s.lineage c)
    (secondLineage : s.lineage y = secondAbove ++ s.lineage c)
    (distinct : ∀ u ∈ firstAbove.getLast?, ∀ v ∈ secondAbove.getLast?, u ≠ v) :
    s.LowestCommonAncestor x y c := by
  have onFirst : c ∈ s.lineage x := by
    rw [firstLineage]
    exact List.mem_append_right _ (mem_lineage_self c)
  have onSecond : c ∈ s.lineage y := by
    rw [secondLineage]
    exact List.mem_append_right _ (mem_lineage_self c)
  refine ⟨onFirst, onSecond, fun d dFirst dSecond => ?_⟩
  have dFirst' := dFirst
  rw [firstLineage, List.mem_append] at dFirst'
  rw [secondLineage, List.mem_append] at dSecond
  rcases dFirst' with inFirst | below
  · rcases dSecond with inSecond | below
    · -- `d` lies above `c` on both lineages: so would the last blocks above `c`, one number up
      obtain ⟨u, uLast⟩ := Option.isSome_iff_exists.mp
        (List.getLast?_isSome.mpr (List.ne_nil_of_mem inFirst))
      obtain ⟨v, vLast⟩ := Option.isSome_iff_exists.mp
        (List.getLast?_isSome.mpr (List.ne_nil_of_mem inSecond))
      have uPrevious := previous_eq_of_getLast firstLineage uLast
      have vPrevious := previous_eq_of_getLast secondLineage vLast
      have sameNumber : u.blockNum = v.blockNum := by
        rw [← u.previousBlockNum, ← v.previousBlockNum, uPrevious, vPrevious]
      have notAbove : ∀ {b w : ForkBlock Hash} {above : List (ForkBlock Hash)},
          s.lineage b = above ++ s.lineage c → d ∈ above → w ∈ above.getLast? →
            w ∈ s.lineage b ∧ w.blockNum ≤ d.blockNum := by
        intro b w above lineageEq dAbove wLast
        obtain ⟨front, rfl⟩ := List.getLast?_eq_some_iff.mp wLast
        have sorted := pairwise_lineage (s := s) b
        rw [lineageEq, List.append_assoc, List.pairwise_append] at sorted
        refine ⟨by rw [lineageEq]; simp, ?_⟩
        rcases List.mem_append.mp dAbove with inFront | isLast
        · exact Nat.le_of_lt (sorted.2.2 d inFront w (by simp))
        · rw [List.mem_singleton.mp isLast]
      obtain ⟨uFirst, uBelow⟩ := notAbove firstLineage inFirst uLast
      obtain ⟨vSecond, vBelow⟩ := notAbove secondLineage inSecond vLast
      have uOnD := mem_lineage_of_blockNum_le dFirst uFirst uBelow
      have vOnD := mem_lineage_of_blockNum_le (by rw [secondLineage]; simp [inSecond]) vSecond vBelow
      exact absurd (eq_of_mem_lineage uOnD vOnD sameNumber) (distinct u uLast v vLast)
    · exact below
  · exact below

/-! ### The tree -/

section Tree

variable (linked : Linked s.index s.root)

include linked

omit [LinearOrder Hash] in
theorem root_blockNum_le {b : ForkBlock Hash} (placed : s.Placed b) :
    s.root.blockNum ≤ b.blockNum := by
  rcases placed with rfl | member
  · exact Nat.le_refl _
  · exact Nat.le_of_lt (blockNum_gt_of_linked linked b member)

omit [LinearOrder Hash] in
theorem eq_root_of_blockNum_le {b : ForkBlock Hash} (placed : s.Placed b)
    (atMost : b.blockNum ≤ s.root.blockNum) : b = s.root := by
  rcases placed with isRoot | member
  · exact isRoot
  · exact absurd (blockNum_gt_of_linked linked b member) (Nat.not_lt.mpr atMost)

omit linked in
theorem getBlock_of_mem {b : ForkBlock Hash} (member : b ∈ s.index) : s.getBlock b.id = some b := by
  cases found : s.getBlock b.id with
  | none => exact absurd rfl (getBlock_eq_none found b member)
  | some c =>
    obtain ⟨cMember, sameId⟩ := getBlock_eq_some found
    rw [eq_of_mem_of_id_eq s cMember member sameId]

omit linked in
theorem placed_of_getBlockHeader {id : BlockId Hash} {p : ForkBlock Hash}
    (found : s.getBlockHeader id = some p) : s.Placed p := by
  rcases getBlockHeader_eq_some found with ⟨isRoot, _⟩ | ⟨member, _⟩
  · exact Or.inl isRoot
  · exact Or.inr member

omit [LinearOrder Hash] in
/-- Two blocks of the tree with one id are one block. -/
theorem eq_of_placed_of_id_eq {b c : ForkBlock Hash} (bPlaced : s.Placed b) (cPlaced : s.Placed c)
    (sameId : b.id = c.id) : b = c := by
  have sameNumber : b.blockNum = c.blockNum := by rw [← b.idBlockNum, ← c.idBlockNum, sameId]
  rcases bPlaced with rfl | bMember
  · exact (eq_root_of_blockNum_le linked cPlaced (Nat.le_of_eq sameNumber.symm)).symm
  · rcases cPlaced with rfl | cMember
    · exact eq_root_of_blockNum_le linked (Or.inr bMember) (Nat.le_of_eq sameNumber)
    · exact eq_of_mem_of_id_eq s bMember cMember sameId

/-- An indexed block builds on the root or on an indexed block, which `get_block_header`
finds. -/
theorem exists_parent {b : ForkBlock Hash} (member : b ∈ s.index) :
    ∃ parent, s.getBlockHeader b.previous = some parent := by
  rcases linked b member with onRoot | ⟨c, cMember, parent⟩
  · exact ⟨s.root, by rw [getBlockHeader, if_pos onRoot.symm]⟩
  · refine ⟨c, ?_⟩
    unfold getBlockHeader
    split
    · rename_i isRoot
      have above := blockNum_gt_of_linked linked c cMember
      rw [← c.idBlockNum, parent, ← isRoot, s.root.idBlockNum] at above
      exact absurd above (Nat.lt_irrefl _)
    · rw [← parent, getBlock_of_mem cMember]

/-- A block one above the root builds on the root. -/
theorem previous_eq_root {b : ForkBlock Hash} (member : b ∈ s.index)
    (justAbove : b.blockNum = s.root.blockNum + 1) : b.previous = s.root.id := by
  rcases linked b member with onRoot | ⟨c, cMember, parent⟩
  · exact onRoot
  · have above := blockNum_gt_of_linked linked c cMember
    have numbers := b.previousBlockNum
    rw [← parent, c.idBlockNum] at numbers
    omega

end Tree

/-! ### The loops -/

theorem climbTo_of_not_lt {target : Nat} {branch : List (ForkBlock Hash)} {b : ForkBlock Hash}
    (notAbove : ¬ target < b.blockNum) : s.climbTo target branch b = .ok (branch, b) := by
  rw [climbTo, if_neg notAbove]

theorem climbTo_of_parent {target : Nat} {branch : List (ForkBlock Hash)} {b parent : ForkBlock Hash}
    (above : target < b.blockNum) (found : s.getBlockHeader b.previous = some parent) :
    s.climbTo target branch b = s.climbTo target (branch ++ [b]) parent := by
  rw [climbTo, if_pos above]
  split
  · rename_i other otherFound
    rw [found, Option.some.injEq] at otherFound
    rw [otherFound]
  · rename_i missing
    rw [found] at missing
    cases missing

/-- **The first two loops.** From a block of the tree, climbing down to a number no lower than
the root's ends at the block of the lower number on its lineage, having collected the blocks
above it. -/
theorem climbTo_eq_ok (linked : Linked s.index s.root) {target : Nat}
    (atLeast : s.root.blockNum ≤ target) (branch : List (ForkBlock Hash)) (b : ForkBlock Hash)
    (placed : s.Placed b) :
    ∃ above c, s.climbTo target branch b = .ok (branch ++ above, c) ∧
      s.lineage b = above ++ s.lineage c ∧ c.blockNum = min b.blockNum target ∧ s.Placed c ∧
      (b.blockNum ≤ target → above = []) := by
  induction branch, b using climbTo.induct s target with
  | case1 branch b above parent found inductionHypothesis =>
    -- `b` is above the target, so it is not the root and its parent is in the tree
    obtain ⟨rest, c, climbed, parentLineage, number, cPlaced, -⟩ :=
      inductionHypothesis (placed_of_getBlockHeader found)
    have parentNumber := parent_blockNum found
    refine ⟨b :: rest, c, ?_, ?_, ?_, cPlaced, fun notAbove => absurd above (by omega)⟩
    · rw [climbTo_of_parent above found, climbed, List.append_assoc, List.singleton_append]
    · rw [lineage_of_parent found, parentLineage, List.cons_append]
    · omega
  | case2 branch b above missing =>
    rcases placed with rfl | member
    · exact absurd above (Nat.not_lt.mpr atLeast)
    · obtain ⟨parent, found⟩ := exists_parent linked member
      rw [found] at missing
      cases missing
  | case3 branch b notAbove =>
    exact ⟨[], b, by rw [climbTo_of_not_lt notAbove, List.append_nil], rfl, by omega, placed,
      fun _ => rfl⟩

theorem climbTogether_of_previous_eq {firstBranch secondBranch : List (ForkBlock Hash)}
    {first second : ForkBlock Hash} (meet : first.previous = second.previous) :
    s.climbTogether firstBranch secondBranch first second =
      .ok (firstBranch, secondBranch, first, second) := by
  rw [climbTogether, if_neg (not_not.mpr meet)]

theorem climbTogether_of_parents {firstBranch secondBranch : List (ForkBlock Hash)}
    {first second firstParent secondParent : ForkBlock Hash} (apart : first.previous ≠ second.previous)
    (firstFound : s.getBlock first.previous = some firstParent)
    (secondFound : s.getBlock second.previous = some secondParent) :
    s.climbTogether firstBranch secondBranch first second =
      s.climbTogether (firstBranch ++ [first]) (secondBranch ++ [second]) firstParent secondParent := by
  rw [climbTogether, if_pos apart]
  split
  · rename_i firstOther secondOther firstOtherFound secondOtherFound
    rw [firstFound, Option.some.injEq] at firstOtherFound
    rw [secondFound, Option.some.injEq] at secondOtherFound
    rw [firstOtherFound, secondOtherFound]
  · rename_i missing
    rw [firstFound] at missing
    cases missing
  · rename_i missing
    rw [secondFound] at missing
    cases missing

/-- Two distinct blocks of one number that build on different blocks are indexed, and so are the
blocks they build on. -/
theorem parents_of_previous_ne (linked : Linked s.index s.root) {first second : ForkBlock Hash}
    (firstPlaced : s.Placed first) (secondPlaced : s.Placed second)
    (sameNumber : first.blockNum = second.blockNum) (apart : first.previous ≠ second.previous) :
    ∃ firstParent secondParent, s.getBlock first.previous = some firstParent ∧
      s.getBlock second.previous = some secondParent := by
  -- neither is the root: the only block of the root's number is the root itself
  have notRoot : ∀ {b other : ForkBlock Hash}, s.Placed b → s.Placed other →
      b.blockNum = other.blockNum → b.previous ≠ other.previous → b ∈ s.index := by
    intro b other bPlaced otherPlaced same differ
    rcases bPlaced with rfl | member
    · have otherRoot := eq_root_of_blockNum_le linked otherPlaced (Nat.le_of_eq same.symm)
      exact absurd (by rw [otherRoot]) differ
    · exact member
  have firstMember := notRoot firstPlaced secondPlaced sameNumber apart
  have secondMember := notRoot secondPlaced firstPlaced sameNumber.symm (Ne.symm apart)
  -- and neither builds on the root: the other would too
  have offRoot : ∀ {b other : ForkBlock Hash}, b ∈ s.index → other ∈ s.index →
      b.blockNum = other.blockNum → b.previous ≠ other.previous → b.previous ≠ s.root.id := by
    intro b other bMember otherMember same differ onRoot
    have justAbove : b.blockNum = s.root.blockNum + 1 := by
      rw [← b.previousBlockNum, onRoot, s.root.idBlockNum]
    exact differ (by rw [onRoot, previous_eq_root linked otherMember (same ▸ justAbove)])
  have parentOf : ∀ {b : ForkBlock Hash}, b ∈ s.index → b.previous ≠ s.root.id →
      ∃ parent, s.getBlock b.previous = some parent := by
    intro b member offTheRoot
    obtain ⟨parent, found⟩ := exists_parent linked member
    rw [getBlockHeader, if_neg (Ne.symm offTheRoot)] at found
    exact ⟨parent, found⟩
  obtain ⟨firstParent, firstFound⟩ :=
    parentOf firstMember (offRoot firstMember secondMember sameNumber apart)
  obtain ⟨secondParent, secondFound⟩ :=
    parentOf secondMember (offRoot secondMember firstMember sameNumber.symm (Ne.symm apart))
  exact ⟨firstParent, secondParent, firstFound, secondFound⟩

/-- **The third loop.** From two distinct blocks of one number, climbing down together ends at
two distinct blocks that build on the same block, having collected the blocks above them. -/
theorem climbTogether_eq_ok (linked : Linked s.index s.root)
    (firstBranch secondBranch : List (ForkBlock Hash)) (first second : ForkBlock Hash)
    (firstPlaced : s.Placed first) (secondPlaced : s.Placed second)
    (sameNumber : first.blockNum = second.blockNum) (distinct : first.id ≠ second.id) :
    ∃ firstAbove secondAbove u v,
      s.climbTogether firstBranch secondBranch first second =
        .ok (firstBranch ++ firstAbove, secondBranch ++ secondAbove, u, v) ∧
      s.lineage first = firstAbove ++ s.lineage u ∧ s.lineage second = secondAbove ++ s.lineage v ∧
      u.previous = v.previous ∧ u.id ≠ v.id ∧ s.Placed u ∧ s.Placed v := by
  induction firstBranch, secondBranch, first, second using climbTogether.induct s with
  | case1 firstBranch secondBranch first second apart firstParent secondParent firstFound
      secondFound inductionHypothesis =>
    -- both parents are indexed, of one number, and distinct, as their ids are the previous ids
    have parentPlaced : ∀ {b parent : ForkBlock Hash}, s.getBlock b.previous = some parent →
        s.Placed parent ∧ s.getBlockHeader b.previous = some parent ∧ parent.id = b.previous := by
      intro b parent found
      obtain ⟨member, sameId⟩ := getBlock_eq_some found
      refine ⟨Or.inr member, ?_, sameId⟩
      rw [getBlockHeader, if_neg fun isRoot => ?_, found]
      have above := blockNum_gt_of_linked linked parent member
      rw [← parent.idBlockNum, sameId, ← isRoot, s.root.idBlockNum] at above
      exact Nat.lt_irrefl _ above
    obtain ⟨firstParentPlaced, firstHeader, firstId⟩ := parentPlaced firstFound
    obtain ⟨secondParentPlaced, secondHeader, secondId⟩ := parentPlaced secondFound
    have parentsNumber : firstParent.blockNum = secondParent.blockNum := by
      have firstNumber := parent_blockNum firstHeader
      have secondNumber := parent_blockNum secondHeader
      omega
    obtain ⟨firstAbove, secondAbove, u, v, climbed, firstLineage, secondLineage, meet, uvDistinct,
        uPlaced, vPlaced⟩ :=
      inductionHypothesis firstParentPlaced secondParentPlaced parentsNumber
        (by rw [firstId, secondId]; exact apart)
    refine ⟨first :: firstAbove, second :: secondAbove, u, v, ?_, ?_, ?_, meet, uvDistinct,
      uPlaced, vPlaced⟩
    · rw [climbTogether_of_parents apart firstFound secondFound, climbed, List.append_assoc,
        List.append_assoc, List.singleton_append, List.singleton_append]
    · rw [lineage_of_parent firstHeader, firstLineage, List.cons_append]
    · rw [lineage_of_parent secondHeader, secondLineage, List.cons_append]
  | case2 firstBranch secondBranch first second apart firstMissing =>
    obtain ⟨firstParent, -, firstFound, -⟩ :=
      parents_of_previous_ne linked firstPlaced secondPlaced sameNumber apart
    rw [firstFound] at firstMissing
    cases firstMissing
  | case3 firstBranch secondBranch first second apart firstParent firstFound secondMissing =>
    obtain ⟨-, secondParent, -, secondFound⟩ :=
      parents_of_previous_ne linked firstPlaced secondPlaced sameNumber apart
    rw [secondFound] at secondMissing
    cases secondMissing
  | case4 firstBranch secondBranch first second meet =>
    exact ⟨[], [], first, second,
      by rw [climbTogether_of_previous_eq (not_not.mp meet), List.append_nil, List.append_nil],
      rfl, rfl, not_not.mp meet, distinct, firstPlaced, secondPlaced⟩

/-! ### `fetch_branch_from` -/

/-- The three loops together: `fetch_branch_from` returns the blocks above a block on both
lineages, and the branches do not end at one block. -/
theorem fetchBranchFrom_eq_ok (linked : Linked s.index s.root) {first second : BlockId Hash}
    {x y : ForkBlock Hash} (firstFound : s.getBlockHeader first = some x)
    (secondFound : s.getBlockHeader second = some y) :
    ∃ p q c, s.fetchBranchFrom first second = .ok (p, q) ∧ s.lineage x = p ++ s.lineage c ∧
      s.lineage y = q ++ s.lineage c ∧ ∀ u ∈ p.getLast?, ∀ v ∈ q.getLast?, u ≠ v := by
  have xPlaced := placed_of_getBlockHeader firstFound
  have yPlaced := placed_of_getBlockHeader secondFound
  obtain ⟨firstAbove, x', firstClimbed, firstLineage, firstNumber, x'Placed, firstStays⟩ :=
    climbTo_eq_ok linked (root_blockNum_le linked yPlaced) [] x xPlaced
  obtain ⟨secondAbove, y', secondClimbed, secondLineage, secondNumber, y'Placed, secondStays⟩ :=
    climbTo_eq_ok linked (root_blockNum_le linked x'Placed) [] y yPlaced
  rw [List.nil_append] at firstClimbed secondClimbed
  have sameNumber : x'.blockNum = y'.blockNum := by omega
  by_cases met : x'.id = y'.id
  · -- the lower block is on the lineage of the other: one branch is empty
    have same := eq_of_placed_of_id_eq linked x'Placed y'Placed met
    subst same
    have oneEmpty : firstAbove = [] ∨ secondAbove = [] := by
      by_cases lower : x.blockNum ≤ y.blockNum
      · exact Or.inl (firstStays lower)
      · exact Or.inr (secondStays (by omega))
    refine ⟨firstAbove, secondAbove, x', ?_, firstLineage, secondLineage, ?_⟩
    · simp [fetchBranchFrom, firstFound, secondFound, firstClimbed, secondClimbed, bind,
        Except.bind, pure, Except.pure]
    · rcases oneEmpty with rfl | rfl <;> simp
  · -- the third loop ends at two distinct blocks on one parent, which is indexed or the root
    obtain ⟨firstRest, secondRest, u, v, together, uLineage, vLineage, meet, distinct, uPlaced,
        vPlaced⟩ :=
      climbTogether_eq_ok linked firstAbove secondAbove x' y' x'Placed y'Placed sameNumber met
    have uvNumber : u.blockNum = v.blockNum := by
      rw [← u.previousBlockNum, ← v.previousBlockNum, meet]
    have uMember : u ∈ s.index := by
      rcases uPlaced with rfl | member
      · have vRoot := eq_root_of_blockNum_le linked vPlaced (Nat.le_of_eq uvNumber.symm)
        exact absurd (by rw [vRoot]) distinct
      · exact member
    obtain ⟨c, uParent⟩ := exists_parent linked uMember
    have vParent : s.getBlockHeader v.previous = some c := by rw [← meet]; exact uParent
    refine ⟨firstAbove ++ firstRest ++ [u], secondAbove ++ secondRest ++ [v], c, ?_, ?_, ?_, ?_⟩
    · simp [fetchBranchFrom, firstFound, secondFound, firstClimbed, secondClimbed, met, together,
        bind, Except.bind, pure, Except.pure]
    · rw [firstLineage, uLineage, lineage_of_parent uParent]
      simp
    · rw [secondLineage, vLineage, lineage_of_parent vParent]
      simp
    · simp only [List.getLast?_concat, Option.mem_def, Option.some.injEq]
      rintro _ rfl _ rfl same
      exact distinct (by rw [same])

/-- A block that is an ancestor of the other leaves its own branch empty. -/
theorem eq_nil_of_mem_lineage {x y c : ForkBlock Hash} {p : List (ForkBlock Hash)}
    (lowest : s.LowestCommonAncestor x y c) (firstLineage : s.lineage x = p ++ s.lineage c)
    (ancestor : x ∈ s.lineage y) : p = [] ∧ x = c := by
  have onC := lowest.2.2 x (mem_lineage_self x) ancestor
  have atMost := blockNum_le_of_mem_lineage onC
  cases p with
  | nil =>
    obtain ⟨rest, cLineage⟩ := exists_lineage_eq_cons (s := s) c
    obtain ⟨restX, xLineage⟩ := exists_lineage_eq_cons (s := s) x
    rw [List.nil_append, xLineage, cLineage, List.cons.injEq] at firstLineage
    exact ⟨rfl, firstLineage.1⟩
  | cons head above =>
    -- `x` heads its lineage, strictly above `c`
    have sorted := pairwise_lineage (s := s) x
    obtain ⟨restX, xLineage⟩ := exists_lineage_eq_cons (s := s) x
    have headEq : head = x := by
      rw [xLineage, List.cons_append, List.cons.injEq] at firstLineage
      exact firstLineage.1.symm
    rw [firstLineage, List.cons_append, List.pairwise_cons, headEq] at sorted
    have below := sorted.1 c (List.mem_append_right _ (mem_lineage_self c))
    omega

/-- **`fetch_branch_from` returns the branches above the lowest common ancestor.** For two blocks
of a fork database that is a tree, given by their ids, it returns the blocks from each down to,
not including, their lowest common ancestor, in descending block numbers. When the first is an
ancestor of the second, its branch is empty and the other ends at a block built on it; when both
branches are non-empty, their last blocks build on the same block. -/
theorem fetchBranchFrom_eq_branches (linked : Linked s.index s.root) {first second : BlockId Hash}
    {x y : ForkBlock Hash} (firstFound : s.getBlockHeader first = some x)
    (secondFound : s.getBlockHeader second = some y) :
    ∃ p q c, s.fetchBranchFrom first second = .ok (p, q) ∧ s.LowestCommonAncestor x y c ∧
      s.lineage x = p ++ s.lineage c ∧ s.lineage y = q ++ s.lineage c ∧
      p.Pairwise (fun u v => v.blockNum < u.blockNum) ∧
      q.Pairwise (fun u v => v.blockNum < u.blockNum) ∧
      (x ∈ s.lineage y → p = [] ∧ ∀ child ∈ q.getLast?, child.previous = first) ∧
      ∀ u ∈ p.getLast?, ∀ v ∈ q.getLast?, u.previous = v.previous := by
  obtain ⟨p, q, c, fetched, firstLineage, secondLineage, distinct⟩ :=
    fetchBranchFrom_eq_ok linked firstFound secondFound
  have lowest := lowestCommonAncestor_of_getLast_ne firstLineage secondLineage distinct
  have descending : ∀ {b : ForkBlock Hash} {above : List (ForkBlock Hash)},
      s.lineage b = above ++ s.lineage c → above.Pairwise fun u v => v.blockNum < u.blockNum := by
    intro b above lineageEq
    have sorted := pairwise_lineage (s := s) b
    rw [lineageEq, List.pairwise_append] at sorted
    exact sorted.1
  refine ⟨p, q, c, fetched, lowest, firstLineage, secondLineage, descending firstLineage,
    descending secondLineage, fun ancestor => ?_, fun u uLast v vLast => ?_⟩
  · obtain ⟨empty, isC⟩ := eq_nil_of_mem_lineage lowest firstLineage ancestor
    refine ⟨empty, fun child last => ?_⟩
    have firstId : x.id = first := by
      rcases getBlockHeader_eq_some firstFound with ⟨isRoot, rootId⟩ | ⟨_, sameId⟩
      · rw [isRoot, rootId]
      · exact sameId
    rw [previous_eq_of_getLast secondLineage last, ← isC, firstId]
  · rw [previous_eq_of_getLast firstLineage uLast, previous_eq_of_getLast secondLineage vLast]

/-- A block of number `n + 1` on the block of number `n`, with the hash parts of both ids. -/
def blockOn (n digest previousDigest : Nat) : ForkBlock Nat :=
  ⟨⟨n + 1, digest⟩, ⟨n, previousDigest⟩, n + 1, 0, false, rfl, rfl⟩

/-- A root at block 1 with two forks of two blocks each. -/
def twoForks : ForkDatabase Nat :=
  ⟨[blockOn 1 1 0, blockOn 2 2 1, blockOn 1 3 0, blockOn 2 4 3], by decide, blockOn 0 0 0,
    blockOn 0 0 0⟩

theorem fetchBranchFrom_eq_branches_of_twoForks :
    Linked twoForks.index twoForks.root ∧
      twoForks.getBlockHeader ⟨3, 2⟩ = some (blockOn 2 2 1) ∧
      twoForks.getBlockHeader ⟨3, 4⟩ = some (blockOn 2 4 3) ∧
      ∃ p q c, twoForks.fetchBranchFrom ⟨3, 2⟩ ⟨3, 4⟩ = .ok (p, q) ∧
        twoForks.LowestCommonAncestor (blockOn 2 2 1) (blockOn 2 4 3) c ∧
        twoForks.lineage (blockOn 2 2 1) = p ++ twoForks.lineage c ∧
        twoForks.lineage (blockOn 2 4 3) = q ++ twoForks.lineage c ∧
        p.Pairwise (fun u v => v.blockNum < u.blockNum) ∧
        q.Pairwise (fun u v => v.blockNum < u.blockNum) ∧
        (blockOn 2 2 1 ∈ twoForks.lineage (blockOn 2 4 3) →
          p = [] ∧ ∀ child ∈ q.getLast?, child.previous = ⟨3, 2⟩) ∧
        ∀ u ∈ p.getLast?, ∀ v ∈ q.getLast?, u.previous = v.previous :=
  have linked : Linked twoForks.index twoForks.root := by
    unfold Linked
    decide
  ⟨linked, rfl, rfl, fetchBranchFrom_eq_branches linked rfl rfl⟩

end ForkDatabase

end Eosio.Chain
