/-
This file studies a table of rows that name their parent row by its id, with `0` the id of a
reserved row that is nobody's child. When every other row's parent id is below its own, following
parent links never comes back to a row; when the ids are unique, the ancestors of a row are its
parent and the parent's ancestors; and when every link that is not `0` leads to a row of the same
tree, every row is in the tree of a root whose parent is `0`.
-/

import Mathlib

namespace ParentForest

variable {Row : Type*} (id parent : Row → Nat) (rows : List Row)

/-- `upper` is the parent of `lower`: both are rows, `lower` is not the reserved row, and its
parent id is the id of `upper`. -/
def ParentOf (upper lower : Row) : Prop :=
  upper ∈ rows ∧ lower ∈ rows ∧ id lower ≠ 0 ∧ id upper = parent lower

/-- `upper` is reached from `lower` by one parent link or more. -/
def Ancestor : Row → Row → Prop :=
  Relation.TransGen (ParentOf id parent rows)

/-- Every row but the reserved one has a parent id below its own. -/
def Descending : Prop :=
  ∀ row ∈ rows, id row ≠ 0 → parent row < id row

variable {id parent rows}

/-! ### Descending ids -/

theorem ParentOf.id_lt (descending : Descending id parent rows) {upper lower : Row}
    (link : ParentOf id parent rows upper lower) : id upper < id lower := by
  obtain ⟨_, lowerMember, notReserved, linked⟩ := link
  rw [linked]
  exact descending lower lowerMember notReserved

theorem Ancestor.id_lt (descending : Descending id parent rows) {upper lower : Row}
    (ancestor : Ancestor id parent rows upper lower) : id upper < id lower := by
  induction ancestor with
  | single link => exact link.id_lt descending
  | tail _ link inductionHypothesis => exact Nat.lt_trans inductionHypothesis (link.id_lt descending)

/-- **Parent links never come back to a row.** -/
theorem not_ancestor_self (descending : Descending id parent rows) (row : Row) :
    ¬ Ancestor id parent rows row row :=
  fun cycle => Nat.lt_irrefl _ (cycle.id_lt descending)

/-! ### Unique ids -/

/-- With unique ids, a row has one parent. -/
theorem ParentOf.unique (unique : (rows.map id).Nodup) {upper upper' lower : Row}
    (link : ParentOf id parent rows upper lower) (link' : ParentOf id parent rows upper' lower) :
    upper = upper' :=
  List.inj_on_of_nodup_map unique link.1 link'.1 (link.2.2.2.trans link'.2.2.2.symm)

/-- An ancestor of a row is a parent of it, or above one. -/
theorem Ancestor.exists_parentOf {upper lower : Row} (ancestor : Ancestor id parent rows upper lower) :
    ∃ middle, ParentOf id parent rows middle lower ∧
      (upper = middle ∨ Ancestor id parent rows upper middle) := by
  obtain ⟨middle, reaches, link⟩ := Relation.TransGen.tail'_iff.mp ancestor
  refine ⟨middle, link, ?_⟩
  rcases Relation.reflTransGen_iff_eq_or_transGen.mp reaches with same | above
  · exact Or.inl same.symm
  · exact Or.inr above

/-- With unique ids, the ancestors of a row are its parent and the parent's ancestors. -/
theorem ancestor_iff_of_parentOf (unique : (rows.map id).Nodup) {upper middle lower : Row}
    (link : ParentOf id parent rows middle lower) :
    Ancestor id parent rows upper lower ↔ upper = middle ∨ Ancestor id parent rows upper middle := by
  constructor
  · intro ancestor
    obtain ⟨other, otherLink, above⟩ := ancestor.exists_parentOf
    rw [otherLink.unique unique link] at above
    exact above
  · rintro (rfl | above)
    · exact Relation.TransGen.single link
    · exact Relation.TransGen.tail above link

/-- Nothing is above a row whose parent is the reserved row but that row, which is nobody's
child. -/
theorem not_ancestor_of_parent_eq_zero (descending : Descending id parent rows) {upper lower : Row}
    (notReserved : id upper ≠ 0) (isRoot : parent lower = 0) :
    ¬ Ancestor id parent rows upper lower := by
  intro ancestor
  obtain ⟨middle, link, above⟩ := ancestor.exists_parentOf
  have middleReserved : id middle = 0 := link.2.2.2.trans isRoot
  rcases above with rfl | above
  · exact notReserved middleReserved
  · exact Nat.not_lt_zero _ (middleReserved ▸ above.id_lt descending)

/-! ### Roots -/

/-- **Every row is in the tree of a root.** When each link that is not `0` leads to a row of the
same tree, a row other than the reserved one has, in its tree, a row of parent `0` that is itself
or one of its ancestors. -/
theorem exists_root {Tree : Type*} (tree : Row → Tree) (descending : Descending id parent rows)
    (closed : ∀ row ∈ rows, id row ≠ 0 → parent row ≠ 0 →
      ∃ upper ∈ rows, id upper = parent row ∧ tree upper = tree row)
    {row : Row} (member : row ∈ rows) (notReserved : id row ≠ 0) :
    ∃ root ∈ rows, id root ≠ 0 ∧ parent root = 0 ∧ tree root = tree row ∧
      (root = row ∨ Ancestor id parent rows root row) := by
  -- by induction on the id, which goes down along each link
  induction hId : id row using Nat.strongRecOn generalizing row with
  | _ n inductionHypothesis =>
    by_cases isRoot : parent row = 0
    · exact ⟨row, member, notReserved, isRoot, rfl, Or.inl rfl⟩
    · obtain ⟨upper, upperMember, upperId, sameTree⟩ := closed row member notReserved isRoot
      have link : ParentOf id parent rows upper row := ⟨upperMember, member, notReserved, upperId⟩
      have below : id upper < n := hId ▸ link.id_lt descending
      obtain ⟨root, rootMember, rootNotReserved, rootIsRoot, rootTree, reaches⟩ :=
        inductionHypothesis (id upper) below upperMember (upperId ▸ isRoot) rfl
      refine ⟨root, rootMember, rootNotReserved, rootIsRoot, rootTree.trans sameTree, Or.inr ?_⟩
      rcases reaches with rfl | above
      · exact Relation.TransGen.single link
      · exact Relation.TransGen.tail above link

end ParentForest
