/-
This file studies a table of rows with a unique key, the shape of a multi-index container with
an `ordered_unique` index: a lookup by key, an update of the row with a key in place, the removal
of the row with a key, and the insertion of a row with a new key. Uniqueness of the keys is kept
by each of them, a sum over the rows changes under an update or a removal by the one row
concerned, and a lookup after each of them finds what it left under every key.
-/

import Mathlib

namespace KeyedTable

variable {Row Key : Type*} (key : Row → Key)

/-- No two rows share a key. -/
def Unique (rows : List Row) : Prop :=
  (rows.map key).Nodup

section Unique

variable {key}

/-- Two rows of a table with unique keys that share a key are one row. -/
theorem eq_of_key_eq {rows : List Row} (unique : Unique key rows) {row other : Row}
    (member : row ∈ rows) (otherMember : other ∈ rows) (sameKey : key row = key other) :
    row = other :=
  List.inj_on_of_nodup_map unique member otherMember sameKey

theorem unique_append {rows : List Row} (unique : Unique key rows) {row : Row}
    (fresh : ∀ other ∈ rows, key other ≠ key row) : Unique key (rows ++ [row]) := by
  unfold Unique
  rw [List.map_append, List.map_singleton]
  refine unique.append (List.nodup_singleton _) (List.disjoint_singleton.mpr fun member => ?_)
  obtain ⟨other, otherMember, sameKey⟩ := List.mem_map.mp member
  exact fresh other otherMember sameKey

/-- The row with a key, between rows of other keys. -/
theorem split_of_mem {rows : List Row} (unique : Unique key rows) {row : Row} (member : row ∈ rows) :
    ∃ before after, rows = before ++ row :: after ∧ (∀ other ∈ before, key other ≠ key row) ∧
      ∀ other ∈ after, key other ≠ key row := by
  obtain ⟨before, after, rfl⟩ := List.append_of_mem member
  unfold Unique at unique
  rw [List.map_append, List.map_cons, List.nodup_append, List.nodup_cons] at unique
  refine ⟨before, after, rfl, fun other otherMember sameKey => ?_, fun other otherMember sameKey => ?_⟩
  · exact unique.2.2 (key other) (List.mem_map_of_mem otherMember) (key row) List.mem_cons_self
      sameKey
  · exact unique.2.1.1 (sameKey ▸ List.mem_map_of_mem otherMember)

end Unique

variable [DecidableEq Key]

/-- The row with key `k`. -/
def find (rows : List Row) (k : Key) : Option Row :=
  rows.find? fun row => decide (key row = k)

/-- Apply `update` to the row with key `k`. -/
def modify (rows : List Row) (k : Key) (update : Row → Row) : List Row :=
  rows.map fun row => if key row = k then update row else row

/-- Remove the row with key `k`. -/
def erase (rows : List Row) (k : Key) : List Row :=
  rows.filter fun row => decide (key row ≠ k)

variable {key}

/-! ### Lookups -/

theorem find_eq_some {rows : List Row} {k : Key} {row : Row} (found : find key rows k = some row) :
    row ∈ rows ∧ key row = k := by
  unfold find at found
  have matched := List.find?_some found
  rw [decide_eq_true_eq] at matched
  exact ⟨List.mem_of_find?_eq_some found, matched⟩

theorem find_eq_none {rows : List Row} {k : Key} (missing : find key rows k = none) :
    ∀ row ∈ rows, key row ≠ k := by
  intro row member keyed
  unfold find at missing
  exact List.find?_eq_none.mp missing row member (decide_eq_true keyed)

theorem find_eq_some_of_mem {rows : List Row} (unique : Unique key rows) {row : Row}
    (member : row ∈ rows) : find key rows (key row) = some row := by
  unfold find
  cases found : rows.find? fun other => decide (key other = key row) with
  | none => exact absurd rfl (find_eq_none found row member)
  | some other =>
    have ⟨otherMember, sameKey⟩ := find_eq_some found
    rw [List.inj_on_of_nodup_map unique otherMember member sameKey]

/-! ### Updates keep the keys unique -/

/-- An update that keeps a view of every row keeps the view of the table. -/
theorem map_modify_of_keeps {View : Type*} (view : Row → View) (rows : List Row) (k : Key)
    {update : Row → Row} (keepsView : ∀ row, view (update row) = view row) :
    (modify key rows k update).map view = rows.map view := by
  unfold modify
  rw [List.map_map]
  refine List.map_congr_left fun row _ => ?_
  by_cases keyed : key row = k
  · simp only [Function.comp_apply, if_pos keyed, keepsView]
  · simp only [Function.comp_apply, if_neg keyed]

/-- An update that keeps the key of another unique index keeps that index unique. -/
theorem unique_modify {View : Type*} {view : Row → View} {rows : List Row}
    (unique : Unique view rows) (k : Key) {update : Row → Row}
    (keepsView : ∀ row, view (update row) = view row) :
    Unique view (modify key rows k update) := by
  unfold Unique
  rw [map_modify_of_keeps view rows k keepsView]
  exact unique

theorem unique_erase {View : Type*} {view : Row → View} {rows : List Row}
    (unique : Unique view rows) (k : Key) : Unique view (erase key rows k) :=
  (List.filter_sublist.map view).nodup unique

theorem mem_modify {rows : List Row} {k : Key} {update : Row → Row} {row : Row}
    (member : row ∈ modify key rows k update) :
    ∃ old ∈ rows, row = if key old = k then update old else old :=
  let ⟨old, oldMember, same⟩ := List.mem_map.mp member
  ⟨old, oldMember, same.symm⟩

theorem mem_modify_of_ne {rows : List Row} {k : Key} {update : Row → Row} {row : Row}
    (member : row ∈ rows) (otherKey : key row ≠ k) : row ∈ modify key rows k update := by
  refine List.mem_map.mpr ⟨row, member, ?_⟩
  rw [if_neg otherKey]

theorem mem_erase {rows : List Row} {k : Key} {row : Row} :
    row ∈ erase key rows k ↔ row ∈ rows ∧ key row ≠ k := by
  rw [erase, List.mem_filter, decide_eq_true_eq]

/-! ### Sums over the rows -/

theorem modify_of_forall_ne {rows : List Row} {k : Key} (update : Row → Row)
    (absent : ∀ row ∈ rows, key row ≠ k) : modify key rows k update = rows := by
  unfold modify
  conv_rhs => rw [← List.map_id rows]
  exact List.map_congr_left fun row member => if_neg (absent row member)

theorem erase_of_forall_ne {rows : List Row} {k : Key} (absent : ∀ row ∈ rows, key row ≠ k) :
    erase key rows k = rows :=
  List.filter_eq_self.mpr fun row member => decide_eq_true (absent row member)

/-- Updating the row with a key changes it alone, between rows of other keys. -/
theorem modify_eq_of_mem {rows : List Row} (unique : Unique key rows) {row : Row}
    (member : row ∈ rows) (update : Row → Row) :
    ∃ before after, rows = before ++ row :: after ∧
      modify key rows (key row) update = before ++ update row :: after := by
  obtain ⟨before, after, rfl, beforeAbsent, afterAbsent⟩ := split_of_mem unique member
  refine ⟨before, after, rfl, ?_⟩
  rw [modify, List.map_append, List.map_cons, if_pos rfl, ← modify, ← modify,
    modify_of_forall_ne update beforeAbsent, modify_of_forall_ne update afterAbsent]

/-- Removing the row with a key removes it alone, from between rows of other keys. -/
theorem erase_eq_of_mem {rows : List Row} (unique : Unique key rows) {row : Row}
    (member : row ∈ rows) :
    ∃ before after, rows = before ++ row :: after ∧ erase key rows (key row) = before ++ after := by
  obtain ⟨before, after, rfl, beforeAbsent, afterAbsent⟩ := split_of_mem unique member
  refine ⟨before, after, rfl, ?_⟩
  rw [erase, List.filter_append, List.filter_cons_of_neg (by simp), ← erase, ← erase,
    erase_of_forall_ne beforeAbsent, erase_of_forall_ne afterAbsent]

/-- An update that keeps the weight of the rows with key `k` keeps a sum over the table. -/
theorem sum_modify_of_weight_eq (rows : List Row) (k : Key) {update : Row → Row}
    {weight : Row → Nat} (keepsWeight : ∀ row, key row = k → weight (update row) = weight row) :
    ((modify key rows k update).map weight).sum = (rows.map weight).sum := by
  unfold modify
  rw [List.map_map]
  congr 1
  refine List.map_congr_left fun row _ => ?_
  by_cases keyed : key row = k
  · simp only [Function.comp_apply, if_pos keyed, keepsWeight row keyed]
  · simp only [Function.comp_apply, if_neg keyed]

/-- **Updating one row changes a sum over the table by that row.** -/
theorem sum_modify {rows : List Row} (unique : Unique key rows) {row : Row} (member : row ∈ rows)
    (update : Row → Row) (weight : Row → Nat) :
    ((modify key rows (key row) update).map weight).sum + weight row =
      (rows.map weight).sum + weight (update row) := by
  obtain ⟨before, after, rfl, modified⟩ := modify_eq_of_mem unique member update
  rw [modified]
  simp only [List.map_append, List.map_cons, List.sum_append, List.sum_cons]
  omega

/-- **Removing one row changes a sum over the table by that row.** -/
theorem sum_erase {rows : List Row} (unique : Unique key rows) {row : Row} (member : row ∈ rows)
    (weight : Row → Nat) :
    ((erase key rows (key row)).map weight).sum + weight row = (rows.map weight).sum := by
  obtain ⟨before, after, rfl, erased⟩ := erase_eq_of_mem unique member
  rw [erased]
  simp only [List.map_append, List.map_cons, List.sum_append, List.sum_cons]
  omega

/-! ### Lookups after updates -/

/-- A lookup after an update that keeps the key finds the updated row. -/
theorem find_modify {rows : List Row} {k : Key} {update : Row → Row}
    (keepsKey : ∀ row, key (update row) = key row) (k' : Key) :
    find key (modify key rows k update) k' =
      if k' = k then (find key rows k').map update else find key rows k' := by
  unfold find modify
  rw [List.find?_map]
  have samePredicate : ((fun row => decide (key row = k')) ∘
      fun row => if key row = k then update row else row) = fun row => decide (key row = k') := by
    funext row
    by_cases keyed : key row = k
    · simp only [Function.comp_apply, if_pos keyed, keepsKey]
    · simp only [Function.comp_apply, if_neg keyed]
  rw [samePredicate]
  cases found : rows.find? (fun row => decide (key row = k')) with
  | none => split <;> rfl
  | some row =>
    have keyed : key row = k' := by simpa using List.find?_some found
    by_cases same : k' = k
    · have onKey : key row = k := keyed.trans same
      simp [same, onKey]
    · simp [same, keyed]

/-- A lookup after a removal finds nothing under the removed key and what it found elsewhere. -/
theorem find_erase (rows : List Row) (k k' : Key) :
    find key (erase key rows k) k' = if k' = k then none else find key rows k' := by
  induction rows with
  | nil => split <;> rfl
  | cons row rest inductionHypothesis =>
    unfold find erase at *
    by_cases keyed : key row = k
    · rw [List.filter_cons_of_neg (by simpa using keyed), inductionHypothesis]
      by_cases same : k' = k
      · rw [if_pos same, if_pos same]
      · rw [if_neg same, if_neg same, List.find?_cons_of_neg (by simpa [keyed] using Ne.symm same)]
    · rw [List.filter_cons_of_pos (by simpa using keyed)]
      by_cases found : key row = k'
      · have other : k' ≠ k := found ▸ keyed
        rw [List.find?_cons_of_pos (by simpa using found), if_neg other,
          List.find?_cons_of_pos (by simpa using found)]
      · rw [List.find?_cons_of_neg (by simpa using found), inductionHypothesis,
          List.find?_cons_of_neg (by simpa using found)]

/-- A lookup after appending a row of a fresh key finds it under its key. -/
theorem find_append_of_fresh {rows : List Row} {row : Row}
    (fresh : ∀ other ∈ rows, key other ≠ key row) (k : Key) :
    find key (rows ++ [row]) k = if key row = k then some row else find key rows k := by
  unfold find
  rw [List.find?_append]
  by_cases keyed : key row = k
  · have missing : rows.find? (fun other => decide (key other = k)) = none :=
      List.find?_eq_none.mpr fun other member => by simpa [← keyed] using fresh other member
    rw [if_pos keyed, missing, Option.none_or, List.find?_singleton, if_pos (by simpa using keyed)]
  · rw [if_neg keyed, List.find?_singleton, if_neg (by simpa using keyed), Option.or_none]

end KeyedTable
