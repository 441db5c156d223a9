/-
This file is about a table that counts references: rows with unique keys, each carrying a count,
and a list of referrers, each naming a key. `held` reads the table key by key, as the counts of
its rows with that key; the table counts the referrers exactly when it holds under every key as
many as there are referrers naming it.

Each change a program makes to the table moves what it holds under one key only: removing the
row with a key leaves nothing there, an update of a row moves its key's count to the updated
row's, and appending a row adds its count under its key. Changing the key of one referrer takes
one from the referrers naming the old key and adds one to those naming the new key. A program
that moves the table and the referrers together keeps the table exact.
-/

import EosioChain.KeyedTable

namespace RefCounts

open KeyedTable

variable {Row Key : Type*} [DecidableEq Key] {key : Row → Key} {count : Row → Nat}

/-- What a table holds under `k`: the counts of its rows with key `k`, summed. -/
def held (key : Row → Key) (count : Row → Nat) (rows : List Row) (k : Key) : Nat :=
  ((rows.filter fun row => key row = k).map count).sum

/-! ### Reading a table -/

/-- A table with unique keys holds under a row's key the count of that row. -/
theorem held_of_mem {rows : List Row} (unique : Unique key rows) {row : Row} (member : row ∈ rows) :
    held key count rows (key row) = count row := by
  obtain ⟨before, after, rfl, beforeAbsent, afterAbsent⟩ := split_of_mem unique member
  have noneBefore : before.filter (fun other => key other = key row) = [] :=
    List.filter_eq_nil_iff.mpr fun other otherMember => by simpa using beforeAbsent other otherMember
  have noneAfter : after.filter (fun other => key other = key row) = [] :=
    List.filter_eq_nil_iff.mpr fun other otherMember => by simpa using afterAbsent other otherMember
  rw [held, List.filter_append, List.filter_cons_of_pos (by simp), noneBefore, noneAfter]
  simp

/-- A table with no row of a key holds nothing under it. -/
theorem held_eq_zero {rows : List Row} {k : Key} (absent : ∀ row ∈ rows, key row ≠ k) :
    held key count rows k = 0 := by
  have none : rows.filter (fun row => key row = k) = [] :=
    List.filter_eq_nil_iff.mpr fun row member => by simpa using absent row member
  rw [held, none, List.map_nil, List.sum_nil]

/-- What a table holds under a key comes from a row with that key. -/
theorem exists_mem_of_held_pos {rows : List Row} {k : Key} (positive : 0 < held key count rows k) :
    ∃ row ∈ rows, key row = k := by
  by_contra absent
  have noRow : ∀ row ∈ rows, key row ≠ k := fun row member keyed => absent ⟨row, member, keyed⟩
  rw [held_eq_zero noRow] at positive
  exact Nat.lt_irrefl 0 positive

/-! ### Changing a table -/

/-- Removing the row with a key leaves nothing under it and the rest as it was. -/
theorem held_erase (rows : List Row) (k k' : Key) :
    held key count (erase key rows k) k' = if k' = k then 0 else held key count rows k' := by
  unfold held erase
  rw [List.filter_filter]
  by_cases same : k' = k
  · rw [if_pos same]
    have none : rows.filter (fun row => decide (key row = k') && decide (key row ≠ k)) = [] :=
      List.filter_eq_nil_iff.mpr fun row _ => by simp [same]
    rw [none, List.map_nil, List.sum_nil]
  · rw [if_neg same]
    congr 2
    refine List.filter_congr fun row _ => ?_
    by_cases keyed : key row = k'
    · simp [keyed, same]
    · simp [keyed]

/-- An update of the row with one key leaves what is held under the others. -/
theorem held_modify_of_ne (rows : List Row) {k k' : Key} {update : Row → Row}
    (keepsKey : ∀ row, key (update row) = key row) (other : k' ≠ k) :
    held key count (KeyedTable.modify key rows k update) k' = held key count rows k' := by
  unfold held KeyedTable.modify
  rw [List.filter_map, List.map_map]
  have samePredicate : ((fun row => decide (key row = k')) ∘
      fun row => if key row = k then update row else row) = fun row => decide (key row = k') := by
    funext row
    by_cases keyed : key row = k
    · simp only [Function.comp_apply, if_pos keyed, keepsKey]
    · simp only [Function.comp_apply, if_neg keyed]
  rw [samePredicate]
  congr 1
  refine List.map_congr_left fun row member => ?_
  -- the selected rows have key `k'`, so the update leaves them
  have keyed : key row = k' := by simpa using (List.mem_filter.mp member).2
  have notUpdated : key row ≠ k := keyed ▸ other
  simp only [Function.comp_apply, if_neg notUpdated]

/-- An update of a row of a table with unique keys holds the updated count under its key. -/
theorem held_modify_self {rows : List Row} (unique : Unique key rows) {row : Row}
    (member : row ∈ rows) {update : Row → Row} (keepsKey : ∀ row, key (update row) = key row) :
    held key count (KeyedTable.modify key rows (key row) update) (key row) = count (update row) := by
  have updatedMember : update row ∈ KeyedTable.modify key rows (key row) update :=
    List.mem_map.mpr ⟨row, member, if_pos rfl⟩
  have held' : held key count _ (key (update row)) = count (update row) :=
    held_of_mem (unique_modify unique (key row) keepsKey) updatedMember
  rwa [keepsKey] at held'

/-- Appending a row adds its count under its key. -/
theorem held_append (rows : List Row) (row : Row) (k : Key) :
    held key count (rows ++ [row]) k =
      held key count rows k + if key row = k then count row else 0 := by
  unfold held
  rw [List.filter_append, List.map_append, List.sum_append]
  by_cases keyed : key row = k
  · simp [keyed]
  · simp [keyed]

/-- What two tables side by side hold under a key is what each holds there. -/
theorem held_append_tables (first second : List Row) (k : Key) :
    held key count (first ++ second) k = held key count first k + held key count second k := by
  unfold held
  rw [List.filter_append, List.map_append, List.sum_append]

theorem held_cons (row : Row) (rows : List Row) (k : Key) :
    held key count (row :: rows) k = (if key row = k then count row else 0) + held key count rows k := by
  unfold held
  by_cases keyed : key row = k
  · simp [keyed]
  · simp [keyed]

/-- Removing a row by another unique key takes its count from under its own key. -/
theorem held_erase_of_mem {Id : Type*} [DecidableEq Id] {id : Row → Id} {rows : List Row}
    (unique : Unique id rows) {row : Row} (member : row ∈ rows) (k : Key) :
    held key count (erase id rows (id row)) k + (if key row = k then count row else 0) =
      held key count rows k := by
  obtain ⟨before, after, rfl, erased⟩ := erase_eq_of_mem unique member
  rw [erased, held_append_tables, held_append_tables, held_cons]
  omega

/-- A table holds under a key at least what a part of it in the same order holds there. -/
theorem held_le_of_sublist {part rows : List Row} (sublist : part.Sublist rows) (k : Key) :
    held key count part k ≤ held key count rows k :=
  ((sublist.filter _).map count).sum_le_sum fun _ _ => Nat.zero_le _

/-! ### Changing a referrer -/

/-- **Moving one referrer.** An update of one row of a table with unique keys moves it from the
rows that satisfy `p` before to those that satisfy it after. -/
theorem countP_modify {rows : List Row} (unique : Unique key rows) {row : Row}
    (member : row ∈ rows) (update : Row → Row) (p : Row → Bool) :
    (KeyedTable.modify key rows (key row) update).countP p + (if p row then 1 else 0) =
      rows.countP p + if p (update row) then 1 else 0 := by
  obtain ⟨before, after, rfl, modified⟩ := modify_eq_of_mem unique member update
  rw [modified]
  simp only [List.countP_append, List.countP_cons]
  omega

end RefCounts
