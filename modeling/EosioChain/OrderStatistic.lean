/-
This file develops the order statistics of a finite list: the value found at a given rank once
the list is sorted from low to high.

Everything rests on one counting characterisation, `nth_le_iff`: the value at rank `rank` is at
most `bound` exactly when more than `rank` entries of the list are at most `bound`. From it follow
the facts a quorum rule needs: the rank value is bounded by any common bound of the entries, it
does not depend on the order of the list, it grows when the entries grow pointwise, and appending
an entry that dominates the others cannot move a rank value down even when the rank moves up.
-/

import Mathlib

namespace OrderStatistic

variable {α : Type*} [LinearOrder α]

/-- The value at rank `rank` of `values` sorted from low to high, and `fallback` past the end. -/
def nth (values : List α) (rank : Nat) (fallback : α) : α :=
  (values.insertionSort (· ≤ ·)).getD rank fallback

/-! ### Counting below a bound -/

/-- In a list sorted from low to high, the entry at `rank` is at most `bound` exactly when more
than `rank` entries are at most `bound`: the entries below a bound form a prefix. -/
theorem sorted_getElem_le_iff {sorted : List α} (ascending : sorted.Pairwise (· ≤ ·))
    {rank : Nat} (inRange : rank < sorted.length) (bound : α) :
    sorted[rank] ≤ bound ↔ rank < sorted.countP (· ≤ bound) := by
  induction sorted generalizing rank with
  | nil => exact absurd inRange (Nat.not_lt_zero rank)
  | cons head tail inductionHypothesis =>
    have headLeast : ∀ other ∈ tail, head ≤ other := (List.pairwise_cons.mp ascending).1
    by_cases headBelow : head ≤ bound
    · rw [List.countP_cons_of_pos (by simpa using headBelow)]
      cases rank with
      | zero => simpa using headBelow
      | succ rank =>
        rw [List.getElem_cons_succ,
          inductionHypothesis (List.pairwise_cons.mp ascending).2 (by simpa using inRange)]
        omega
    · have noneBelow : tail.countP (· ≤ bound) = 0 := by
        rw [List.countP_eq_zero]
        intro other member below
        exact headBelow (le_trans (headLeast other member) (by simpa using below))
      rw [List.countP_cons_of_neg (by simpa using headBelow), noneBelow]
      cases rank with
      | zero => simpa using headBelow
      | succ rank =>
        have tailRange : rank < tail.length := by simpa using inRange
        rw [List.getElem_cons_succ]
        have aboveBound : bound < tail[rank] :=
          lt_of_lt_of_le (not_le.mp headBelow) (headLeast _ (List.getElem_mem tailRange))
        simp only [not_le.mpr aboveBound, false_iff]
        omega

/-- **The counting characterisation of a rank value.** -/
theorem nth_le_iff {values : List α} {rank : Nat} (inRange : rank < values.length)
    (fallback bound : α) :
    nth values rank fallback ≤ bound ↔ rank < values.countP (· ≤ bound) := by
  have sortedLength : (values.insertionSort (· ≤ ·)).length = values.length :=
    List.length_insertionSort _ values
  have sortedRange : rank < (values.insertionSort (· ≤ ·)).length := by omega
  rw [nth, List.getD_eq_getElem?_getD, List.getElem?_eq_getElem sortedRange, Option.getD_some,
    sorted_getElem_le_iff (List.pairwise_insertionSort _ values) sortedRange bound,
    (List.perm_insertionSort _ values).countP_eq]

theorem lt_countP_of_nth {values : List α} {rank : Nat} (inRange : rank < values.length)
    (fallback : α) : rank < values.countP (· ≤ nth values rank fallback) :=
  (nth_le_iff inRange fallback _).mp le_rfl

/-! ### Consequences -/

/-- A common bound of the entries bounds every rank value. -/
theorem nth_le_of_forall_le {values : List α} {rank : Nat} (inRange : rank < values.length)
    (fallback : α) {bound : α} (bounded : ∀ value ∈ values, value ≤ bound) :
    nth values rank fallback ≤ bound := by
  rw [nth_le_iff inRange, List.countP_eq_length.mpr (fun value member => by
    simpa using bounded value member)]
  exact inRange

/-- Rank values do not depend on the order of the list. -/
theorem nth_perm {first second : List α} (permuted : first.Perm second) (rank : Nat)
    (fallback : α) : nth first rank fallback = nth second rank fallback := by
  by_cases inRange : rank < first.length
  · have secondRange : rank < second.length := permuted.length_eq ▸ inRange
    apply le_antisymm
    · rw [nth_le_iff inRange, permuted.countP_eq]
      exact lt_countP_of_nth secondRange fallback
    · rw [nth_le_iff secondRange, ← permuted.countP_eq]
      exact lt_countP_of_nth inRange fallback
  · have secondRange : ¬ rank < second.length := permuted.length_eq ▸ inRange
    have sortedOut : ∀ values : List α, ¬ rank < values.length →
        (values.insertionSort (· ≤ ·))[rank]? = none := fun values outside => by
      rw [List.getElem?_eq_none_iff, List.length_insertionSort]
      omega
    rw [nth, nth, List.getD_eq_getElem?_getD, List.getD_eq_getElem?_getD, sortedOut first inRange,
      sortedOut second secondRange]

/-- Entries that are pointwise larger have at most as many entries below any bound. -/
theorem countP_le_of_forall₂ {lower upper : List α} (pointwise : List.Forall₂ (· ≤ ·) lower upper)
    (bound : α) : upper.countP (· ≤ bound) ≤ lower.countP (· ≤ bound) := by
  induction pointwise with
  | nil => exact le_rfl
  | @cons low up lowerTail upperTail below _ inductionHypothesis =>
    simp only [List.countP_cons]
    by_cases upBelow : up ≤ bound
    · have lowBelow : low ≤ bound := le_trans below upBelow
      simp only [upBelow, lowBelow, decide_true, if_true]
      omega
    · simp only [upBelow, decide_false, Bool.false_eq_true, if_false]
      split <;> omega

/-- Rank values grow when the entries grow pointwise. -/
theorem nth_mono {lower upper : List α} (pointwise : List.Forall₂ (· ≤ ·) lower upper)
    {rank : Nat} (inRange : rank < lower.length) (fallback : α) :
    nth lower rank fallback ≤ nth upper rank fallback := by
  have upperRange : rank < upper.length := pointwise.length_eq ▸ inRange
  rw [nth_le_iff inRange]
  exact lt_of_lt_of_le (lt_countP_of_nth upperRange fallback)
    (countP_le_of_forall₂ pointwise _)

/-- Appending an entry that dominates the others cannot lower a rank value, even when the rank
moves up by the one place the longer list allows. -/
theorem nth_le_nth_append {values : List α} {top : α} (dominated : ∀ value ∈ values, value ≤ top)
    {rank rank' : Nat} (inRange : rank < values.length) (ranks : rank ≤ rank')
    (extendedRange : rank' ≤ values.length) (fallback : α) :
    nth values rank fallback ≤ nth (values ++ [top]) rank' fallback := by
  have longerRange : rank' < (values ++ [top]).length := by simp; omega
  have counted := lt_countP_of_nth longerRange fallback
  by_cases topBelow : top ≤ nth (values ++ [top]) rank' fallback
  · exact nth_le_of_forall_le inRange fallback fun value member =>
      le_trans (dominated value member) topBelow
  · rw [List.countP_append, List.countP_singleton] at counted
    simp only [topBelow, decide_false, Bool.false_eq_true, if_false, Nat.add_zero] at counted
    rw [nth_le_iff inRange]
    omega

end OrderStatistic
