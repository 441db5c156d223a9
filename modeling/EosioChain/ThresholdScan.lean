/-
This file studies a scan with an early exit. Items are visited in order; each visit may change a
state and add to a running 32-bit total, and the scan stops with `true` at the first item after
which the total reaches a threshold, or ends with `false` when none does. When each visit keeps an
invariant of the state and adds a weight fixed in advance, and the weights cannot wrap the total
around, the scan answers whether the weights of all the items reach the threshold, and the
invariant holds of the state it ends in.
-/

import Mathlib

namespace ThresholdScan

variable {Item State : Type*}

/-- Visit `items` from `current`, stopping at the first item whose visit brings the total to
`threshold`. -/
def run (visit : Item → State × UInt32 → State × UInt32) (threshold : UInt32) :
    List Item → State × UInt32 → Bool × State
  | [], current => (false, current.1)
  | item :: rest, current =>
    let next := visit item current
    if next.2 ≥ threshold then (true, next.1) else run visit threshold rest next

section Spec

variable (visit : Item → State × UInt32 → State × UInt32) (invariant : State → Prop)
  (weight : Item → Nat)

/-- From a state with the invariant, and with room left in the total, visiting `item` keeps the
invariant and adds exactly `weight item`. -/
def Adds (item : Item) : Prop :=
  ∀ state total, invariant state → total.toNat + weight item < 2 ^ 32 →
    invariant (visit item (state, total)).1 ∧
      (visit item (state, total)).2.toNat = total.toNat + weight item

variable {visit invariant weight}

/-- **The scan answers whether all the weights reach the threshold.** Started below the threshold
with room for every weight, it returns `true` exactly when the total and the weights of all the
items reach the threshold, and ends in a state with the invariant. -/
theorem run_spec (threshold : UInt32) (items : List Item) (adds : ∀ item ∈ items, Adds visit invariant weight item)
    {state : State} {total : UInt32} (start : invariant state) (below : total.toNat < threshold.toNat)
    (fits : total.toNat + (items.map weight).sum < 2 ^ 32) :
    (run visit threshold items (state, total)).1 =
        decide (threshold.toNat ≤ total.toNat + (items.map weight).sum) ∧
      invariant (run visit threshold items (state, total)).2 := by
  induction items generalizing state total with
  | nil =>
    rw [List.map_nil, List.sum_nil, Nat.add_zero] at fits ⊢
    exact ⟨(decide_eq_false (Nat.not_le.mpr below)).symm, start⟩
  | cons item rest inductionHypothesis =>
    rw [List.map_cons, List.sum_cons] at fits ⊢
    have room : total.toNat + weight item < 2 ^ 32 := by omega
    obtain ⟨kept, added⟩ := adds item List.mem_cons_self state total start room
    unfold run
    dsimp only
    by_cases reached : (visit item (state, total)).2 ≥ threshold
    · rw [if_pos reached]
      have reachedNat := UInt32.le_iff_toNat_le.mp reached
      exact ⟨(decide_eq_true (by omega)).symm, kept⟩
    · rw [if_neg reached]
      have stillBelow := UInt32.lt_iff_toNat_lt.mp (UInt32.not_le.mp reached)
      have rest_spec := inductionHypothesis (fun other member => adds other (List.mem_cons_of_mem _ member))
        kept stillBelow (by omega)
      rw [added, Nat.add_assoc] at rest_spec
      exact rest_spec

end Spec

end ThresholdScan
