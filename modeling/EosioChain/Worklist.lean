/-
This file studies a worklist that grows at its end while it is walked. The entry at the current
position is checked, its children are appended to the list, and the walk moves one position on,
until it reaches the end of the list. A walk that finishes has checked every entry it holds, and
its list is closed under the child relation: the child of any entry is an entry. Fuel bounds the
number of entries walked, since nothing in the child relation itself makes the list stop growing.
-/

import Mathlib

namespace Worklist

variable {α : Type*} (children : α → List α) (allowed : α → Bool)

/-- Walk `queue` from position `next`: fail at an entry that is not allowed or when the fuel runs
out, and return the grown list once the walk reaches its end. -/
def drain : (fuel : Nat) → (queue : List α) → (next : Nat) → Option (List α)
  | 0, queue, next => if next < queue.length then none else some queue
  | fuel + 1, queue, next =>
    if walking : next < queue.length then
      if allowed queue[next] then drain fuel (queue ++ children queue[next]) (next + 1) else none
    else some queue

/-- An entry that has been walked is allowed and has its children in the list. -/
def Walked (queue : List α) (entry : α) : Prop :=
  allowed entry = true ∧ ∀ child ∈ children entry, child ∈ queue

variable {children allowed}

theorem Walked.mono {queue queue' : List α} {entry : α} (walked : Walked children allowed queue entry)
    (grown : queue ⊆ queue') : Walked children allowed queue' entry :=
  ⟨walked.1, fun child member => grown (walked.2 child member)⟩

/-- Walking one more entry keeps every entry of the walked prefix walked. -/
theorem walked_take_succ {queue : List α} {next : Nat} (walking : next < queue.length)
    (walkedBefore : ∀ entry ∈ queue.take next, Walked children allowed queue entry)
    (checked : allowed queue[next] = true) :
    ∀ entry ∈ (queue ++ children queue[next]).take (next + 1),
      Walked children allowed (queue ++ children queue[next]) entry := by
  intro entry member
  rw [List.take_append_of_le_length walking, List.take_add_one, List.getElem?_eq_getElem walking,
    Option.toList_some, List.mem_append, List.mem_singleton] at member
  rcases member with before | rfl
  · exact (walkedBefore entry before).mono (List.subset_append_left _ _)
  · exact ⟨checked, fun child member => List.mem_append_right _ member⟩

/-- A walk at the end of its list has walked all of it. -/
theorem walked_of_finished {queue : List α} {next : Nat} (finished : ¬ next < queue.length)
    (walkedBefore : ∀ entry ∈ queue.take next, Walked children allowed queue entry) :
    queue ⊆ queue ∧ ∀ entry ∈ queue, Walked children allowed queue entry := by
  rw [List.take_of_length_le (Nat.le_of_not_lt finished)] at walkedBefore
  exact ⟨List.Subset.refl _, walkedBefore⟩

/-- **A finished walk is closed.** Every entry of the returned list is allowed and has its
children in the list, provided the entries before the starting position were walked; the list
walked is part of the list returned. -/
theorem drain_closed {fuel : Nat} {queue result : List α} {next : Nat}
    (drained : drain children allowed fuel queue next = some result)
    (walkedBefore : ∀ entry ∈ queue.take next, Walked children allowed queue entry) :
    queue ⊆ result ∧ ∀ entry ∈ result, Walked children allowed result entry := by
  induction fuel generalizing queue next with
  | zero =>
    unfold drain at drained
    split at drained
    · cases drained
    · rename_i finished
      rw [← Option.some.inj drained]
      exact walked_of_finished finished walkedBefore
  | succ fuel inductionHypothesis =>
    unfold drain at drained
    split at drained
    · rename_i walking
      split at drained
      · rename_i checked
        obtain ⟨contained, closed⟩ := inductionHypothesis drained
          (walked_take_succ walking walkedBefore checked)
        exact ⟨List.Subset.trans (List.subset_append_left _ _) contained, closed⟩
      · cases drained
    · rename_i finished
      rw [← Option.some.inj drained]
      exact walked_of_finished finished walkedBefore

/-- A walk from the start of `queue` returns a closed list of allowed entries holding `queue`. -/
theorem drain_zero_closed {fuel : Nat} {queue result : List α}
    (drained : drain children allowed fuel queue 0 = some result) :
    queue ⊆ result ∧ ∀ entry ∈ result, Walked children allowed result entry :=
  drain_closed drained (by simp)

end Worklist
