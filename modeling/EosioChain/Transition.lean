/-
This file fixes what "reachable" means for a transition system given by a set of initial states
and a step relation, and gives the two rules every invariant proof of the development uses: an
inductive invariant holds at every reachable state, and a property of steps holds along every
step taken from a reachable state.

Reachability is Mathlib's reflexive transitive closure started in an initial state.
-/

import Mathlib

namespace Transition

variable {State : Type*} {initial : State → Prop} {transition : State → State → Prop}

/-- The states a run started in an initial state can reach. -/
def Reachable (initial : State → Prop) (transition : State → State → Prop) (state : State) : Prop :=
  ∃ start, initial start ∧ Relation.ReflTransGen transition start state

theorem Reachable.of_initial {state : State} (start : initial state) :
    Reachable initial transition state :=
  ⟨state, start, Relation.ReflTransGen.refl⟩

theorem Reachable.step {state next : State} (reachable : Reachable initial transition state)
    (stepped : transition state next) : Reachable initial transition next := by
  obtain ⟨start, isInitial, run⟩ := reachable
  exact ⟨start, isInitial, run.tail stepped⟩

/-- **Induction over runs.** A property of the initial states that every step from a reachable
state preserves holds at every reachable state. -/
theorem Reachable.induction (invariant : State → Prop)
    (holdsInitially : ∀ state, initial state → invariant state)
    (preserved : ∀ state next, Reachable initial transition state → invariant state →
      transition state next → invariant next)
    {state : State} (reachable : Reachable initial transition state) : invariant state := by
  obtain ⟨start, isInitial, run⟩ := reachable
  have both : Reachable initial transition state ∧ invariant state := by
    induction run with
    | refl => exact ⟨Reachable.of_initial isInitial, holdsInitially start isInitial⟩
    | tail _ stepped inductionHypothesis =>
      exact ⟨Reachable.step inductionHypothesis.1 stepped,
        preserved _ _ inductionHypothesis.1 inductionHypothesis.2 stepped⟩
  exact both.2

/-- An inductive invariant: true initially and kept by every step. -/
theorem Reachable.invariant (invariant : State → Prop)
    (holdsInitially : ∀ state, initial state → invariant state)
    (preserved : ∀ state next, invariant state → transition state next → invariant next)
    {state : State} (reachable : Reachable initial transition state) : invariant state :=
  reachable.induction invariant holdsInitially fun state next _ holds stepped =>
    preserved state next holds stepped

/-! ### Fallible steps -/

/-- A fallible computation followed by another succeeds exactly when both do. -/
theorem bind_eq_ok {ε : Type*} {α β : Type _} {first : Except ε α} {rest : α → Except ε β} {result : β} :
    first >>= rest = .ok result ↔ ∃ value, first = .ok value ∧ rest value = .ok result := by
  cases first <;> simp [bind, Except.bind]

/-- A fallible computation followed by another fails when the first does or the second does
after the first succeeded. -/
theorem bind_eq_error {ε : Type*} {α β : Type _} {first : Except ε α} {rest : α → Except ε β}
    {failure : ε} (failed : first >>= rest = .error failure) :
    first = .error failure ∨ ∃ value, first = .ok value ∧ rest value = .error failure := by
  cases first with
  | error firstFailure => exact Or.inl (by simpa [bind, Except.bind] using failed)
  | ok value => exact Or.inr ⟨value, rfl, failed⟩

/-- A fallible computation with its value transformed succeeds exactly when the computation
does. -/
theorem map_eq_ok {ε : Type*} {α β : Type _} {computation : Except ε α} {transform : α → β}
    {result : β} :
    transform <$> computation = .ok result ↔ ∃ value, computation = .ok value ∧ transform value = result := by
  cases computation <;> simp [Functor.map, Except.map]

/-- A thrown error skips the rest of a computation. -/
theorem throw_bind {ε : Type*} {α β : Type _} {failure : ε} {rest : α → Except ε β} :
    (throw failure >>= rest : Except ε β) = throw failure :=
  rfl

/-- A computation behind a check that throws when it fails succeeds exactly when the check holds
and the computation succeeds. -/
theorem ite_throw_eq_ok {ε α : Type _} {check : Prop} [Decidable check] {computation : Except ε α}
    {failure : ε} {result : α} :
    (if check then computation else throw failure) = .ok result ↔
      check ∧ computation = .ok result := by
  by_cases holds : check
  · rw [if_pos holds]
    exact ⟨fun succeeded => ⟨holds, succeeded⟩, fun both => both.2⟩
  · rw [if_neg holds]
    exact ⟨fun thrown => (nomatch thrown), fun both => absurd both.1 holds⟩

/-- A check that throws when it holds lets a computation through exactly when it fails. -/
theorem ite_throw_else_eq_ok {ε α : Type _} {check : Prop} [Decidable check]
    {computation : Except ε α} {failure : ε} {result : α} :
    (if check then throw failure else computation) = .ok result ↔
      ¬ check ∧ computation = .ok result := by
  rw [← ite_not]
  exact ite_throw_eq_ok

/-- Renaming the error of a computation changes none of its results. -/
theorem mapError_eq_ok {ε ε' α : Type _} {x : Except ε α} {rename : ε → ε'} {result : α} :
    x.mapError rename = .ok result ↔ x = .ok result := by
  cases x <;> simp [Except.mapError]

/-- A check that throws when it fails, before the rest: where the whole returns, the check held
and the rest returned. -/
theorem ite_throw_bind_eq_ok {ε α : Type _} {check : Prop} [Decidable check] {failure : ε}
    {rest : Except ε α} {result : α}
    (ran : (if check then rest else throw failure >>= fun (_ : PUnit) => rest) = .ok result) :
    check ∧ rest = .ok result := by
  by_cases passed : check
  · rw [if_pos passed] at ran
    exact ⟨passed, ran⟩
  · rw [if_neg passed, throw_bind] at ran
    cases ran

/-- A check made only under a condition, that throws when it fails, before the rest: where the
whole returns, the check held under the condition and the rest returned. -/
theorem ite_check_eq_ok {ε α : Type _} {condition check : Prop} [Decidable condition]
    [Decidable check] {failure : ε} {rest : Except ε α} {result : α}
    (ran : (if condition then (if check then rest else throw failure >>= fun (_ : PUnit) => rest)
      else rest) = .ok result) :
    (condition → check) ∧ rest = .ok result := by
  by_cases holds : condition
  · rw [if_pos holds] at ran
    obtain ⟨passed, rest⟩ := ite_throw_bind_eq_ok ran
    exact ⟨fun _ => passed, rest⟩
  · rw [if_neg holds] at ran
    exact ⟨fun held => absurd held holds, ran⟩

/-- A check that throws when it fails, before the rest: where the whole throws, the check failed
and threw its own error, or the rest threw. -/
theorem ite_throw_bind_eq_error {ε α : Type _} {check : Prop} [Decidable check] {failure : ε}
    {rest : Except ε α} {error : ε}
    (ran : (if check then rest else throw failure >>= fun (_ : PUnit) => rest) = .error error) :
    (¬ check ∧ error = failure) ∨ rest = .error error := by
  by_cases passed : check
  · rw [if_pos passed] at ran
    exact Or.inr ran
  · rw [if_neg passed, throw_bind] at ran
    cases ran
    exact Or.inl ⟨passed, rfl⟩

/-- A check made only under a condition, that throws when it fails, before the rest: where the
whole throws, the condition held and the check failed with its own error, or the rest threw. -/
theorem ite_check_eq_error {ε α : Type _} {condition check : Prop} [Decidable condition]
    [Decidable check] {failure : ε} {rest : Except ε α} {error : ε}
    (ran : (if condition then (if check then rest else throw failure >>= fun (_ : PUnit) => rest)
      else rest) = .error error) :
    (condition ∧ ¬ check ∧ error = failure) ∨ rest = .error error := by
  by_cases holds : condition
  · rw [if_pos holds] at ran
    rcases ite_throw_bind_eq_error ran with ⟨failed, thrown⟩ | rest
    · exact Or.inl ⟨holds, failed, thrown⟩
    · exact Or.inr rest
  · rw [if_neg holds] at ran
    exact Or.inr ran

section Loop

variable {ε α β : Type _} {body : β → α → Except ε β}

/-- One pass of a fallible loop body, over some item. -/
def LoopStep (body : β → α → Except ε β) (state next : β) : Prop :=
  ∃ item, body state item = .ok next

/-- A loop that succeeds is a run of successful passes. -/
theorem foldlM_eq_ok_run {items : List α} {initial result : β}
    (looped : items.foldlM body initial = .ok result) :
    Relation.ReflTransGen (LoopStep body) initial result := by
  induction items generalizing initial with
  | nil =>
    rw [List.foldlM_nil] at looped
    exact Except.ok.inj looped ▸ Relation.ReflTransGen.refl
  | cons item rest inductionHypothesis =>
    rw [List.foldlM_cons] at looped
    obtain ⟨next, passed, remaining⟩ := bind_eq_ok.mp looped
    exact Relation.ReflTransGen.head ⟨item, passed⟩ (inductionHypothesis remaining)

/-- A loop that succeeds passed over each of its items, between two runs of passes. -/
theorem foldlM_eq_ok_of_mem {items : List α} {initial result : β}
    (looped : items.foldlM body initial = .ok result) {item : α} (member : item ∈ items) :
    ∃ before after, Relation.ReflTransGen (LoopStep body) initial before ∧
      body before item = .ok after ∧ Relation.ReflTransGen (LoopStep body) after result := by
  induction items generalizing initial with
  | nil => exact absurd member List.not_mem_nil
  | cons first rest inductionHypothesis =>
    rw [List.foldlM_cons] at looped
    obtain ⟨next, passed, remaining⟩ := bind_eq_ok.mp looped
    rcases List.mem_cons.mp member with rfl | later
    · exact ⟨initial, next, Relation.ReflTransGen.refl, passed, foldlM_eq_ok_run remaining⟩
    · obtain ⟨before, after, reached, step, finished⟩ := inductionHypothesis remaining later
      exact ⟨before, after, Relation.ReflTransGen.head ⟨first, passed⟩ reached, step, finished⟩

/-- A loop that throws ran the items before one of them, and threw at that one. -/
theorem foldlM_eq_error {items : List α} {initial : β} {error : ε}
    (looped : items.foldlM body initial = .error error) :
    ∃ done item rest before, items = done ++ item :: rest ∧
      done.foldlM body initial = .ok before ∧ body before item = .error error := by
  induction items generalizing initial with
  | nil => cases looped
  | cons first rest inductionHypothesis =>
    rw [List.foldlM_cons] at looped
    rcases bind_eq_error looped with thrown | ⟨next, passed, remaining⟩
    · exact ⟨[], first, rest, initial, rfl, rfl, thrown⟩
    · obtain ⟨done, item, after, before, split, ran, thrown⟩ := inductionHypothesis remaining
      refine ⟨first :: done, item, after, before, by rw [split, List.cons_append], ?_, thrown⟩
      rw [List.foldlM_cons, passed]
      exact ran

end Loop

end Transition
