/-
This file is about a stack kept as a chain of back links, the way an intrusive list is threaded
through a table: each element on the stack stores the element below it, the bottom one stores a
sentinel, and a head names the top. `Linked next stop top stack` says that following `next` from
`top` meets the elements of `stack` in turn, top first, and then a sentinel, at which `stop`
holds. Pushing an element links it to the old top, and links rewritten off the chain leave the
chain as it was; a slot reset to the blank it already holds leaves the table as it was.

The second part is about stacks in which every element above a late one is late, as when each
element is stamped with the time it was pushed and the late ones are those stamped after some
bound. The early elements are then a bottom part of the stack, and popping from the top while the
top is late leaves exactly them.
-/

import Mathlib

namespace ThreadedStack

/-! ### Chains of back links -/

section Links

variable {α : Type*} {next next' : α → α} {stop : α → Prop}

/-- Following `next` from `top` meets the elements of `stack`, top first, and then a sentinel. -/
inductive Linked (next : α → α) (stop : α → Prop) : α → List α → Prop
  | sentinel {top : α} : stop top → Linked next stop top []
  | link {top : α} {rest : List α} : ¬ stop top → Linked next stop (next top) rest →
      Linked next stop top (top :: rest)

/-- A chain reads the links of its own elements only. -/
theorem Linked.congr {top : α} {stack : List α} (linked : Linked next stop top stack)
    (agree : ∀ element ∈ stack, next' element = next element) : Linked next' stop top stack := by
  induction linked with
  | sentinel atEnd => exact .sentinel atEnd
  | @link top rest notEnd _ inductionHypothesis =>
    have sameLink : next' top = next top := agree top List.mem_cons_self
    refine .link notEnd ?_
    rw [sameLink]
    exact inductionHypothesis fun element member => agree element (List.mem_cons_of_mem top member)

/-- **Pushing.** An element off the chain that links to its top heads the chain one longer, when
the links of the old elements are kept. -/
theorem Linked.push {top pushed : α} {stack : List α} (linked : Linked next stop top stack)
    (notSentinel : ¬ stop pushed) (linksTop : next' pushed = top)
    (kept : ∀ element ∈ stack, next' element = next element) :
    Linked next' stop pushed (pushed :: stack) :=
  .link notSentinel (linksTop ▸ linked.congr kept)

/-- Resetting a slot of a table to the blank it holds changes nothing. -/
theorem modify_const_eq_self {table : List α} {slot : Nat} {blank : α}
    (holds : table.getD slot blank = blank) : table.modify slot (fun _ => blank) = table := by
  apply List.ext_getElem?
  intro index
  rw [List.getElem?_modify]
  by_cases same : slot = index
  · subst same
    cases found : table[slot]? with
    | none => rfl
    | some value =>
      rw [List.getD_eq_getElem?_getD, found, Option.getD_some] at holds
      subst holds
      simp
  · simp only [if_neg same, id_map']

end Links

/-! ### Popping late elements -/

section Late

variable {α : Type*} (late : α → Bool)

/-- **The early elements are a bottom part of the stack**, when every element above a late one is
late. -/
theorem filter_append_filter_of_closed :
    ∀ {stack : List α}, stack.Pairwise (fun a b => late a → late b) →
      stack.filter (fun a => !late a) ++ stack.filter late = stack
  | [], _ => rfl
  | bottom :: rest, closed => by
    rw [List.pairwise_cons] at closed
    have restSplit := filter_append_filter_of_closed closed.2
    cases lateBottom : late bottom with
    | false =>
      simp only [List.filter_cons, lateBottom, Bool.not_false, if_true, Bool.false_eq_true,
        if_false, List.cons_append, restSplit]
    | true =>
      -- everything above a late element is late
      have allLate : ∀ a ∈ rest, late a = true := fun a member => closed.1 a member lateBottom
      have noneEarly : rest.filter (fun a => !late a) = [] :=
        List.filter_eq_nil_iff.mpr fun a member => by simp [allLate a member]
      have restLate : rest.filter late = rest := List.filter_eq_self.mpr allLate
      simp only [List.filter_cons, lateBottom, Bool.not_true, Bool.false_eq_true, if_false,
        if_true, noneEarly, restLate, List.nil_append]

/-- **Popping the late elements.** Popping from the top while the top is late leaves the early
elements. -/
theorem reverse_dropWhile_reverse_of_closed {stack : List α}
    (closed : stack.Pairwise fun a b => late a → late b) :
    (stack.reverse.dropWhile late).reverse = stack.filter fun a => !late a := by
  have split := filter_append_filter_of_closed late closed
  set early := stack.filter fun a => !late a
  have allLate : ∀ a ∈ (stack.filter late).reverse, late a = true := fun a member =>
    (List.mem_filter.mp (List.mem_reverse.mp member)).2
  rw [← split, List.reverse_append, List.dropWhile_append_of_pos allLate]
  -- the top of the early part stops the popping
  cases lastEarly : early.reverse with
  | nil => rw [List.reverse_eq_nil_iff.mp lastEarly, List.dropWhile_nil, List.reverse_nil]
  | cons top below =>
    have topEarly : late top = false := by
      have member : top ∈ early := List.mem_reverse.mp (lastEarly ▸ List.mem_cons_self)
      simpa using (List.mem_filter.mp member).2
    rw [List.dropWhile_cons_of_neg (by simp [topEarly]), ← lastEarly, List.reverse_reverse]

end Late

end ThreadedStack
