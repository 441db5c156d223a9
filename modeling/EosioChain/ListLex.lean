/-
This file gives what comparing lists lexicographically needs beyond its definition: lists whose
first parts have one length compare on those parts first, a map strictly monotone on the elements
keeps the order, and lists that do not end in the least element keep their order when each is
padded with it to a common length, which is how text padded with its least character compares.
It ends with the three-way comparison that comparison functions report, `-1`, `0` or `1`, and how
it behaves on lists that share or differ in a first part.
-/

import Mathlib

namespace ListLex

variable {α β : Type*}

/-- Lists whose first parts have one length compare on the first parts, then on the rest. -/
theorem append_lt_append_iff [LT α] {first₁ first₂ rest₁ rest₂ : List α}
    (sameLength : first₁.length = first₂.length) :
    first₁ ++ rest₁ < first₂ ++ rest₂ ↔ first₁ < first₂ ∨ first₁ = first₂ ∧ rest₁ < rest₂ := by
  induction first₁ generalizing first₂ with
  | nil =>
    rw [List.length_nil, eq_comm, List.length_eq_zero_iff] at sameLength
    subst sameLength
    simp [List.not_lt_nil]
  | cons a first₁ inductionHypothesis =>
    cases first₂ with
    | nil => cases sameLength
    | cons b first₂ =>
      rw [List.cons_append, List.cons_append, List.cons_lt_cons_iff, List.cons_lt_cons_iff,
        inductionHypothesis (Nat.succ.inj sameLength), List.cons.injEq]
      tauto

/-- A map that is injective and preserves and reflects the order keeps the order of lists. -/
theorem map_lt_map_iff_of_lt_iff [LT α] [LT β] {f : α → β} (injective : Function.Injective f)
    (ltIff : ∀ x y, f x < f y ↔ x < y) : ∀ {l₁ l₂ : List α}, l₁.map f < l₂.map f ↔ l₁ < l₂
  | [], [] => by simp [List.not_lt_nil]
  | [], _ :: _ => by simp [List.nil_lt_cons]
  | _ :: _, [] => by simp [List.not_lt_nil]
  | a :: l₁, b :: l₂ => by
    rw [List.map_cons, List.map_cons, List.cons_lt_cons_iff, List.cons_lt_cons_iff, ltIff,
      injective.eq_iff, map_lt_map_iff_of_lt_iff injective ltIff]

section Ordered

variable [LinearOrder α]

/-- **A map strictly monotone on the elements keeps the order of lists.** -/
theorem map_lt_map_iff [LinearOrder β] {f : α → β} {s : Set α} (mono : StrictMonoOn f s) :
    ∀ {l₁ l₂ : List α}, (∀ x ∈ l₁, x ∈ s) → (∀ x ∈ l₂, x ∈ s) → (l₁.map f < l₂.map f ↔ l₁ < l₂)
  | [], [], _, _ => by simp
  | [], _ :: _, _, _ => by simp [List.nil_lt_cons]
  | _ :: _, [], _, _ => by simp [List.not_lt_nil]
  | a :: l₁, b :: l₂, inLeft, inRight => by
    have aIn := inLeft a List.mem_cons_self
    have bIn := inRight b List.mem_cons_self
    rw [List.map_cons, List.map_cons, List.cons_lt_cons_iff, List.cons_lt_cons_iff,
      mono.lt_iff_lt aIn bIn, Set.InjOn.eq_iff mono.injOn aIn bIn,
      map_lt_map_iff mono (fun x member => inLeft x (List.mem_cons_of_mem a member))
        (fun x member => inRight x (List.mem_cons_of_mem b member))]

/-! ### Padding with the least element -/

section Padding

variable {bottom : α} (least : ∀ x, bottom ≤ x)

include least

/-- Padding alone is below a list that does not end in the least element, padded to the same
length. -/
theorem replicate_lt_append_replicate :
    ∀ {t : List α}, t ≠ [] → t.getLast? ≠ some bottom → ∀ {a b : ℕ}, a = t.length + b →
      List.replicate a bottom < t ++ List.replicate b bottom
  | [], nonempty, _, _, _, _ => absurd rfl nonempty
  | x :: t, _, noTrail, a, b, lengths => by
    obtain ⟨a, rfl⟩ : ∃ a', a = a' + 1 := ⟨a - 1, by simp at lengths; omega⟩
    rw [List.replicate_succ, List.cons_append, List.cons_lt_cons_iff]
    rcases (least x).lt_or_eq with below | same
    · exact Or.inl below
    · -- the first element is the least one, so the rest decides
      subst same
      right
      refine ⟨rfl, ?_⟩
      cases t with
      | nil => exact absurd rfl noTrail
      | cons y t =>
        rw [List.getLast?_cons_cons] at noTrail
        exact replicate_lt_append_replicate (List.cons_ne_nil y t) noTrail
          (by simp at lengths ⊢; omega)

/-- **Lists that do not end in the least element compare as they do padded with it to a common
length.** -/
theorem append_replicate_lt_iff :
    ∀ {s t : List α}, s.getLast? ≠ some bottom → t.getLast? ≠ some bottom →
      ∀ {a b : ℕ}, s.length + a = t.length + b →
        (s ++ List.replicate a bottom < t ++ List.replicate b bottom ↔ s < t)
  | [], [], _, _, a, b, lengths => by
    simp only [List.length_nil, Nat.zero_add] at lengths
    subst lengths
    simp only [List.nil_append, List.lt_irrefl]
  | [], y :: t, _, noTrail, a, b, lengths => by
    simp only [List.nil_append, List.nil_lt_cons, iff_true]
    exact replicate_lt_append_replicate least (List.cons_ne_nil y t) noTrail
      (by simp at lengths; omega)
  | x :: s, [], noTrail, _, a, b, lengths => by
    simp only [List.nil_append, List.not_lt_nil, iff_false]
    have lengths : b = (x :: s).length + a := by
      rw [List.length_nil, Nat.zero_add] at lengths
      exact lengths.symm
    exact List.lt_asymm
      (replicate_lt_append_replicate least (List.cons_ne_nil x s) noTrail lengths)
  | x :: s, y :: t, noTrailLeft, noTrailRight, a, b, lengths => by
    -- the tails do not end in the least element either
    have tailLeft : s.getLast? ≠ some bottom := by
      cases s with
      | nil => simp
      | cons _ _ => rwa [List.getLast?_cons_cons] at noTrailLeft
    have tailRight : t.getLast? ≠ some bottom := by
      cases t with
      | nil => simp
      | cons _ _ => rwa [List.getLast?_cons_cons] at noTrailRight
    rw [List.cons_append, List.cons_append, List.cons_lt_cons_iff, List.cons_lt_cons_iff,
      append_replicate_lt_iff tailLeft tailRight (by simp at lengths; omega)]

end Padding

end Ordered

/-! ### Three-way comparison -/

section ThreeWay

variable [LT α] [DecidableEq α] [DecidableRel (α := List α) (· < ·)]

/-- A three-way comparison of lists, `-1`, `0` or `1` as a comparison function reports it, that
leaves equal lists to `tie`. -/
def compareThen (l₁ l₂ : List α) (tie : Int) : Int :=
  if l₁ = l₂ then tie else if l₁ < l₂ then -1 else 1

/-- The sign of the lexicographic comparison of two lists. -/
def lexSign (l₁ l₂ : List α) : Int :=
  compareThen l₁ l₂ 0

theorem sign_lexSign (l₁ l₂ : List α) : (lexSign l₁ l₂).sign = lexSign l₁ l₂ := by
  unfold lexSign compareThen
  split_ifs <;> rfl

theorem lexSign_eq_zero_iff {l₁ l₂ : List α} : lexSign l₁ l₂ = 0 ↔ l₁ = l₂ := by
  unfold lexSign compareThen
  split_ifs with same <;> simp [same]

/-- First parts of one length that differ decide the comparison, whatever follows them. -/
theorem compareThen_append_of_ne {first₁ first₂ : List α} (sameLength : first₁.length = first₂.length)
    (differ : first₁ ≠ first₂) (rest₁ rest₂ : List α) (tie tie' : Int) :
    compareThen (first₁ ++ rest₁) (first₂ ++ rest₂) tie = compareThen first₁ first₂ tie' := by
  have differAll : first₁ ++ rest₁ ≠ first₂ ++ rest₂ := fun same =>
    differ (List.append_inj same sameLength).1
  simp [compareThen, differ, differAll, append_lt_append_iff sameLength]

variable [Std.Irrefl (α := α) (· < ·)]

theorem lexSign_eq_neg_one_iff {l₁ l₂ : List α} : lexSign l₁ l₂ = -1 ↔ l₁ < l₂ := by
  unfold lexSign compareThen
  split_ifs with same less
  · subst same
    simp [List.lt_irrefl]
  · simp [less]
  · simp [less]

/-- A common first part leaves the comparison to the rest. -/
theorem compareThen_append_left (pre : List α) {l₁ l₂ : List α} (tie : Int) :
    compareThen (pre ++ l₁) (pre ++ l₂) tie = compareThen l₁ l₂ tie := by
  have lessIff : pre ++ l₁ < pre ++ l₂ ↔ l₁ < l₂ := by
    simp [append_lt_append_iff (rfl : pre.length = pre.length), List.lt_irrefl]
  simp only [compareThen, List.append_cancel_left_eq, lessIff]

variable [Std.Asymm (α := α) (· < ·)] [Std.Trichotomous (α := α) (· < ·)]

/-- Swapping the lists negates the comparison, the tie included. -/
theorem compareThen_swap (l₁ l₂ : List α) (tie : Int) :
    compareThen l₂ l₁ (-tie) = -compareThen l₁ l₂ tie := by
  have split : l₁ < l₂ ∨ l₁ = l₂ ∨ l₂ < l₁ := trichotomous_of (· < ·) l₁ l₂
  unfold compareThen
  rcases split with less | same | greater
  · have differ : l₁ ≠ l₂ := by
      rintro rfl
      exact List.lt_irrefl l₁ less
    simp [differ, Ne.symm differ, less, List.lt_asymm less]
  · simp [same]
  · have differ : l₂ ≠ l₁ := by
      rintro rfl
      exact List.lt_irrefl l₂ greater
    simp [differ, Ne.symm differ, greater, List.lt_asymm greater]

theorem lexSign_swap (l₁ l₂ : List α) : lexSign l₂ l₁ = -lexSign l₁ l₂ := by
  have swapped := compareThen_swap l₁ l₂ 0
  rw [Int.neg_zero] at swapped
  exact swapped

/-- A comparison has the sign of an order when the swapped comparison has the swapped sign. -/
theorem sign_compareThen_of_swap {l₁ l₂ s₁ s₂ : List α} {tie : Int}
    (mirrored : (compareThen l₂ l₁ (-tie)).sign = lexSign s₂ s₁) :
    (compareThen l₁ l₂ tie).sign = lexSign s₁ s₂ := by
  rw [compareThen_swap, Int.sign_neg, lexSign_swap] at mirrored
  exact Int.neg_inj.mp mirrored

end ThreeWay

end ListLex
