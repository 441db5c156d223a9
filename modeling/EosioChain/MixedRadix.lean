/-
This file develops numbers written in mixed radix: a list of radices and a list of digits, each
below the radix at its position, both least significant first. A number below the product of the
radices has exactly one such writing, read off by dividing by each radix in turn; writings grow at
the most significant end by adding the digit times the product of the radices below it; and
numbers compare as their writings do, read from the most significant digit.
-/

import Mathlib
import EosioChain.ListLex

namespace MixedRadix

/-- The value of `digits` in `radices`, least significant first. -/
def value : List Nat → List Nat → Nat
  | radix :: radices, digit :: digits => digit + radix * value radices digits
  | _, _ => 0

/-- The digits of `n` in `radices`, least significant first: the remainder by each radix, then the
digits of the quotient in the radices above it. -/
def digits : List Nat → Nat → List Nat
  | [], _ => []
  | radix :: radices, n => n % radix :: digits radices (n / radix)

/-- One digit per radix, each below its radix. -/
def Fits (radices digits : List Nat) : Prop :=
  List.Forall₂ (fun radix digit => digit < radix) radices digits

@[simp] theorem value_cons (radix digit : Nat) (radices digits : List Nat) :
    value (radix :: radices) (digit :: digits) = digit + radix * value radices digits :=
  rfl

@[simp] theorem digits_cons (radix : Nat) (radices : List Nat) (n : Nat) :
    digits (radix :: radices) n = n % radix :: digits radices (n / radix) :=
  rfl

theorem length_digits (radices : List Nat) (n : Nat) : (digits radices n).length = radices.length := by
  induction radices generalizing n with
  | nil => rfl
  | cons radix radices inductionHypothesis => simp [inductionHypothesis]

/-- **Reading the digits back gives the number, below the product of the radices.** -/
theorem value_digits (radices : List Nat) (n : Nat) :
    value radices (digits radices n) = n % radices.prod := by
  induction radices generalizing n with
  | nil => simp [value, Nat.mod_one]
  | cons radix radices inductionHypothesis =>
    rw [digits_cons, value_cons, inductionHypothesis, List.prod_cons, Nat.mod_mul]

theorem fits_digits {radices : List Nat} (positive : ∀ radix ∈ radices, 0 < radix) (n : Nat) :
    Fits radices (digits radices n) := by
  induction radices generalizing n with
  | nil => exact List.Forall₂.nil
  | cons radix radices inductionHypothesis =>
    exact List.Forall₂.cons (Nat.mod_lt n (positive radix List.mem_cons_self))
      (inductionHypothesis (fun other member => positive other (List.mem_cons_of_mem radix member)) _)

/-- Every digit lies below the largest radix. -/
theorem lt_of_mem_digits {radices : List Nat} {bound : Nat}
    (positive : ∀ radix ∈ radices, 0 < radix ∧ radix ≤ bound) (n : Nat) :
    ∀ digit ∈ digits radices n, digit < bound := by
  induction radices generalizing n with
  | nil => simp [digits]
  | cons radix radices inductionHypothesis =>
    intro digit member
    rw [digits_cons, List.mem_cons] at member
    have ⟨radixPositive, radixAtMost⟩ := positive radix List.mem_cons_self
    rcases member with low | high
    · rw [low]
      exact Nat.lt_of_lt_of_le (Nat.mod_lt n radixPositive) radixAtMost
    · exact inductionHypothesis (fun other member => positive other (List.mem_cons_of_mem radix member))
        (n / radix) digit high

theorem fits_replicate {count radix : Nat} {ds : List Nat} (length : ds.length = count)
    (below : ∀ digit ∈ ds, digit < radix) : Fits (List.replicate count radix) ds := by
  induction ds generalizing count with
  | nil =>
    rw [List.length_nil] at length
    subst length
    exact List.Forall₂.nil
  | cons digit ds inductionHypothesis =>
    cases count with
    | zero => cases length
    | succ count =>
      exact List.Forall₂.cons (below digit List.mem_cons_self)
        (inductionHypothesis (Nat.succ.inj length)
          fun other member => below other (List.mem_cons_of_mem digit member))

theorem value_lt {radices ds : List Nat} (fits : Fits radices ds) : value radices ds < radices.prod := by
  induction fits with
  | nil => simp [value]
  | @cons radix digit radices ds digitBelow _ inductionHypothesis =>
    rw [value_cons, List.prod_cons]
    calc digit + radix * value radices ds
        < radix + radix * value radices ds := by omega
      _ = radix * (value radices ds + 1) := by ring
      _ ≤ radix * radices.prod := Nat.mul_le_mul_left radix inductionHypothesis

/-- **Digits that fit are the digits of their value.** -/
theorem digits_value {radices ds : List Nat} (fits : Fits radices ds) :
    digits radices (value radices ds) = ds := by
  induction fits with
  | nil => rfl
  | @cons radix digit radices ds digitBelow _ inductionHypothesis =>
    have positive : 0 < radix := Nat.lt_of_le_of_lt (Nat.zero_le digit) digitBelow
    rw [value_cons, digits_cons, Nat.add_mul_mod_self_left, Nat.mod_eq_of_lt digitBelow,
      Nat.add_mul_div_left _ _ positive, Nat.div_eq_of_lt digitBelow, Nat.zero_add,
      inductionHypothesis]

theorem value_injective {radices ds es : List Nat} (fitsLeft : Fits radices ds)
    (fitsRight : Fits radices es) (same : value radices ds = value radices es) : ds = es := by
  rw [← digits_value fitsLeft, ← digits_value fitsRight, same]

/-! ### Splitting at a digit -/

/-- Digits above others count the product of the radices below them. -/
theorem value_append {lowRadices lowDigits : List Nat}
    (lengths : lowRadices.length = lowDigits.length) (highRadices highDigits : List Nat) :
    value (lowRadices ++ highRadices) (lowDigits ++ highDigits) =
      value lowRadices lowDigits + lowRadices.prod * value highRadices highDigits := by
  induction lowRadices generalizing lowDigits with
  | nil =>
    rw [List.length_nil, eq_comm, List.length_eq_zero_iff] at lengths
    subst lengths
    simp [value]
  | cons radix lowRadices inductionHypothesis =>
    cases lowDigits with
    | nil => cases lengths
    | cons digit lowDigits =>
      rw [List.cons_append, List.cons_append, value_cons,
        inductionHypothesis (Nat.succ.inj lengths), value_cons, List.prod_cons]
      ring

/-- Zero digits have value zero. -/
theorem value_replicate_zero (radices : List Nat) (count : Nat) :
    value radices (List.replicate count 0) = 0 := by
  induction radices generalizing count with
  | nil => rfl
  | cons radix radices inductionHypothesis =>
    cases count with
    | zero => rfl
    | succ count => rw [List.replicate_succ, value_cons, inductionHypothesis, Nat.mul_zero]

theorem digits_append_singleton (radices : List Nat) (radix n : Nat) :
    digits (radices ++ [radix]) n = digits radices n ++ [n / radices.prod % radix] := by
  induction radices generalizing n with
  | nil => simp [digits]
  | cons low radices inductionHypothesis =>
    rw [List.cons_append, digits_cons, inductionHypothesis, digits_cons, List.prod_cons,
      Nat.div_div_eq_div_mul, List.cons_append]

/-- Digits see a number only below the product of the radices. -/
theorem digits_add_prod_mul (radices : List Nat) (n k : Nat) :
    digits radices (n + radices.prod * k) = digits radices n := by
  induction radices generalizing n k with
  | nil => rfl
  | cons radix radices inductionHypothesis =>
    rcases Nat.eq_zero_or_pos radix with zero | positive
    · subst zero
      simp
    · have regroup : n + (radix :: radices).prod * k = n + radix * (radices.prod * k) := by
        rw [List.prod_cons, Nat.mul_assoc]
      rw [regroup, digits_cons, digits_cons, Nat.add_mul_mod_self_left,
        Nat.add_mul_div_left _ _ positive, inductionHypothesis]

/-! ### Order -/

/-- Two numbers written with one digit below the rest compare on the rest first. -/
theorem add_mul_lt_add_mul_iff {radix low₁ low₂ high₁ high₂ : Nat} (below₁ : low₁ < radix)
    (below₂ : low₂ < radix) :
    low₁ + radix * high₁ < low₂ + radix * high₂ ↔ high₁ < high₂ ∨ high₁ = high₂ ∧ low₁ < low₂ := by
  constructor
  · intro lower
    rcases lt_trichotomy high₁ high₂ with less | same | greater
    · exact Or.inl less
    · subst same
      exact Or.inr ⟨rfl, by omega⟩
    · -- a higher top part outweighs any low digit
      have outweighs : radix * (high₂ + 1) ≤ radix * high₁ := Nat.mul_le_mul_left radix greater
      rw [Nat.mul_succ] at outweighs
      omega
  · rintro (less | ⟨rfl, lower⟩)
    · have outweighs : radix * (high₁ + 1) ≤ radix * high₂ := Nat.mul_le_mul_left radix less
      rw [Nat.mul_succ] at outweighs
      omega
    · omega

/-- **Numbers compare as their digits do, read from the most significant one.** -/
theorem value_lt_value_iff {radices ds es : List Nat} (fitsLeft : Fits radices ds)
    (fitsRight : Fits radices es) :
    value radices ds < value radices es ↔ ds.reverse < es.reverse := by
  induction fitsLeft generalizing es with
  | nil =>
    cases fitsRight
    simp [value]
  | @cons radix digit radices ds digitBelow restFits inductionHypothesis =>
    cases fitsRight with
    | @cons _ other _ es otherBelow otherFits =>
      have sameLength : ds.reverse.length = es.reverse.length := by
        rw [List.length_reverse, List.length_reverse, restFits.length_eq.symm, otherFits.length_eq]
      have sameValue : value radices ds = value radices es ↔ ds.reverse = es.reverse :=
        ⟨fun same => by rw [value_injective restFits otherFits same],
          fun same => by rw [List.reverse_inj.mp same]⟩
      have singleton : [digit] < [other] ↔ digit < other := by
        simp [List.cons_lt_cons_iff]
      rw [value_cons, value_cons, add_mul_lt_add_mul_iff digitBelow otherBelow,
        inductionHypothesis otherFits, List.reverse_cons, List.reverse_cons,
        ListLex.append_lt_append_iff sameLength, sameValue, singleton]

end MixedRadix
