/-
This file collects the arithmetic of counting in binary that incremental structures rest on:
what adding one does to bit `j` of a counter and to the counter divided by `2 ^ j`, depending on
whether the carry reaches bit `j`; how far a 64-bit word can be read as a natural number through
its bitwise operations; and the classic smearing of the bits of a word downwards, which turns
`x` into `2 ^ size x - 1`.

The carry reaches bit `j` of `m + 1` exactly when the `j` low bits of `m` are all set, that is
when `m % 2 ^ j + 1 = 2 ^ j`.
-/

import Mathlib

namespace BinaryCarry

/-! ### Adding one -/

/-- With the carry stopping below bit `j`, the high part of the counter is unchanged. -/
theorem succ_div_two_pow_of_not_carry {m j : Nat} (noCarry : m % 2 ^ j + 1 ≠ 2 ^ j) :
    (m + 1) / 2 ^ j = m / 2 ^ j := by
  have below : m % 2 ^ j + 1 < 2 ^ j := by
    have := Nat.mod_lt m (Nat.two_pow_pos j)
    omega
  have split := Nat.div_add_mod m (2 ^ j)
  rw [show m + 1 = m % 2 ^ j + 1 + 2 ^ j * (m / 2 ^ j) by omega,
    Nat.add_mul_div_left _ _ (Nat.two_pow_pos j), Nat.div_eq_of_lt below, Nat.zero_add]

/-- With the carry reaching bit `j`, the high part of the counter goes up by one. -/
theorem succ_div_two_pow_of_carry {m j : Nat} (carry : m % 2 ^ j + 1 = 2 ^ j) :
    (m + 1) / 2 ^ j = m / 2 ^ j + 1 := by
  have split := Nat.div_add_mod m (2 ^ j)
  rw [show m + 1 = 2 ^ j * (m / 2 ^ j + 1) by rw [Nat.mul_add]; omega,
    Nat.mul_div_cancel_left _ (Nat.two_pow_pos j)]

theorem testBit_succ_of_not_carry {m j : Nat} (noCarry : m % 2 ^ j + 1 ≠ 2 ^ j) :
    (m + 1).testBit j = m.testBit j := by
  rw [Nat.testBit_eq_decide_div_mod_eq, Nat.testBit_eq_decide_div_mod_eq,
    succ_div_two_pow_of_not_carry noCarry]

theorem testBit_succ_of_carry {m j : Nat} (carry : m % 2 ^ j + 1 = 2 ^ j) :
    (m + 1).testBit j = !m.testBit j := by
  rw [Nat.testBit_eq_decide_div_mod_eq, Nat.testBit_eq_decide_div_mod_eq,
    succ_div_two_pow_of_carry carry]
  by_cases odd : m / 2 ^ j % 2 = 1
  · simp only [odd, decide_true, Bool.not_true, decide_eq_false_iff_not]
    omega
  · simp only [odd, decide_false, Bool.not_false, decide_eq_true_eq]
    omega

/-- The carry reaches bit `j + 1` when it reaches bit `j` and bit `j` is set. -/
theorem carry_succ_iff {m j : Nat} :
    m % 2 ^ (j + 1) + 1 = 2 ^ (j + 1) ↔ m % 2 ^ j + 1 = 2 ^ j ∧ m.testBit j = true := by
  have low := Nat.mod_lt m (Nat.two_pow_pos j)
  rw [Nat.mod_pow_succ, Nat.testBit_eq_decide_div_mod_eq, decide_eq_true_iff, Nat.pow_succ]
  by_cases odd : m / 2 ^ j % 2 = 1
  · rw [odd]
    omega
  · have even : m / 2 ^ j % 2 = 0 := by omega
    rw [even]
    omega

/-! ### Words as numbers -/

theorem toNat_and_one_eq_zero_iff {word : UInt64} : word &&& 1 = 0 ↔ word.toNat % 2 = 0 := by
  rw [← UInt64.toNat_inj, UInt64.toNat_and, show (1 : UInt64).toNat = 1 from rfl,
    show (0 : UInt64).toNat = 0 from rfl, Nat.and_one_is_mod]

theorem toNat_shiftRight_one (word : UInt64) : (word >>> 1).toNat = word.toNat / 2 := by
  rw [UInt64.toNat_shiftRight, Nat.shiftRight_eq_div_pow]
  rfl

/-! ### Smearing bits downwards -/

/-- `word` has bit `i` set when `x` has one of the bits `i, ..., i + width - 1` set. -/
def Smeared (x word width : Nat) : Prop :=
  ∀ i, word.testBit i = decide (∃ d < width, x.testBit (i + d))

theorem smeared_self (x : Nat) : Smeared x x 1 := by
  intro i
  rw [Bool.eq_iff_iff, decide_eq_true_iff]
  exact ⟨fun set => ⟨0, Nat.one_pos, set⟩, fun ⟨d, below, set⟩ => by rwa [Nat.lt_one_iff.mp below] at set⟩

/-- Or-ing a smeared word with itself shifted by its width doubles the width. -/
theorem Smeared.or_shiftRight {x word width : Nat} (smeared : Smeared x word width) :
    Smeared x (word ||| word >>> width) (2 * width) := by
  intro i
  rw [Nat.testBit_or, Nat.testBit_shiftRight, smeared, smeared, ← Bool.decide_or,
    decide_eq_decide]
  constructor
  · rintro (⟨d, below, set⟩ | ⟨d, below, set⟩)
    · exact ⟨d, by omega, set⟩
    · exact ⟨width + d, by omega, by rwa [← Nat.add_assoc, Nat.add_comm i width]⟩
  · rintro ⟨d, below, set⟩
    by_cases low : d < width
    · exact Or.inl ⟨d, low, set⟩
    · refine Or.inr ⟨d - width, by omega, ?_⟩
      rwa [show width + i + (d - width) = i + d by omega]

/-- The same step on a 64-bit word, for a width below 64. -/
theorem Smeared.toNat_or_shiftRight {x width : Nat} {word shift : UInt64}
    (smeared : Smeared x word.toNat width) (shiftIs : shift.toNat = width) (below : width < 64) :
    Smeared x (word ||| word >>> shift).toNat (2 * width) := by
  rw [UInt64.toNat_or, UInt64.toNat_shiftRight, shiftIs, Nat.mod_eq_of_lt below]
  exact smeared.or_shiftRight

/-- The top bit of a positive number is set. -/
theorem testBit_size_sub_one {x : Nat} (positive : 0 < x) : x.testBit (x.size - 1) = true := by
  have sizePositive : 0 < x.size := Nat.size_pos.mpr positive
  have atLeast : 1 * 2 ^ (x.size - 1) ≤ x := by
    rw [Nat.one_mul]
    exact Nat.lt_size.mp (by omega)
  have below : x < (1 + 1) * 2 ^ (x.size - 1) := by
    rw [Nat.mul_comm, Nat.two_pow_pred_mul_two sizePositive]
    exact Nat.lt_size_self x
  rw [Nat.testBit_eq_decide_div_mod_eq, decide_eq_true_iff, Nat.div_eq_of_lt_le atLeast below]

/-- Once the width covers every bit of `x`, the smeared word is the mask of the size of `x`. -/
theorem Smeared.eq_two_pow_size_sub_one {x word width : Nat} (smeared : Smeared x word width)
    (fits : x < 2 ^ width) : word = 2 ^ x.size - 1 := by
  have sizeFits : x.size ≤ width := Nat.size_le.mpr fits
  apply Nat.eq_of_testBit_eq
  intro i
  rw [smeared, Nat.testBit_two_pow_sub_one, decide_eq_decide]
  constructor
  · rintro ⟨d, _, set⟩
    have := Nat.lt_size.mpr (Nat.ge_two_pow_of_testBit set)
    omega
  · intro inside
    refine ⟨x.size - 1 - i, by omega, ?_⟩
    rw [show i + (x.size - 1 - i) = x.size - 1 by omega]
    exact testBit_size_sub_one (Nat.size_pos.mp (by omega))

end BinaryCarry
