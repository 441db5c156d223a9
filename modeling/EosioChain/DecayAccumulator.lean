/-
This file models `exponential_decay_accumulator` of `resource_limits_private.hpp`, the accumulator
that subjective billing keeps for every account, of the CPU its failed and expired transactions
took. `value_ex` is the accumulated value premultiplied by the precision. Read at a later ordinal
it has decayed linearly, by `(window_size - delta) / window_size`, and to zero past the window;
`add` first brings it to the ordinal of the call and then adds `units * Precision`, saturating at
`UINT64_MAX`.

The reads never throw: the decayed value is at most `value_ex`, so the 128-bit product of the
ratio never overflows and the cast back to 64 bits always fits. `add` with at most
`max_raw_value` units returns, leaving the later of the two ordinals and the value read at the
call's ordinal with the units added, saturating.

The `uint128_t` arithmetic is on natural numbers: a product of a 64-bit and a 32-bit number never
wraps 128 bits.
-/

import EosioChain.UsageAccumulator

namespace Eosio.Chain.ResourceLimits.Impl

/-! ### The model -/

/-- `std::numeric_limits<uint128_t>::max()`. -/
def uint128Max : Nat := 2 ^ 128 - 1

/-- `ratio<uint128_t>`. -/
structure Ratio128 where
  numerator : Nat
  denominator : Nat

/-- `operator*(uint128_t value, const ratio<uint128_t>& r)`. -/
def mulRatio128 (value : Nat) (r : Ratio128) : Except String Nat :=
  if r.numerator = 0 ∨ uint128Max / r.numerator ≥ value then
    pure (value * r.numerator / r.denominator)
  else throw "Usage exceeds maximum value representable after extending for precision"

/-- `exponential_decay_accumulator`. -/
structure ExponentialDecayAccumulator where
  lastOrdinal : UInt32
  valueEx : UInt64
deriving DecidableEq, Repr

/-- The accumulator as its constructor leaves it. -/
def ExponentialDecayAccumulator.initial : ExponentialDecayAccumulator :=
  ⟨0, 0⟩

namespace ExponentialDecayAccumulator

variable (precision : UInt64)

/-- `max_raw_value`. -/
def maxRawValue : UInt64 :=
  uint64Max / precision

/-- `value_ex_at(ordinal, window_size)`: the extended value at a current or future ordinal. -/
def valueExAt (self : ExponentialDecayAccumulator) (ordinal windowSize : UInt32) :
    Except String UInt64 :=
  if self.lastOrdinal < ordinal then
    if self.lastOrdinal.toUInt64 + windowSize.toUInt64 > ordinal.toUInt64 then
      -- `0 < delta < window_size`, so the 128-bit difference does not wrap
      let delta := ordinal - self.lastOrdinal
      let decay : Ratio128 := ⟨windowSize.toNat - delta.toNat, windowSize.toNat⟩
      do downgradeCast (← mulRatio128 self.valueEx.toNat decay)
    else pure 0
  else pure self.valueEx

/-- `value_at(ordinal, window_size)`: the value at a current or future ordinal, rounded up. -/
def valueAt (self : ExponentialDecayAccumulator) (ordinal windowSize : UInt32) :
    Except String UInt64 :=
  (fun valueEx => integerDivideCeil valueEx precision) <$> self.valueExAt ordinal windowSize

/-- `add(units, ordinal, window_size)`. -/
def add (units : UInt64) (ordinal windowSize : UInt32) :
    EStateM String ExponentialDecayAccumulator Unit := do
  -- check for some numerical limits before doing any state mutations
  unless units ≤ maxRawValue precision do
    throw "Usage exceeds maximum value representable after extending for precision"
  let unitsEx : Nat := units.toNat * precision.toNat
  let self ← get
  if self.lastOrdinal < ordinal then
    let valueEx ← MonadExcept.ofExcept (self.valueExAt ordinal windowSize)
    modify fun self => { self with valueEx }
    modify fun self => { self with lastOrdinal := ordinal }
  let self ← get
  -- saturate the value
  let newValueEx := min (unitsEx + self.valueEx.toNat) uint64Max.toNat
  let valueEx ← MonadExcept.ofExcept (downgradeCast newValueEx)
  modify fun self => { self with valueEx }

/-! ### What a read gives -/

/-- The extended value at an ordinal, as a number: `value_ex`, decayed by the part of the window
that has passed since the last ordinal. -/
def decayed (self : ExponentialDecayAccumulator) (ordinal windowSize : UInt32) : Nat :=
  if self.lastOrdinal < ordinal then
    if ordinal.toNat < self.lastOrdinal.toNat + windowSize.toNat then
      self.valueEx.toNat * (windowSize.toNat - (ordinal.toNat - self.lastOrdinal.toNat)) /
        windowSize.toNat
    else 0
  else self.valueEx.toNat

theorem decayed_le_valueEx (self : ExponentialDecayAccumulator) (ordinal windowSize : UInt32) :
    self.decayed ordinal windowSize ≤ self.valueEx.toNat := by
  unfold decayed
  split
  · split
    · calc self.valueEx.toNat * (windowSize.toNat - (ordinal.toNat - self.lastOrdinal.toNat)) /
            windowSize.toNat
          ≤ self.valueEx.toNat * windowSize.toNat / windowSize.toNat :=
            Nat.div_le_div_right (Nat.mul_le_mul_left _ (Nat.sub_le _ _))
        _ ≤ self.valueEx.toNat := Nat.div_le_of_le_mul (le_of_eq (Nat.mul_comm _ _))
    · exact Nat.zero_le _
  · exact le_refl _

/-- The product of the decay is far below the 128-bit limit. -/
theorem mulRatio128_decay {value : UInt64} {numerator denominator : Nat}
    (small : numerator < 2 ^ 32) :
    mulRatio128 value.toNat ⟨numerator, denominator⟩ =
      .ok (value.toNat * numerator / denominator) := by
  unfold mulRatio128
  rw [if_pos]
  · rfl
  rcases Nat.eq_zero_or_pos numerator with zero | positive
  · exact Or.inl zero
  · refine Or.inr ((Nat.le_div_iff_mul_le positive).mpr ?_)
    have valueBelow := value.toNat_lt
    have product : value.toNat * numerator < 2 ^ 64 * 2 ^ 32 :=
      Nat.mul_lt_mul'' valueBelow small
    unfold uint128Max
    omega

/-- **The reads never throw.** `value_ex_at` gives the decayed value. -/
theorem valueExAt_eq_ok (self : ExponentialDecayAccumulator) (ordinal windowSize : UInt32) :
    self.valueExAt ordinal windowSize = .ok (self.decayed ordinal windowSize).toUInt64 := by
  have lastBelow := self.lastOrdinal.toNat_lt
  have ordinalBelow := ordinal.toNat_lt
  have windowBelow := windowSize.toNat_lt
  unfold valueExAt decayed
  by_cases later : self.lastOrdinal < ordinal
  · rw [if_pos later, if_pos later]
    have within : self.lastOrdinal.toUInt64 + windowSize.toUInt64 > ordinal.toUInt64 ↔
        ordinal.toNat < self.lastOrdinal.toNat + windowSize.toNat := by
      rw [gt_iff_lt, UInt64.lt_iff_toNat_lt, UInt64.toNat_add, UInt32.toNat_toUInt64,
        UInt32.toNat_toUInt64, UInt32.toNat_toUInt64, Nat.mod_eq_of_lt (by omega)]
    by_cases inside : ordinal.toNat < self.lastOrdinal.toNat + windowSize.toNat
    · rw [if_pos (within.mpr inside), if_pos inside]
      have delta : (ordinal - self.lastOrdinal).toNat = ordinal.toNat - self.lastOrdinal.toNat :=
        UInt32.toNat_sub_of_le _ _ (UInt32.le_iff_toNat_le.mpr
          (le_of_lt (UInt32.lt_iff_toNat_lt.mp later)))
      simp only [delta]
      rw [mulRatio128_decay (by omega)]
      have scaled : self.valueEx.toNat * (windowSize.toNat -
          (ordinal.toNat - self.lastOrdinal.toNat)) / windowSize.toNat ≤ uint64Max.toNat := by
        have bounded := self.decayed_le_valueEx ordinal windowSize
        unfold decayed at bounded
        rw [if_pos later, if_pos inside] at bounded
        have valueBelow := self.valueEx.toNat_lt
        rw [toNat_uint64Max]
        omega
      change downgradeCast _ = _
      unfold downgradeCast
      rw [if_pos scaled]
      rfl
    · rw [if_neg (fun holds => inside (within.mp holds)), if_neg inside]
      rfl
  · rw [if_neg later, if_neg later]
    exact congrArg Except.ok (UInt64.ofNat_toNat).symm

/-! ### Ceiling division -/

/-- `integer_divide_ceil` on numbers is the ceiling of the quotient. -/
theorem div_add_ite_eq_ceilDiv (num den : Nat) (positive : 0 < den) :
    num / den + (if num % den > 0 then 1 else 0) = num ⌈/⌉ den := by
  rw [Nat.ceilDiv_eq_add_pred_div]
  have split := Nat.div_add_mod num den
  have remainder := Nat.mod_lt num positive
  have shifted : (num + den - 1) / den = num / den + (num % den + den - 1) / den := by
    conv_lhs => rw [← split]
    rw [show den * (num / den) + num % den + den - 1 = (num % den + den - 1) + den * (num / den)
      by omega, Nat.add_mul_div_left _ _ positive, Nat.add_comm]
  rw [shifted]
  by_cases zero : num % den = 0
  · rw [if_neg (by omega), zero, Nat.div_eq_of_lt (show 0 + den - 1 < den by omega)]
  · rw [if_pos (by omega), Nat.div_eq_of_lt_le (show 1 * den ≤ num % den + den - 1 by omega)
      (show num % den + den - 1 < (1 + 1) * den by omega)]

/-- `integer_divide_ceil` of a 64-bit value by a positive precision does not wrap. -/
theorem toNat_integerDivideCeil (value : UInt64) {precision : UInt64} (positive : 0 < precision) :
    (integerDivideCeil value precision).toNat = value.toNat ⌈/⌉ precision.toNat := by
  have precisionPositive : 0 < precision.toNat := UInt64.lt_iff_toNat_lt.mp positive
  have valueBelow := value.toNat_lt
  rw [← div_add_ite_eq_ceilDiv _ _ precisionPositive]
  unfold integerDivideCeil
  have quotient : (value / precision).toNat = value.toNat / precision.toNat :=
    UInt64.toNat_div _ _
  have remainder : (value % precision).toNat = value.toNat % precision.toNat :=
    UInt64.toNat_mod _ _
  -- the quotient leaves room for the one added to it, unless the precision is one
  have room : value.toNat / precision.toNat + 1 < 2 ^ 64 ∨ value.toNat % precision.toNat = 0 := by
    rcases Nat.lt_or_ge precision.toNat 2 with one | two
    · exact Or.inr (by rw [show precision.toNat = 1 by omega, Nat.mod_one])
    · have halved : value.toNat / precision.toNat ≤ value.toNat / 2 :=
        Nat.div_le_div_left two (by omega)
      exact Or.inl (by omega)
  by_cases rounds : value % precision > 0
  · have roundsNat : value.toNat % precision.toNat > 0 := by
      rw [← remainder]; exact UInt64.lt_iff_toNat_lt.mp rounds
    rw [if_pos rounds, if_pos roundsNat, UInt64.toNat_add, quotient, UInt64.toNat_one,
      Nat.mod_eq_of_lt (by omega)]
  · have exact : ¬ value.toNat % precision.toNat > 0 := by
      rw [← remainder]; exact fun holds => rounds (UInt64.lt_iff_toNat_lt.mpr holds)
    rw [if_neg rounds, if_neg exact, UInt64.add_zero, quotient, Nat.add_zero]

/-- The value at an ordinal is the decayed value, divided by the precision and rounded up. -/
theorem valueAt_eq_ok (self : ExponentialDecayAccumulator) (ordinal windowSize : UInt32) :
    ∃ value, self.valueAt precision ordinal windowSize = .ok value ∧
      (0 < precision → value.toNat = self.decayed ordinal windowSize ⌈/⌉ precision.toNat) := by
  refine ⟨integerDivideCeil (self.decayed ordinal windowSize).toUInt64 precision, ?_, ?_⟩
  · rw [valueAt, valueExAt_eq_ok]
    rfl
  · intro positive
    have fits : (self.decayed ordinal windowSize).toUInt64.toNat =
        self.decayed ordinal windowSize :=
      UInt64.toNat_ofNat_of_lt' (lt_of_le_of_lt (self.decayed_le_valueEx ordinal windowSize)
        self.valueEx.toNat_lt)
    rw [toNat_integerDivideCeil _ positive, fits]

/-! ### Adding -/

/-- What `add` leaves: the ordinal moved forward to the call's, and the value read there with the
units added, saturating. -/
theorem add_run_eq (self : ExponentialDecayAccumulator) {units : UInt64}
    (fits : units ≤ maxRawValue precision) (ordinal windowSize : UInt32) :
    (add precision units ordinal windowSize).run self =
      .ok () ⟨if self.lastOrdinal < ordinal then ordinal else self.lastOrdinal,
        (min (units.toNat * precision.toNat + self.decayed ordinal windowSize)
          uint64Max.toNat).toUInt64⟩ := by
  have saturated : min (units.toNat * precision.toNat + self.decayed ordinal windowSize)
      uint64Max.toNat ≤ uint64Max.toNat := min_le_right _ _
  have read : (self.decayed ordinal windowSize).toUInt64.toNat = self.decayed ordinal windowSize :=
    UInt64.toNat_ofNat_of_lt' (lt_of_le_of_lt (self.decayed_le_valueEx ordinal windowSize)
      self.valueEx.toNat_lt)
  -- `unfold` and `if_pos`: rewriting the conditions themselves sends the kernel into the
  -- literal `uint64Max`
  unfold add
  rw [if_pos fits, EStateM.run_bind, EStateM.run_get]
  dsimp only
  by_cases later : self.lastOrdinal < ordinal
  · rw [if_pos later, if_pos later]
    simp only [EStateM.run_bind, valueExAt_eq_ok, StateExcept.run_ofExcept, EStateM.run_modify,
      EStateM.run_get, read]
    unfold downgradeCast
    rw [if_pos saturated]
    rfl
  · have unchanged : self.decayed ordinal windowSize = self.valueEx.toNat := by
      unfold decayed
      rw [if_neg later]
    rw [if_neg later, if_neg later]
    simp only [EStateM.run_bind, EStateM.run_get, StateExcept.run_ofExcept, EStateM.run_modify]
    unfold downgradeCast
    rw [← unchanged, if_pos saturated]
    rfl

end ExponentialDecayAccumulator

end Eosio.Chain.ResourceLimits.Impl
