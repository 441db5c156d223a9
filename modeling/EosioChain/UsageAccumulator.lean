/-
This file models `exponential_moving_average_accumulator` of `resource_limits_private.hpp`, the
accumulator behind every account's and the chain's CPU and NET usage: `value_ex` is the moving
average of the usage, premultiplied by the precision. `add(units, ordinal, window_size)` first
checks its numerical limits, then, at a later ordinal, decays `value_ex` by
`(window_size - delta) / window_size` (to zero past the window), and adds the contribution
`ceil(units * Precision / window_size)`.

When the contributions added at any one ordinal sum to at most `C`, `value_ex` stays at most
`window_size * C`: the decayed part is at most `(window_size - 1) * C` and one ordinal adds at most
`C` to it. The overflow check of the accumulated value, however, runs before the decay, on the
value from the ordinal before, so that it needs room for `(window_size + 1) * C` and not only for
the decayed value.

The accumulator is changed in place, so `add` is a program in `EStateM`, whose error results keep
the state at the throw: every check comes before the first change, so a call that throws leaves
the accumulator as it was. The `uint128_t` arithmetic of the contribution is on natural numbers:
the product of two 64-bit numbers never wraps 128 bits.
-/

import EosioChain.LimitTotals
import EosioChain.StateExcept

namespace Eosio.Chain.ResourceLimits.Impl

open StateExcept

/-! ### The model -/

/-- `ratio<uint64_t>`. -/
structure Ratio where
  numerator : UInt64
  denominator : UInt64

/-- `make_ratio`. -/
def makeRatio (n d : UInt64) : Ratio :=
  ⟨n, d⟩

/-- `operator*(T value, const ratio<T>& r)`: the product of the value and the numerator must fit
before it is divided. -/
def mulRatio (value : UInt64) (r : Ratio) : Except String UInt64 :=
  if r.numerator = 0 ∨ uint64Max / r.numerator ≥ value then
    pure (value * r.numerator / r.denominator)
  else throw "Usage exceeds maximum value representable after extending for precision"

/-- `integer_divide_ceil`. -/
def integerDivideCeil {α : Type} [Div α] [Mod α] [Add α] [LT α] [DecidableLT α] [OfNat α 0]
    [OfNat α 1] (num den : α) : α :=
  num / den + if num % den > 0 then 1 else 0

/-- `downgrade_cast<uint64_t>` of a `uint128_t`. -/
def downgradeCast (val : Nat) : Except String UInt64 :=
  if val ≤ uint64Max.toNat then pure val.toUInt64
  else throw ("Casting a higher bit integer value ${v} to a lower bit integer value which " ++
    "cannot contain the value, valid range is [${min}, ${max}]")

/-- `exponential_moving_average_accumulator`. -/
structure ExponentialMovingAverageAccumulator where
  lastOrdinal : UInt32
  valueEx : UInt64
  consumed : UInt64
deriving DecidableEq, Repr

/-- The accumulator as its constructor leaves it. -/
def ExponentialMovingAverageAccumulator.initial : ExponentialMovingAverageAccumulator :=
  ⟨0, 0, 0⟩

namespace ExponentialMovingAverageAccumulator

variable (precision : UInt64)

/-- `max_raw_value`. -/
def maxRawValue : UInt64 :=
  uint64Max / precision

/-- `average()`: the average, rounded up. -/
def average (valueEx : UInt64) : UInt64 :=
  integerDivideCeil valueEx precision

/-- The contribution `add` adds to `value_ex`: `ceil(units * Precision / window_size)`. -/
def valueExContrib (units : UInt64) (windowSize : UInt32) : Nat :=
  integerDivideCeil (units.toNat * precision.toNat) windowSize.toNat

/-- `add(units, ordinal, window_size)`. -/
def add (units : UInt64) (ordinal windowSize : UInt32) :
    EStateM String ExponentialMovingAverageAccumulator Unit := do
  let self ← get
  -- check for some numerical limits before doing any state mutations
  unless units ≤ maxRawValue precision do
    throw "Usage exceeds maximum value representable after extending for precision"
  unless uint64Max - self.consumed ≥ units do
    throw "Overflow in tracked usage when adding usage!"
  let valueExContrib ←
    MonadExcept.ofExcept (downgradeCast (valueExContrib precision units windowSize))
  unless uint64Max - self.valueEx ≥ valueExContrib do
    throw "Overflow in accumulated value when adding usage!"
  if self.lastOrdinal ≠ ordinal then
    unless ordinal > self.lastOrdinal do
      throw "new ordinal cannot be less than the previous ordinal"
    if self.lastOrdinal.toUInt64 + windowSize.toUInt64 > ordinal.toUInt64 then
      let delta := ordinal - self.lastOrdinal
      let decay := makeRatio (windowSize.toUInt64 - delta.toUInt64) windowSize.toUInt64
      let valueEx ← MonadExcept.ofExcept (mulRatio self.valueEx decay)
      modify fun self => { self with valueEx }
    else
      modify fun self => { self with valueEx := 0 }
    modify fun self => { self with lastOrdinal := ordinal }
    modify fun self => { self with consumed := average precision self.valueEx }
  modify fun self => { self with consumed := self.consumed + units }
  modify fun self => { self with valueEx := self.valueEx + valueExContrib }

/-- Calls `add(units, ordinal, window_size)` one after another, each on what the call before it
left, whether that call returned or threw. -/
def addAll (windowSize : UInt32) (self : ExponentialMovingAverageAccumulator) :
    List (UInt64 × UInt32) → ExponentialMovingAverageAccumulator
  | [] => self
  | (units, ordinal) :: calls =>
    addAll windowSize (finalState ((add precision units ordinal windowSize).run self)) calls

/-! ### The arithmetic of a call -/

theorem toNat_downgradeCast {val : Nat} {cast : UInt64} (fits : downgradeCast val = .ok cast) :
    cast.toNat = val := by
  unfold downgradeCast at fits
  split at fits
  · rename_i below
    cases fits
    rw [toNat_uint64Max] at below
    exact UInt64.toNat_ofNat_of_lt' (by unfold UInt64.size; omega)
  · cases fits

/-- What passes the check of the accumulated value fits beside it. -/
theorem add_fits_of_le_sub {value contrib : UInt64} (room : uint64Max - value ≥ contrib) :
    value.toNat + contrib.toNat < 2 ^ 64 := by
  have below := value.toNat_lt
  rw [ge_iff_le, UInt64.le_iff_toNat_le, UInt64.toNat_sub_of_le _ _
    (UInt64.le_iff_toNat_le.mpr (by rw [toNat_uint64Max]; omega)), toNat_uint64Max] at room
  omega

/-- What fits beside the value passes the check of the accumulated value. -/
theorem le_sub_of_add_fits {value contrib : UInt64} (fits : value.toNat + contrib.toNat < 2 ^ 64) :
    uint64Max - value ≥ contrib := by
  rw [ge_iff_le, UInt64.le_iff_toNat_le, UInt64.toNat_sub_of_le _ _
    (UInt64.le_iff_toNat_le.mpr (by rw [toNat_uint64Max]; omega)), toNat_uint64Max]
  omega

theorem toNat_add_of_fits {value contrib : UInt64} (fits : value.toNat + contrib.toNat < 2 ^ 64) :
    (value + contrib).toNat = value.toNat + contrib.toNat := by
  rw [UInt64.toNat_add, Nat.mod_eq_of_lt fits]

/-- A product that passes the check of `operator*` does not wrap. -/
theorem toNat_mulRatio {value scaled : UInt64} {r : Ratio}
    (multiplied : mulRatio value r = .ok scaled) :
    scaled.toNat = value.toNat * r.numerator.toNat / r.denominator.toNat := by
  unfold mulRatio at multiplied
  split at multiplied
  · rename_i fits
    cases multiplied
    have product : value.toNat * r.numerator.toNat ≤ 2 ^ 64 - 1 := by
      rcases fits with zero | quotient
      · rw [zero, UInt64.toNat_zero, Nat.mul_zero]
        omega
      · rw [ge_iff_le, UInt64.le_iff_toNat_le, UInt64.toNat_div, toNat_uint64Max] at quotient
        rcases Nat.eq_zero_or_pos r.numerator.toNat with zero | positive
        · rw [zero, Nat.mul_zero]
          omega
        · exact (Nat.le_div_iff_mul_le positive).mp quotient
    rw [UInt64.toNat_div, UInt64.toNat_mul, Nat.mod_eq_of_lt (by omega)]
  · cases multiplied

theorem downgradeCast_error {val : Nat} {e : String} (threw : downgradeCast val = .error e) :
    e = "Casting a higher bit integer value ${v} to a lower bit integer value which " ++
      "cannot contain the value, valid range is [${min}, ${max}]" := by
  unfold downgradeCast at threw
  split at threw
  · cases threw
  · cases threw
    rfl

/-- The check of `operator*` passes on a product that fits. -/
theorem mulRatio_ok_of_fits {value : UInt64} {r : Ratio}
    (fits : value.toNat * r.numerator.toNat ≤ 2 ^ 64 - 1) :
    mulRatio value r = .ok (value * r.numerator / r.denominator) := by
  unfold mulRatio
  rw [if_pos]
  · rfl
  by_cases zero : r.numerator = 0
  · exact Or.inl zero
  · refine Or.inr ?_
    rw [ge_iff_le, UInt64.le_iff_toNat_le, UInt64.toNat_div, toNat_uint64Max]
    exact (Nat.le_div_iff_mul_le (Nat.pos_of_ne_zero fun isZero =>
      zero (UInt64.toNat_inj.mp (by rw [isZero, UInt64.toNat_zero])))).mpr fits

/-- The numerator of the decay to a later ordinal inside the window: `window_size - delta`, with
`0 < delta < window_size`. -/
theorem toNat_decayNumerator {lastOrdinal ordinal windowSize : UInt32}
    (later : ordinal > lastOrdinal)
    (within : lastOrdinal.toUInt64 + windowSize.toUInt64 > ordinal.toUInt64) :
    (windowSize.toUInt64 - (ordinal - lastOrdinal).toUInt64).toNat ≤ windowSize.toNat - 1 := by
  have lastBelow := lastOrdinal.toNat_lt
  have ordinalBelow := ordinal.toNat_lt
  rw [gt_iff_lt, UInt32.lt_iff_toNat_lt] at later
  rw [gt_iff_lt, UInt64.lt_iff_toNat_lt, UInt64.toNat_add, UInt32.toNat_toUInt64,
    UInt32.toNat_toUInt64, UInt32.toNat_toUInt64] at within
  have delta : (ordinal - lastOrdinal).toUInt64.toNat = ordinal.toNat - lastOrdinal.toNat := by
    rw [UInt32.toNat_toUInt64, UInt32.toNat_sub_of_le _ _ (UInt32.le_iff_toNat_le.mpr (by omega))]
  rw [UInt64.toNat_sub_of_le _ _ (UInt64.le_iff_toNat_le.mpr (by
    rw [delta, UInt32.toNat_toUInt64]; omega)), delta, UInt32.toNat_toUInt64]
  omega

/-- Decayed to a later ordinal inside the window, at most `(window_size - 1) / window_size` of the
value is left. -/
theorem toNat_decayed_le {value scaled : UInt64} {lastOrdinal ordinal windowSize : UInt32}
    (later : ordinal > lastOrdinal)
    (within : lastOrdinal.toUInt64 + windowSize.toUInt64 > ordinal.toUInt64)
    (multiplied : mulRatio value (makeRatio (windowSize.toUInt64 - (ordinal - lastOrdinal).toUInt64)
      windowSize.toUInt64) = .ok scaled) :
    scaled.toNat ≤ value.toNat * (windowSize.toNat - 1) / windowSize.toNat := by
  rw [toNat_mulRatio multiplied]
  simp only [makeRatio, UInt32.toNat_toUInt64]
  exact Nat.div_le_div_right (Nat.mul_le_mul_left _ (toNat_decayNumerator later within))

/-- Decayed by at least one ordinal, a value within `window_size * most` is within
`(window_size - 1) * most`. -/
theorem decayed_le {value window most : Nat} (bound : value ≤ window * most) :
    value * (window - 1) / window ≤ (window - 1) * most := by
  apply Nat.div_le_of_le_mul
  calc value * (window - 1) ≤ window * most * (window - 1) := Nat.mul_le_mul_right _ bound
    _ = window * ((window - 1) * most) := by rw [Nat.mul_assoc, Nat.mul_comm most]

/-! ### What a call does -/

/-- **`add` read as a decision tree**: each check in turn, and the accumulator each outcome
leaves. -/
theorem add_run_eq (units : UInt64) (ordinal windowSize : UInt32)
    (s : ExponentialMovingAverageAccumulator) :
    (add precision units ordinal windowSize).run s =
      if units ≤ maxRawValue precision then
        if uint64Max - s.consumed ≥ units then
          match downgradeCast (valueExContrib precision units windowSize) with
          | .error e => .error e s
          | .ok contrib =>
            if uint64Max - s.valueEx ≥ contrib then
              if s.lastOrdinal ≠ ordinal then
                if ordinal > s.lastOrdinal then
                  if s.lastOrdinal.toUInt64 + windowSize.toUInt64 > ordinal.toUInt64 then
                    match mulRatio s.valueEx (makeRatio
                        (windowSize.toUInt64 - (ordinal - s.lastOrdinal).toUInt64)
                        windowSize.toUInt64) with
                    | .error e => .error e s
                    | .ok valueEx =>
                      .ok () ⟨ordinal, valueEx + contrib, average precision valueEx + units⟩
                  else .ok () ⟨ordinal, 0 + contrib, average precision 0 + units⟩
                else .error "new ordinal cannot be less than the previous ordinal" s
              else .ok () { s with consumed := s.consumed + units, valueEx := s.valueEx + contrib }
            else .error "Overflow in accumulated value when adding usage!" s
        else .error "Overflow in tracked usage when adding usage!" s
      else .error "Usage exceeds maximum value representable after extending for precision" s := by
  -- `unfold` and `if_pos`/`if_neg`: rewriting the conditions themselves sends the kernel into the
  -- literal `uint64Max`
  unfold add
  rw [EStateM.run_bind, EStateM.run_get]
  dsimp only
  by_cases h1 : units ≤ maxRawValue precision
  swap
  · simp only [if_neg h1, EStateM.run_throw, EStateM.run_bind]
  by_cases h2 : uint64Max - s.consumed ≥ units
  swap
  · simp only [if_pos h1, if_neg h2, EStateM.run_throw, EStateM.run_bind]
  simp only [if_pos h1, if_pos h2, EStateM.run_bind, run_ofExcept]
  cases downgradeCast (valueExContrib precision units windowSize) with
  | error e => rfl
  | ok contrib =>
    by_cases h4 : uint64Max - s.valueEx ≥ contrib
    swap
    · simp only [if_neg h4, EStateM.run_throw, EStateM.run_bind]
    simp only [if_pos h4]
    by_cases moved : s.lastOrdinal ≠ ordinal
    swap
    · simp only [if_neg moved, EStateM.run_modify, EStateM.run_bind]
    by_cases later : ordinal > s.lastOrdinal
    swap
    · simp only [if_pos moved, if_neg later, EStateM.run_throw, EStateM.run_bind]
    simp only [if_pos moved, if_pos later]
    by_cases within : s.lastOrdinal.toUInt64 + windowSize.toUInt64 > ordinal.toUInt64
    · simp only [if_pos within, EStateM.run_bind, run_ofExcept]
      cases mulRatio s.valueEx
          (makeRatio (windowSize.toUInt64 - (ordinal - s.lastOrdinal).toUInt64)
            windowSize.toUInt64) with
      | error e => rfl
      | ok valueEx => simp only [EStateM.run_modify]
    · simp only [if_neg within, EStateM.run_modify, EStateM.run_bind]

/-- **A call that throws leaves the accumulator as it was**: every check comes before the first
change. -/
theorem add_run_error_state {units : UInt64} {ordinal windowSize : UInt32}
    {s s' : ExponentialMovingAverageAccumulator} {e : String}
    (threw : (add precision units ordinal windowSize).run s = .error e s') : s' = s := by
  rw [add_run_eq] at threw
  repeat' split at threw
  all_goals first
    | cases threw; rfl
    | cases threw

/-! ### The contributions of a run -/

/-- What the calls of `calls` at `ordinal` add to `value_ex`, when none of them throws. -/
def contribAt (windowSize : UInt32) (calls : List (UInt64 × UInt32)) (ordinal : UInt32) : Nat :=
  ((calls.filter fun call => call.2 = ordinal).map fun call =>
    valueExContrib precision call.1 windowSize).sum

theorem contribAt_cons (windowSize : UInt32) (call : UInt64 × UInt32)
    (calls : List (UInt64 × UInt32)) (ordinal : UInt32) :
    contribAt precision windowSize (call :: calls) ordinal =
      (if call.2 = ordinal then valueExContrib precision call.1 windowSize else 0) +
        contribAt precision windowSize calls ordinal := by
  unfold contribAt
  rw [List.filter_cons]
  split <;> simp_all

theorem contribAt_le_cons (windowSize : UInt32) (call : UInt64 × UInt32)
    (calls : List (UInt64 × UInt32)) (ordinal : UInt32) :
    contribAt precision windowSize calls ordinal ≤
      contribAt precision windowSize (call :: calls) ordinal := by
  rw [contribAt_cons]
  exact Nat.le_add_right_of_le (Nat.le_refl _) |>.trans (Nat.le_of_eq (Nat.add_comm _ _))

theorem contribAt_eq_zero (windowSize : UInt32) {ordinal : UInt32} :
    ∀ {calls : List (UInt64 × UInt32)}, (∀ call ∈ calls, call.2 ≠ ordinal) →
      contribAt precision windowSize calls ordinal = 0
  | [], _ => rfl
  | call :: calls, elsewhere => by
    rw [contribAt_cons, if_neg (elsewhere call List.mem_cons_self),
      contribAt_eq_zero windowSize fun other member => elsewhere other (List.mem_cons_of_mem _ member)]

theorem contribAt_drop_le (windowSize : UInt32) :
    ∀ (k : Nat) (calls : List (UInt64 × UInt32)) (ordinal : UInt32),
      contribAt precision windowSize (calls.drop k) ordinal ≤
        contribAt precision windowSize calls ordinal
  | 0, _, _ => Nat.le_refl _
  | _ + 1, [], _ => Nat.le_refl _
  | k + 1, call :: calls, ordinal =>
    (contribAt_drop_le windowSize k calls ordinal).trans
      (contribAt_le_cons precision windowSize call calls ordinal)

/-- Calls at distinct ordinals, each contributing at most `most`, contribute at most `most` at any
one ordinal. -/
theorem contribAt_le_of_nodup (windowSize : UInt32) {most : Nat} :
    ∀ {calls : List (UInt64 × UInt32)}, (calls.map Prod.snd).Nodup →
      (∀ call ∈ calls, valueExContrib precision call.1 windowSize ≤ most) →
      ∀ ordinal, contribAt precision windowSize calls ordinal ≤ most
  | [], _, _, _ => Nat.zero_le _
  | call :: calls, distinct, each, ordinal => by
    rw [List.map_cons, List.nodup_cons] at distinct
    rw [contribAt_cons]
    split
    · -- the other calls are at other ordinals
      rename_i here
      rw [contribAt_eq_zero precision windowSize fun other member same =>
        distinct.1 (by rw [here, ← same]; exact List.mem_map_of_mem member)]
      exact each call List.mem_cons_self
    · exact (Nat.zero_add _).le.trans
        (contribAt_le_of_nodup windowSize distinct.2 (fun other member =>
          each other (List.mem_cons_of_mem _ member)) ordinal)

/-! ### The bound along a run -/

/-- The bound a run keeps: `value_ex`, with what the calls still to come would add at its
ordinal, is within `window_size * most`. -/
def Bounded (windowSize : UInt32) (most : Nat) (calls : List (UInt64 × UInt32))
    (self : ExponentialMovingAverageAccumulator) : Prop :=
  self.valueEx.toNat + contribAt precision windowSize calls self.lastOrdinal ≤
    windowSize.toNat * most

section Run

variable {windowSize : UInt32} (positive : 0 < windowSize.toNat) {most : Nat}
include positive

theorem bounded_initial {calls : List (UInt64 × UInt32)}
    (perOrdinal : ∀ ordinal, contribAt precision windowSize calls ordinal ≤ most) :
    Bounded precision windowSize most calls initial := by
  have := perOrdinal 0
  have : most ≤ windowSize.toNat * most := Nat.le_mul_of_pos_left most positive
  show (0 : UInt64).toNat + contribAt precision windowSize calls 0 ≤ _
  rw [UInt64.toNat_zero]
  omega

/-- **One call keeps the bound**, whether it throws, adds at the same ordinal, or decays the value
to a later one: the decayed value is at most `(window_size - 1) * most`, and the calls at the new
ordinal add at most `most`. -/
theorem Bounded.add {units : UInt64} {ordinal : UInt32} {calls : List (UInt64 × UInt32)}
    {self : ExponentialMovingAverageAccumulator}
    (bounded : Bounded precision windowSize most ((units, ordinal) :: calls) self)
    (atOrdinal : contribAt precision windowSize ((units, ordinal) :: calls) ordinal ≤ most) :
    Bounded precision windowSize most calls
      (finalState ((add precision units ordinal windowSize).run self)) := by
  unfold Bounded at bounded ⊢
  rw [contribAt_cons] at bounded atOrdinal
  dsimp only at bounded atOrdinal
  rw [if_pos rfl] at atOrdinal
  have unchanged : self.valueEx.toNat + contribAt precision windowSize calls self.lastOrdinal ≤
      windowSize.toNat * most := by
    split at bounded <;> omega
  rw [add_run_eq]
  split
  · split
    · split
      · exact unchanged
      · rename_i contrib cast
        have contribNat := toNat_downgradeCast cast
        split
        · rename_i room
          have fits := add_fits_of_le_sub room
          split
          · split
            · rename_i later
              split
              · rename_i within
                split
                · exact unchanged
                · rename_i scaled multiplied
                  -- the decayed value: at most `(window_size - 1) * most`
                  have decayed := toNat_decayed_le later within multiplied
                  have kept : self.valueEx.toNat * (windowSize.toNat - 1) / windowSize.toNat ≤
                      self.valueEx.toNat := by
                    apply Nat.div_le_of_le_mul
                    calc self.valueEx.toNat * (windowSize.toNat - 1)
                        ≤ self.valueEx.toNat * windowSize.toNat :=
                          Nat.mul_le_mul_left _ (Nat.sub_le _ _)
                      _ = windowSize.toNat * self.valueEx.toNat := Nat.mul_comm _ _
                  have before := @decayed_le self.valueEx.toNat windowSize.toNat most (by omega)
                  have split : (windowSize.toNat - 1) * most + most = windowSize.toNat * most := by
                    rw [← Nat.succ_mul, Nat.succ_eq_add_one, Nat.sub_add_cancel positive]
                  show (scaled + contrib).toNat + contribAt precision windowSize calls ordinal ≤ _
                  rw [toNat_add_of_fits (by omega), contribNat]
                  omega
              · -- past the window, only the contribution is left
                show (0 + contrib).toNat + contribAt precision windowSize calls ordinal ≤ _
                rw [UInt64.zero_add, contribNat]
                have : most ≤ windowSize.toNat * most := Nat.le_mul_of_pos_left most positive
                omega
            · exact unchanged
          · -- at the same ordinal the contribution moves from the calls to come into `value_ex`
            rename_i same
            rw [not_not] at same
            show (self.valueEx + contrib).toNat +
              contribAt precision windowSize calls self.lastOrdinal ≤ _
            rw [if_pos same.symm] at bounded
            rw [toNat_add_of_fits fits, contribNat, same]
            rw [same] at bounded
            omega
        · exact unchanged
    · exact unchanged
  · exact unchanged

/-- **The bound holds along every run**: by induction on the calls, each keeping it. -/
theorem bounded_addAll : ∀ (calls : List (UInt64 × UInt32)) (self : ExponentialMovingAverageAccumulator),
    Bounded precision windowSize most calls self →
    (∀ ordinal, contribAt precision windowSize calls ordinal ≤ most) →
    ∀ k ≤ calls.length,
      Bounded precision windowSize most (calls.drop k) (addAll precision windowSize self (calls.take k))
  | [], _, bounded, _, k, short => by
    rw [Nat.le_zero.mp short]
    exact bounded
  | _ :: _, _, bounded, _, 0, _ => bounded
  | (units, ordinal) :: calls, _, bounded, perOrdinal, k + 1, short =>
    bounded_addAll calls _ (bounded.add precision positive (perOrdinal ordinal))
      (fun other => (contribAt_le_cons precision windowSize _ calls other).trans (perOrdinal other))
      k (Nat.le_of_succ_le_succ short)

end Run

/-- **Within the room of the amended bound, neither overflow check throws.** The check of the
accumulated value runs on `value_ex` before the decay, at most `window_size * most`, and needs room
for one more contribution; the product in `operator*` is at most
`window_size * most * (window_size - 1)`. -/
theorem add_error_of_bounded {windowSize : UInt32} {most : Nat} {call : UInt64 × UInt32}
    {calls : List (UInt64 × UInt32)}
    {self s' : ExponentialMovingAverageAccumulator} {e : String}
    (bounded : Bounded precision windowSize most (call :: calls) self)
    (atOrdinal : contribAt precision windowSize (call :: calls) call.2 ≤ most)
    (ratioRoom : windowSize.toNat * most * (windowSize.toNat - 1) < 2 ^ 64)
    (sumRoom : (windowSize.toNat + 1) * most < 2 ^ 64)
    (threw : (add precision call.1 call.2 windowSize).run self = .error e s') :
    e ≠ "Overflow in accumulated value when adding usage!" ∧
      (e = "Usage exceeds maximum value representable after extending for precision" →
        ¬ call.1 ≤ maxRawValue precision) := by
  unfold Bounded at bounded
  rw [contribAt_cons, if_pos rfl] at atOrdinal
  have valueBound : self.valueEx.toNat ≤ windowSize.toNat * most := by omega
  rw [add_run_eq] at threw
  split at threw
  · split at threw
    · split at threw
      · rename_i _ cast
        cases threw
        rw [downgradeCast_error cast]
        exact ⟨by decide, fun same => absurd same (by decide)⟩
      · rename_i contrib cast
        have contribNat := toNat_downgradeCast cast
        split at threw
        · split at threw
          · split at threw
            · split at threw
              · split at threw
                · -- `operator*` does not throw: the product fits
                  rename_i later within _ _ multiplied
                  have product : self.valueEx.toNat *
                      (windowSize.toUInt64 - (call.2 - self.lastOrdinal).toUInt64).toNat ≤
                      windowSize.toNat * most * (windowSize.toNat - 1) :=
                    Nat.mul_le_mul valueBound (toNat_decayNumerator later within)
                  rw [mulRatio_ok_of_fits (by simp only [makeRatio]; omega)] at multiplied
                  cases multiplied
                · cases threw
              · cases threw
            · cases threw
              exact ⟨by decide, fun same => absurd same (by decide)⟩
          · cases threw
        · -- the check of the accumulated value passes: there is room for one more contribution
          rename_i noRoom
          have sum : (windowSize.toNat + 1) * most = windowSize.toNat * most + most :=
            Nat.succ_mul _ _
          exact absurd (le_sub_of_add_fits (by omega)) noRoom
    · cases threw
      exact ⟨by decide, fun same => absurd same (by decide)⟩
  · rename_i tooMany
    cases threw
    exact ⟨by decide, fun _ => tooMany⟩

/-! ### Calls from the initial accumulator -/

/-- **A run of calls keeps `value_ex` within the window.** From the initial accumulator, when the
contributions `ceil(units * precision / window_size)` of the calls at any one ordinal add up to at
most `most`, then after every call `value_ex ≤ window_size * most`, whatever order the ordinals
come in. With room for the product `window_size * most * (window_size - 1)` of the decay and for
one contribution more than `window_size * most`, no call fails the accumulated value check, and
none fails the ratio check of `operator*` (whose message a call shares only with its first check,
that `units` is at most `max_raw_value`). A call that throws leaves the accumulator as it was. -/
theorem add_bounded_by_window (precision : UInt64) {windowSize : UInt32}
    (positive : 0 < windowSize.toNat) (most : Nat) (calls : List (UInt64 × UInt32))
    (perOrdinal : ∀ ordinal, contribAt precision windowSize calls ordinal ≤ most) :
    (∀ k ≤ calls.length, (addAll precision windowSize initial (calls.take k)).valueEx.toNat ≤
      windowSize.toNat * most) ∧
    (windowSize.toNat * most * (windowSize.toNat - 1) < 2 ^ 64 →
      (windowSize.toNat + 1) * most < 2 ^ 64 →
      ∀ (k : Nat) (below : k < calls.length) (e : String) (s' : ExponentialMovingAverageAccumulator),
        (add precision calls[k].1 calls[k].2 windowSize).run
            (addAll precision windowSize initial (calls.take k)) = .error e s' →
          e ≠ "Overflow in accumulated value when adding usage!" ∧
          (e = "Usage exceeds maximum value representable after extending for precision" →
            ¬ calls[k].1 ≤ maxRawValue precision)) ∧
    (∀ (units : UInt64) (ordinal : UInt32) (s s' : ExponentialMovingAverageAccumulator) (e : String),
      (add precision units ordinal windowSize).run s = .error e s' → s' = s) := by
  have run := bounded_addAll precision positive calls initial
    (bounded_initial precision positive perOrdinal) perOrdinal
  refine ⟨fun k short => ?_, fun ratioRoom sumRoom k below e s' threw => ?_,
    fun units ordinal s s' e threw => add_run_error_state precision threw⟩
  · have bounded := run k short
    unfold Bounded at bounded
    omega
  · -- the call `k` runs from a state bounded against the calls from `k` on
    have bounded := run k below.le
    rw [List.drop_eq_getElem_cons below] at bounded
    have atOrdinal := List.drop_eq_getElem_cons below ▸
      contribAt_drop_le precision windowSize k calls calls[k].2
    exact add_error_of_bounded precision bounded ((atOrdinal.trans (perOrdinal _))) ratioRoom
      sumRoom threw

/-- Three calls of `18446744073709` units at the ordinals `0`, `1` and `2` contribute
`ceil(18446744073709 * 1000000 / 2)` at each ordinal, within a window of `2`. -/
theorem contribAt_le_of_consecutive_calls : ∀ ordinal, contribAt 1000000 2
    [(18446744073709, 0), (18446744073709, 1), (18446744073709, 2)] ordinal ≤
      9223372036854500000 :=
  contribAt_le_of_nodup 1000000 2 (by decide) (by
    simp only [List.forall_mem_cons, List.not_mem_nil, IsEmpty.forall_iff, implies_true, and_true]
    decide)

/-- The three calls of the counterexample below keep `value_ex` within `2 * most` up to the call
that throws. -/
theorem add_bounded_by_window_before_overflow :
    0 < (2 : UInt32).toNat ∧
      (∀ ordinal, contribAt 1000000 2
        [(18446744073709, 0), (18446744073709, 1), (18446744073709, 2)] ordinal ≤
          9223372036854500000) ∧
      (addAll 1000000 2 initial
        ([(18446744073709, 0), (18446744073709, 1), (18446744073709, 2)].take 2)).valueEx.toNat ≤
          (2 : UInt32).toNat * 9223372036854500000 := by
  exact ⟨by decide, contribAt_le_of_consecutive_calls,
    (add_bounded_by_window 1000000 (by decide) _ _ contribAt_le_of_consecutive_calls).1 2
      (by decide)⟩

/-- **Room for the product alone does not keep the accumulated value check from throwing.** With
`precision = 1000000`, `window_size = 2` and `most = ceil(18446744073709 * 1000000 / 2)`, so that
`window_size * most * (window_size - 1) < 2 ^ 64`, calls of `18446744073709` units at the ordinals
`0`, `1` and `2` leave `value_ex = most + most / 2` after the second, and the third fails the
check of the accumulated value, which runs before the decay. -/
theorem add_overflows_within_product_room :
    (∀ ordinal, contribAt 1000000 2
        [(18446744073709, 0), (18446744073709, 1), (18446744073709, 2)] ordinal ≤
          9223372036854500000) ∧
      (2 : UInt32).toNat * 9223372036854500000 * ((2 : UInt32).toNat - 1) < 2 ^ 64 ∧
      (add 1000000 18446744073709 2 2).run
          (addAll 1000000 2 initial [(18446744073709, 0), (18446744073709, 1)]) =
        .error "Overflow in accumulated value when adding usage!"
          (addAll 1000000 2 initial [(18446744073709, 0), (18446744073709, 1)]) :=
  ⟨contribAt_le_of_consecutive_calls, by decide, rfl⟩

end ExponentialMovingAverageAccumulator

end Eosio.Chain.ResourceLimits.Impl
