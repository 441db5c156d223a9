/-
This file models how much CPU and NET an account may still use, as `resource_limits.cpp` reports
it and as `transaction_context::max_bandwidth_billed_accounts_can_pay` gathers it over the accounts
a transaction bills, and proves that the report agrees with the check `add_transaction_usage`
makes when the transaction is billed.

`get_account_cpu_limit_ex` and `get_account_net_limit_ex` compute, for one resource, the account's
share by weight of the virtual capacity of the window, `max`, and the usage in the window rounded
up, `used`; `available` is what is left of the share. When the producer greylists the account,
the capacity is computed from `max_block_usage * greylist_limit` in its place when that is lower.
`add_transaction_usage` first adds the bill to the account's accumulator and then checks the usage
in the window, rounded down, against the share of the virtual capacity itself.

The two agree because the contribution of a bill, `ceil(units * Precision / window)`, moves the
usage in the window by less than `units + 1` when the window is at most the precision, and the
query rounded the usage before the bill up. So a bill within a positive `available` passes the
check (`withinShare_of_accountLimitEx`), when the window is at most the precision and the capacity
times the 63-bit weight fits the `uint128_t` products, or the report is not greylisted. On the
billing side, the CPU text is thrown only by the CPU check of an account, after the accounts
before it were billed without touching its row. In every state the block calls reach, the CPU
window is that of `config.hpp` and the virtual limit stays in its band, so both conditions hold,
and a transaction billed within the CPU limit the accounts were reported is never refused for CPU
(`addTransactionUsage_ne_cpuShortfall`).
-/

import EosioChain.VirtualLimits
import EosioChain.DecayAccumulator

namespace Eosio.Chain.ResourceLimits

open Impl Transition

/-- `account_resource_limit`, with `last_usage_update_time` the slot of its timestamp. -/
structure AccountResourceLimit where
  used : Int64
  available : Int64
  max : Int64
  lastUsageUpdateTime : UInt32
  currentUsed : Int64
deriving DecidableEq, Repr

/-- `std::numeric_limits<int64_t>::max()`. -/
def int64Max : Nat := 9223372036854775807

/-- `downgrade_cast<int64_t>` of a `uint128_t`, the specialization for mismatching signedness. -/
def downgradeCastInt64 (val : Nat) : Except String Int64 :=
  if val ≤ int64Max then pure (Int64.ofNat val)
  else throw ("Casting a higher bit integer value ${v} to a lower bit integer value which " ++
    "cannot contain the value, valid range is [${min}, ${max}]")

/-- The limit the capacity of the window is computed from, and whether the greylist lowered it:
`max_block_usage * greylist_limit`, in `uint64_t`, when the greylist limit is below the maximum
multiplier and that is below the virtual limit. -/
def capacityLimit (virtualLimit maxBlockUsage : UInt64) (greylistLimit : UInt32) : UInt64 × Bool :=
  if greylistLimit < Config.maximumElasticResourceMultiplier then
    if maxBlockUsage * greylistLimit.toUInt64 < virtualLimit then
      (maxBlockUsage * greylistLimit.toUInt64, true)
    else (virtualLimit, false)
  else (virtualLimit, false)

/-- The body of `get_account_cpu_limit_ex` and `get_account_net_limit_ex` once the rows are read,
for the resource whose weight, total weight, virtual limit, block maximum, window and accumulator
are given. The products are `uint128_t`: only the last, by the weight, can wrap. -/
def accountLimitEx (weight : Int64) (totalWeight virtualLimit maxBlockUsage : UInt64)
    (windowSize : UInt32) (usage : ExponentialMovingAverageAccumulator) (greylistLimit : UInt32)
    (currentTime : Option UInt32) : Except String (AccountResourceLimit × Bool) := do
  if weight < 0 ∨ totalWeight = 0 then
    return (⟨-1, -1, -1, usage.lastOrdinal, -1⟩, false)
  let window := windowSize.toNat
  let limit := capacityLimit virtualLimit maxBlockUsage greylistLimit
  let maxUserUseInWindow := window * limit.1.toNat * weight.toInt.toNat % 2 ^ 128 / totalWeight.toNat
  let usedInWindow := integerDivideCeil (usage.valueEx.toNat * window) Config.rateLimitingPrecision.toNat
  let available ← if maxUserUseInWindow ≤ usedInWindow then pure 0
    else downgradeCastInt64 (maxUserUseInWindow - usedInWindow)
  let used ← downgradeCastInt64 usedInWindow
  let max ← downgradeCastInt64 maxUserUseInWindow
  -- the usage decayed to `current_time`, on a copy of the accumulator
  let currentUsed ← match currentTime with
    | some slot =>
      if slot > usage.lastOrdinal then
        match (ExponentialMovingAverageAccumulator.add Config.rateLimitingPrecision 0 slot
            windowSize).run usage with
        | .ok () history => downgradeCastInt64 (integerDivideCeil (history.valueEx.toNat * window)
            Config.rateLimitingPrecision.toNat)
        | .error e _ => throw e
      else pure used
    | none => pure used
  return (⟨used, available, max, usage.lastOrdinal, currentUsed⟩, limit.2)

namespace Manager

/-- `get_account_cpu_limit_ex(name, greylist_limit, current_time)`. -/
def getAccountCpuLimitEx (m : Manager) (name : Name) (greylistLimit : UInt32)
    (currentTime : Option UInt32) : Except BlockError (AccountResourceLimit × Bool) := do
  let some usage := KeyedTable.find ResourceUsageObject.owner m.usage name
    | throw (.limits .unknownKey)
  let limits ← m.getAccountLimits name
  (accountLimitEx limits.cpuWeight m.db.state.totalCpuWeight m.block.virtualCpuLimit
    m.config.cpuLimitParameters.max m.config.accountCpuUsageAverageWindow usage.cpuUsage
    greylistLimit currentTime).mapError .assertion

/-- `get_account_net_limit_ex(name, greylist_limit, current_time)`. -/
def getAccountNetLimitEx (m : Manager) (name : Name) (greylistLimit : UInt32)
    (currentTime : Option UInt32) : Except BlockError (AccountResourceLimit × Bool) := do
  let some usage := KeyedTable.find ResourceUsageObject.owner m.usage name
    | throw (.limits .unknownKey)
  let limits ← m.getAccountLimits name
  (accountLimitEx limits.netWeight m.db.state.totalNetWeight m.block.virtualNetLimit
    m.config.netLimitParameters.max m.config.accountNetUsageAverageWindow usage.netUsage
    greylistLimit currentTime).mapError .assertion

/-- `get_account_cpu_limit(name, greylist_limit)`. -/
def getAccountCpuLimit (m : Manager) (name : Name) (greylistLimit : UInt32) :
    Except BlockError (Int64 × Bool) := do
  let limit ← m.getAccountCpuLimitEx name greylistLimit none
  pure (limit.1.available, limit.2)

/-- `get_account_net_limit(name, greylist_limit)`. -/
def getAccountNetLimit (m : Manager) (name : Name) (greylistLimit : UInt32) :
    Except BlockError (Int64 × Bool) := do
  let limit ← m.getAccountNetLimitEx name greylistLimit none
  pure (limit.1.available, limit.2)

/-- The body of the loop of `update_account_usage` for one account: both accumulators are brought
to the slot. -/
def updateAccountUsageOf (timeSlot : UInt32) (m : Manager) (a : Name) :
    Except BlockError Manager := do
  let some usage := KeyedTable.find ResourceUsageObject.owner m.usage a
    | throw (.limits .unknownKey)
  let netUsage ← addUsage usage.netUsage 0 timeSlot m.config.accountNetUsageAverageWindow
  let cpuUsage ← addUsage usage.cpuUsage 0 timeSlot m.config.accountCpuUsageAverageWindow
  pure (m.setUsage a netUsage cpuUsage)

/-- `update_account_usage(accounts, time_slot)`. -/
def updateAccountUsage (accounts : List Name) (timeSlot : UInt32) (m : Manager) :
    Except BlockError Manager :=
  accounts.foldlM (updateAccountUsageOf timeSlot) m

end Manager

/-! ### What the transaction asks of the manager -/

/-- What `transaction_context` reads of the controller to pick each account's greylist limit:
whether a block is being produced, the accounts on the resource greylist, and the configured
greylist limit. -/
structure GreylistContext where
  producing : Bool
  isResourceGreylisted : Name → Bool
  greylistLimit : UInt32

/-- The four values `max_bandwidth_billed_accounts_can_pay` returns. -/
structure BilledLimits where
  accountNetLimit : Int64
  accountCpuLimit : Int64
  greylistedNet : Bool
  greylistedCpu : Bool
deriving DecidableEq, Repr

/-- `large_number_no_overflow`: `std::numeric_limits<int64_t>::max()/2`. -/
def largeNumberNoOverflow : Int64 := 4611686018427387903

/-- The greylist limit `max_bandwidth_billed_accounts_can_pay` queries an account with: the
maximum multiplier unless a block is produced without forcing elastic limits, and then `1` for a
greylisted account and the configured limit for the others. -/
def greylistLimitFor (ctx : GreylistContext) (forceElasticLimits : Bool) (a : Name) : UInt32 :=
  if !forceElasticLimits && ctx.producing then
    if ctx.isResourceGreylisted a then 1 else ctx.greylistLimit
  else Config.maximumElasticResourceMultiplier

/-- The body of the loop of `max_bandwidth_billed_accounts_can_pay` for one account: the lowest
limit of the accounts that have one is kept. -/
def billAccount (m : Manager) (ctx : GreylistContext) (forceElasticLimits : Bool)
    (limits : BilledLimits) (a : Name) : Except BlockError BilledLimits := do
  let greylistLimit := greylistLimitFor ctx forceElasticLimits a
  let net ← m.getAccountNetLimit a greylistLimit
  let limits := if net.1 ≥ 0 then
      { limits with
        accountNetLimit := Min.min limits.accountNetLimit net.1
        greylistedNet := limits.greylistedNet || net.2 }
    else limits
  let cpu ← m.getAccountCpuLimit a greylistLimit
  pure (if cpu.1 ≥ 0 then
      { limits with
        accountCpuLimit := Min.min limits.accountCpuLimit cpu.1
        greylistedCpu := limits.greylistedCpu || cpu.2 }
    else limits)

/-- `transaction_context::max_bandwidth_billed_accounts_can_pay(force_elastic_limits)`. -/
def maxBandwidthBilledAccountsCanPay (m : Manager) (ctx : GreylistContext)
    (billToAccounts : List Name) (forceElasticLimits : Bool) : Except BlockError BilledLimits := do
  let limits ← billToAccounts.foldlM (billAccount m ctx forceElasticLimits)
    ⟨largeNumberNoOverflow, largeNumberNoOverflow, false, false⟩
  unless (!forceElasticLimits && ctx.producing) || (!limits.greylistedCpu && !limits.greylistedNet) do
    throw (.assertion "greylisted when not producing block")
  pure limits

/-! ### The accumulator under a bill -/

namespace Impl.ExponentialMovingAverageAccumulator

theorem mulRatio_error {value : UInt64} {r : Ratio} {e : String}
    (threw : mulRatio value r = .error e) :
    e = "Usage exceeds maximum value representable after extending for precision" := by
  unfold mulRatio at threw
  split at threw
  · cases threw
  · cases threw
    rfl

/-- **The texts `add` throws**: one for each of its checks, and those of `operator*` and of
`downgrade_cast`. -/
theorem add_run_error_mem {precision units : UInt64} {ordinal windowSize : UInt32}
    {s s' : ExponentialMovingAverageAccumulator} {e : String}
    (threw : (add precision units ordinal windowSize).run s = .error e s') :
    e = "Usage exceeds maximum value representable after extending for precision" ∨
      e = "Overflow in tracked usage when adding usage!" ∨
      e = "Casting a higher bit integer value ${v} to a lower bit integer value which " ++
        "cannot contain the value, valid range is [${min}, ${max}]" ∨
      e = "Overflow in accumulated value when adding usage!" ∨
      e = "new ordinal cannot be less than the previous ordinal" := by
  rw [add_run_eq] at threw
  -- the checks in the order of the decision tree, each throwing its own text
  split at threw
  · split at threw
    · split at threw
      · rename_i cast
        cases threw
        exact Or.inr (Or.inr (Or.inl (downgradeCast_error cast)))
      · split at threw
        · split at threw
          · split at threw
            · split at threw
              · split at threw
                · rename_i multiplied
                  cases threw
                  exact Or.inl (mulRatio_error multiplied)
                · cases threw
              · cases threw
            · cases threw
              exact Or.inr (Or.inr (Or.inr (Or.inr rfl)))
          · cases threw
        · cases threw
          exact Or.inr (Or.inr (Or.inr (Or.inl rfl)))
    · cases threw
      exact Or.inr (Or.inl rfl)
  · cases threw
    exact Or.inl rfl

/-- **A bill raises `value_ex` by at most its contribution**: the value is decayed, or cleared,
before the contribution is added. -/
theorem toNat_valueEx_le_of_add {precision units : UInt64} {ordinal windowSize : UInt32}
    {s s' : ExponentialMovingAverageAccumulator}
    (added : (add precision units ordinal windowSize).run s = .ok () s') :
    s'.valueEx.toNat ≤ s.valueEx.toNat + valueExContrib precision units windowSize := by
  rw [add_run_eq] at added
  split at added
  · split at added
    · split at added
      · cases added
      · rename_i contrib cast
        have contribNat := toNat_downgradeCast cast
        split at added
        · rename_i room
          have fits := add_fits_of_le_sub room
          split at added
          · split at added
            · rename_i later
              split at added
              · rename_i within
                split at added
                · cases added
                · rename_i scaled multiplied
                  cases added
                  -- the decayed value is at most the value
                  have decayed : scaled.toNat ≤ s.valueEx.toNat := by
                    refine (toNat_decayed_le later within multiplied).trans
                      (Nat.div_le_of_le_mul ?_)
                    calc s.valueEx.toNat * (windowSize.toNat - 1)
                        ≤ s.valueEx.toNat * windowSize.toNat :=
                          Nat.mul_le_mul_left _ (Nat.sub_le _ _)
                      _ = windowSize.toNat * s.valueEx.toNat := Nat.mul_comm _ _
                  show (scaled + contrib).toNat ≤ _
                  rw [toNat_add_of_fits (by omega), contribNat]
                  omega
              · cases added
                show (0 + contrib).toNat ≤ _
                rw [UInt64.zero_add, contribNat]
                omega
            · cases added
          · cases added
            show (s.valueEx + contrib).toNat ≤ _
            rw [toNat_add_of_fits fits, contribNat]
        · cases added
    · cases added
  · cases added

end Impl.ExponentialMovingAverageAccumulator

/-! ### The arithmetic of one report -/

theorem toInt_downgradeCastInt64 {val : Nat} {cast : Int64}
    (fits : downgradeCastInt64 val = .ok cast) : cast.toInt = val := by
  unfold downgradeCastInt64 at fits
  split at fits
  · rename_i below
    cases fits
    exact Int64.toInt_ofNat_of_lt (by unfold int64Max at below; omega)
  · cases fits

theorem toNat_capacityLimit_le (virtualLimit maxBlockUsage : UInt64) (greylistLimit : UInt32) :
    (capacityLimit virtualLimit maxBlockUsage greylistLimit).1.toNat ≤ virtualLimit.toNat := by
  unfold capacityLimit
  split
  · split
    · rename_i lower
      exact (UInt64.lt_iff_toNat_lt.mp lower).le
    · exact le_rfl
  · exact le_rfl

/-- Without greylisting, the capacity is that of the virtual limit. -/
theorem capacityLimit_of_le {virtualLimit maxBlockUsage : UInt64} {greylistLimit : UInt32}
    (elastic : Config.maximumElasticResourceMultiplier ≤ greylistLimit) :
    capacityLimit virtualLimit maxBlockUsage greylistLimit = (virtualLimit, false) := by
  unfold capacityLimit
  rw [if_neg (UInt32.not_lt.mpr elastic)]

/-- The share of the capacity the report computes is at most the share the check computes: the
greylist only lowers the limit, and where it does the products do not wrap. -/
theorem share_le_virtualShare {virtualLimit maxBlockUsage : UInt64} {greylistLimit : UInt32}
    {window weight total : Nat}
    (room : virtualLimit.toNat * window * weight < 2 ^ 128 ∨
      Config.maximumElasticResourceMultiplier ≤ greylistLimit) :
    window * (capacityLimit virtualLimit maxBlockUsage greylistLimit).1.toNat * weight % 2 ^ 128 /
        total ≤ virtualLimit.toNat * window * weight % 2 ^ 128 / total := by
  rcases room with fits | elastic
  · have product : window * (capacityLimit virtualLimit maxBlockUsage greylistLimit).1.toNat *
        weight ≤ virtualLimit.toNat * window * weight := by
      rw [Nat.mul_comm window]
      exact Nat.mul_le_mul_right _ (Nat.mul_le_mul_right _ (toNat_capacityLimit_le _ _ _))
    rw [Nat.mod_eq_of_lt (by omega), Nat.mod_eq_of_lt fits]
    exact Nat.div_le_div_right product
  · rw [capacityLimit_of_le elastic, Nat.mul_comm window]

/-- A bill of `units` moves the usage in the window, rounded down, at most `units` above the usage
before it rounded up, when the window is at most the precision: the contribution of the bill is
rounded up by less than one part in the window. -/
theorem add_contrib_mul_div_le {value units window precision : Nat} (positive : 0 < precision)
    (narrow : window ≤ precision) :
    (value + integerDivideCeil (units * precision) window) * window / precision ≤
      integerDivideCeil (value * window) precision + units := by
  rcases Nat.eq_zero_or_pos window with zero | windowPositive
  · rw [zero, Nat.mul_zero, Nat.zero_div]
    exact Nat.zero_le _
  unfold integerDivideCeil
  rw [ExponentialDecayAccumulator.div_add_ite_eq_ceilDiv _ _ windowPositive,
    ExponentialDecayAccumulator.div_add_ite_eq_ceilDiv _ _ positive]
  have rounded : value * window ≤ precision * (value * window ⌈/⌉ precision) :=
    (ceilDiv_le_iff_le_mul positive).mp le_rfl
  have contributed : (units * precision ⌈/⌉ window) * window ≤ units * precision + window - 1 := by
    rw [Nat.ceilDiv_eq_add_pred_div]
    exact Nat.div_mul_le_self _ _
  apply Nat.le_of_lt_succ
  rw [Nat.div_lt_iff_lt_mul positive, Nat.add_mul, Nat.succ_mul, Nat.add_mul]
  rw [Nat.mul_comm precision] at rounded
  omega

/-- An account without a limit is reported `-1` available. -/
theorem available_of_accountLimitEx_unlimited {weight : Int64}
    {totalWeight virtualLimit maxBlockUsage : UInt64} {windowSize : UInt32}
    {usage : ExponentialMovingAverageAccumulator} {greylistLimit : UInt32}
    {currentTime : Option UInt32} {limit : AccountResourceLimit} {greylisted : Bool}
    (unlimited : weight < 0 ∨ totalWeight = 0)
    (reported : accountLimitEx weight totalWeight virtualLimit maxBlockUsage windowSize usage
      greylistLimit currentTime = .ok (limit, greylisted)) :
    limit.available = -1 := by
  unfold accountLimitEx at reported
  rw [if_pos unlimited] at reported
  cases reported
  rfl

/-- **What a report leaves available** to an account with a limit: its share by weight of the
capacity of the window, less its usage in the window rounded up, and nothing where the usage
reaches the share. -/
theorem toInt_available_of_accountLimitEx {weight : Int64}
    {totalWeight virtualLimit maxBlockUsage : UInt64} {windowSize : UInt32}
    {usage : ExponentialMovingAverageAccumulator} {greylistLimit : UInt32}
    {limit : AccountResourceLimit} {greylisted : Bool}
    (limited : ¬ (weight < 0 ∨ totalWeight = 0))
    (reported : accountLimitEx weight totalWeight virtualLimit maxBlockUsage windowSize usage
      greylistLimit none = .ok (limit, greylisted)) :
    limit.available.toInt = ((windowSize.toNat *
      (capacityLimit virtualLimit maxBlockUsage greylistLimit).1.toNat * weight.toInt.toNat %
        2 ^ 128 / totalWeight.toNat -
      integerDivideCeil (usage.valueEx.toNat * windowSize.toNat)
        Config.rateLimitingPrecision.toNat : Nat) : Int) := by
  unfold accountLimitEx at reported
  rw [if_neg limited] at reported
  dsimp only at reported
  split at reported
  · rename_i reached
    obtain ⟨available, zero, reported⟩ := bind_eq_ok.mp reported
    obtain ⟨used, -, reported⟩ := bind_eq_ok.mp reported
    obtain ⟨max, -, reported⟩ := bind_eq_ok.mp reported
    cases zero
    cases reported
    rw [Nat.sub_eq_zero_of_le reached]
    rfl
  · obtain ⟨available, cast, reported⟩ := bind_eq_ok.mp reported
    obtain ⟨used, -, reported⟩ := bind_eq_ok.mp reported
    obtain ⟨max, -, reported⟩ := bind_eq_ok.mp reported
    cases reported
    exact toInt_downgradeCastInt64 cast

/-- An account with a limit is never reported less than nothing available. -/
theorem available_nonneg_of_accountLimitEx {weight : Int64}
    {totalWeight virtualLimit maxBlockUsage : UInt64} {windowSize : UInt32}
    {usage : ExponentialMovingAverageAccumulator} {greylistLimit : UInt32}
    {limit : AccountResourceLimit} {greylisted : Bool}
    (limited : ¬ (weight < 0 ∨ totalWeight = 0))
    (reported : accountLimitEx weight totalWeight virtualLimit maxBlockUsage windowSize usage
      greylistLimit none = .ok (limit, greylisted)) :
    0 ≤ limit.available.toInt := by
  rw [toInt_available_of_accountLimitEx limited reported]
  exact Int.natCast_nonneg _

/-- **The report of one resource is sound**: when it leaves a positive amount available, a bill of
at most that amount, added to the same accumulator, passes the check of `add_transaction_usage`
against the same weights and virtual limit. This needs the window to be at most the precision,
and the capacity times the weight to fit the `uint128_t` products unless the report is not
greylisted. -/
theorem withinShare_of_accountLimitEx {weight : Int64}
    {totalWeight virtualLimit maxBlockUsage : UInt64} {windowSize : UInt32}
    {usage usage' : ExponentialMovingAverageAccumulator} {greylistLimit : UInt32}
    {limit : AccountResourceLimit} {greylisted : Bool} {units : UInt64} {ordinal : UInt32}
    (narrow : windowSize.toNat ≤ Config.rateLimitingPrecision.toNat)
    (room : virtualLimit.toNat * windowSize.toNat * weight.toInt.toNat < 2 ^ 128 ∨
      Config.maximumElasticResourceMultiplier ≤ greylistLimit)
    (reported : accountLimitEx weight totalWeight virtualLimit maxBlockUsage windowSize usage
      greylistLimit none = .ok (limit, greylisted))
    (positive : 0 < limit.available.toInt) (within : (units.toNat : Int) ≤ limit.available.toInt)
    (added : (ExponentialMovingAverageAccumulator.add Config.rateLimitingPrecision units ordinal
      windowSize).run usage = .ok () usage') :
    Manager.withinShare weight totalWeight virtualLimit usage'.valueEx windowSize = true := by
  have limited : ¬ (weight < 0 ∨ totalWeight = 0) := fun unlimited => by
    rw [available_of_accountLimitEx_unlimited unlimited reported] at positive
    exact absurd positive (by decide)
  have availableEq := toInt_available_of_accountLimitEx limited reported
  -- the bill fits in what is left of the share
  have billed : integerDivideCeil (usage.valueEx.toNat * windowSize.toNat)
      Config.rateLimitingPrecision.toNat + units.toNat ≤ windowSize.toNat *
      (capacityLimit virtualLimit maxBlockUsage greylistLimit).1.toNat * weight.toInt.toNat %
      2 ^ 128 / totalWeight.toNat := by
    rw [availableEq] at within positive
    omega
  unfold Manager.withinShare
  rw [decide_eq_true_eq]
  calc usage'.valueEx.toNat * windowSize.toNat / Config.rateLimitingPrecision.toNat
      ≤ (usage.valueEx.toNat + ExponentialMovingAverageAccumulator.valueExContrib
          Config.rateLimitingPrecision units windowSize) * windowSize.toNat /
          Config.rateLimitingPrecision.toNat :=
        Nat.div_le_div_right (Nat.mul_le_mul_right _
          (ExponentialMovingAverageAccumulator.toNat_valueEx_le_of_add added))
    _ ≤ integerDivideCeil (usage.valueEx.toNat * windowSize.toNat)
          Config.rateLimitingPrecision.toNat + units.toNat :=
        add_contrib_mul_div_le (by decide) narrow
    _ ≤ windowSize.toNat * (capacityLimit virtualLimit maxBlockUsage greylistLimit).1.toNat *
          weight.toInt.toNat % 2 ^ 128 / totalWeight.toNat := billed
    _ ≤ virtualLimit.toNat * windowSize.toNat * weight.toInt.toNat % 2 ^ 128 /
          totalWeight.toNat := share_le_virtualShare room

/-! ### Billing the accounts of a transaction -/

namespace Manager

@[simp] theorem db_setUsage (m : Manager) (account : Name)
    (netUsage cpuUsage : ExponentialMovingAverageAccumulator) :
    (m.setUsage account netUsage cpuUsage).db = m.db :=
  rfl

@[simp] theorem config_setUsage (m : Manager) (account : Name)
    (netUsage cpuUsage : ExponentialMovingAverageAccumulator) :
    (m.setUsage account netUsage cpuUsage).config = m.config :=
  rfl

@[simp] theorem block_setUsage (m : Manager) (account : Name)
    (netUsage cpuUsage : ExponentialMovingAverageAccumulator) :
    (m.setUsage account netUsage cpuUsage).block = m.block :=
  rfl

theorem find_setUsage_of_ne (m : Manager) {a account : Name} (other : a ≠ account)
    (netUsage cpuUsage : ExponentialMovingAverageAccumulator) :
    KeyedTable.find ResourceUsageObject.owner (m.setUsage account netUsage cpuUsage).usage a =
      KeyedTable.find ResourceUsageObject.owner m.usage a := by
  have keepsOwner : ∀ row : ResourceUsageObject,
      ({ row with netUsage, cpuUsage } : ResourceUsageObject).owner = row.owner := fun _ => rfl
  unfold setUsage
  dsimp only
  rw [KeyedTable.find_modify keepsOwner, if_neg other]

/-- The limits of an account are read from the limits table alone. -/
theorem getAccountLimits_of_db {m m' : Manager} (sameDb : m'.db = m.db) (account : Name) :
    m'.getAccountLimits account = m.getAccountLimits account := by
  unfold getAccountLimits
  rw [sameDb]

theorem getAccountLimits_eq_error {m : Manager} {account : Name} {e : BlockError}
    (threw : m.getAccountLimits account = .error e) : e = .limits .unknownKey := by
  unfold getAccountLimits at threw
  split at threw
  · cases threw
  · split at threw
    · cases threw
    · cases threw
      rfl

/-- `acc.add` inside a modifier throws one of the texts of `add`. -/
theorem addUsage_eq_error {acc : ExponentialMovingAverageAccumulator} {units : UInt64}
    {ordinal windowSize : UInt32} {e : BlockError}
    (threw : addUsage acc units ordinal windowSize = .error e) :
    ∃ text, e = .assertion text ∧
      (text = "Usage exceeds maximum value representable after extending for precision" ∨
        text = "Overflow in tracked usage when adding usage!" ∨
        text = "Casting a higher bit integer value ${v} to a lower bit integer value which " ++
          "cannot contain the value, valid range is [${min}, ${max}]" ∨
        text = "Overflow in accumulated value when adding usage!" ∨
        text = "new ordinal cannot be less than the previous ordinal") := by
  unfold addUsage at threw
  split at threw
  · cases threw
  · rename_i text _ added
    cases threw
    exact ⟨text, rfl, ExponentialMovingAverageAccumulator.add_run_error_mem added⟩

/-- `acc.add` never throws the CPU text of `add_transaction_usage`. -/
theorem addUsage_ne_insufficientCpu (acc : ExponentialMovingAverageAccumulator) (units : UInt64)
    (ordinal windowSize : UInt32) :
    addUsage acc units ordinal windowSize ≠ .error (.assertion
      "authorizing account '${n}' has insufficient cpu resources for this transaction") := by
  intro threw
  obtain ⟨text, same, texts⟩ := addUsage_eq_error threw
  cases same
  exact absurd texts (by decide)

/-- Billing an account that returns stores new accumulators in its row, and nothing else. -/
theorem addAccountUsage_eq_setUsage {cpuUsage netUsage : UInt64} {timeSlot : UInt32}
    {m m' : Manager} {account : Name}
    (billed : m.addAccountUsage cpuUsage netUsage timeSlot account = .ok m') :
    ∃ netUsage' cpuUsage', m' = m.setUsage account netUsage' cpuUsage' := by
  unfold addAccountUsage at billed
  split at billed
  · obtain ⟨limits, -, billed⟩ := bind_eq_ok.mp billed
    obtain ⟨netUsage', -, billed⟩ := bind_eq_ok.mp billed
    obtain ⟨cpuUsage', -, billed⟩ := bind_eq_ok.mp billed
    dsimp only at billed
    obtain ⟨-, billed⟩ := ite_check_eq_ok billed
    obtain ⟨-, billed⟩ := ite_check_eq_ok billed
    cases billed
    exact ⟨netUsage', cpuUsage', rfl⟩
  · cases billed

/-- Billing other accounts leaves an account's row, the limits, the configuration and the block
state as they were. -/
theorem foldlM_addAccountUsage_keeps {cpuUsage netUsage : UInt64} {timeSlot : UInt32}
    {a : Name} : ∀ {done : List Name} {m m' : Manager}, a ∉ done →
      done.foldlM (addAccountUsage cpuUsage netUsage timeSlot) m = .ok m' →
      m'.db = m.db ∧ m'.config = m.config ∧ m'.block = m.block ∧
        KeyedTable.find ResourceUsageObject.owner m'.usage a =
          KeyedTable.find ResourceUsageObject.owner m.usage a
  | [], _, _, _, looped => by
    cases looped
    exact ⟨rfl, rfl, rfl, rfl⟩
  | account :: done, m, _, absent, looped => by
    rw [List.foldlM_cons] at looped
    obtain ⟨next, billed, looped⟩ := bind_eq_ok.mp looped
    obtain ⟨netUsage', cpuUsage', rfl⟩ := addAccountUsage_eq_setUsage billed
    have other : a ≠ account := fun same => absent (same ▸ List.mem_cons_self)
    obtain ⟨sameDb, sameConfig, sameBlock, sameRow⟩ :=
      foldlM_addAccountUsage_keeps (fun later => absent (List.mem_cons_of_mem _ later)) looped
    exact ⟨sameDb, sameConfig, sameBlock,
      sameRow.trans (find_setUsage_of_ne m other netUsage' cpuUsage')⟩

/-- **Where billing an account throws the CPU text, its CPU check failed**: its row and limits
were read, both accumulators took the bill, and the new CPU usage is outside the account's share.
No other step throws that text. -/
theorem addAccountUsage_eq_cpuShortfall {cpuUsage netUsage : UInt64} {timeSlot : UInt32}
    {m : Manager} {account : Name}
    (failed : m.addAccountUsage cpuUsage netUsage timeSlot account = .error (.assertion
      "authorizing account '${n}' has insufficient cpu resources for this transaction")) :
    ∃ usage limits cpuUsage',
      KeyedTable.find ResourceUsageObject.owner m.usage account = some usage ∧
      m.getAccountLimits account = .ok limits ∧
      addUsage usage.cpuUsage cpuUsage timeSlot m.config.accountCpuUsageAverageWindow =
        .ok cpuUsage' ∧
      (limits.cpuWeight ≥ 0 ∧ m.db.state.totalCpuWeight > 0) ∧
      withinShare limits.cpuWeight m.db.state.totalCpuWeight m.block.virtualCpuLimit
        cpuUsage'.valueEx m.config.accountCpuUsageAverageWindow = false := by
  unfold addAccountUsage at failed
  split at failed
  · rename_i usage found
    rcases bind_eq_error failed with threw | ⟨limits, read, failed⟩
    · cases getAccountLimits_eq_error threw
    rcases bind_eq_error failed with threw | ⟨netUsage', -, failed⟩
    · exact absurd threw (addUsage_ne_insufficientCpu _ _ _ _)
    rcases bind_eq_error failed with threw | ⟨cpuUsage', added, failed⟩
    · exact absurd threw (addUsage_ne_insufficientCpu _ _ _ _)
    dsimp only at failed
    rcases ite_check_eq_error failed with ⟨condition, outside, -⟩ | failed
    · exact ⟨usage, limits, cpuUsage', found, read, added, condition,
        Bool.eq_false_iff.mpr outside⟩
    -- the NET check throws its own text
    rcases ite_check_eq_error failed with ⟨-, -, text⟩ | failed
    · exact absurd (BlockError.assertion.inj text) (by decide)
    · cases failed
  · cases failed

/-- Where a transaction's billing throws, an account threw after the accounts before it were
billed, or the block check of one resource threw. -/
theorem addTransactionUsage_eq_error {accounts : List Name} {cpuUsage netUsage : UInt64}
    {timeSlot : UInt32} {m : Manager} {e : BlockError}
    (failed : m.addTransactionUsage accounts cpuUsage netUsage timeSlot = .error e) :
    (∃ done account rest before, accounts = done ++ account :: rest ∧
      done.foldlM (addAccountUsage cpuUsage netUsage timeSlot) m = .ok before ∧
      before.addAccountUsage cpuUsage netUsage timeSlot account = .error e) ∨
      e = .assertion "Block has insufficient cpu resources" ∨
      e = .assertion "Block has insufficient net resources" := by
  unfold addTransactionUsage at failed
  rcases bind_eq_error failed with looped | ⟨looped, -, failed⟩
  · exact Or.inl (foldlM_eq_error looped)
  dsimp only at failed
  rcases ite_throw_bind_eq_error failed with ⟨-, cpu⟩ | failed
  · exact Or.inr (Or.inl cpu)
  rcases ite_throw_bind_eq_error failed with ⟨-, net⟩ | failed
  · exact Or.inr (Or.inr net)
  · cases failed

/-- **Where billing distinct accounts throws the CPU text, the CPU check of one of them failed on
the state before the transaction**: the accounts billed before it left its row, the limits, the
configuration and the block state as they were. -/
theorem addTransactionUsage_eq_cpuShortfall {accounts : List Name} (distinct : accounts.Nodup)
    {cpuUsage netUsage : UInt64} {timeSlot : UInt32} {m : Manager}
    (failed : m.addTransactionUsage accounts cpuUsage netUsage timeSlot = .error (.assertion
      "authorizing account '${n}' has insufficient cpu resources for this transaction")) :
    ∃ account ∈ accounts, ∃ usage limits cpuUsage',
      KeyedTable.find ResourceUsageObject.owner m.usage account = some usage ∧
      m.getAccountLimits account = .ok limits ∧
      addUsage usage.cpuUsage cpuUsage timeSlot m.config.accountCpuUsageAverageWindow =
        .ok cpuUsage' ∧
      (limits.cpuWeight ≥ 0 ∧ m.db.state.totalCpuWeight > 0) ∧
      withinShare limits.cpuWeight m.db.state.totalCpuWeight m.block.virtualCpuLimit
        cpuUsage'.valueEx m.config.accountCpuUsageAverageWindow = false := by
  rcases addTransactionUsage_eq_error failed with
    ⟨done, account, rest, before, split, ran, threw⟩ | text | text
  · have member : account ∈ accounts := by
      rw [split]
      exact List.mem_append_right _ List.mem_cons_self
    have absent : account ∉ done := by
      rw [split] at distinct
      exact fun inDone => List.disjoint_of_nodup_append distinct inDone List.mem_cons_self
    obtain ⟨sameDb, sameConfig, sameBlock, sameRow⟩ := foldlM_addAccountUsage_keeps absent ran
    obtain ⟨usage, limits, cpuUsage', found, read, added, weighted, outside⟩ :=
      addAccountUsage_eq_cpuShortfall threw
    rw [sameRow] at found
    rw [getAccountLimits_of_db sameDb] at read
    rw [sameConfig] at added
    rw [sameDb] at weighted
    rw [sameDb, sameBlock, sameConfig] at outside
    exact ⟨account, member, usage, limits, cpuUsage', found, read, added, weighted, outside⟩
  -- the block checks throw their own texts
  · exact absurd (BlockError.assertion.inj text) (by decide)
  · exact absurd (BlockError.assertion.inj text) (by decide)

/-- What `get_account_cpu_limit` reports, read back: the row and limits of the account, and the
report of `accountLimitEx` on them. -/
theorem getAccountCpuLimit_eq_ok {m : Manager} {account : Name} {greylistLimit : UInt32}
    {available : Int64} {greylisted : Bool}
    (reported : m.getAccountCpuLimit account greylistLimit = .ok (available, greylisted)) :
    ∃ usage limits limit, KeyedTable.find ResourceUsageObject.owner m.usage account = some usage ∧
      m.getAccountLimits account = .ok limits ∧
      accountLimitEx limits.cpuWeight m.db.state.totalCpuWeight m.block.virtualCpuLimit
        m.config.cpuLimitParameters.max m.config.accountCpuUsageAverageWindow usage.cpuUsage
        greylistLimit none = .ok (limit, greylisted) ∧ limit.available = available := by
  unfold getAccountCpuLimit at reported
  obtain ⟨result, computed, reported⟩ := bind_eq_ok.mp reported
  cases reported
  unfold getAccountCpuLimitEx at computed
  split at computed
  · rename_i usage found
    obtain ⟨limits, read, computed⟩ := bind_eq_ok.mp computed
    exact ⟨usage, limits, result.1, found, read, mapError_eq_ok.mp computed, rfl⟩
  · cases computed

end Manager

/-! ### The limits of a transaction's accounts -/

theorem toInt_min (x y : Int64) : (Min.min x y).toInt = Min.min x.toInt y.toInt := by
  show (if x ≤ y then x else y).toInt = _
  split
  · rename_i below
    rw [Int64.le_iff_toInt_le] at below
    omega
  · rename_i above
    rw [Int64.le_iff_toInt_le] at above
    omega

/-- One account of `max_bandwidth_billed_accounts_can_pay` lowers the CPU limit to its own report
when it has one. -/
theorem billAccount_cpu {m : Manager} {ctx : GreylistContext} {force : Bool}
    {limits limits' : BilledLimits} {account : Name}
    (billed : billAccount m ctx force limits account = .ok limits') :
    limits'.accountCpuLimit.toInt ≤ limits.accountCpuLimit.toInt ∧
      ∃ available greylisted,
        m.getAccountCpuLimit account (greylistLimitFor ctx force account) =
          .ok (available, greylisted) ∧
        (0 ≤ available.toInt → limits'.accountCpuLimit.toInt ≤ available.toInt) := by
  unfold billAccount at billed
  obtain ⟨net, -, billed⟩ := bind_eq_ok.mp billed
  obtain ⟨cpu, reported, billed⟩ := bind_eq_ok.mp billed
  cases billed
  refine ⟨?_, cpu.1, cpu.2, reported, fun limited => ?_⟩
  -- the NET part leaves the CPU limit as it was; the CPU part takes the lower of the two
  · split
    · split <;> simp only [toInt_min] <;> omega
    · split <;> exact le_rfl
  · have hasLimit : cpu.1 ≥ 0 := by
      rw [ge_iff_le, Int64.le_iff_toInt_le, Int64.toInt_zero]
      exact limited
    rw [if_pos hasLimit]
    simp only [toInt_min]
    omega

/-- **The CPU limit a transaction is given is at most each account's report**, for every account
that has a limit. -/
theorem foldlM_billAccount_cpu {m : Manager} {ctx : GreylistContext} {force : Bool} :
    ∀ {accounts : List Name} {start result : BilledLimits},
      accounts.foldlM (billAccount m ctx force) start = .ok result →
      result.accountCpuLimit.toInt ≤ start.accountCpuLimit.toInt ∧
        ∀ account ∈ accounts, ∃ available greylisted,
          m.getAccountCpuLimit account (greylistLimitFor ctx force account) =
            .ok (available, greylisted) ∧
          (0 ≤ available.toInt → result.accountCpuLimit.toInt ≤ available.toInt)
  | [], _, _, looped => by
    cases looped
    exact ⟨le_rfl, fun _ member => absurd member List.not_mem_nil⟩
  | account :: accounts, start, result, looped => by
    rw [List.foldlM_cons] at looped
    obtain ⟨next, billed, looped⟩ := bind_eq_ok.mp looped
    obtain ⟨lowered, available, greylisted, reported, bounded⟩ := billAccount_cpu billed
    obtain ⟨loweredAfter, each⟩ := foldlM_billAccount_cpu looped
    refine ⟨loweredAfter.trans lowered, fun other member => ?_⟩
    rcases List.mem_cons.mp member with rfl | later
    · exact ⟨available, greylisted, reported, fun limited => loweredAfter.trans (bounded limited)⟩
    · exact each other later

/-- **The CPU limit `max_bandwidth_billed_accounts_can_pay` returns is at most the report of each
billed account that has a limit.** -/
theorem maxBandwidthBilledAccountsCanPay_cpu {m : Manager} {ctx : GreylistContext}
    {accounts : List Name} {force : Bool} {limits : BilledLimits}
    (queried : maxBandwidthBilledAccountsCanPay m ctx accounts force = .ok limits) :
    ∀ account ∈ accounts, ∃ available greylisted,
      m.getAccountCpuLimit account (greylistLimitFor ctx force account) =
        .ok (available, greylisted) ∧
      (0 ≤ available.toInt → limits.accountCpuLimit.toInt ≤ available.toInt) := by
  unfold maxBandwidthBilledAccountsCanPay at queried
  obtain ⟨looped, loop, queried⟩ := bind_eq_ok.mp queried
  dsimp only at queried
  obtain ⟨-, queried⟩ := ite_throw_bind_eq_ok queried
  cases queried
  exact (foldlM_billAccount_cpu loop).2

/-! ### Over the runs of the block calls -/

namespace Manager

/-- `finalize_block` changes the elastic parameters and keeps the account windows. -/
theorem finalizeBlock_accountCpuWindow {chainConfig : ChainConfig} {blockNum : UInt32}
    {m m' : Manager} (finalized : m.finalizeBlock chainConfig blockNum = .ok m') :
    m'.config.accountCpuUsageAverageWindow = m.config.accountCpuUsageAverageWindow := by
  unfold finalizeBlock at finalized
  obtain ⟨db, -, finalized⟩ := bind_eq_ok.mp finalized
  obtain ⟨parametrized, set, processed⟩ := bind_eq_ok.mp finalized
  rw [(processBlockUsage_eq_ok processed).1]
  unfold setBlockParameters at set
  obtain ⟨⟨⟩, -, set⟩ := bind_eq_ok.mp set
  obtain ⟨⟨⟩, -, set⟩ := bind_eq_ok.mp set
  split at set <;> cases set <;> rfl

/-- What the CPU reports rest on, and the block calls keep: the account window of `config.hpp`,
a CPU maximum that is a `uint32_t`, the maximum multiplier, and the virtual limits in their
bands. -/
structure ReportBounds (m : Manager) : Prop where
  cpuWindow : m.config.accountCpuUsageAverageWindow.toNat = 172800
  cpuMax : m.config.cpuLimitParameters.max.toNat < 2 ^ 32
  cpuMultiplier : m.config.cpuLimitParameters.maxMultiplier.toNat = 1000
  inBand : VirtualInBand m

theorem ReportBounds.initial : ReportBounds initializeDatabase := by
  refine ⟨rfl, ?_, rfl, VirtualInBand.initial⟩
  change (200000 : Nat) < 2 ^ 32
  norm_num

theorem ReportBounds.of_config {m m' : Manager} (bounds : ReportBounds m)
    (sameConfig : m'.config = m.config) (inBand : VirtualInBand m') : ReportBounds m' := by
  refine ⟨?_, ?_, ?_, inBand⟩
  · rw [sameConfig]
    exact bounds.cpuWindow
  · rw [sameConfig]
    exact bounds.cpuMax
  · rw [sameConfig]
    exact bounds.cpuMultiplier

/-- One call keeps the bounds: only `finalize_block` changes the CPU parameters, to those of a
chain configuration, whose maximum is a `uint32_t`. -/
theorem ReportBounds.step {m m' : Manager} (bounds : ReportBounds m) (stepped : Step m m') :
    ReportBounds m' := by
  have inBand := bounds.inBand.step stepped
  cases stepped with
  | addTransactionUsage accounts cpuUsage netUsage timeSlot billed =>
    exact bounds.of_config (addTransactionUsage_eq_ok billed).1 inBand
  | finalizeBlock chainConfig blockNum fits finalized =>
    obtain ⟨cpuSet, -, -, -⟩ := finalizeBlock_eq_ok finalized
    refine ⟨?_, ?_, ?_, inBand⟩
    · rw [finalizeBlock_accountCpuWindow finalized]
      exact bounds.cpuWindow
    · rw [cpuSet]
      change chainConfig.maxBlockCpuUsage.toUInt64.toNat < 2 ^ 32
      rw [UInt32.toNat_toUInt64]
      exact chainConfig.maxBlockCpuUsage.toNat_lt
    · rw [cpuSet]
      change Config.maximumElasticResourceMultiplier.toNat = 1000
      decide
  | other sameConfig sameBlock =>
    exact bounds.of_config sameConfig inBand

theorem reportBounds_of_reachable {m : Manager} (reachable : Reachable m) : ReportBounds m :=
  reachable.invariant ReportBounds
    (fun _ isInitial => by
      rw [isInitial]
      exact ReportBounds.initial)
    fun _ _ bounds stepped => bounds.step stepped

/-- The CPU capacity of the window times any 63-bit weight fits the `uint128_t` products:
`2^32 * 1000 * 172800 * 2^63 < 2^128`. -/
theorem ReportBounds.cpuFits {m : Manager} (bounds : ReportBounds m) (weight : Int64) :
    m.block.virtualCpuLimit.toNat * m.config.accountCpuUsageAverageWindow.toNat *
      weight.toInt.toNat < 2 ^ 128 := by
  have virtual : m.block.virtualCpuLimit.toNat ≤ 2 ^ 32 * 1000 :=
    calc m.block.virtualCpuLimit.toNat
        ≤ m.config.cpuLimitParameters.max.toNat * m.config.cpuLimitParameters.maxMultiplier.toNat :=
          bounds.inBand.cpu.2
      _ = m.config.cpuLimitParameters.max.toNat * 1000 := by rw [bounds.cpuMultiplier]
      _ ≤ 2 ^ 32 * 1000 := Nat.mul_le_mul_right _ bounds.cpuMax.le
  have weightBelow : weight.toInt.toNat < 2 ^ 63 := by
    have := weight.toInt_lt
    omega
  rw [bounds.cpuWindow]
  calc m.block.virtualCpuLimit.toNat * 172800 * weight.toInt.toNat
      ≤ 2 ^ 32 * 1000 * 172800 * weight.toInt.toNat :=
        Nat.mul_le_mul_right _ (Nat.mul_le_mul_right _ virtual)
    _ < 2 ^ 128 := by omega

/-- **A transaction billed within its CPU limit is never refused for an account's CPU share.** In
every state the block calls reach from `initialize_database`, when
`max_bandwidth_billed_accounts_can_pay` gives the distinct accounts of a transaction a positive
CPU limit, billing at most that much CPU never throws the CPU text of `add_transaction_usage`,
whatever NET is billed, at any slot, on a producing node with greylisted accounts or not. -/
theorem addTransactionUsage_ne_cpuShortfall {m : Manager} (reachable : Reachable m)
    {ctx : GreylistContext} {accounts : List Name} (distinct : accounts.Nodup) {force : Bool}
    {limits : BilledLimits}
    (queried : maxBandwidthBilledAccountsCanPay m ctx accounts force = .ok limits)
    (positive : 0 < limits.accountCpuLimit.toInt) {cpuUsage : UInt64}
    (within : (cpuUsage.toNat : Int) ≤ limits.accountCpuLimit.toInt) (netUsage : UInt64)
    (timeSlot : UInt32) :
    m.addTransactionUsage accounts cpuUsage netUsage timeSlot ≠ .error (.assertion
      "authorizing account '${n}' has insufficient cpu resources for this transaction") := by
  intro failed
  have bounds := reportBounds_of_reachable reachable
  obtain ⟨account, member, usage, accountLimits, cpuUsage', found, read, added,
    ⟨weighted, totalled⟩, outside⟩ := addTransactionUsage_eq_cpuShortfall distinct failed
  -- the account's report, on the same row and limits, is at least the limit billed within
  obtain ⟨available, greylisted, reported, bounded⟩ :=
    maxBandwidthBilledAccountsCanPay_cpu queried account member
  obtain ⟨usage₀, limits₀, limit, found₀, read₀, computed, availableEq⟩ :=
    getAccountCpuLimit_eq_ok reported
  rw [found] at found₀
  cases found₀
  rw [read] at read₀
  cases read₀
  have limited : ¬ (accountLimits.cpuWeight < 0 ∨ m.db.state.totalCpuWeight = 0) := by
    rintro (negative | zero)
    · exact absurd negative (Int64.not_lt.mpr weighted)
    · rw [zero] at totalled
      exact absurd totalled (by decide)
  have reportedNonneg := available_nonneg_of_accountLimitEx limited computed
  rw [availableEq] at reportedNonneg
  have lowered := bounded reportedNonneg
  have narrow : m.config.accountCpuUsageAverageWindow.toNat ≤
      Config.rateLimitingPrecision.toNat := by
    rw [bounds.cpuWindow]
    decide
  have passes := withinShare_of_accountLimitEx narrow (Or.inl (bounds.cpuFits _)) computed
    (by rw [availableEq]; omega) (by rw [availableEq]; omega) (addUsage_eq_ok added)
  rw [passes] at outside
  cases outside

/-- Accounts `5` and `6` after `initialize_account` and `set_account_limits` with CPU and NET
weights of `1` and `10^7` and unlimited RAM, and their usage rows: the new limits are pending
until the next block. Account calls leave the configuration and the block state as they were. -/
def stakedAccounts : Manager :=
  { initializeDatabase with
    db :=
      { limits := [⟨⟨5⟩, false, -1, -1, -1⟩, ⟨⟨6⟩, false, -1, -1, -1⟩,
          ⟨⟨5⟩, true, 1, 1, -1⟩, ⟨⟨6⟩, true, 10000000, 10000000, -1⟩],
        limitsUnique := by unfold KeyedTable.Unique; decide,
        usageOwners := [⟨5⟩, ⟨6⟩],
        usageUnique := by decide,
        state := ⟨0, 0, 0⟩ },
    usage := [⟨⟨5⟩, .initial, .initial⟩, ⟨⟨6⟩, .initial, .initial⟩],
    usageUnique := by unfold KeyedTable.Unique; decide }

example : (do
    let db ← Database.initializeDatabase.initializeAccount ⟨5⟩
    let db ← db.initializeAccount ⟨6⟩
    let (db, _) ← db.setAccountLimits ⟨5⟩ (-1) 1 1
    let (db, _) ← db.setAccountLimits ⟨6⟩ (-1) 10000000 10000000
    pure (db.limits, db.usageOwners, db.state)) =
      .ok (stakedAccounts.db.limits, stakedAccounts.db.usageOwners, stakedAccounts.db.state) :=
  rfl

/-- A block applies the pending limits, account `5` is billed `1000` microseconds, and it is then
billed exactly the CPU limit reported for it. -/
theorem addTransactionUsage_ne_cpuShortfall_staked :
    ∃ m, Reachable m ∧
      maxBandwidthBilledAccountsCanPay m ⟨false, fun _ => false, 1000⟩ [⟨5⟩] false =
        .ok ⟨18036, 2458, false, false⟩ ∧
      m.addTransactionUsage [⟨5⟩] 2458 100 3 ≠ .error (.assertion
        "authorizing account '${n}' has insufficient cpu resources for this transaction") := by
  have started : Reachable initializeDatabase := Transition.Reachable.of_initial rfl
  have staked : Reachable stakedAccounts := started.step (Step.other rfl rfl)
  -- the loop of process_account_limit_updates recurses on the number of pending rows, so its
  -- passes are unfolded by hand
  have finalized := staked.step (Step.finalizeBlock ChainConfig.initialConfiguration 1 (by decide)
    (by
      unfold finalizeBlock
      unfold Database.processAccountLimitUpdates
      unfold Database.processAccountLimitUpdates
      unfold Database.processAccountLimitUpdates
      exact rfl))
  have billed := finalized.step (Step.addTransactionUsage [⟨5⟩] 1000 100 2 rfl)
  refine ⟨_, billed, ?queried, addTransactionUsage_ne_cpuShortfall billed
    (List.nodup_singleton _) ?queried (by decide) (by decide) 100 3⟩
  exact rfl

end Manager

end Eosio.Chain.ResourceLimits
