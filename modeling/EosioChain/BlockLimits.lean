/-
This file models the block limits of `resource_limits.cpp`: the elastic parameters of CPU and NET
in `resource_limits_config_object`, the block part of `resource_limits_state_object`, and the calls
that change them: `add_transaction_usage`, which bills a transaction to its accounts and to the
pending block, `set_block_parameters`, `process_block_usage`, which folds the pending block into
the moving averages and moves the virtual limits, and the resource part of `finalize_block`.

The virtual limit of a resource is what accounts are rationed against. `update_elastic_limit`
multiplies it by the contract rate when the average block usage is above the target and by the
expand rate otherwise, and clamps it to `[max, max * max_multiplier]`; every product is in
`uint64_t` and wraps, except that `operator*` of a ratio throws when it would.

Each call runs in the undo session of its transaction or block, so a call that throws leaves the
tables as they were: the calls are functions into `Except`. The rows of `resource_limits_object`
and the weight totals are those of `Database`; of `resource_usage_object` the two accumulators are
kept, and the RAM usage, which none of these calls reads, is left out.
-/

import EosioChain.ChainConfig
import EosioChain.ResourceLimits
import EosioChain.UsageAccumulator

namespace Eosio.Chain.ResourceLimits

open Impl

/-- `ratio<uint64_t>` compares field by field. -/
instance instDecidableEqRatio : DecidableEq Ratio := fun a b =>
  decidable_of_iff (a.numerator = b.numerator ∧ a.denominator = b.denominator) (by
    cases a
    cases b
    simp)

/-- `elastic_limit_parameters`. -/
structure ElasticLimitParameters where
  /-- the desired usage -/
  target : UInt64
  /-- the maximum usage -/
  max : UInt64
  /-- the number of aggregation periods that contribute to the average usage -/
  periods : UInt32
  /-- the multiplier by which virtual space can oversell usage when uncongested -/
  maxMultiplier : UInt32
  /-- the rate at which a congested resource contracts its limit -/
  contractRate : Ratio
  /-- the rate at which an uncongested resource expands its limits -/
  expandRate : Ratio
deriving DecidableEq

namespace ElasticLimitParameters

/-- `validate()`: the parameters that would make a later division by zero are refused. -/
def validate (params : ElasticLimitParameters) : Except String Unit := do
  unless params.periods > 0 do
    throw "elastic limit parameter 'periods' cannot be zero"
  unless params.contractRate.denominator > 0 do
    throw "elastic limit parameter 'contract_rate' is not a well-defined ratio"
  unless params.expandRate.denominator > 0 do
    throw "elastic limit parameter 'expand_rate' is not a well-defined ratio"

/-- `params.max * params.max_multiplier`, the ceiling of the virtual limit, in `uint64_t`. -/
def ceiling (params : ElasticLimitParameters) : UInt64 :=
  params.max * params.maxMultiplier.toUInt64

end ElasticLimitParameters

/-- `update_elastic_limit(current_limit, average_usage, params)`. -/
def updateElasticLimit (currentLimit averageUsage : UInt64) (params : ElasticLimitParameters) :
    Except String UInt64 := do
  let result ← if averageUsage > params.target then mulRatio currentLimit params.contractRate
    else mulRatio currentLimit params.expandRate
  pure (min (max result params.max) params.ceiling)

/-- `resource_limits_config_object`. -/
structure ResourceLimitsConfigObject where
  cpuLimitParameters : ElasticLimitParameters
  netLimitParameters : ElasticLimitParameters
  accountCpuUsageAverageWindow : UInt32
  accountNetUsageAverageWindow : UInt32

open Config in
/-- The configuration `initialize_database` creates: the defaults of the declaration. -/
def ResourceLimitsConfigObject.initial : ResourceLimitsConfigObject where
  cpuLimitParameters :=
    ⟨eosPercent defaultMaxBlockCpuUsage.toUInt64 defaultTargetBlockCpuUsagePct,
      defaultMaxBlockCpuUsage.toUInt64, blockCpuUsageAverageWindowMs / Config.blockIntervalMs,
      1000, ⟨99, 100⟩, ⟨1000, 999⟩⟩
  netLimitParameters :=
    ⟨eosPercent defaultMaxBlockNetUsage.toUInt64 defaultTargetBlockNetUsagePct,
      defaultMaxBlockNetUsage.toUInt64, blockSizeAverageWindowMs / Config.blockIntervalMs,
      1000, ⟨99, 100⟩, ⟨1000, 999⟩⟩
  accountCpuUsageAverageWindow := accountCpuUsageAverageWindowMs / Config.blockIntervalMs
  accountNetUsageAverageWindow := accountNetUsageAverageWindowMs / Config.blockIntervalMs

/-- The fields of `resource_limits_state_object` that the block calls read and write, beside the
weight totals of `Database.state`. -/
structure BlockUsageState where
  averageBlockNetUsage : ExponentialMovingAverageAccumulator
  averageBlockCpuUsage : ExponentialMovingAverageAccumulator
  pendingNetUsage : UInt64
  pendingCpuUsage : UInt64
  virtualNetLimit : UInt64
  virtualCpuLimit : UInt64

/-- `resource_usage_object`, without the RAM usage. -/
structure ResourceUsageObject where
  owner : Name
  netUsage : ExponentialMovingAverageAccumulator
  cpuUsage : ExponentialMovingAverageAccumulator

/-- The tables of `resource_limits_manager`: the limits and their totals, the usage rows, whose
`by_owner` index is unique, the configuration and the block state. -/
structure Manager where
  db : Database
  usage : List ResourceUsageObject
  usageUnique : KeyedTable.Unique ResourceUsageObject.owner usage
  config : ResourceLimitsConfigObject
  block : BlockUsageState

/-- The exceptions of the block calls: chainbase's and those of the account limits, and the text of
an `EOS_ASSERT`. -/
inductive BlockError where
  | limits (e : LimitsError)
  | assertion (message : String)

namespace Manager

/-- The block state `initialize_database` creates: the chain starts "congested", with the virtual
limits at the maximum. -/
def initialBlock (config : ResourceLimitsConfigObject) : BlockUsageState :=
  ⟨.initial, .initial, 0, 0, config.netLimitParameters.max, config.cpuLimitParameters.max⟩

/-- `initialize_database()`. -/
def initializeDatabase : Manager :=
  ⟨Database.initializeDatabase, [], List.nodup_nil, .initial,
    initialBlock .initial⟩

/-! ### Accumulators and limits -/

/-- `acc.add(units, ordinal, window_size)` inside a modifier: a throw aborts the call. -/
def addUsage (acc : ExponentialMovingAverageAccumulator) (units : UInt64)
    (ordinal windowSize : UInt32) : Except BlockError ExponentialMovingAverageAccumulator :=
  match (ExponentialMovingAverageAccumulator.add Config.rateLimitingPrecision units ordinal
      windowSize).run acc with
  | .ok () acc' => .ok acc'
  | .error e _ => .error (.assertion e)

/-- `get_account_limits(account)`: the pending row if there is one, else the row in force. -/
def getAccountLimits (m : Manager) (account : Name) : Except BlockError ResourceLimitsObject :=
  match KeyedTable.find ResourceLimitsObject.byOwner m.db.limits (true, account) with
  | some pending => pure pending
  | none =>
    match KeyedTable.find ResourceLimitsObject.byOwner m.db.limits (false, account) with
    | some limits => pure limits
    | none => throw (.limits .unknownKey)

/-- The check of `add_transaction_usage` for one resource of one account: the usage in the window
is at most the account's share, by weight, of the virtual capacity of the window. The products
are `uint128_t`: those of a 64-bit value and the 32-bit window never wrap, the capacity times a
63-bit weight may. -/
def withinShare (weight : Int64) (totalWeight virtualLimit valueEx : UInt64) (windowSize : UInt32) :
    Bool :=
  let capacity := virtualLimit.toNat * windowSize.toNat
  let used := valueEx.toNat * windowSize.toNat / Config.rateLimitingPrecision.toNat
  decide (used ≤ capacity * weight.toInt.toNat % 2 ^ 128 / totalWeight.toNat)

/-- Replace the accumulators of the usage row of `account`. -/
def setUsage (m : Manager) (account : Name) (netUsage cpuUsage : ExponentialMovingAverageAccumulator) :
    Manager :=
  { m with
    usage := KeyedTable.modify ResourceUsageObject.owner m.usage account
      fun row => { row with netUsage, cpuUsage }
    usageUnique := KeyedTable.unique_modify m.usageUnique account fun _ => rfl }

/-! ### The calls -/

/-- The body of the loop of `add_transaction_usage` for one account. -/
def addAccountUsage (cpuUsage netUsage : UInt64) (timeSlot : UInt32) (m : Manager) (a : Name) :
    Except BlockError Manager := do
  let some usage := KeyedTable.find ResourceUsageObject.owner m.usage a
    | throw (.limits .unknownKey)
  let limits ← m.getAccountLimits a
  let netUsage' ← addUsage usage.netUsage netUsage timeSlot m.config.accountNetUsageAverageWindow
  let cpuUsage' ← addUsage usage.cpuUsage cpuUsage timeSlot m.config.accountCpuUsageAverageWindow
  if limits.cpuWeight ≥ 0 ∧ m.db.state.totalCpuWeight > 0 then
    unless withinShare limits.cpuWeight m.db.state.totalCpuWeight m.block.virtualCpuLimit
        cpuUsage'.valueEx m.config.accountCpuUsageAverageWindow do
      throw (.assertion
        "authorizing account '${n}' has insufficient cpu resources for this transaction")
  if limits.netWeight ≥ 0 ∧ m.db.state.totalNetWeight > 0 then
    unless withinShare limits.netWeight m.db.state.totalNetWeight m.block.virtualNetLimit
        netUsage'.valueEx m.config.accountNetUsageAverageWindow do
      throw (.assertion
        "authorizing account '${n}' has insufficient net resources for this transaction")
  pure (m.setUsage a netUsage' cpuUsage')

/-- `add_transaction_usage(accounts, cpu_usage, net_usage, time_slot)`: each account is billed and
checked against its share, and the pending block is billed and checked against the maximum. -/
def addTransactionUsage (accounts : List Name) (cpuUsage netUsage : UInt64) (timeSlot : UInt32)
    (m : Manager) : Except BlockError Manager := do
  let m ← accounts.foldlM (addAccountUsage cpuUsage netUsage timeSlot) m
  let block := { m.block with
    pendingCpuUsage := m.block.pendingCpuUsage + cpuUsage
    pendingNetUsage := m.block.pendingNetUsage + netUsage }
  unless block.pendingCpuUsage ≤ m.config.cpuLimitParameters.max do
    throw (.assertion "Block has insufficient cpu resources")
  unless block.pendingNetUsage ≤ m.config.netLimitParameters.max do
    throw (.assertion "Block has insufficient net resources")
  pure { m with block }

/-- `set_block_parameters(cpu_limit_parameters, net_limit_parameters)`. -/
def setBlockParameters (cpuLimitParameters netLimitParameters : ElasticLimitParameters)
    (m : Manager) : Except BlockError Manager := do
  (cpuLimitParameters.validate).mapError .assertion
  (netLimitParameters.validate).mapError .assertion
  if m.config.cpuLimitParameters = cpuLimitParameters ∧
      m.config.netLimitParameters = netLimitParameters then
    return m
  pure { m with config := { m.config with cpuLimitParameters, netLimitParameters } }

/-- `update_virtual_cpu_limit(cfg)`. -/
def updateVirtualCpuLimit (state : BlockUsageState) (cfg : ResourceLimitsConfigObject) :
    Except String BlockUsageState := do
  let virtualCpuLimit ← updateElasticLimit state.virtualCpuLimit
    (ExponentialMovingAverageAccumulator.average Config.rateLimitingPrecision
      state.averageBlockCpuUsage.valueEx) cfg.cpuLimitParameters
  pure { state with virtualCpuLimit }

/-- `update_virtual_net_limit(cfg)`. -/
def updateVirtualNetLimit (state : BlockUsageState) (cfg : ResourceLimitsConfigObject) :
    Except String BlockUsageState := do
  let virtualNetLimit ← updateElasticLimit state.virtualNetLimit
    (ExponentialMovingAverageAccumulator.average Config.rateLimitingPrecision
      state.averageBlockNetUsage.valueEx) cfg.netLimitParameters
  pure { state with virtualNetLimit }

/-- `process_block_usage(block_num)`: for CPU and then NET, the pending usage is added to the
average, the virtual limit moves, and the pending usage is reset. -/
def processBlockUsage (blockNum : UInt32) (m : Manager) : Except BlockError Manager := do
  let config := m.config
  let averageBlockCpuUsage ← addUsage m.block.averageBlockCpuUsage m.block.pendingCpuUsage blockNum
    config.cpuLimitParameters.periods
  let state ← (updateVirtualCpuLimit { m.block with averageBlockCpuUsage } config).mapError
    .assertion
  let state := { state with pendingCpuUsage := 0 }
  let averageBlockNetUsage ← addUsage state.averageBlockNetUsage state.pendingNetUsage blockNum
    config.netLimitParameters.periods
  let state ← (updateVirtualNetLimit { state with averageBlockNetUsage } config).mapError
    .assertion
  pure { m with block := { state with pendingNetUsage := 0 } }

/-- `get_block_cpu_limit()`: what is left of the block's CPU, in `uint64_t`. -/
def getBlockCpuLimit (m : Manager) : UInt64 :=
  m.config.cpuLimitParameters.max - m.block.pendingCpuUsage

/-- `get_block_net_limit()`. -/
def getBlockNetLimit (m : Manager) : UInt64 :=
  m.config.netLimitParameters.max - m.block.pendingNetUsage

open Config in
/-- The elastic parameters `finalize_block` sets for CPU from the chain configuration. -/
def cpuParametersOf (c : ChainConfig) : ElasticLimitParameters :=
  ⟨eosPercent c.maxBlockCpuUsage.toUInt64 c.targetBlockCpuUsagePct, c.maxBlockCpuUsage.toUInt64,
    blockCpuUsageAverageWindowMs / Config.blockIntervalMs, maximumElasticResourceMultiplier,
    ⟨99, 100⟩, ⟨1000, 999⟩⟩

open Config in
/-- The elastic parameters `finalize_block` sets for NET from the chain configuration. -/
def netParametersOf (c : ChainConfig) : ElasticLimitParameters :=
  ⟨eosPercent c.maxBlockNetUsage c.targetBlockNetUsagePct, c.maxBlockNetUsage,
    blockSizeAverageWindowMs / Config.blockIntervalMs, maximumElasticResourceMultiplier,
    ⟨99, 100⟩, ⟨1000, 999⟩⟩

/-- The resource limits part of `finalize_block`: the pending limits are applied, the block
parameters are set from the chain configuration, and the block's usage is processed. -/
def finalizeBlock (chainConfig : ChainConfig) (blockNum : UInt32) (m : Manager) :
    Except BlockError Manager := do
  let db ← m.db.processAccountLimitUpdates.mapError .limits
  let m ← setBlockParameters (cpuParametersOf chainConfig) (netParametersOf chainConfig) { m with db }
  m.processBlockUsage blockNum

end Manager

end Eosio.Chain.ResourceLimits
