/-
This file models the constants of `config.hpp` that the resource limits read, and
`chain_config_v0` with its `validate()`: the consensus parameters a privileged account sets, which
`finalize_block` turns into the elastic parameters of the block limits.

Percentages are fixed point with a denominator of `percent_100`. The checks of `validate()` run in
order and each throws the text of its `EOS_ASSERT`; the `uint32_t` subtractions of two of them wrap
as the code's do, and cannot once the checks before them have passed.
-/

import Mathlib

namespace Eosio.Chain.Config

/-- `config::block_interval_ms`. -/
def blockIntervalMs : UInt32 := 500

/-- `config::percent_100`. -/
def percent100 : UInt32 := 10000

/-- `config::percent_1`. -/
def percent1 : UInt32 := 100

/-- `config::account_cpu_usage_average_window_ms`. -/
def accountCpuUsageAverageWindowMs : UInt32 := 24 * 60 * 60 * 1000

/-- `config::account_net_usage_average_window_ms`. -/
def accountNetUsageAverageWindowMs : UInt32 := 24 * 60 * 60 * 1000

/-- `config::block_cpu_usage_average_window_ms`. -/
def blockCpuUsageAverageWindowMs : UInt32 := 60 * 1000

/-- `config::block_size_average_window_ms`. -/
def blockSizeAverageWindowMs : UInt32 := 60 * 1000

/-- `config::maximum_elastic_resource_multiplier`. -/
def maximumElasticResourceMultiplier : UInt32 := 1000

/-- `config::rate_limiting_precision`, read as the `uint64_t` the accumulators are instantiated
with. -/
def rateLimitingPrecision : UInt64 := 1000 * 1000

/-- `config::default_max_block_net_usage`. -/
def defaultMaxBlockNetUsage : UInt32 := 1024 * 1024

/-- `config::default_target_block_net_usage_pct`. -/
def defaultTargetBlockNetUsagePct : UInt32 := 10 * percent1

/-- `config::default_max_block_cpu_usage`. -/
def defaultMaxBlockCpuUsage : UInt32 := 200000

/-- `config::default_target_block_cpu_usage_pct`. -/
def defaultTargetBlockCpuUsagePct : UInt32 := 10 * percent1

/-- `config::default_max_transaction_net_usage`. -/
def defaultMaxTransactionNetUsage : UInt32 := defaultMaxBlockNetUsage / 2

/-- `config::default_base_per_transaction_net_usage`. -/
def defaultBasePerTransactionNetUsage : UInt32 := 12

/-- `config::default_context_free_discount_net_usage_num`. -/
def defaultContextFreeDiscountNetUsageNum : UInt32 := 20

/-- `config::default_context_free_discount_net_usage_den`. -/
def defaultContextFreeDiscountNetUsageDen : UInt32 := 100

/-- `config::default_max_transaction_cpu_usage`. -/
def defaultMaxTransactionCpuUsage : UInt32 := 3 * defaultMaxBlockCpuUsage / 4

/-- `config::default_min_transaction_cpu_usage`. -/
def defaultMinTransactionCpuUsage : UInt32 := 100

/-- `config::default_max_auth_depth`. -/
def defaultMaxAuthDepth : UInt16 := 6

/-- `config::min_net_usage_delta_between_base_and_max_for_trx`. -/
def minNetUsageDeltaBetweenBaseAndMaxForTrx : UInt32 := 10 * 1024

/-- `EOS_PERCENT(value, percentage)`: `(value * percentage) / percent_100` in `uint64_t`. -/
def eosPercent (value : UInt64) (percentage : UInt32) : UInt64 :=
  value * percentage.toUInt64 / percent100.toUInt64

end Eosio.Chain.Config

namespace Eosio.Chain

/-- The fields of `chain_config_v0` that `validate()` and `finalize_block` read. -/
structure ChainConfig where
  maxBlockNetUsage : UInt64
  targetBlockNetUsagePct : UInt32
  maxTransactionNetUsage : UInt32
  basePerTransactionNetUsage : UInt32
  contextFreeDiscountNetUsageNum : UInt32
  contextFreeDiscountNetUsageDen : UInt32
  maxBlockCpuUsage : UInt32
  targetBlockCpuUsagePct : UInt32
  maxTransactionCpuUsage : UInt32
  minTransactionCpuUsage : UInt32
  maxAuthorityDepth : UInt16

namespace ChainConfig

open Config

/-- `chain_config_v0::validate()`. -/
def validate (c : ChainConfig) : Except String Unit := do
  unless c.targetBlockNetUsagePct ≤ percent100 do
    throw "target block net usage percentage cannot exceed 100%"
  unless c.targetBlockNetUsagePct ≥ percent1 / 10 do
    throw "target block net usage percentage must be at least 0.1%"
  unless c.targetBlockCpuUsagePct ≤ percent100 do
    throw "target block cpu usage percentage cannot exceed 100%"
  unless c.targetBlockCpuUsagePct ≥ percent1 / 10 do
    throw "target block cpu usage percentage must be at least 0.1%"
  unless c.maxTransactionNetUsage.toUInt64 < c.maxBlockNetUsage do
    throw "max transaction net usage must be less than max block net usage"
  unless c.maxTransactionCpuUsage < c.maxBlockCpuUsage do
    throw "max transaction cpu usage must be less than max block cpu usage"
  unless c.basePerTransactionNetUsage < c.maxTransactionNetUsage do
    throw "base net usage per transaction must be less than the max transaction net usage"
  unless c.maxTransactionNetUsage - c.basePerTransactionNetUsage ≥
      minNetUsageDeltaBetweenBaseAndMaxForTrx do
    throw ("max transaction net usage must be at least ${delta} bytes larger than base net " ++
      "usage per transaction")
  unless c.contextFreeDiscountNetUsageDen > 0 do
    throw "net usage discount ratio for context free data cannot have a 0 denominator"
  unless c.contextFreeDiscountNetUsageNum ≤ c.contextFreeDiscountNetUsageDen do
    throw "net usage discount ratio for context free data cannot exceed 1"
  unless c.minTransactionCpuUsage ≤ c.maxTransactionCpuUsage do
    throw "min transaction cpu usage cannot exceed max transaction cpu usage"
  unless c.maxTransactionCpuUsage < c.maxBlockCpuUsage - c.minTransactionCpuUsage do
    throw ("max transaction cpu usage must be at less than the difference between the max " ++
      "block cpu usage and the min transaction cpu usage")
  unless 1 ≤ c.maxAuthorityDepth do
    throw "max authority depth should be at least 1"

/-- `genesis_state::initial_configuration`: the defaults of `config.hpp`. -/
def initialConfiguration : ChainConfig where
  maxBlockNetUsage := defaultMaxBlockNetUsage.toUInt64
  targetBlockNetUsagePct := defaultTargetBlockNetUsagePct
  maxTransactionNetUsage := defaultMaxTransactionNetUsage
  basePerTransactionNetUsage := defaultBasePerTransactionNetUsage
  contextFreeDiscountNetUsageNum := defaultContextFreeDiscountNetUsageNum
  contextFreeDiscountNetUsageDen := defaultContextFreeDiscountNetUsageDen
  maxBlockCpuUsage := defaultMaxBlockCpuUsage
  targetBlockCpuUsagePct := defaultTargetBlockCpuUsagePct
  maxTransactionCpuUsage := defaultMaxTransactionCpuUsage
  minTransactionCpuUsage := defaultMinTransactionCpuUsage
  maxAuthorityDepth := defaultMaxAuthDepth

end ChainConfig

end Eosio.Chain
