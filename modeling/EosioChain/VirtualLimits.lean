/-
This file proves what the block calls of the resource limits keep of the virtual limits.

The declaration of `resource_limits_state_object` says what the virtual limit is for: its lowest
value is the maximum block usage and its highest value `max_multiplier` times that, it decreases
while the average block usage is above the target and increases otherwise. `update_elastic_limit`
clamps its result to that band, so the band holds after every `process_block_usage` that returns,
with the parameters it ran with, as long as `max * max_multiplier` does not wrap. The parameters
change only in `finalize_block`, just before `process_block_usage`; the chain starts with its
virtual limits at the maximum. So the band holds in every state, for CPU always, whose maximum is
a `uint32_t`, and for NET while the maximum block net usage stays below `2^64 / 1000`.

Under congestion the virtual CPU limit contracts by `99/100`, and so by at least one microsecond
a block until it reaches the maximum: `k` congested blocks bring it down by `k` or to the maximum,
whatever transactions come between them.

The NET maximum is a `uint64_t` that `chain_config::validate()` does not bound. Once the virtual
NET limit exceeds `(2^64 - 1) / 1000`, the expansion by `1000/999` of an uncongested block fails
the check of `operator*` of a ratio, and `finalize_block` throws: after a first block, every block
is finalized only while the average NET usage is above the target.
-/

import EosioChain.BlockLimits

namespace Eosio.Chain.ResourceLimits

open Impl Transition

/-! ### The band of one update -/

namespace ElasticLimitParameters

/-- The rate `update_elastic_limit` applies for an average usage. -/
def rateFor (params : ElasticLimitParameters) (averageUsage : UInt64) : Ratio :=
  if averageUsage > params.target then params.contractRate else params.expandRate

/-- The clamp of `update_elastic_limit`. -/
def clamp (params : ElasticLimitParameters) (result : UInt64) : UInt64 :=
  Min.min (Max.max result params.max) params.ceiling

/-- The band of the virtual limit, `[max, max * max_multiplier]`, on natural numbers. -/
def InBand (params : ElasticLimitParameters) (limit : UInt64) : Prop :=
  params.max.toNat ≤ limit.toNat ∧ limit.toNat ≤ params.max.toNat * params.maxMultiplier.toNat

/-- Parameters whose band is one: a multiplier of at least one, and a ceiling that does not
wrap. -/
structure Banded (params : ElasticLimitParameters) : Prop where
  multiplier : 1 ≤ params.maxMultiplier.toNat
  ceiling : params.max.toNat * params.maxMultiplier.toNat < 2 ^ 64

theorem toNat_ceiling {params : ElasticLimitParameters} (banded : Banded params) :
    params.ceiling.toNat = params.max.toNat * params.maxMultiplier.toNat := by
  unfold ceiling
  rw [UInt64.toNat_mul, UInt32.toNat_toUInt64, Nat.mod_eq_of_lt banded.ceiling]

/-- **The clamp lands in the band.** -/
theorem inBand_clamp {params : ElasticLimitParameters} (banded : Banded params) (result : UInt64) :
    InBand params (params.clamp result) := by
  have atLeast : params.max.toNat ≤ params.max.toNat * params.maxMultiplier.toNat :=
    Nat.le_mul_of_pos_right _ banded.multiplier
  unfold clamp InBand
  rw [UInt64.toNat_min, UInt64.toNat_max, toNat_ceiling banded]
  omega

/-- The clamp raises nothing above the larger of the result and the maximum. -/
theorem toNat_clamp_le (params : ElasticLimitParameters) (result : UInt64) :
    (params.clamp result).toNat ≤ result.toNat ∨ (params.clamp result).toNat ≤ params.max.toNat := by
  unfold clamp
  rw [UInt64.toNat_min, UInt64.toNat_max]
  exact le_max_iff.mp (min_le_left _ _)

/-- The clamp is at least the maximum when the ceiling, wrapped or not, is. -/
theorem max_le_clamp {params : ElasticLimitParameters} (belowCeiling : params.max ≤ params.ceiling)
    (result : UInt64) : params.max.toNat ≤ (params.clamp result).toNat := by
  rw [UInt64.le_iff_toNat_le] at belowCeiling
  unfold clamp
  rw [UInt64.toNat_min, UInt64.toNat_max]
  omega

end ElasticLimitParameters

open ElasticLimitParameters

/-- `update_elastic_limit` multiplies by the rate the average selects, and clamps. -/
theorem updateElasticLimit_eq_ok {current averageUsage limit : UInt64}
    {params : ElasticLimitParameters}
    (updated : updateElasticLimit current averageUsage params = .ok limit) :
    ∃ result, mulRatio current (params.rateFor averageUsage) = .ok result ∧
      limit = params.clamp result := by
  unfold updateElasticLimit at updated
  dsimp only at updated
  unfold rateFor
  split at updated
  · rename_i congested
    rw [if_pos congested]
    obtain ⟨result, multiplied, clamped⟩ := bind_eq_ok.mp updated
    exact ⟨result, multiplied, (Except.ok.inj clamped).symm⟩
  · rename_i uncongested
    rw [if_neg uncongested]
    obtain ⟨result, multiplied, clamped⟩ := bind_eq_ok.mp updated
    exact ⟨result, multiplied, (Except.ok.inj clamped).symm⟩

/-- **The rate `99/100` takes at least one off a positive limit.** (`0` stays `0`.) -/
theorem toNat_contract_le {current result : UInt64}
    (multiplied : mulRatio current ⟨99, 100⟩ = .ok result) :
    result.toNat ≤ current.toNat - 1 := by
  rw [ExponentialMovingAverageAccumulator.toNat_mulRatio multiplied]
  change current.toNat * 99 / 100 ≤ current.toNat - 1
  omega

/-- The product by the rate `1000/999` fails once the limit exceeds `(2^64 - 1) / 1000`. -/
theorem mulRatio_expand_error {current : UInt64} (large : (2 ^ 64 - 1) / 1000 < current.toNat) :
    mulRatio current ⟨1000, 999⟩ =
      .error "Usage exceeds maximum value representable after extending for precision" := by
  unfold mulRatio
  rw [if_neg]
  · rfl
  rintro (zero | fits)
  · exact absurd zero (by decide)
  · rw [ge_iff_le, UInt64.le_iff_toNat_le, UInt64.toNat_div, toNat_uint64Max] at fits
    exact absurd fits (by change ¬current.toNat ≤ (2 ^ 64 - 1) / 1000; omega)

/-! ### What each block call does to the configuration and the block state -/

namespace Manager

theorem addUsage_eq_ok {acc acc' : ExponentialMovingAverageAccumulator} {units : UInt64}
    {ordinal windowSize : UInt32} (added : addUsage acc units ordinal windowSize = .ok acc') :
    (ExponentialMovingAverageAccumulator.add Config.rateLimitingPrecision units ordinal
      windowSize).run acc = .ok () acc' := by
  unfold addUsage at added
  split at added
  · cases added
    assumption
  · cases added

/-- Billing an account changes only its usage row. -/
theorem addAccountUsage_eq_ok {cpuUsage netUsage : UInt64} {timeSlot : UInt32} {m m' : Manager}
    {a : Name} (billed : m.addAccountUsage cpuUsage netUsage timeSlot a = .ok m') :
    m'.config = m.config ∧ m'.block = m.block := by
  unfold addAccountUsage at billed
  split at billed
  · rename_i usage _
    obtain ⟨limits, -, billed⟩ := bind_eq_ok.mp billed
    obtain ⟨netUsage', -, billed⟩ := bind_eq_ok.mp billed
    obtain ⟨cpuUsage', -, billed⟩ := bind_eq_ok.mp billed
    dsimp only at billed
    -- the two share checks throw or pass, and the row is stored after them
    obtain ⟨-, billed⟩ := ite_check_eq_ok billed
    obtain ⟨-, billed⟩ := ite_check_eq_ok billed
    cases billed
    exact ⟨rfl, rfl⟩
  · cases billed

/-- **A transaction changes neither the configuration nor the virtual limits**: only the usage
rows and the pending usage of the block. -/
theorem addTransactionUsage_eq_ok {accounts : List Name} {cpuUsage netUsage : UInt64}
    {timeSlot : UInt32} {m m' : Manager}
    (billed : m.addTransactionUsage accounts cpuUsage netUsage timeSlot = .ok m') :
    m'.config = m.config ∧ m'.block.virtualCpuLimit = m.block.virtualCpuLimit ∧
      m'.block.virtualNetLimit = m.block.virtualNetLimit := by
  unfold addTransactionUsage at billed
  obtain ⟨looped, loop, billed⟩ := bind_eq_ok.mp billed
  -- the loop over the accounts keeps the configuration and the block state, pass by pass
  have kept : looped.config = m.config ∧ looped.block = m.block := by
    have passes := foldlM_eq_ok_run loop
    clear loop billed
    induction passes with
    | refl => exact ⟨rfl, rfl⟩
    | tail _ pass keptBefore =>
      obtain ⟨a, passed⟩ := pass
      obtain ⟨sameConfig, sameBlock⟩ := addAccountUsage_eq_ok passed
      exact ⟨sameConfig.trans keptBefore.1, sameBlock.trans keptBefore.2⟩
  dsimp only at billed
  obtain ⟨-, billed⟩ := ite_throw_bind_eq_ok billed
  obtain ⟨-, billed⟩ := ite_throw_bind_eq_ok billed
  cases billed
  rw [← kept.2]
  exact ⟨kept.1, rfl, rfl⟩

/-- `set_block_parameters` installs the parameters it is given, and changes nothing else. -/
theorem setBlockParameters_eq_ok {cpu net : ElasticLimitParameters} {m m' : Manager}
    (set : m.setBlockParameters cpu net = .ok m') :
    m'.config.cpuLimitParameters = cpu ∧ m'.config.netLimitParameters = net ∧
      m'.block = m.block := by
  unfold setBlockParameters at set
  obtain ⟨⟨⟩, -, set⟩ := bind_eq_ok.mp set
  obtain ⟨⟨⟩, -, set⟩ := bind_eq_ok.mp set
  split at set
  · rename_i same
    cases set
    exact ⟨same.1, same.2, rfl⟩
  · cases set
    exact ⟨rfl, rfl, rfl⟩

/-- An update of the virtual CPU limit sets it to the clamp of the product. -/
theorem updateVirtualCpuLimit_eq_ok {state state' : BlockUsageState}
    {cfg : ResourceLimitsConfigObject} (updated : updateVirtualCpuLimit state cfg = .ok state') :
    ∃ result, mulRatio state.virtualCpuLimit (cfg.cpuLimitParameters.rateFor
        (ExponentialMovingAverageAccumulator.average Config.rateLimitingPrecision
          state.averageBlockCpuUsage.valueEx)) = .ok result ∧
      state' = { state with virtualCpuLimit := cfg.cpuLimitParameters.clamp result } := by
  unfold updateVirtualCpuLimit at updated
  obtain ⟨limit, elastic, set⟩ := bind_eq_ok.mp updated
  obtain ⟨result, multiplied, rfl⟩ := updateElasticLimit_eq_ok elastic
  cases set
  exact ⟨result, multiplied, rfl⟩

/-- An update of the virtual NET limit sets it to the clamp of the product. -/
theorem updateVirtualNetLimit_eq_ok {state state' : BlockUsageState}
    {cfg : ResourceLimitsConfigObject} (updated : updateVirtualNetLimit state cfg = .ok state') :
    ∃ result, mulRatio state.virtualNetLimit (cfg.netLimitParameters.rateFor
        (ExponentialMovingAverageAccumulator.average Config.rateLimitingPrecision
          state.averageBlockNetUsage.valueEx)) = .ok result ∧
      state' = { state with virtualNetLimit := cfg.netLimitParameters.clamp result } := by
  unfold updateVirtualNetLimit at updated
  obtain ⟨limit, elastic, set⟩ := bind_eq_ok.mp updated
  obtain ⟨result, multiplied, rfl⟩ := updateElasticLimit_eq_ok elastic
  cases set
  exact ⟨result, multiplied, rfl⟩

/-- What `process_block_usage` does, when it returns: each virtual limit is the clamp of its
product by the rate the new average selects, and the configuration is kept. -/
theorem processBlockUsage_eq_ok {blockNum : UInt32} {m m' : Manager}
    (processed : m.processBlockUsage blockNum = .ok m') :
    m'.config = m.config ∧
      (∃ result, mulRatio m.block.virtualCpuLimit (m.config.cpuLimitParameters.rateFor
        (ExponentialMovingAverageAccumulator.average Config.rateLimitingPrecision
          m'.block.averageBlockCpuUsage.valueEx)) = .ok result ∧
        m'.block.virtualCpuLimit = m.config.cpuLimitParameters.clamp result) ∧
      (∃ result, mulRatio m.block.virtualNetLimit (m.config.netLimitParameters.rateFor
        (ExponentialMovingAverageAccumulator.average Config.rateLimitingPrecision
          m'.block.averageBlockNetUsage.valueEx)) = .ok result ∧
        m'.block.virtualNetLimit = m.config.netLimitParameters.clamp result) := by
  unfold processBlockUsage at processed
  obtain ⟨cpuAverage, -, processed⟩ := bind_eq_ok.mp processed
  obtain ⟨cpuState, cpuUpdated, processed⟩ := bind_eq_ok.mp processed
  obtain ⟨netAverage, -, processed⟩ := bind_eq_ok.mp processed
  obtain ⟨netState, netUpdated, processed⟩ := bind_eq_ok.mp processed
  cases processed
  obtain ⟨cpuResult, cpuMultiplied, rfl⟩ := updateVirtualCpuLimit_eq_ok (mapError_eq_ok.mp cpuUpdated)
  obtain ⟨netResult, netMultiplied, rfl⟩ := updateVirtualNetLimit_eq_ok (mapError_eq_ok.mp netUpdated)
  exact ⟨rfl, ⟨cpuResult, cpuMultiplied, rfl⟩, ⟨netResult, netMultiplied, rfl⟩⟩

/-- What `finalize_block` does to the configuration and the virtual limits, when it returns: the
parameters come from the chain configuration, and each virtual limit is clamped with them. -/
theorem finalizeBlock_eq_ok {chainConfig : ChainConfig} {blockNum : UInt32} {m m' : Manager}
    (finalized : m.finalizeBlock chainConfig blockNum = .ok m') :
    m'.config.cpuLimitParameters = cpuParametersOf chainConfig ∧
      m'.config.netLimitParameters = netParametersOf chainConfig ∧
      (∃ result, mulRatio m.block.virtualCpuLimit ((cpuParametersOf chainConfig).rateFor
        (ExponentialMovingAverageAccumulator.average Config.rateLimitingPrecision
          m'.block.averageBlockCpuUsage.valueEx)) = .ok result ∧
        m'.block.virtualCpuLimit = (cpuParametersOf chainConfig).clamp result) ∧
      (∃ result, mulRatio m.block.virtualNetLimit ((netParametersOf chainConfig).rateFor
        (ExponentialMovingAverageAccumulator.average Config.rateLimitingPrecision
          m'.block.averageBlockNetUsage.valueEx)) = .ok result ∧
        m'.block.virtualNetLimit = (netParametersOf chainConfig).clamp result) := by
  unfold finalizeBlock at finalized
  obtain ⟨db, -, finalized⟩ := bind_eq_ok.mp finalized
  obtain ⟨parametrized, set, processed⟩ := bind_eq_ok.mp finalized
  obtain ⟨cpuSet, netSet, sameBlock⟩ := setBlockParameters_eq_ok set
  obtain ⟨sameConfig, cpuMoved, netMoved⟩ := processBlockUsage_eq_ok processed
  rw [sameConfig, cpuSet, netSet, sameBlock] at *
  exact ⟨rfl, rfl, cpuMoved, netMoved⟩

/-- With no pending limits, `process_account_limit_updates` changes nothing. -/
theorem processAccountLimitUpdates_of_idle {db : Database} (idle : db.firstPending = none) :
    db.processAccountLimitUpdates = .ok db := by
  rw [Database.processAccountLimitUpdates]
  split
  · rfl
  · rename_i chosen
    rw [idle] at chosen
    cases chosen

/-- With no pending limits, `finalize_block` sets the parameters and processes the block. -/
theorem finalizeBlock_of_idle {m : Manager} (idle : m.db.firstPending = none) (c : ChainConfig)
    (blockNum : UInt32) :
    m.finalizeBlock c blockNum = (m.setBlockParameters (cpuParametersOf c)
      (netParametersOf c)).bind (processBlockUsage blockNum) := by
  unfold finalizeBlock
  rw [processAccountLimitUpdates_of_idle idle]
  rfl

/-! ### The band over runs -/

/-- The parameters `finalize_block` sets for CPU keep a band: its maximum is a `uint32_t`. -/
theorem banded_cpuParametersOf (c : ChainConfig) : Banded (cpuParametersOf c) := by
  have below := c.maxBlockCpuUsage.toNat_lt
  refine ⟨?_, ?_⟩
  · change 1 ≤ Config.maximumElasticResourceMultiplier.toNat
    decide
  change c.maxBlockCpuUsage.toUInt64.toNat * (1000 : UInt32).toNat < 2 ^ 64
  rw [UInt32.toNat_toUInt64]
  change c.maxBlockCpuUsage.toNat * 1000 < 2 ^ 64
  omega

/-- The parameters `finalize_block` sets for NET keep a band when its ceiling does not wrap. -/
theorem banded_netParametersOf {c : ChainConfig} (fits : c.maxBlockNetUsage.toNat * 1000 < 2 ^ 64) :
    Banded (netParametersOf c) := by
  refine ⟨?_, fits⟩
  change 1 ≤ Config.maximumElasticResourceMultiplier.toNat
  decide

/-- One call on the manager that returns: a transaction; the resource part of `finalize_block`,
with a chain configuration whose NET ceiling `max_block_net_usage * 1000` does not wrap; or any
other call that leaves the configuration and the block state as they were, as the account calls
do. -/
inductive Step : Manager → Manager → Prop
  | addTransactionUsage {m m' : Manager} (accounts : List Name) (cpuUsage netUsage : UInt64)
      (timeSlot : UInt32) :
      m.addTransactionUsage accounts cpuUsage netUsage timeSlot = .ok m' → Step m m'
  | finalizeBlock {m m' : Manager} (chainConfig : ChainConfig) (blockNum : UInt32) :
      chainConfig.maxBlockNetUsage.toNat * 1000 < 2 ^ 64 →
      m.finalizeBlock chainConfig blockNum = .ok m' → Step m m'
  | other {m m' : Manager} : m'.config = m.config → m'.block = m.block → Step m m'

/-- The managers reached from `initialize_database`. -/
def Reachable : Manager → Prop :=
  Transition.Reachable (· = initializeDatabase) Step

/-- Both virtual limits lie in the bands of the configuration. -/
structure VirtualInBand (m : Manager) : Prop where
  cpu : m.config.cpuLimitParameters.InBand m.block.virtualCpuLimit
  net : m.config.netLimitParameters.InBand m.block.virtualNetLimit

theorem VirtualInBand.initial : VirtualInBand initializeDatabase :=
  ⟨⟨le_rfl, by decide⟩, ⟨le_rfl, by decide⟩⟩

theorem VirtualInBand.of_same {m m' : Manager} (inBand : VirtualInBand m)
    (sameConfig : m'.config = m.config) (sameCpu : m'.block.virtualCpuLimit = m.block.virtualCpuLimit)
    (sameNet : m'.block.virtualNetLimit = m.block.virtualNetLimit) : VirtualInBand m' := by
  refine ⟨?_, ?_⟩
  · rw [sameConfig, sameCpu]
    exact inBand.cpu
  · rw [sameConfig, sameNet]
    exact inBand.net

/-- **One call keeps the virtual limits in their bands.** A finalized block clamps them into the
bands of its new parameters, whatever they were before. -/
theorem VirtualInBand.step {m m' : Manager} (inBand : VirtualInBand m) (stepped : Step m m') :
    VirtualInBand m' := by
  cases stepped with
  | addTransactionUsage accounts cpuUsage netUsage timeSlot billed =>
    obtain ⟨sameConfig, sameCpu, sameNet⟩ := addTransactionUsage_eq_ok billed
    exact inBand.of_same sameConfig sameCpu sameNet
  | finalizeBlock chainConfig blockNum fits finalized =>
    obtain ⟨cpuSet, netSet, ⟨cpuResult, -, cpuClamped⟩, ⟨netResult, -, netClamped⟩⟩ :=
      finalizeBlock_eq_ok finalized
    refine ⟨?_, ?_⟩
    · rw [cpuSet, cpuClamped]
      exact inBand_clamp (banded_cpuParametersOf chainConfig) cpuResult
    · rw [netSet, netClamped]
      exact inBand_clamp (banded_netParametersOf fits) netResult
  | other sameConfig sameBlock =>
    exact inBand.of_same sameConfig (by rw [sameBlock]) (by rw [sameBlock])

/-! ### Congestion -/

/-- `k` blocks finalized with the chain configuration `c`, each with its average CPU usage above
the target once the block is added, and between them transactions and other calls that leave the
block state as it was. -/
inductive CongestedBlocks (c : ChainConfig) : Nat → Manager → Manager → Prop
  | none (m : Manager) : CongestedBlocks c 0 m m
  | block {k : Nat} {m m' m'' : Manager} (blockNum : UInt32) :
      m.finalizeBlock c blockNum = .ok m' →
      (cpuParametersOf c).target < ExponentialMovingAverageAccumulator.average
        Config.rateLimitingPrecision m'.block.averageBlockCpuUsage.valueEx →
      CongestedBlocks c k m' m'' → CongestedBlocks c (k + 1) m m''
  | transaction {k : Nat} {m m' m'' : Manager} (accounts : List Name) (cpuUsage netUsage : UInt64)
      (timeSlot : UInt32) :
      m.addTransactionUsage accounts cpuUsage netUsage timeSlot = .ok m' →
      CongestedBlocks c k m' m'' → CongestedBlocks c k m m''
  | other {k : Nat} {m m' m'' : Manager} :
      m'.block = m.block → CongestedBlocks c k m' m'' → CongestedBlocks c k m m''

/-- A congested block takes at least one microsecond off the virtual CPU limit, or brings it to
the maximum. -/
theorem virtualCpuLimit_le_of_congested {c : ChainConfig} {blockNum : UInt32} {m m' : Manager}
    (finalized : m.finalizeBlock c blockNum = .ok m')
    (congested : (cpuParametersOf c).target < ExponentialMovingAverageAccumulator.average
      Config.rateLimitingPrecision m'.block.averageBlockCpuUsage.valueEx) :
    m'.block.virtualCpuLimit.toNat ≤ m.block.virtualCpuLimit.toNat - 1 ∨
      m'.block.virtualCpuLimit.toNat ≤ c.maxBlockCpuUsage.toNat := by
  obtain ⟨-, -, ⟨result, multiplied, clamped⟩, -⟩ := finalizeBlock_eq_ok finalized
  have contracting : (cpuParametersOf c).rateFor
      (ExponentialMovingAverageAccumulator.average Config.rateLimitingPrecision
        m'.block.averageBlockCpuUsage.valueEx) = ⟨99, 100⟩ := by
    unfold rateFor
    rw [if_pos congested]
    rfl
  rw [contracting] at multiplied
  have shrunk := toNat_contract_le multiplied
  have maximum : (cpuParametersOf c).max.toNat = c.maxBlockCpuUsage.toNat :=
    UInt32.toNat_toUInt64 _
  rw [clamped]
  rcases toNat_clamp_le (cpuParametersOf c) result with belowResult | belowMaximum
  · exact .inl (belowResult.trans shrunk)
  · exact .inr (maximum ▸ belowMaximum)

/-- **Congestion brings the virtual CPU limit down to the maximum.** After `k` congested blocks
with one chain configuration, the virtual CPU limit is `k` microseconds lower, or at most the
maximum block CPU usage. -/
theorem virtualCpuLimit_le_of_congestedBlocks {c : ChainConfig} {k : Nat} {m m' : Manager}
    (blocks : CongestedBlocks c k m m') :
    m'.block.virtualCpuLimit.toNat ≤ m.block.virtualCpuLimit.toNat - k ∨
      m'.block.virtualCpuLimit.toNat ≤ c.maxBlockCpuUsage.toNat := by
  induction blocks with
  | none => exact .inl (Nat.le_refl _)
  | block blockNum finalized congested _ inductionHypothesis =>
    -- the first block takes one off or reaches the maximum; the rest take the others off
    rcases virtualCpuLimit_le_of_congested finalized congested with shrunk | reached
    · rcases inductionHypothesis with later | atMaximum
      · exact .inl (by omega)
      · exact .inr atMaximum
    · rcases inductionHypothesis with later | atMaximum
      · exact .inr (by omega)
      · exact .inr atMaximum
  | transaction accounts cpuUsage netUsage timeSlot billed _ inductionHypothesis =>
    -- a transaction leaves the virtual CPU limit as it was
    rw [← (addTransactionUsage_eq_ok billed).2.1]
    exact inductionHypothesis
  | other sameBlock _ inductionHypothesis =>
    rw [← sameBlock]
    exact inductionHypothesis

/-- The genesis configuration with a CPU target of `0.1%`, the least `validate()` accepts. -/
def busyCpuConfig : ChainConfig :=
  { ChainConfig.initialConfiguration with targetBlockCpuUsagePct := 10 }

/-- An empty block raises the virtual CPU limit above the maximum; a transaction of `100000`
microseconds then makes the next block congested. -/
theorem virtualCpuLimit_le_of_congestedBlocks_busyCpuConfig :
    busyCpuConfig.validate = .ok () ∧
      ∃ m m'', initializeDatabase.finalizeBlock busyCpuConfig 1 = .ok m ∧
        CongestedBlocks busyCpuConfig 1 m m'' ∧
        (m''.block.virtualCpuLimit.toNat ≤ m.block.virtualCpuLimit.toNat - 1 ∨
          m''.block.virtualCpuLimit.toNat ≤ busyCpuConfig.maxBlockCpuUsage.toNat) := by
  obtain ⟨m, first, m', billed, m'', second, congested⟩ :
      ∃ m, initializeDatabase.finalizeBlock busyCpuConfig 1 = .ok m ∧
        ∃ m', m.addTransactionUsage [] 100000 0 1 = .ok m' ∧
        ∃ m'', m'.finalizeBlock busyCpuConfig 2 = .ok m'' ∧
          (cpuParametersOf busyCpuConfig).target < ExponentialMovingAverageAccumulator.average
            Config.rateLimitingPrecision m''.block.averageBlockCpuUsage.valueEx :=
    ⟨_, Eq.trans (finalizeBlock_of_idle rfl _ _) rfl, _, rfl, _,
      Eq.trans (finalizeBlock_of_idle rfl _ _) rfl, by decide⟩
  have blocks : CongestedBlocks busyCpuConfig 1 m m'' :=
    .transaction [] 100000 0 1 billed (.block 2 second congested (.none m''))
  exact ⟨by decide, m, m'', first, blocks, virtualCpuLimit_le_of_congestedBlocks blocks⟩

/-! ### A NET maximum past the range of the expansion -/

/-- A block is finalized, with a virtual NET limit above `(2^64 - 1) / 1000`, only if its average
NET usage is above the target: the expansion by `1000/999` of an uncongested block throws. -/
theorem netTarget_lt_of_finalizeBlock {c : ChainConfig} {blockNum : UInt32} {m m' : Manager}
    (large : (2 ^ 64 - 1) / 1000 < m.block.virtualNetLimit.toNat)
    (finalized : m.finalizeBlock c blockNum = .ok m') :
    (netParametersOf c).target < ExponentialMovingAverageAccumulator.average
      Config.rateLimitingPrecision m'.block.averageBlockNetUsage.valueEx := by
  obtain ⟨-, -, -, ⟨result, multiplied, -⟩⟩ := finalizeBlock_eq_ok finalized
  by_contra uncongested
  have expanding : (netParametersOf c).rateFor
      (ExponentialMovingAverageAccumulator.average Config.rateLimitingPrecision
        m'.block.averageBlockNetUsage.valueEx) = ⟨1000, 999⟩ := by
    unfold rateFor
    rw [if_neg uncongested]
    rfl
  rw [expanding, mulRatio_expand_error large] at multiplied
  cases multiplied

/-- One call in a run of blocks finalized with the chain configuration `c`: a transaction, a block
finalized with `c`, or another call that leaves the block state as it was. -/
inductive StepWith (c : ChainConfig) : Manager → Manager → Prop
  | addTransactionUsage {m m' : Manager} (accounts : List Name) (cpuUsage netUsage : UInt64)
      (timeSlot : UInt32) :
      m.addTransactionUsage accounts cpuUsage netUsage timeSlot = .ok m' → StepWith c m m'
  | finalizeBlock {m m' : Manager} (blockNum : UInt32) :
      m.finalizeBlock c blockNum = .ok m' → StepWith c m m'
  | other {m m' : Manager} : m'.block = m.block → StepWith c m m'

section NetCeiling

variable {c : ChainConfig} (belowCeiling : c.maxBlockNetUsage ≤ (netParametersOf c).ceiling)
include belowCeiling

/-- A block finalized with `c` leaves the virtual NET limit at least the maximum, when the ceiling
`max * 1000`, wrapped or not, is. -/
theorem maxBlockNetUsage_le_of_finalizeBlock {blockNum : UInt32} {m m' : Manager}
    (finalized : m.finalizeBlock c blockNum = .ok m') :
    c.maxBlockNetUsage.toNat ≤ m'.block.virtualNetLimit.toNat := by
  obtain ⟨-, -, -, ⟨result, -, clamped⟩⟩ := finalizeBlock_eq_ok finalized
  have maximumBelow : (netParametersOf c).max ≤ (netParametersOf c).ceiling := belowCeiling
  rw [clamped]
  exact max_le_clamp maximumBelow result

/-- One call of such a run keeps the virtual NET limit at least the maximum. -/
theorem maxBlockNetUsage_le_of_stepWith {m m' : Manager}
    (raised : c.maxBlockNetUsage.toNat ≤ m.block.virtualNetLimit.toNat) (stepped : StepWith c m m') :
    c.maxBlockNetUsage.toNat ≤ m'.block.virtualNetLimit.toNat := by
  cases stepped with
  | addTransactionUsage accounts cpuUsage netUsage timeSlot billed =>
    rw [(addTransactionUsage_eq_ok billed).2.2]
    exact raised
  | finalizeBlock blockNum finalized => exact maxBlockNetUsage_le_of_finalizeBlock belowCeiling finalized
  | other sameBlock =>
    rw [sameBlock]
    exact raised

/-- The whole run keeps it. -/
theorem maxBlockNetUsage_le_of_run {m m' : Manager}
    (raised : c.maxBlockNetUsage.toNat ≤ m.block.virtualNetLimit.toNat)
    (run : Relation.ReflTransGen (StepWith c) m m') :
    c.maxBlockNetUsage.toNat ≤ m'.block.virtualNetLimit.toNat := by
  induction run with
  | refl => exact raised
  | tail _ stepped inductionHypothesis =>
    exact maxBlockNetUsage_le_of_stepWith belowCeiling inductionHypothesis stepped

end NetCeiling

/-- **A NET maximum above `(2^64 - 1) / 1000` stops every uncongested block after the first.**
`chain_config::validate()` does not bound `max_block_net_usage`. With such a maximum, whose ceiling
`max * 1000` wraps to no less than it, a finalized block leaves the virtual NET limit at least the
maximum, transactions, other calls and further blocks keep it there, and every later block is
finalized only if its average NET usage is above the target. -/
theorem netTarget_lt_of_finalizeBlock_twice {c : ChainConfig}
    (large : (2 ^ 64 - 1) / 1000 < c.maxBlockNetUsage.toNat)
    (belowCeiling : c.maxBlockNetUsage ≤ (netParametersOf c).ceiling) {first later : UInt32}
    {m m' m'' m''' : Manager} (finalized : m.finalizeBlock c first = .ok m')
    (run : Relation.ReflTransGen (StepWith c) m' m'')
    (finalizedAgain : m''.finalizeBlock c later = .ok m''') :
    (netParametersOf c).target < ExponentialMovingAverageAccumulator.average
      Config.rateLimitingPrecision m'''.block.averageBlockNetUsage.valueEx := by
  have raised := maxBlockNetUsage_le_of_run belowCeiling
    (maxBlockNetUsage_le_of_finalizeBlock belowCeiling finalized) run
  exact netTarget_lt_of_finalizeBlock (by omega) finalizedAgain

/-- A configuration `validate()` accepts with a NET maximum of `2^55`: the contraction by `99/100`
still fits, and the target `EOS_PERCENT(2^55, 5.12%)` wraps to `0`. -/
def largeNetConfig : ChainConfig :=
  { ChainConfig.initialConfiguration with
    maxBlockNetUsage := 36028797018963968, targetBlockNetUsagePct := 512 }

/-- From `initialize_database` a first block is finalized, a transaction bills `1000` bytes, and
the next block is finalized, congested. -/
theorem netTarget_lt_of_finalizeBlock_twice_largeNetConfig :
    largeNetConfig.validate = .ok () ∧
      ∃ m' m'' m''', initializeDatabase.finalizeBlock largeNetConfig 1 = .ok m' ∧
        m'.addTransactionUsage [] 0 1000 1 = .ok m'' ∧
        m''.finalizeBlock largeNetConfig 2 = .ok m''' ∧
        (netParametersOf largeNetConfig).target < ExponentialMovingAverageAccumulator.average
          Config.rateLimitingPrecision m'''.block.averageBlockNetUsage.valueEx := by
  obtain ⟨m', first, m'', billed, m''', second⟩ :
      ∃ m', initializeDatabase.finalizeBlock largeNetConfig 1 = .ok m' ∧
        ∃ m'', m'.addTransactionUsage [] 0 1000 1 = .ok m'' ∧
        ∃ m''', m''.finalizeBlock largeNetConfig 2 = .ok m''' :=
    ⟨_, Eq.trans (finalizeBlock_of_idle rfl _ _) rfl, _, rfl, _,
      Eq.trans (finalizeBlock_of_idle rfl _ _) rfl⟩
  have run : Relation.ReflTransGen (StepWith largeNetConfig) m' m'' :=
    .single (.addTransactionUsage [] 0 1000 1 billed)
  exact ⟨by decide, m', m'', m''', first, billed, second,
    netTarget_lt_of_finalizeBlock_twice (by decide) (by decide) first run second⟩

/-- **An empty block after the first throws** with that configuration: its average NET usage is
`0`, and the expansion by `1000/999` of the virtual NET limit fails. -/
theorem finalizeBlock_empty_throws_largeNetConfig :
    ∃ m', initializeDatabase.finalizeBlock largeNetConfig 1 = .ok m' ∧
      m'.finalizeBlock largeNetConfig 2 = .error
        (.assertion "Usage exceeds maximum value representable after extending for precision") :=
  ⟨_, Eq.trans (finalizeBlock_of_idle rfl _ _) rfl, Eq.trans (finalizeBlock_of_idle rfl _ _) rfl⟩

end Manager

end Eosio.Chain.ResourceLimits
