/-
This file models how `producer_plugin_impl` times its producers: `calculate_next_block_time`, the
time of the next slot in which a local producer may sign a block, and
`calculate_producer_wake_up_time`, one block interval before the earliest of those times over the
configured producers.

The plugin does not search the slots. From a minimum slot, past the current block time and past
the producer's watermark, it takes the producer of that slot the way `get_scheduled_producer`
does. When that is another producer, it aligns the slot down to the start of its run of
`producer_repetitions` slots and moves forward by the distance between the two producers in the
schedule. That distance is an unsigned `size_t` difference, corrected when it wraps below zero.
On a schedule of distinct producers this is the first slot from the minimum on whose scheduled
producer is the one asked about: `RoundRobin.isLeast_aligned` proves that of the exact
arithmetic. The slots and distances stay clear of wrapping as long as the minimum slot stays at
least `N * producer_repetitions` slots below `2^32`.

Slots are the `uint32_t` of `block_timestamp_type`, block numbers are `uint32_t`, and the schedule
arithmetic is in `size_t`, modelled as `UInt64`. Time points are `fc::time_point` microseconds
since 1970, as an `Int`: the time of any 32-bit slot is far below 2^63 microseconds, so the
`int64_t` does not overflow.
-/

import EosioChain.BlockHeaderState
import EosioChain.RoundRobin

namespace Eosio.Chain

/-! ### Block timestamps -/

/-- `config::block_interval_ms`. -/
def blockIntervalMs : Int := 500

/-- `config::block_interval_us`. -/
def blockIntervalUs : Int := blockIntervalMs * 1000

/-- `config::block_timestamp_epoch`: the year 2000, in milliseconds since 1970. -/
def blockTimestampEpoch : Int := 946684800000

/-- `block_timestamp_type`: a count of block intervals since the epoch. -/
structure BlockTimestamp where
  slot : UInt32
deriving DecidableEq, Repr

/-- `block_timestamp::to_time_point`, in microseconds since 1970. -/
def BlockTimestamp.toTimePoint (t : BlockTimestamp) : Int :=
  (t.slot.toNat * blockIntervalMs + blockTimestampEpoch) * 1000

end Eosio.Chain

namespace Eosio

open Chain RoundRobin

/-- `producer_plugin_impl::producer_watermark`: the number and the timestamp of the last block a
producer signed. -/
abbrev ProducerWatermark := UInt32 × BlockTimestamp

/-- What the two functions read of `producer_plugin_impl` and of its chain controller: the head
block state, whether a block is being built, the configured `_producers` in the order of their
`std::set`, and `_producer_watermarks`. -/
structure ProducerPluginImpl (Digest : Type) where
  headBlockState : BlockHeaderState Digest
  isBuildingBlock : Bool
  producers : List Name
  producerWatermarks : AList fun _ : Name => ProducerWatermark

variable {Digest : Type}

namespace ProducerPluginImpl

/-! ### The model -/

/-- `get_watermark`. -/
def getWatermark (impl : ProducerPluginImpl Digest) (producer : Name) :
    Option ProducerWatermark :=
  impl.producerWatermarks.lookup producer

/-- The block number `calculate_next_block_time` holds a watermark against: the head block's, and
the one after it while a block is being built. -/
def blockNum (impl : ProducerPluginImpl Digest) : UInt32 :=
  let blockNum := impl.headBlockState.blockNum.toUInt32
  if impl.isBuildingBlock then blockNum + 1 else blockNum

/-- `minimum_offset`: at least the next slot, and past a watermark that is ahead of the current
block number or of the current block time. -/
def minimumOffset (blockNum : UInt32) (currentWatermark : Option ProducerWatermark)
    (currentBlockTime : BlockTimestamp) : UInt32 :=
  match currentWatermark with
  | none => 1
  | some watermark =>
    let minimumOffset : UInt32 :=
      if watermark.1 > blockNum then watermark.1 - blockNum + 1 else 1
    if watermark.2.slot > currentBlockTime.slot then
      max minimumOffset (watermark.2.slot - currentBlockTime.slot + 1)
    else minimumOffset

/-- The slot `calculate_next_block_time` settles on from `minimum_slot`, for the producer at
`producer_index` of a schedule of `size` producers. -/
def nextBlockSlot (size producerIndex : UInt64) (minimumSlot : UInt32) : UInt32 :=
  let minimumSlotProducerIndex :=
    minimumSlot.toUInt64 % (size * producerRepetitions.toUInt64) / producerRepetitions.toUInt64
  if producerIndex = minimumSlotProducerIndex then minimumSlot
  else
    -- an unsigned difference, brought back into the schedule when it wraps
    let producerDistance := producerIndex - minimumSlotProducerIndex
    let producerDistance :=
      if producerDistance > producerIndex then producerDistance + size else producerDistance
    let firstMinimumProducerSlot := minimumSlot - minimumSlot % producerRepetitions.toUInt32
    (firstMinimumProducerSlot.toUInt64 + producerDistance * producerRepetitions.toUInt64).toUInt32

/-- `producer_plugin_impl::calculate_next_block_time`: nothing for a producer outside the active
schedule, and otherwise the time of its next slot from the minimum one on. -/
def calculateNextBlockTime (impl : ProducerPluginImpl Digest) (producerName : Name)
    (currentBlockTime : BlockTimestamp) : Option Int := do
  let activeSchedule := impl.headBlockState.activeSchedule.producers
  let producerIndex ← activeSchedule.idxOf? producerName
  let minimumSlot := currentBlockTime.slot +
    minimumOffset impl.blockNum (impl.getWatermark producerName) currentBlockTime
  pure (BlockTimestamp.toTimePoint
    ⟨nextBlockSlot activeSchedule.length.toUInt64 producerIndex.toUInt64 minimumSlot⟩)

/-- One turn of the loop of `calculate_producer_wake_up_time`: keep the earlier of the wake-up time
so far and one block interval before a producer's next block time. -/
def wakeUpStep (wakeUpTime nextProducerBlockTime : Option Int) : Option Int :=
  match nextProducerBlockTime with
  | none => wakeUpTime
  | some nextProducerBlockTime =>
    let producerWakeUpTime := nextProducerBlockTime - blockIntervalUs
    match wakeUpTime with
    | some wakeUpTime =>
      if producerWakeUpTime < wakeUpTime then some producerWakeUpTime else some wakeUpTime
    | none => some producerWakeUpTime

/-- `producer_plugin_impl::calculate_producer_wake_up_time`. -/
def calculateProducerWakeUpTime (impl : ProducerPluginImpl Digest)
    (refBlockTime : BlockTimestamp) : Option Int :=
  impl.producers.foldl
    (fun wakeUpTime p => wakeUpStep wakeUpTime (impl.calculateNextBlockTime p refBlockTime)) none

/-- The least offset of the slot searched for, in exact arithmetic: one, and one past the
watermark's block number and slot when they are ahead. -/
def leastOffset (blockNum : UInt32) (currentWatermark : Option ProducerWatermark)
    (currentBlockTime : BlockTimestamp) : Nat :=
  match currentWatermark with
  | none => 1
  | some watermark =>
    max 1 (max
      (if blockNum < watermark.1 then watermark.1.toNat - blockNum.toNat + 1 else 0)
      (if currentBlockTime.slot < watermark.2.slot then
        watermark.2.slot.toNat - currentBlockTime.slot.toNat + 1 else 0))

/-! ### Exact arithmetic -/

/-- Below the bound, the offset is the least offset of exact arithmetic: none of the `uint32_t`
sums and differences wraps. -/
theorem toNat_minimumOffset {blockNum : UInt32} {currentWatermark : Option ProducerWatermark}
    {currentBlockTime : BlockTimestamp}
    (fits : currentBlockTime.slot.toNat + leastOffset blockNum currentWatermark currentBlockTime <
      2 ^ 32) :
    (minimumOffset blockNum currentWatermark currentBlockTime).toNat =
      leastOffset blockNum currentWatermark currentBlockTime := by
  cases currentWatermark with
  | none => rfl
  | some watermark =>
    have := blockNum.toNat_lt
    have := watermark.1.toNat_lt
    have := watermark.2.slot.toNat_lt
    unfold minimumOffset leastOffset at *
    simp only [gt_iff_lt, UInt32.lt_iff_toNat_lt] at *
    -- one case for each outcome of the two comparisons with the watermark
    split_ifs at * <;>
      simp only [UInt32.toNat_max, UInt32.toNat_add, UInt32.toNat_sub, UInt32.reduceToNat,
        Nat.reducePow] at * <;>
      omega

theorem toNat_toUInt64_of_le_maxProducers {size : Nat} (bounded : size ≤ maxProducers) :
    size.toUInt64.toNat = size :=
  UInt64.toNat_ofNat_of_lt' (Nat.lt_of_le_of_lt bounded (by decide))

/-- The producer of a slot, computed in `size_t` as `get_scheduled_producer` does it, is its
round-robin owner. -/
theorem toNat_minimumSlotProducerIndex {size : Nat} (bounded : size ≤ maxProducers)
    (minimumSlot : UInt32) :
    (minimumSlot.toUInt64 % (size.toUInt64 * producerRepetitions.toUInt64) /
        producerRepetitions.toUInt64).toNat =
      owner size producerRepetitions minimumSlot.toNat := by
  have repetitions : producerRepetitions.toUInt64.toNat = producerRepetitions := by decide
  have noWrap : size * producerRepetitions < 2 ^ 64 := by
    unfold maxProducers at bounded
    unfold producerRepetitions
    omega
  rw [UInt64.toNat_div, UInt64.toNat_mod, UInt64.toNat_mul, UInt32.toNat_toUInt64,
    toNat_toUInt64_of_le_maxProducers bounded, repetitions, Nat.mod_eq_of_lt noWrap, owner]

/-- The unsigned distance, with its correction, is the distance around the schedule. -/
theorem toNat_producerDistance {size : Nat} {producerIndex minimumSlotProducerIndex : UInt64}
    (bounded : size ≤ maxProducers) (indexBelow : producerIndex.toNat < size)
    (currentBelow : minimumSlotProducerIndex.toNat < size) :
    (if producerIndex - minimumSlotProducerIndex > producerIndex then
        producerIndex - minimumSlotProducerIndex + size.toUInt64
      else producerIndex - minimumSlotProducerIndex).toNat =
      distance size minimumSlotProducerIndex.toNat producerIndex.toNat := by
  have sizeBelow : size < 2 ^ 64 := Nat.lt_of_le_of_lt bounded (by decide)
  unfold distance
  -- the difference wraps exactly when the producer comes before the minimum slot's
  split_ifs <;>
    simp only [gt_iff_lt, UInt64.lt_iff_toNat_lt, UInt64.toNat_sub, UInt64.toNat_add,
      toNat_toUInt64_of_le_maxProducers bounded, Nat.reducePow] at * <;>
    omega

/-- **The slot found, in exact arithmetic**: the minimum slot when its producer is the one asked
about, and otherwise the start of its run moved forward by the distance between the two. -/
theorem toNat_nextBlockSlot {size index : Nat} {minimumSlot : UInt32}
    (bounded : size ≤ maxProducers) (indexBelow : index < size)
    (fits : minimumSlot.toNat + size * producerRepetitions ≤ 2 ^ 32) :
    (nextBlockSlot size.toUInt64 index.toUInt64 minimumSlot).toNat =
      if owner size producerRepetitions minimumSlot.toNat = index then minimumSlot.toNat
      else minimumSlot.toNat - minimumSlot.toNat % producerRepetitions +
        distance size (owner size producerRepetitions minimumSlot.toNat) index *
          producerRepetitions := by
  have indexNat : index.toUInt64.toNat = index :=
    toNat_toUInt64_of_le_maxProducers (Nat.le_trans indexBelow.le bounded)
  have current := toNat_minimumSlotProducerIndex bounded minimumSlot
  have currentBelow := @owner_lt _ producerRepetitions (Nat.zero_lt_of_lt indexBelow)
    minimumSlot.toNat
  simp only [nextBlockSlot, UInt64.ext_iff, indexNat, current]
  by_cases owned : owner size producerRepetitions minimumSlot.toNat = index
  · rw [if_pos owned.symm, if_pos owned]
  · rw [if_neg (Ne.symm owned), if_neg owned]
    have producerDistance := toNat_producerDistance bounded (indexNat ▸ indexBelow)
      (current ▸ currentBelow)
    rw [current, indexNat] at producerDistance
    -- the run moved to is at most `size - 1` runs on, which stays below `2^32`
    have ahead : distance size (owner size producerRepetitions minimumSlot.toNat) index *
        producerRepetitions < size * producerRepetitions :=
      Nat.mul_lt_mul_of_pos_right (distance_lt indexBelow) (by decide)
    have aligned : minimumSlot.toNat % producerRepetitions ≤ minimumSlot.toNat := Nat.mod_le _ _
    rw [UInt64.toNat_toUInt32, UInt64.toNat_add, UInt64.toNat_mul, producerDistance,
      UInt32.toNat_toUInt64, UInt32.toNat_sub_of_le _ _ (UInt32.le_iff_toNat_le.mpr ?_),
      UInt32.toNat_mod]
    · have repetitions : producerRepetitions.toUInt64.toNat = producerRepetitions := by decide
      have repetitions32 : producerRepetitions.toUInt32.toNat = producerRepetitions := by decide
      rw [repetitions, repetitions32]
      omega
    · rw [UInt32.toNat_mod]
      exact Nat.mod_le _ _

/-! ### Scheduled producers -/

/-- In a schedule of distinct producers, the producer at index `i` is found at `i`. -/
theorem idxOf?_of_getElem? {producers : List Name} (unique : producers.Nodup) {i : Nat} {p : Name}
    (found : producers[i]? = some p) : producers.idxOf? p = some i := by
  obtain ⟨below, rfl⟩ := List.getElem?_eq_some_iff.mp found
  refine List.idxOf?_eq_some_iff.mpr ⟨below, rfl, fun j earlier same => ?_⟩
  have := unique.getElem_inj_iff.mp same
  omega

/-- **`get_scheduled_producer` names `p` exactly in the runs of its index**: on a schedule of
distinct producers, a slot's scheduled producer is the producer at index `i` when the slot's
round-robin owner is `i`. -/
theorem getScheduledProducer_eq_iff (s : BlockHeaderState Digest) {i : Nat} {p : Name}
    (found : s.activeSchedule.producers[i]? = some p) (slot : Nat) :
    s.getScheduledProducer slot = p ↔
      owner s.activeSchedule.producers.length producerRepetitions slot = i := by
  obtain ⟨below, rfl⟩ := List.getElem?_eq_some_iff.mp found
  have ownerBelow := @owner_lt _ producerRepetitions (Nat.zero_lt_of_lt below) slot
  -- `get_scheduled_producer` reads the schedule at the slot's owner
  show s.activeSchedule.producers.getD (owner _ producerRepetitions slot) default = _ ↔ _
  rw [List.getD_eq_getElem?_getD, List.getElem?_eq_getElem ownerBelow, Option.getD_some]
  exact s.activeSchedule.unique.getElem_inj_iff

/-! ### The next block time -/

/-- **The next block time of a scheduled producer.** For the producer at index `i` of the active
schedule, while the minimum slot stays `N * producer_repetitions` slots below `2^32`, the time
returned is that of the first slot from the minimum on that the producer owns. -/
theorem calculateNextBlockTime_eq_some (impl : ProducerPluginImpl Digest) {i : Nat} {p : Name}
    (found : impl.headBlockState.activeSchedule.producers[i]? = some p) (c : BlockTimestamp)
    (fits : c.slot.toNat + leastOffset impl.blockNum (impl.getWatermark p) c +
      impl.headBlockState.activeSchedule.producers.length * producerRepetitions ≤ 2 ^ 32) :
    ∃ slot : UInt32, impl.calculateNextBlockTime p c = some (BlockTimestamp.toTimePoint ⟨slot⟩) ∧
      IsLeast (ownedFrom impl.headBlockState.activeSchedule.producers.length producerRepetitions
        (c.slot.toNat + leastOffset impl.blockNum (impl.getWatermark p) c) i) slot.toNat := by
  have below : i < impl.headBlockState.activeSchedule.producers.length :=
    (List.getElem?_eq_some_iff.mp found).1
  have someSlots : 0 < impl.headBlockState.activeSchedule.producers.length * producerRepetitions :=
    Nat.mul_pos (Nat.zero_lt_of_lt below) (by decide)
  have minimumSlot : (c.slot + minimumOffset impl.blockNum (impl.getWatermark p) c).toNat =
      c.slot.toNat + leastOffset impl.blockNum (impl.getWatermark p) c := by
    rw [UInt32.toNat_add, toNat_minimumOffset (by omega), Nat.mod_eq_of_lt (by omega)]
  refine ⟨nextBlockSlot impl.headBlockState.activeSchedule.producers.length.toUInt64 i.toUInt64
    (c.slot + minimumOffset impl.blockNum (impl.getWatermark p) c), ?_, ?_⟩
  · rw [calculateNextBlockTime, idxOf?_of_getElem? impl.headBlockState.activeSchedule.unique found]
    rfl
  · rw [toNat_nextBlockSlot impl.headBlockState.activeSchedule.bounded below (by omega),
      minimumSlot]
    split_ifs with owned
    · exact isLeast_start owned
    · exact isLeast_aligned (by decide) below owned

/-- A producer outside the active schedule has no next block time. -/
theorem calculateNextBlockTime_eq_none (impl : ProducerPluginImpl Digest) {p : Name}
    (absent : p ∉ impl.headBlockState.activeSchedule.producers) (c : BlockTimestamp) :
    impl.calculateNextBlockTime p c = none := by
  rw [calculateNextBlockTime, List.idxOf?_eq_none_iff.mpr absent]
  rfl

/-! ### The wake-up time -/

/-- Moving every time by the same amount moves the earliest one by it. -/
theorem foldl_min_map_sub (times : List Int) (first shift : Int) :
    (times.map (· - shift)).foldl min (first - shift) = times.foldl min first - shift := by
  induction times generalizing first with
  | nil => rfl
  | cons time times inductionHypothesis =>
    have shifted : min (first - shift) (time - shift) = min first time - shift := by omega
    rw [List.map_cons, List.foldl_cons, List.foldl_cons, shifted, inductionHypothesis]

theorem min?_map_sub (times : List Int) (shift : Int) :
    (times.map (· - shift)).min? = times.min?.map (· - shift) := by
  cases times with
  | nil => rfl
  | cons first times =>
    rw [List.map_cons, List.min?_cons', List.min?_cons', Option.map_some, foldl_min_map_sub]

/-- The turn of a producer with a next block time keeps the earlier of the two wake-up times. -/
theorem wakeUpStep_some_some (wakeUpTime nextProducerBlockTime : Int) :
    wakeUpStep (some wakeUpTime) (some nextProducerBlockTime) =
      some (min wakeUpTime (nextProducerBlockTime - blockIntervalUs)) := by
  simp only [wakeUpStep]
  by_cases earlier : nextProducerBlockTime - blockIntervalUs < wakeUpTime
  · rw [if_pos earlier, min_eq_right earlier.le]
  · rw [if_neg earlier, min_eq_left (not_lt.mp earlier)]

/-- From a wake-up time `w`, the loop keeps the earliest of `w` and the producers' wake-up
times. -/
theorem foldl_wakeUpStep_some (times : Name → Option Int) (producers : List Name) (w : Int) :
    producers.foldl (fun wakeUpTime p => wakeUpStep wakeUpTime (times p)) (some w) =
      some (((producers.filterMap times).map (· - blockIntervalUs)).foldl min w) := by
  induction producers generalizing w with
  | nil => rfl
  | cons p producers inductionHypothesis =>
    rw [List.foldl_cons, List.filterMap_cons]
    cases next : times p with
    | none => exact inductionHypothesis w
    | some time =>
      rw [wakeUpStep_some_some, inductionHypothesis, List.map_cons, List.foldl_cons]

/-- From no wake-up time, the loop finds the earliest of the producers' wake-up times. -/
theorem foldl_wakeUpStep_none (times : Name → Option Int) (producers : List Name) :
    producers.foldl (fun wakeUpTime p => wakeUpStep wakeUpTime (times p)) none =
      ((producers.filterMap times).map (· - blockIntervalUs)).min? := by
  induction producers with
  | nil => rfl
  | cons p producers inductionHypothesis =>
    rw [List.foldl_cons, List.filterMap_cons]
    cases next : times p with
    | none => exact inductionHypothesis
    | some time =>
      rw [show wakeUpStep none (some time) = some (time - blockIntervalUs) from rfl,
        foldl_wakeUpStep_some, List.map_cons, List.min?_cons']

/-- **The wake-up time** is one block interval before the earliest next block time of the
configured producers, and there is none when none of them has a next block time. -/
theorem calculateProducerWakeUpTime_eq (impl : ProducerPluginImpl Digest)
    (refBlockTime : BlockTimestamp) :
    impl.calculateProducerWakeUpTime refBlockTime =
      (impl.producers.filterMap (impl.calculateNextBlockTime · refBlockTime)).min?.map
        (· - blockIntervalUs) := by
  rw [calculateProducerWakeUpTime, foldl_wakeUpStep_none, min?_map_sub]

/-! ### Timing the producers -/

/-- **A producer's next slot is computed exactly.** For the producer `p` at index `i` of the
active schedule, while the minimum slot stays `N * producer_repetitions` slots below `2^32`,
`calculate_next_block_time` gives the time of the first slot from the current slot plus the least
offset on whose scheduled producer is `p`, the slots whose index in the rotation is `i`; a
producer outside the schedule has no next block time; and `calculate_producer_wake_up_time` is one
block interval before the earliest next block time of the configured producers. -/
theorem calculateNextBlockTime_exact (impl : ProducerPluginImpl Digest) (c : BlockTimestamp) :
    (∀ (i : Nat) (p : Name), impl.headBlockState.activeSchedule.producers[i]? = some p →
      c.slot.toNat + leastOffset impl.blockNum (impl.getWatermark p) c +
          impl.headBlockState.activeSchedule.producers.length * producerRepetitions ≤ 2 ^ 32 →
        ∃ slot : UInt32,
          impl.calculateNextBlockTime p c = some (BlockTimestamp.toTimePoint ⟨slot⟩) ∧
          IsLeast {s | c.slot.toNat + leastOffset impl.blockNum (impl.getWatermark p) c ≤ s ∧
            impl.headBlockState.getScheduledProducer s = p} slot.toNat ∧
          ∀ s, impl.headBlockState.getScheduledProducer s = p ↔
            s % (impl.headBlockState.activeSchedule.producers.length * producerRepetitions) /
              producerRepetitions = i) ∧
    (∀ p ∉ impl.headBlockState.activeSchedule.producers, impl.calculateNextBlockTime p c = none) ∧
    impl.calculateProducerWakeUpTime c =
      (impl.producers.filterMap (impl.calculateNextBlockTime · c)).min?.map
        (· - blockIntervalUs) := by
  refine ⟨fun i p found fits => ?_, fun p absent => calculateNextBlockTime_eq_none impl absent c,
    calculateProducerWakeUpTime_eq impl c⟩
  obtain ⟨slot, returned, least⟩ := calculateNextBlockTime_eq_some impl found c fits
  -- the slots `p` is scheduled in are the slots `i` owns
  have scheduled (s : Nat) := getScheduledProducer_eq_iff impl.headBlockState found s
  have same : {s | c.slot.toNat + leastOffset impl.blockNum (impl.getWatermark p) c ≤ s ∧
      impl.headBlockState.getScheduledProducer s = p} =
      ownedFrom impl.headBlockState.activeSchedule.producers.length producerRepetitions
        (c.slot.toNat + leastOffset impl.blockNum (impl.getWatermark p) c) i :=
    Set.ext fun s => and_congr_right' (scheduled s)
  exact ⟨slot, returned, same ▸ least, scheduled⟩

end ProducerPluginImpl

end Eosio
