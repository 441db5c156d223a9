/-
This file proves the invariant that keeps the DPoS bookkeeping of a header state consistent. At
every header state of a chain,

* the last irreversible block is at most the proposed irreversible block;
* the proposed irreversible block lies below the window of blocks still collecting
  confirmations, which ends at the block itself;
* the window tracks at most `maximum_tracked_dpos_confirmations` blocks;
* every count in the window is positive, so the `uint8_t` decrement in `next` never wraps;
* every producer's last implied irreversible block is at most the proposed irreversible block.

The window is the heart of it. `next` appends the new block's required count (sliding the window
when it is full) and then walks back from the newest block; the first count to reach zero turns
its block into the proposed irreversible block and drops it with every older count. The window
therefore always starts right after the proposed irreversible block or later, and only positive
counts survive. The two producer maps are bounded through the quorum rule, which can only return
one of the values it sorts.
-/

import EosioChain.BlockHeaderState

namespace Eosio.Chain

variable {Digest : Type}

/-- The DPoS invariant of a header state. The window conjunct is stated without subtraction:
it says both that the proposed irreversible block is at most the block number and that it is at
most the block number less the window size. -/
structure DposInvariant (s : BlockHeaderStateCommon Digest) : Prop where
  irreversibleLeProposed : s.dposIrreversibleBlocknum ≤ s.dposProposedIrreversibleBlocknum
  proposedBelowWindow :
    s.dposProposedIrreversibleBlocknum + s.confirmCount.length ≤ s.blockNum
  windowBounded : s.confirmCount.length ≤ maximumTrackedDposConfirmations
  countsPositive : ∀ count ∈ s.confirmCount, count ≠ 0
  impliedLeProposed :
    ∀ irb ∈ ProducerMap.values s.producerToLastImpliedIrb, irb ≤ s.dposProposedIrreversibleBlocknum

/-! ### Producer maps -/

theorem ProducerMap.mem_values_insert {producers : ProducerMap} {producer : Name} {value x : Nat}
    (member : x ∈ ProducerMap.values (producers.insert producer value)) :
    x = value ∨ x ∈ ProducerMap.values producers := by
  simp only [ProducerMap.values, AList.entries_insert, List.map_cons, List.mem_cons] at member
  rcases member with same | erased
  · exact Or.inl same
  · exact Or.inr ((List.kerase_sublist producer producers.entries).map Sigma.snd |>.subset erased)

theorem ProducerMap.mem_values_of_lookup {producers : ProducerMap} {producer : Name} {value : Nat}
    (found : producers.lookup producer = some value) : value ∈ ProducerMap.values producers :=
  List.mem_map.mpr ⟨⟨producer, value⟩, AList.mem_lookup_iff.mp found, rfl⟩

/-- A bound on the old map and on the two fresh values bounds the rebuilt map. -/
theorem promotedLastImpliedIrb_values_le {old : ProducerMap} {producers : List Name}
    {producer : Name} {proposed lastIrreversible bound : Nat}
    (oldBounded : ∀ irb ∈ ProducerMap.values old, irb ≤ bound) (proposedLe : proposed ≤ bound)
    (lastLe : lastIrreversible ≤ bound) :
    ∀ irb ∈ ProducerMap.values
      (promotedLastImpliedIrb old producers producer proposed lastIrreversible), irb ≤ bound := by
  -- the fold keeps the bound on its accumulator, which starts empty
  have bounded : ∀ irb ∈ ProducerMap.values (∅ : ProducerMap), irb ≤ bound := by
    simp [ProducerMap.values]
  unfold promotedLastImpliedIrb
  generalize (∅ : ProducerMap) = rebuilt at bounded ⊢
  induction producers generalizing rebuilt with
  | nil => exact bounded
  | cons pro rest inductionHypothesis =>
    refine inductionHypothesis _ fun irb member => ?_
    dsimp only at member
    split at member
    · rcases ProducerMap.mem_values_insert member with rfl | kept
      · exact proposedLe
      · exact bounded irb kept
    · split at member
      · rename_i existing found
        rcases ProducerMap.mem_values_insert member with rfl | kept
        · exact oldBounded irb (ProducerMap.mem_values_of_lookup found)
        · exact bounded irb kept
      · rcases ProducerMap.mem_values_insert member with rfl | kept
        · exact lastLe
        · exact bounded irb kept

/-! ### The quorum rule -/

theorem dposQuorum_le {blocknums : List Nat} {bound : Nat}
    (bounded : ∀ blocknum ∈ blocknums, blocknum ≤ bound) :
    BlockHeaderState.dposQuorum blocknums ≤ bound := by
  unfold BlockHeaderState.dposQuorum
  split
  · exact Nat.zero_le bound
  · exact OrderStatistic.nth_le_of_forall_le (by omega) 0 bounded

theorem impliedBlocknums_le {s : BlockHeaderState Digest} (producer : Name)
    (bounded : ∀ irb ∈ ProducerMap.values s.producerToLastImpliedIrb,
      irb ≤ s.dposProposedIrreversibleBlocknum) :
    ∀ blocknum ∈ s.impliedBlocknums producer, blocknum ≤ s.dposProposedIrreversibleBlocknum := by
  intro blocknum member
  obtain ⟨entry, entryMember, rfl⟩ := List.mem_map.mp member
  split
  · exact le_rfl
  · exact bounded entry.2 (List.mem_map_of_mem entryMember)

/-- The last irreversible block `next` computes is at most the proposed irreversible block it
starts from. -/
theorem calcDposLastIrreversible_le {s : BlockHeaderState Digest} (producer : Name)
    (bounded : ∀ irb ∈ ProducerMap.values s.producerToLastImpliedIrb,
      irb ≤ s.dposProposedIrreversibleBlocknum) :
    s.calcDposLastIrreversible producer ≤ s.dposProposedIrreversibleBlocknum :=
  dposQuorum_le (impliedBlocknums_le producer bounded)

/-! ### The confirmation window -/

/-- A window of outstanding confirmation counts below a block: every count is positive, and the
proposed irreversible block comes before the blocks the window tracks. -/
structure ConfirmWindow (blockNum : Nat) (window : List UInt8 × Nat) : Prop where
  positive : ∀ count ∈ window.1, count ≠ 0
  below : window.2 + window.1.length ≤ blockNum

/-- The count `next` appends is positive: a schedule has at most `max_producers` producers, so
the count of confirmations it requires fits in eight bits. -/
theorem requiredConfs_ne_zero (schedule : ProducerAuthoritySchedule) :
    (schedule.producers.length * 2 / 3 + 1).toUInt8 ≠ 0 := by
  have bounded := schedule.bounded
  intro zero
  have wrapped := congrArg UInt8.toNat zero
  simp only [Nat.toUInt8_eq, UInt8.toNat_ofNat', UInt8.toNat_zero] at wrapped
  simp only [maxProducers] at bounded
  omega

theorem growConfirmCount_positive {confirmCount : List UInt8} {requiredConfs : UInt8}
    (positive : ∀ count ∈ confirmCount, count ≠ 0) (required : requiredConfs ≠ 0) :
    ∀ count ∈ growConfirmCount confirmCount requiredConfs, count ≠ 0 := by
  intro count member
  unfold growConfirmCount at member
  split at member
  · rcases List.mem_append.mp member with old | fresh
    · exact positive count old
    · rw [List.mem_singleton.mp fresh]; exact required
  · rcases List.mem_append.mp member with old | fresh
    · exact positive count (List.mem_of_mem_tail old)
    · rw [List.mem_singleton.mp fresh]; exact required

theorem growConfirmCount_length (confirmCount : List UInt8) (requiredConfs : UInt8)
    (bounded : confirmCount.length ≤ maximumTrackedDposConfirmations) :
    (growConfirmCount confirmCount requiredConfs).length ≤ confirmCount.length + 1 ∧
      (growConfirmCount confirmCount requiredConfs).length ≤ maximumTrackedDposConfirmations := by
  unfold growConfirmCount
  split
  · simp only [List.length_append, List.length_singleton]
    omega
  · simp only [List.length_append, List.length_tail, List.length_singleton]
    simp only [maximumTrackedDposConfirmations] at bounded ⊢
    omega

theorem mem_modify_decrement {confirmCount : List UInt8} {i : Nat}
    (inRange : i < confirmCount.length) {count : UInt8}
    (member : count ∈ confirmCount.modify i (· - 1)) :
    count ∈ confirmCount ∨ count = confirmCount[i] - 1 := by
  rw [List.modify_eq_take_cons_drop inRange] at member
  rcases List.mem_append.mp member with front | back
  · exact Or.inl (List.mem_of_mem_take front)
  · rcases List.mem_cons.mp back with decremented | rest
    · exact Or.inr decremented
    · exact Or.inl (List.mem_of_mem_drop rest)

theorem getD_modify_decrement {confirmCount : List UInt8} {i : Nat}
    (inRange : i < confirmCount.length) :
    (confirmCount.modify i (· - 1)).getD i 0 = confirmCount[i] - 1 := by
  rw [List.getD_eq_getElem?_getD, List.getElem?_modify_eq, List.getElem?_eq_getElem inRange]
  rfl

/-- A `uint32_t` difference that does not wrap is the difference. -/
theorem uint32Sub_of_le (minuend subtrahend : Nat) (le : subtrahend ≤ minuend)
    (fits : minuend < 2 ^ 32) : (minuend + 2 ^ 32 - subtrahend) % 2 ^ 32 = minuend - subtrahend := by
  omega

/-- **The confirmation loop keeps the window.** From a window below the new block, the loop
leaves a window below it, no longer than before, whose proposed irreversible block has not moved
down. The block number fits a `uint32_t`, so the subtraction that finds a confirmed block does
not wrap. -/
theorem confirmLoop_spec {blockNum : Nat} (fits : blockNum < 2 ^ 32) :
    ∀ (remaining blocksToConfirm : Nat) (confirmCount : List UInt8) (proposed : Nat),
      remaining ≤ confirmCount.length → ConfirmWindow blockNum (confirmCount, proposed) →
      ∀ result, confirmLoop blockNum remaining blocksToConfirm confirmCount proposed = result →
        ConfirmWindow blockNum result ∧ result.1.length ≤ confirmCount.length ∧
          proposed ≤ result.2
  | 0, _, confirmCount, proposed, _, window, result, looped => by
    rw [confirmLoop] at looped
    subst looped
    exact ⟨window, le_rfl, le_rfl⟩
  | i + 1, 0, confirmCount, proposed, _, window, result, looped => by
    simp only [confirmLoop] at looped
    subst looped
    exact ⟨window, le_rfl, le_rfl⟩
  | i + 1, blocksToConfirm + 1, confirmCount, proposed, inRange, window, result, looped => by
    have index : i < confirmCount.length := by omega
    have decrementedLength : (confirmCount.modify i (· - 1)).length = confirmCount.length :=
      List.length_modify _ _ _
    rw [confirmLoop] at looped
    dsimp only at looped
    rw [decrementedLength, getD_modify_decrement index] at looped
    split at looped
    · -- the count of block `i` reaches zero: that block becomes the proposed irreversible one
      have windowBelow := window.below
      dsimp only at windowBelow
      -- the confirmed block lies in the window, so its `uint32_t` number does not wrap
      rw [uint32Sub_of_le blockNum (confirmCount.length - 1 - i) (by omega) fits] at looped
      split at looped <;> subst looped
      · exact ⟨⟨fun _ member => absurd member List.not_mem_nil, by simp⟩,
          by simp, by dsimp only; omega⟩
      · rw [List.drop_modify_of_lt _ _ _ _ (Nat.lt_succ_self i)]
        refine ⟨⟨fun count member => window.positive count (List.mem_of_mem_drop member), ?_⟩,
          by simp, by dsimp only; omega⟩
        simp only [List.length_drop]
        omega
    · -- the count stays positive and the walk moves to the previous block
      rename_i stillPositive
      have decremented : ConfirmWindow blockNum (confirmCount.modify i (· - 1), proposed) := by
        refine ⟨fun count member => ?_, by simpa [decrementedLength] using window.below⟩
        rcases mem_modify_decrement index member with old | fresh
        · exact window.positive count old
        · rw [fresh]; exact stillPositive
      obtain ⟨resultWindow, shorter, moved⟩ :=
        confirmLoop_spec fits i blocksToConfirm _ proposed (by omega) decremented result looped
      exact ⟨resultWindow, decrementedLength ▸ shorter, moved⟩

/-! ### One block -/

variable [Inhabited Digest]

/-- **One block keeps the invariant.** The window argument bounds the proposed irreversible
block from above and shows it does not move down; the quorum bounds the new last irreversible
block and, through the promotion rebuild or the update of the producer's entry, every implied
irreversible block by the old proposed one. -/
theorem nextPending_dposInvariant (hashPair : Digest → Digest → Digest)
    {s : BlockHeaderState Digest} (invariant : DposInvariant s.toBlockHeaderStateCommon)
    (fits : s.blockNum + 1 < 2 ^ 32) (when numPrevBlocksToConfirm : Nat) :
    DposInvariant (s.nextPending hashPair when numPrevBlocksToConfirm).toBlockHeaderStateCommon := by
  have grownLength := growConfirmCount_length s.confirmCount
    (s.activeSchedule.producers.length * 2 / 3 + 1).toUInt8 invariant.windowBounded
  have grownWindow : ConfirmWindow (s.blockNum + 1)
      (growConfirmCount s.confirmCount (s.activeSchedule.producers.length * 2 / 3 + 1).toUInt8,
        s.dposProposedIrreversibleBlocknum) := by
    refine ⟨growConfirmCount_positive invariant.countsPositive
      (requiredConfs_ne_zero s.activeSchedule), ?_⟩
    have below := invariant.proposedBelowWindow
    dsimp only
    omega
  obtain ⟨window, shorter, moved⟩ := confirmLoop_spec fits _
    (numPrevBlocksToConfirm + 1) _ _ le_rfl grownWindow _ rfl
  have lastLe := calcDposLastIrreversible_le (s.getScheduledProducer when)
    invariant.impliedLeProposed
  unfold BlockHeaderState.nextPending
  dsimp only
  rw [Nat.mod_eq_of_lt fits]
  refine ⟨le_trans lastLe moved, window.below, le_trans shorter grownLength.2, window.positive,
    fun irb member => le_trans ?_ moved⟩
  split at member
  · exact promotedLastImpliedIrb_values_le invariant.impliedLeProposed le_rfl lastLe irb member
  · rcases ProducerMap.mem_values_insert member with rfl | kept
    · exact le_rfl
    · exact invariant.impliedLeProposed irb kept

theorem genesis_dposInvariant (context : HeaderContext Digest) (initialTimestamp : Nat) :
    DposInvariant (BlockHeaderState.genesis context initialTimestamp).toBlockHeaderStateCommon where
  irreversibleLeProposed := le_rfl
  proposedBelowWindow := Nat.zero_le 1
  windowBounded := Nat.zero_le _
  countsPositive := fun _ member => absurd member List.not_mem_nil
  impliedLeProposed := fun _ member => absurd member List.not_mem_nil

variable [DecidableEq Digest]

/-- Finishing the header changes none of the fields the invariant reads. -/
theorem DposInvariant.step (context : HeaderContext Digest) {s s' : BlockHeaderState Digest}
    (invariant : DposInvariant s.toBlockHeaderStateCommon)
    (stepped : BlockHeaderState.UnwrappedStep context s s') :
    DposInvariant s'.toBlockHeaderStateCommon := by
  obtain ⟨fits, stepped⟩ := stepped
  obtain ⟨when, numPrevBlocksToConfirm, h, finished⟩ := stepped.elim
  rw [PendingBlockHeaderState.finishNext_toCommon context finished]
  exact nextPending_dposInvariant context.hashPair invariant fits when numPrevBlocksToConfirm

theorem BlockHeaderState.ReachableUnwrapped.dposInvariant (context : HeaderContext Digest)
    {s : BlockHeaderState Digest} (reachable : BlockHeaderState.ReachableUnwrapped context s) :
    DposInvariant s.toBlockHeaderStateCommon := by
  refine Transition.Reachable.invariant (fun s => DposInvariant s.toBlockHeaderStateCommon)
    (fun start isGenesis => ?_)
    (fun _ _ invariant stepped => invariant.step context stepped) reachable
  obtain ⟨initialTimestamp, _, rfl⟩ := isGenesis
  exact genesis_dposInvariant context initialTimestamp

/-- **The DPoS invariant holds at every header state of a chain whose block numbers never
wrapped, and every block that does not wrap keeps it**, whatever timestamps, confirmation counts
and schedule proposals the blocks carry. -/
theorem reachableUnwrapped_dposInvariant (context : HeaderContext Digest)
    {s : BlockHeaderState Digest} (reachable : BlockHeaderState.ReachableUnwrapped context s) :
    DposInvariant s.toBlockHeaderStateCommon ∧
      ∀ s', BlockHeaderState.UnwrappedStep context s s' → DposInvariant s'.toBlockHeaderStateCommon :=
  have invariant := reachable.dposInvariant context
  ⟨invariant, fun _ stepped => invariant.step context stepped⟩

/-- The replayed chain of fourteen blocks, with its two promotions, never wraps. -/
theorem promotionChain_reachableUnwrapped_dposInvariant :
    BlockHeaderState.ReachableUnwrapped BlockHeaderState.replayContext
        (BlockHeaderState.promotionChainState 13) ∧
      DposInvariant (BlockHeaderState.promotionChainState 13).toBlockHeaderStateCommon ∧
      ∀ s', BlockHeaderState.UnwrappedStep BlockHeaderState.replayContext
        (BlockHeaderState.promotionChainState 13) s' → DposInvariant s'.toBlockHeaderStateCommon :=
  have reachable := BlockHeaderState.produceBlocks_reachableUnwrapped
    (BlockHeaderState.promotionChain.take 13) (by decide) (by decide)
    (Transition.Reachable.of_initial ⟨0, by decide, rfl⟩) rfl
  ⟨reachable, reachableUnwrapped_dposInvariant BlockHeaderState.replayContext reachable⟩

end Eosio.Chain
