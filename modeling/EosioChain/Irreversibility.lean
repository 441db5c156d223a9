/-
This file studies how the last irreversible block moves from one header state to the next.

`next` computes the new last irreversible block as the quorum of the producers' last implied
irreversible blocks, with the producer of the new block counted at the proposed irreversible
block. Between promotions, on a chain whose block numbers never wrapped, this never moves down.
A state reached by an ordinary block satisfies
`LibCovered`: its last irreversible block is at most the quorum of its own implied map, because
that map is exactly the list the quorum was taken of (or that list with one entry above all the
others added). From a covered state the next quorum is taken of entries that are pointwise at
least as large, so it is at least the covered value.

A promotion breaks the cover. The map is rebuilt for the new schedule: new producers are seeded
with the last irreversible block, but producers kept from the old schedule keep their old implied
irreversible blocks, which may lie far below it, and the quorum is now taken over a different
number of producers. The block after a promotion can therefore report a lower last irreversible
block; `dposIrreversibleBlocknum_can_decrease` replays a fourteen-block chain where it drops from
8 to 3. The controller does not rely on this value being monotone: `log_irreversible` returns
early when the fork head's last irreversible block is not above the block log's head.
-/

import EosioChain.DposInvariant

namespace Eosio.Chain

variable {Digest : Type}

open BlockHeaderState

/-! ### The quorum rule -/

theorem dposQuorum_perm {first second : List Nat} (permuted : first.Perm second) :
    dposQuorum first = dposQuorum second := by
  unfold dposQuorum
  rw [permuted.length_eq, OrderStatistic.nth_perm permuted]

theorem dposQuorum_mono {lower upper : List Nat} (pointwise : List.Forall₂ (· ≤ ·) lower upper) :
    dposQuorum lower ≤ dposQuorum upper := by
  unfold dposQuorum
  rw [← pointwise.length_eq]
  split
  · exact le_rfl
  · exact OrderStatistic.nth_mono pointwise (by omega) 0

/-- A new entry above all the others cannot lower the quorum, although the rank the quorum reads
moves up from `(n - 1) / 3` to `n / 3`. -/
theorem dposQuorum_le_append {blocknums : List Nat} {top : Nat}
    (dominated : ∀ blocknum ∈ blocknums, blocknum ≤ top) :
    dposQuorum blocknums ≤ dposQuorum (blocknums ++ [top]) := by
  unfold dposQuorum
  split
  · exact Nat.zero_le _
  · rename_i nonempty
    rw [if_neg (by simp)]
    simp only [List.length_append, List.length_singleton, Nat.add_sub_cancel]
    exact OrderStatistic.nth_le_nth_append dominated (by omega) (Nat.div_le_div_right (by omega))
      (Nat.div_le_self _ _) 0

/-! ### The cover of a state reached by an ordinary block -/

/-- The last irreversible block is covered by the producers' implied irreversible blocks: it is
at most their quorum. -/
def LibCovered (s : BlockHeaderStateCommon Digest) : Prop :=
  s.dposIrreversibleBlocknum ≤ dposQuorum (ProducerMap.values s.producerToLastImpliedIrb)

theorem ProducerMap.values_insert_of_not_mem {producers : ProducerMap} {producer : Name}
    (absent : producer ∉ producers) (value : Nat) :
    ProducerMap.values (producers.insert producer value) = value :: ProducerMap.values producers := by
  rw [ProducerMap.values, AList.entries_insert_of_notMem absent, List.map_cons]
  rfl

theorem impliedBlocknums_of_not_mem {s : BlockHeaderState Digest} {producer : Name}
    (absent : producer ∉ s.producerToLastImpliedIrb) :
    s.impliedBlocknums producer = ProducerMap.values s.producerToLastImpliedIrb := by
  unfold impliedBlocknums ProducerMap.values
  refine List.map_congr_left fun entry member => if_neg fun same => absent ?_
  have keyed : entry.1 ∈ s.producerToLastImpliedIrb.entries.keys := List.mem_keys_of_mem member
  rw [same] at keyed
  exact AList.mem_keys.mpr keyed

/-- Counting the producer of the next block at the proposed irreversible block is, up to order,
recording that value in the map. -/
theorem impliedBlocknums_perm_of_mem {s : BlockHeaderState Digest} {producer : Name}
    (present : producer ∈ s.producerToLastImpliedIrb) :
    (s.impliedBlocknums producer).Perm (ProducerMap.values
      (s.producerToLastImpliedIrb.insert producer s.dposProposedIrreversibleBlocknum)) := by
  obtain ⟨old, before, after, notBefore, split, erased⟩ :=
    List.exists_of_kerase (AList.mem_keys.mp present)
  have distinct := s.producerToLastImpliedIrb.nodupKeys
  rw [List.NodupKeys, split, List.keys_append, List.keys_cons, List.nodup_append] at distinct
  have notAfter : producer ∉ after.keys := (List.nodup_cons.mp distinct.2.1).1
  have others : ∀ part : List (Sigma fun _ : Name => Nat), producer ∉ part.keys →
      part.map (fun entry => if entry.1 = producer then s.dposProposedIrreversibleBlocknum
        else entry.2) = part.map Sigma.snd := by
    intro part absent
    refine List.map_congr_left fun entry member => if_neg fun same => absent ?_
    have keyed : entry.1 ∈ part.keys := List.mem_keys_of_mem member
    rwa [same] at keyed
  unfold impliedBlocknums ProducerMap.values
  rw [AList.entries_insert, erased, split, List.map_append, List.map_cons, if_pos rfl,
    others before notBefore, others after notAfter, List.map_cons, List.map_append]
  exact List.perm_middle

/-- **An ordinary block leaves its state covered.** The new last irreversible block is the
quorum of the list the new implied map holds, or of that list less an entry above all others. -/
theorem nextPending_libCovered [Inhabited Digest] (hashPair : Digest → Digest → Digest) {s : BlockHeaderState Digest}
    (invariant : DposInvariant s.toBlockHeaderStateCommon) (when numPrevBlocksToConfirm : Nat)
    (ordinary : (s.nextPending hashPair when numPrevBlocksToConfirm).wasPendingPromoted = false) :
    LibCovered (s.nextPending hashPair when numPrevBlocksToConfirm).toBlockHeaderStateCommon := by
  unfold nextPending at ordinary ⊢
  dsimp only at ordinary ⊢
  have notPromoted : ¬ s.promotes (s.calcDposLastIrreversible (s.getScheduledProducer when)) =
      true := by simpa using ordinary
  unfold LibCovered
  simp only [notPromoted, Bool.false_eq_true, if_false]
  by_cases present : s.getScheduledProducer when ∈ s.producerToLastImpliedIrb
  · exact le_of_eq (dposQuorum_perm (impliedBlocknums_perm_of_mem present))
  · rw [calcDposLastIrreversible, impliedBlocknums_of_not_mem present,
      ProducerMap.values_insert_of_not_mem present,
      ← dposQuorum_perm (List.perm_append_singleton _ _)]
    exact dposQuorum_le_append invariant.impliedLeProposed

/-! ### Monotonicity out of a covered state -/

/-- Counting the producer of the next block at the proposed irreversible block only raises
entries, since every implied irreversible block is at most the proposed one. -/
theorem values_le_impliedBlocknums {s : BlockHeaderState Digest} (producer : Name)
    (bounded : ∀ irb ∈ ProducerMap.values s.producerToLastImpliedIrb,
      irb ≤ s.dposProposedIrreversibleBlocknum) :
    List.Forall₂ (· ≤ ·) (ProducerMap.values s.producerToLastImpliedIrb)
      (s.impliedBlocknums producer) := by
  unfold ProducerMap.values impliedBlocknums
  rw [List.forall₂_map_left_iff, List.forall₂_map_right_iff]
  refine List.forall₂_same.mpr fun entry member => ?_
  split
  · exact bounded entry.2 (List.mem_map_of_mem member)
  · exact le_rfl

/-- From a covered state, the last irreversible block of the next block is not lower. -/
theorem le_calcDposLastIrreversible {s : BlockHeaderState Digest}
    (invariant : DposInvariant s.toBlockHeaderStateCommon)
    (covered : LibCovered s.toBlockHeaderStateCommon) (producer : Name) :
    s.dposIrreversibleBlocknum ≤ s.calcDposLastIrreversible producer :=
  le_trans covered
    (dposQuorum_mono (values_le_impliedBlocknums producer invariant.impliedLeProposed))

variable [Inhabited Digest] [DecidableEq Digest]

theorem Step.dposIrreversibleBlocknum_le (context : HeaderContext Digest)
    {s s' : BlockHeaderState Digest} (invariant : DposInvariant s.toBlockHeaderStateCommon)
    (covered : LibCovered s.toBlockHeaderStateCommon) (stepped : Step context s s') :
    s.dposIrreversibleBlocknum ≤ s'.dposIrreversibleBlocknum := by
  obtain ⟨when, numPrevBlocksToConfirm, h, finished⟩ := stepped.elim
  have common := PendingBlockHeaderState.finishNext_toCommon context finished
  have lastIrreversible := congrArg BlockHeaderStateCommon.dposIrreversibleBlocknum common
  rw [lastIrreversible]
  exact le_calcDposLastIrreversible invariant covered _

/-- A block that does not promote the pending schedule. -/
def OrdinaryStep (context : HeaderContext Digest) (s s' : BlockHeaderState Digest) : Prop :=
  ∃ when numPrevBlocksToConfirm h p, s.next context.hashPair when numPrevBlocksToConfirm = .ok p ∧
    p.wasPendingPromoted = false ∧ p.finishNext context h = .ok s'

/-- **Irreversibility does not move backwards out of a state that no promotion produced.** From
the genesis state, or from a state an ordinary block produced, without wrapping, on a chain whose
block numbers never wrapped, the next block's last irreversible block is at least this one's;
this includes the block that promotes a pending schedule. -/
theorem dposIrreversibleBlocknum_monotone (context : HeaderContext Digest)
    {s s' : BlockHeaderState Digest}
    (settled : (∃ initialTimestamp, s = genesis context initialTimestamp) ∨
      ∃ p, ReachableUnwrapped context p ∧ p.blockNum + 1 < 2 ^ 32 ∧ OrdinaryStep context p s)
    (stepped : Step context s s') :
    s.dposIrreversibleBlocknum ≤ s'.dposIrreversibleBlocknum := by
  rcases settled with ⟨initialTimestamp, rfl⟩ | ⟨p, reachable, fits, ordinary⟩
  · exact Nat.zero_le _
  · obtain ⟨when, numPrevBlocksToConfirm, h, pending, built, notPromoted, finished⟩ := ordinary
    obtain ⟨when', rfl⟩ := next_eq_ok context.hashPair built
    have invariant := reachable.dposInvariant context
    have common := PendingBlockHeaderState.finishNext_toCommon context finished
    refine Step.dposIrreversibleBlocknum_le context ?_ ?_ stepped
    · rw [common]
      exact nextPending_dposInvariant context.hashPair invariant fits when' numPrevBlocksToConfirm
    · rw [common]
      exact nextPending_libCovered context.hashPair invariant when' numPrevBlocksToConfirm
        notPromoted

/-- Block 3 of the replayed chain is ordinary and proposes `fourProducers`; block 4, which
promotes it, does not lower the last irreversible block. -/
theorem promotionChain_dposIrreversibleBlocknum_monotone :
    Step replayContext (promotionChainState 2) (promotionChainState 3) ∧
      (promotionChainState 3).activeSchedule.version = 1 ∧
      (promotionChainState 2).dposIrreversibleBlocknum ≤
        (promotionChainState 3).dposIrreversibleBlocknum := by
  have reachable : ReachableUnwrapped replayContext (promotionChainState 1) :=
    produceBlocks_reachableUnwrapped (promotionChain.take 1) (by decide) (by decide)
      (Transition.Reachable.of_initial ⟨0, by decide, rfl⟩) rfl
  have ordinary : OrdinaryStep replayContext (promotionChainState 1) (promotionChainState 2) :=
    ⟨2, 0, ((promotionChainState 1).nextPending replayContext.hashPair 2 0).makeBlockHeader
      replayContext (some fourProducers) [], _, rfl, rfl, rfl⟩
  have promoting : produceBlock replayContext (promotionChainState 2) (3, 0, none) =
      .ok (promotionChainState 3) := rfl
  have stepped := produceBlock_step (by decide) promoting
  exact ⟨stepped, rfl, dposIrreversibleBlocknum_monotone replayContext
    (Or.inr ⟨promotionChainState 1, reachable, by decide, ordinary⟩) stepped⟩

/-! ### The block after a promotion -/

/-- **The block after a promotion can lower the last irreversible block.** Block 13 promotes
`keptAndNew` at a last irreversible block of 8; producer `⟨2⟩` keeps its implied irreversible
block 3 from before it stopped producing, producer `⟨5⟩` is seeded with 8, and block 14 takes the
quorum of the two at rank 0: 3. -/
theorem dposIrreversibleBlocknum_can_decrease :
    ∃ s s' : BlockHeaderState Nat, Reachable replayContext s ∧ Step replayContext s s' ∧
      s'.dposIrreversibleBlocknum < s.dposIrreversibleBlocknum := by
  refine ⟨promotionChainState 12, promotionChainState 13, ?_, ?_, by decide⟩
  · exact produceBlocks_reachable (promotionChain.take 12) (by decide)
      (Transition.Reachable.of_initial ⟨0, by decide, rfl⟩) rfl
  · have lastBlock : produceBlock replayContext (promotionChainState 12) (133, 0, none) =
        .ok (promotionChainState 13) := rfl
    exact produceBlock_step (by decide) lastBlock

end Eosio.Chain
