/-
This file shows that the DPoS invariant needs block numbers that do not wrap. `block_num` is a
`uint32_t`, and `next` computes `block_num + 1` unchecked.

A producer that made block `2 ^ 32 - 1` can never make the next one: for every count of
confirmed blocks, `(block_num+1) - num_prev_blocks_to_confirm` wraps to a number at or below its
last block, and the double-confirmation check refuses it. The wrap therefore comes with a
producer that did not make the last block. In the chain built here `eosio` produces blocks 2 to
`2 ^ 32 - 2` alone with the default timestamps, each block confirming itself. Block `2 ^ 32 - 2`
proposes a schedule of two producers, and block `2 ^ 32 - 1` promotes it and seeds both producers
at the last irreversible block. The producer of the next block confirms one earlier block and is
accepted. The new block is numbered 0, while the proposed irreversible block stays at
`2 ^ 32 - 1`.

The run from block 2 to block `2 ^ 32 - 3` is proved by induction on its length from one block of
a single producer, `SoloState.produceBlock`. Nothing in it is evaluated.
-/

import EosioChain.DposInvariant

namespace Eosio.Chain

variable {Digest : Type}

open BlockHeaderState

/-! ### A producer's own block -/

namespace PendingBlockHeaderState

variable [DecidableEq Digest] (context : HeaderContext Digest)

omit [DecidableEq Digest] in
theorem checkProposal_eq_ok {p : PendingBlockHeaderState Digest}
    {proposal : ProducerAuthoritySchedule} (notPromoted : p.wasPendingPromoted = false)
    (version : proposal.version = p.activeSchedule.version + 1)
    (nothingPending : p.prevPendingSchedule.schedule.producers = []) :
    p.checkProposal proposal = .ok () := by
  simp [checkProposal, notPromoted, version, nothingPending]
  rfl

/-- **A producer's own header is accepted.** The header `make_block_header` makes for a pending
state, with no new protocol features, passes `_finish_next` when the schedule it proposes, if
any, goes in the legacy field and passes the checks of a proposal; the proposal becomes
pending. -/
theorem finishNext_makeBlockHeader (p : PendingBlockHeaderState Digest)
    (proposal : Option ProducerAuthoritySchedule)
    (accepted : ∀ schedule ∈ proposal, wtmsigActivated context p.prevActivatedProtocolFeatures =
      false ∧ p.checkProposal schedule = .ok ()) :
    p.finishNext context (p.makeBlockHeader context proposal []) =
      .ok { p.toBlockHeaderStateCommon with
        id := context.calculateId (p.makeBlockHeader context proposal []),
        header := p.makeBlockHeader context proposal [],
        pendingSchedule := p.nextPendingSchedule proposal,
        activatedProtocolFeatures := p.prevActivatedProtocolFeatures } := by
  cases proposal with
  | none =>
    simp [finishNext, checkHeader, newProducerSchedule, newActivatedProtocolFeatures,
      makeBlockHeader]
    rfl
  | some schedule =>
    obtain ⟨legacy, checked⟩ := accepted schedule rfl
    simp [finishNext, checkHeader, newProducerSchedule, newActivatedProtocolFeatures,
      makeBlockHeader, legacy, checked]

end PendingBlockHeaderState

namespace BlockHeaderState

/-- A producer's block whose `next` succeeded: the pending state sealed with its own header. -/
theorem produceBlock_eq_ok [Inhabited Digest] [DecidableEq Digest] (context : HeaderContext Digest)
    {s : BlockHeaderState Digest} {when numPrevBlocksToConfirm : Nat}
    {p : PendingBlockHeaderState Digest}
    (built : s.next context.hashPair when numPrevBlocksToConfirm = .ok p)
    (proposal : Option ProducerAuthoritySchedule)
    (accepted : ∀ schedule ∈ proposal, PendingBlockHeaderState.wtmsigActivated context
      p.prevActivatedProtocolFeatures = false ∧ p.checkProposal schedule = .ok ()) :
    produceBlock context s (when, numPrevBlocksToConfirm, proposal) =
      .ok { p.toBlockHeaderStateCommon with
        id := context.calculateId (p.makeBlockHeader context proposal []),
        header := p.makeBlockHeader context proposal [],
        pendingSchedule := p.nextPendingSchedule proposal,
        activatedProtocolFeatures := p.prevActivatedProtocolFeatures } := by
  rw [produceBlock, built]
  exact PendingBlockHeaderState.finishNext_makeBlockHeader context p proposal accepted

theorem next_default [Inhabited Digest] (hashPair : Digest → Digest → Digest)
    {s : BlockHeaderState Digest} {numPrevBlocksToConfirm : Nat}
    (checked : s.checkDoubleConfirm (s.getScheduledProducer ((s.header.timestamp + 1) % 2 ^ 32))
      numPrevBlocksToConfirm = .ok ()) :
    s.next hashPair 0 numPrevBlocksToConfirm =
      .ok (s.nextPending hashPair ((s.header.timestamp + 1) % 2 ^ 32) numPrevBlocksToConfirm) := by
  simp only [next, nextTimestamp, ne_eq, not_true_eq_false, if_false]
  rw [Transition.bind_eq_ok.mpr ⟨_, rfl, ?_⟩]
  rw [checked]
  rfl

theorem checkDoubleConfirm_of_lookup {s : BlockHeaderState Digest} (producer : Name)
    (numPrevBlocksToConfirm : Nat) {lastProduced : Nat}
    (found : s.producerToLastProduced.lookup producer = some lastProduced)
    (below : (lastProduced : Int) < ((s.blockNum + 1 : Int) - numPrevBlocksToConfirm) % 2 ^ 32) :
    s.checkDoubleConfirm producer numPrevBlocksToConfirm = .ok () := by
  simp only [checkDoubleConfirm, found]
  exact if_pos below

/-- **The producer of block `2 ^ 32 - 1` cannot produce the next block**, whatever it confirms:
the `uint32_t` difference the check compares with wraps to at most its last block. -/
theorem checkDoubleConfirm_of_last_block {s : BlockHeaderState Digest} {producer : Name}
    (atLast : s.blockNum = 2 ^ 32 - 1)
    (madeIt : s.producerToLastProduced.lookup producer = some s.blockNum)
    (numPrevBlocksToConfirm : Nat) :
    s.checkDoubleConfirm producer numPrevBlocksToConfirm =
      .error "producer double-confirming known range" := by
  have refused : ¬ ((s.blockNum : Int) < ((s.blockNum + 1 : Int) - numPrevBlocksToConfirm) %
      2 ^ 32) := by
    rw [atLast]
    omega
  simp only [checkDoubleConfirm, madeIt]
  exact if_neg refused

theorem getScheduledProducer_of_single {s : BlockHeaderState Digest} {producer : Name}
    (single : s.activeSchedule.producers = [producer]) (t : Nat) :
    s.getScheduledProducer t = producer := by
  simp [getScheduledProducer, single, producerRepetitions]

theorem getScheduledProducer_mem {s : BlockHeaderState Digest}
    (nonempty : s.activeSchedule.producers ≠ []) (t : Nat) :
    s.getScheduledProducer t ∈ s.activeSchedule.producers := by
  have positive : 0 < s.activeSchedule.producers.length * producerRepetitions :=
    Nat.mul_pos (List.length_pos_of_ne_nil nonempty) (by decide)
  have inRange : t % (s.activeSchedule.producers.length * producerRepetitions) /
      producerRepetitions < s.activeSchedule.producers.length := by
    refine Nat.div_lt_of_lt_mul ?_
    rw [Nat.mul_comm producerRepetitions]
    exact Nat.mod_lt t positive
  unfold getScheduledProducer
  rw [List.getD_eq_getElem _ _ inRange]
  exact List.getElem_mem inRange

theorem promotes_of_producers_eq_nil {s : BlockHeaderState Digest}
    (nothingPending : s.pendingSchedule.schedule.producers = []) (lastIrreversible : Nat) :
    s.promotes lastIrreversible = false := by
  simp [promotes, nothingPending]

end BlockHeaderState

/-- A block confirming itself alone, as the block of a single producer does, becomes the proposed
irreversible block and leaves no confirmations outstanding. -/
theorem confirmLoop_selfConfirmed {blockNum : Nat} (fits : blockNum < 2 ^ 32) (proposed : Nat) :
    confirmLoop blockNum 1 1 [1] proposed = ([], blockNum) := by
  simp [confirmLoop]
  omega

/-- A fold that inserts each item under its own key, and gives `key` the value `value`, leaves
`key` at `value` when it is among the items, and untouched otherwise. -/
theorem lookup_foldl_insert {β : Type} {f : AList (fun _ : Name => β) → Name → AList (fun _ : Name => β)}
    {key : Name} {value : β}
    (step : ∀ rebuilt item, (f rebuilt item).lookup key =
      if item = key then some value else rebuilt.lookup key) :
    ∀ (items : List Name) (rebuilt : AList (fun _ : Name => β)),
      (items.foldl f rebuilt).lookup key = if key ∈ items then some value else rebuilt.lookup key
  | [], rebuilt => by simp
  | item :: rest, rebuilt => by
    rw [List.foldl_cons, lookup_foldl_insert step rest, step]
    by_cases later : key ∈ rest
    · simp [later]
    · by_cases same : item = key
      · simp [later, same]
      · simp [later, same, Ne.symm same]

/-- A new producer of a promoted schedule starts at the last irreversible block. -/
theorem lookup_promotedLastProduced_of_fresh {old : ProducerMap} {producers : List Name}
    {producer pro : Name} {blockNum lastIrreversible : Nat} (member : pro ∈ producers)
    (other : pro ≠ producer) (fresh : old.lookup pro = none) :
    (promotedLastProduced old producers producer blockNum lastIrreversible).lookup pro =
      some lastIrreversible := by
  unfold promotedLastProduced
  rw [AList.lookup_insert_ne other, lookup_foldl_insert ?step producers, if_pos member]
  -- each step of the rebuild inserts its producer, and `pro` at the last irreversible block
  intro rebuilt item
  by_cases same : item = pro
  · subst same
    simp [other, fresh]
  · have untouched : ∀ value, (rebuilt.insert item value).lookup pro = rebuilt.lookup pro :=
      fun value => AList.lookup_insert_ne fun equal => same equal.symm
    rw [if_neg same]
    split
    · exact untouched _
    · split <;> exact untouched _

/-! ### A chain that `eosio` produces alone -/

/-- The bookkeeping of block `n` of a chain that `eosio` produces alone: every block confirmed
itself, so the proposed irreversible block is the block itself and no confirmations are
outstanding. -/
structure SoloState (s : BlockHeaderStateCommon Digest) (n : Nat) : Prop where
  blockNum : s.blockNum = n
  proposed : s.dposProposedIrreversibleBlocknum = n
  window : s.confirmCount = []
  active : s.activeSchedule = initialSchedule
  lastProduced : s.producerToLastProduced = AList.singleton systemAccountName n
  lastImplied : ∃ irb, s.producerToLastImpliedIrb = AList.singleton systemAccountName irb

theorem SoloState.nextPending [Inhabited Digest] (hashPair : Digest → Digest → Digest)
    {s : BlockHeaderState Digest} {n : Nat} (solo : SoloState s.toBlockHeaderStateCommon n)
    (nothingPending : s.pendingSchedule.schedule.producers = []) (fits : n + 1 < 2 ^ 32)
    (when : Nat) :
    SoloState (s.nextPending hashPair when 0).toBlockHeaderStateCommon (n + 1) ∧
      (s.nextPending hashPair when 0).wasPendingPromoted = false := by
  obtain ⟨numbered, proposed, window, active, lastProduced, irb, lastImplied⟩ := solo
  have single : s.activeSchedule.producers = [systemAccountName] := by rw [active]; rfl
  have producer := getScheduledProducer_of_single single when
  have grown : growConfirmCount s.confirmCount
      (s.activeSchedule.producers.length * 2 / 3 + 1).toUInt8 = [1] := by
    rw [window, active]
    rfl
  unfold BlockHeaderState.nextPending
  simp only [producer, promotes_of_producers_eq_nil nothingPending, grown, numbered,
    Nat.mod_eq_of_lt fits, proposed, lastProduced, lastImplied, List.length_singleton,
    confirmLoop_selfConfirmed fits, AList.insert_singleton_eq, Bool.false_eq_true, if_false]
  exact ⟨⟨rfl, rfl, rfl, active, rfl, n, rfl⟩, trivial⟩

variable [Inhabited Digest] [DecidableEq Digest] (context : HeaderContext Digest)

/-- **`eosio` alone extends its chain by one block**, with the default timestamp, confirming only
the block itself and proposing at most a schedule of version 1, as long as the block number
fits. -/
theorem SoloState.produceBlock {s : BlockHeaderState Digest} {n : Nat}
    (solo : SoloState s.toBlockHeaderStateCommon n)
    (nothingPending : s.pendingSchedule.schedule.producers = []) (fits : n + 1 < 2 ^ 32)
    (proposal : Option ProducerAuthoritySchedule)
    (accepted : ∀ schedule ∈ proposal,
      PendingBlockHeaderState.wtmsigActivated context s.activatedProtocolFeatures = false ∧
        schedule.version = 1) :
    ∃ s', produceBlock context s (0, 0, proposal) = .ok s' ∧
      SoloState s'.toBlockHeaderStateCommon (n + 1) ∧
      s'.pendingSchedule = proposal.elim s.pendingSchedule fun schedule => ⟨n + 1, schedule⟩ := by
  obtain ⟨pendingSolo, notPromoted⟩ := solo.nextPending context.hashPair nothingPending fits
    ((s.header.timestamp + 1) % 2 ^ 32)
  have single : s.activeSchedule.producers = [systemAccountName] := by rw [solo.active]; rfl
  have found : s.producerToLastProduced.lookup
      (s.getScheduledProducer ((s.header.timestamp + 1) % 2 ^ 32)) = some n := by
    rw [getScheduledProducer_of_single single, solo.lastProduced]
    rfl
  have checked := checkDoubleConfirm_of_lookup _ 0 found (by rw [solo.blockNum]; omega)
  have produced := produceBlock_eq_ok context (next_default context.hashPair checked) proposal
    fun schedule member => ⟨(accepted schedule member).1,
      PendingBlockHeaderState.checkProposal_eq_ok notPromoted
        (by rw [(accepted schedule member).2, pendingSolo.active]; rfl) nothingPending⟩
  refine ⟨_, produced, pendingSolo, ?_⟩
  -- no promotion: a proposal becomes pending at the new block, or the pending one stays
  cases proposal with
  | none =>
    show PendingBlockHeaderState.nextPendingSchedule _ none = _
    simp only [PendingBlockHeaderState.nextPendingSchedule, notPromoted, Bool.false_eq_true,
      if_false]
    rfl
  | some schedule =>
    show PendingBlockHeaderState.nextPendingSchedule _ (some schedule) = _
    rw [PendingBlockHeaderState.nextPendingSchedule, pendingSolo.blockNum]
    rfl

/-- **`eosio` alone extends its chain by any number of blocks** with the default timestamps, as
long as the block numbers fit; the pending schedule stays empty. -/
theorem SoloState.produceBlocks :
    ∀ (count : Nat) {s : BlockHeaderState Digest} {n : Nat},
      SoloState s.toBlockHeaderStateCommon n → s.pendingSchedule.schedule.producers = [] →
      n + count < 2 ^ 32 →
      ∃ s', produceBlocks context s (List.replicate count (0, 0, none)) = .ok s' ∧
        SoloState s'.toBlockHeaderStateCommon (n + count) ∧ s'.pendingSchedule = s.pendingSchedule
  | 0, s, _, solo, _, _ => ⟨s, rfl, solo, rfl⟩
  | count + 1, s, n, solo, nothingPending, fits => by
    obtain ⟨next, produced, nextSolo, nextPending⟩ :=
      solo.produceBlock context nothingPending (by omega) none
        fun _ member => absurd member (Option.not_mem_none _)
    obtain ⟨last, rest, lastSolo, lastPending⟩ := SoloState.produceBlocks count nextSolo
      (by rw [nextPending]; exact nothingPending) (by omega)
    have numbered : n + 1 + count = n + (count + 1) := by omega
    refine ⟨last, ?_, numbered ▸ lastSolo, lastPending.trans nextPending⟩
    rw [List.replicate_succ, BlockHeaderState.produceBlocks, produced]
    exact rest

/-- The block after a proposal, still produced by `eosio`, promotes it: the last irreversible
block is the proposal's block, and the new producers start there. -/
theorem SoloState.promote {s : BlockHeaderState Digest} {n : Nat}
    (solo : SoloState s.toBlockHeaderStateCommon n) (fits : n + 1 < 2 ^ 32)
    {schedule : ProducerAuthoritySchedule} (proposed : s.pendingSchedule = ⟨n, schedule⟩)
    (nonempty : schedule.producers ≠ []) (fresh : systemAccountName ∉ schedule.producers) :
    ∃ s', BlockHeaderState.produceBlock context s (0, 0, none) = .ok s' ∧ s'.blockNum = n + 1 ∧
      s'.dposProposedIrreversibleBlocknum = n + 1 ∧ s'.confirmCount = [] ∧
      s'.activeSchedule = schedule ∧
      ∀ pro ∈ schedule.producers, s'.producerToLastProduced.lookup pro = some n := by
  obtain ⟨numbered, proposedAt, window, active, lastProduced, irb, lastImplied⟩ := solo
  have single : s.activeSchedule.producers = [systemAccountName] := by rw [active]; rfl
  have producer := getScheduledProducer_of_single single ((s.header.timestamp + 1) % 2 ^ 32)
  have found : s.producerToLastProduced.lookup
      (s.getScheduledProducer ((s.header.timestamp + 1) % 2 ^ 32)) = some n := by
    rw [producer, lastProduced]
    rfl
  have checked := checkDoubleConfirm_of_lookup _ 0 found (by rw [numbered]; omega)
  -- the quorum of `eosio` alone is the proposed irreversible block, the proposal's block
  have lastIrreversible : s.calcDposLastIrreversible systemAccountName = n := by
    simp [calcDposLastIrreversible, impliedBlocknums, lastImplied, AList.singleton, proposedAt,
      dposQuorum, OrderStatistic.nth]
  have promoting : s.promotes n = true := by
    simp [promotes, proposed, nonempty]
  have grown : growConfirmCount s.confirmCount
      (s.activeSchedule.producers.length * 2 / 3 + 1).toUInt8 = [1] := by
    rw [window, active]
    rfl
  have produced := produceBlock_eq_ok context (next_default context.hashPair checked) none
    fun _ member => absurd member (Option.not_mem_none _)
  refine ⟨_, produced, ?_, ?_, ?_, ?_, ?_⟩
  all_goals
    simp only [BlockHeaderState.nextPending, producer, lastIrreversible, promoting, if_true,
      grown, numbered, Nat.mod_eq_of_lt fits, List.length_singleton, confirmLoop_selfConfirmed fits,
      proposed]
  · intro pro member
    have other : pro ≠ systemAccountName := fun same => fresh (same ▸ member)
    refine lookup_promotedLastProduced_of_fresh member other ?_
    rw [lastProduced, AList.lookup, AList.singleton_entries, List.dlookup_cons_ne _ _ other,
      List.dlookup_nil]

/-- **A producer that did not make block `2 ^ 32 - 1` wraps the block number.** From a state at
block `2 ^ 32 - 1` with no confirmations outstanding, whose two active producers last produced
below it, the next block with the default timestamp, confirming one earlier block, is accepted
and numbered 0; it leaves one confirmation outstanding and the proposed irreversible block where
it was. -/
theorem produceBlock_wraps {s : BlockHeaderState Digest} (atLast : s.blockNum = 2 ^ 32 - 1)
    (window : s.confirmCount = []) (two : s.activeSchedule.producers.length = 2)
    (below : ∀ pro ∈ s.activeSchedule.producers,
      ∃ last, s.producerToLastProduced.lookup pro = some last ∧ last < 2 ^ 32 - 1) :
    ∃ s', produceBlock context s (0, 1, none) = .ok s' ∧ s'.blockNum = 0 ∧
      s'.dposProposedIrreversibleBlocknum = s.dposProposedIrreversibleBlocknum ∧
      s'.confirmCount = [1] := by
  have nonempty : s.activeSchedule.producers ≠ [] := fun empty => by simp [empty] at two
  obtain ⟨last, found, lastBelow⟩ :=
    below _ (getScheduledProducer_mem nonempty ((s.header.timestamp + 1) % 2 ^ 32))
  have checked := checkDoubleConfirm_of_lookup _ 1 found (by rw [atLast]; omega)
  -- two producers require two confirmations, so the new block keeps one outstanding
  have grown : growConfirmCount s.confirmCount
      (s.activeSchedule.producers.length * 2 / 3 + 1).toUInt8 = [2] := by
    rw [window, two]
    rfl
  have produced := produceBlock_eq_ok context (next_default context.hashPair checked) none
    fun _ member => absurd member (Option.not_mem_none _)
  refine ⟨_, produced, ?_, ?_, ?_⟩
  all_goals
    simp only [BlockHeaderState.nextPending, grown, atLast, List.length_singleton]
  · rfl
  · rfl
  · rfl

/-! ### The wrap -/

/-- Block 2 of a chain started at slot 0: `eosio` produces it with the default timestamp and
promotes the initial schedule it already had. -/
def soloStart : BlockHeaderState Nat :=
  ((produceBlock replayContext (genesis replayContext 0) (0, 0, none)).toOption).getD
    (genesis replayContext 0)

/-- The schedule of two producers that block `2 ^ 32 - 2` proposes. -/
def twoProducers : ProducerAuthoritySchedule := ⟨1, [⟨1⟩, ⟨2⟩], by decide, by decide⟩

/-- **The DPoS invariant breaks when the block number wraps.** On the chain above, the state at
block `2 ^ 32 - 1` keeps the invariant; its next block, numbered 0, has its proposed irreversible
block `2 ^ 32 - 1` above its own number. -/
theorem dposInvariant_fails_after_block_number_wraps :
    ∃ s s' : BlockHeaderState Nat, Reachable replayContext s ∧
      DposInvariant s.toBlockHeaderStateCommon ∧ Step replayContext s s' ∧ s'.blockNum = 0 ∧
      ¬ DposInvariant s'.toBlockHeaderStateCommon := by
  have first : produceBlock replayContext (genesis replayContext 0) (0, 0, none) =
      .ok soloStart := rfl
  have started : ReachableUnwrapped replayContext soloStart :=
    (Transition.Reachable.of_initial ⟨0, by decide, rfl⟩).step
      ⟨by decide, produceBlock_step (by decide) first⟩
  have startSolo : SoloState soloStart.toBlockHeaderStateCommon 2 :=
    ⟨rfl, rfl, rfl, rfl, rfl, 0, rfl⟩
  have startPending : soloStart.pendingSchedule.schedule.producers = [] := rfl
  -- blocks 3 to `2 ^ 32 - 3`, by `eosio` alone
  obtain ⟨ran, ranProduced, ranSolo, ranPending⟩ :=
    SoloState.produceBlocks replayContext (2 ^ 32 - 5) startSolo startPending (by norm_num)
  have ranReachable := produceBlocks_reachableUnwrapped _
    (fun block member => (List.eq_of_mem_replicate member) ▸ (by decide : BlockArguments (0, 0, none)))
    (by rw [List.length_replicate, startSolo.blockNum]; norm_num) started ranProduced
  -- block `2 ^ 32 - 2` proposes the two producers
  obtain ⟨proposing, proposed, proposingSolo, proposingPending⟩ :=
    ranSolo.produceBlock replayContext (ranPending ▸ startPending) (by norm_num)
      (some twoProducers) fun schedule member => ⟨rfl, by cases member; rfl⟩
  have proposingReachable : ReachableUnwrapped replayContext proposing := ranReachable.step
    ⟨by rw [ranSolo.blockNum]; norm_num, produceBlock_step (by decide) proposed⟩
  -- block `2 ^ 32 - 1` promotes them
  obtain ⟨promoting, promoted, promotedNumber, promotedProposed, promotedWindow, promotedActive,
    promotedLast⟩ :=
    proposingSolo.promote replayContext (by norm_num) proposingPending (by decide) (by decide)
  have promotingReachable : ReachableUnwrapped replayContext promoting := proposingReachable.step
    ⟨by rw [proposingSolo.blockNum]; norm_num, produceBlock_step (by decide) promoted⟩
  -- the next block, by a producer that did not make block `2 ^ 32 - 1`, wraps
  obtain ⟨wrapped, wrapping, wrappedNumber, wrappedProposed, wrappedWindow⟩ :=
    produceBlock_wraps replayContext (by rw [promotedNumber]; norm_num) promotedWindow
      (by rw [promotedActive]; rfl)
      fun pro member => ⟨_, promotedLast pro (promotedActive ▸ member), by norm_num⟩
  refine ⟨promoting, wrapped, ReachableUnwrapped.reachable replayContext promotingReachable,
    promotingReachable.dposInvariant replayContext, produceBlock_step (by decide) wrapping,
    wrappedNumber, fun invariant => ?_⟩
  have below := invariant.proposedBelowWindow
  rw [wrappedNumber, wrappedProposed, promotedProposed, wrappedWindow] at below
  norm_num at below

end Eosio.Chain
