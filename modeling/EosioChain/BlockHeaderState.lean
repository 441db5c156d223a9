/-
This file models `block_header_state.cpp`: the header state of a block, and the two halves of
the step that builds the state of the next block from it. `block_header_state::next` chooses the
scheduled producer, slides the 8-bit confirmation window and tallies the confirmations the new
block carries, recomputes the proposed and the last irreversible block numbers, and promotes a
pending producer schedule once it is irreversible. `pending_block_header_state::_finish_next`
checks the signed header against that pending state, accepts a new pending schedule proposed in
the header, and seals the state with the block's id.

Block numbers and slots are the source's `uint32_t`, held as natural numbers below `2 ^ 32` with
every wrap of the source made explicit: `block_num + 1`, the block number `block_num_for_i` of a
confirmed block, the `slot++` of the default timestamp and `(block_num+1) -
num_prev_blocks_to_confirm` in the double-confirmation check are all taken modulo `2 ^ 32`. A step
takes the arguments `next` can be given, a slot below `2 ^ 32` and a `uint16_t` count of confirmed
blocks, and a chain starts at a genesis slot below `2 ^ 32`. The counts of the confirmation window
are the source's `uint8_t`. Signatures, signing authorities and schedule hashes are not modelled.
-/

import EosioChain.Merkle
import EosioChain.Name
import EosioChain.OrderStatistic
import EosioChain.Transition
import Mathlib

namespace Eosio.Chain

/-! ### Configuration and schedules -/

/-- `config::producer_repetitions`: consecutive slots of one producer. -/
def producerRepetitions : Nat := 12

/-- `config::max_producers`. -/
def maxProducers : Nat := 125

/-- `config::maximum_tracked_dpos_confirmations`. -/
def maximumTrackedDposConfirmations : Nat := 1024

/-- `producer_authority_schedule`, with the producers' names. A schedule enters the chain only
through `set_proposed_producers_common`, which refuses more than `config::max_producers`
producers and repeated producers; the two fields record what it checks. -/
structure ProducerAuthoritySchedule where
  version : Nat
  producers : List Name
  bounded : producers.length ≤ maxProducers
  unique : producers.Nodup

/-- The schedule without producers that a promotion leaves pending. -/
def ProducerAuthoritySchedule.emptyOf (version : Nat) : ProducerAuthoritySchedule :=
  ⟨version, [], Nat.zero_le _, List.nodup_nil⟩

/-- `detail::schedule_info`. -/
structure ScheduleInfo where
  scheduleLibNum : Nat
  schedule : ProducerAuthoritySchedule

/-- `flat_map<account_name,uint32_t>`. -/
abbrev ProducerMap := AList fun _ : Name => Nat

/-- The values of a producer map, in the order the map iterates them. -/
def ProducerMap.values (producers : ProducerMap) : List Nat :=
  producers.entries.map Sigma.snd

/-- `signed_block_header`, with the header extensions it may carry: a new producer schedule in the
legacy field or in the `producer_schedule_change_extension`, and new protocol features in the
`protocol_feature_activation` extension. -/
structure SignedBlockHeader (Digest : Type) where
  timestamp : Nat
  producer : Name
  confirmed : Nat
  previous : Digest
  scheduleVersion : Nat
  newProducers : Option ProducerAuthoritySchedule
  producerScheduleChange : Option ProducerAuthoritySchedule
  newProtocolFeatures : Option (List Digest)

/-- `detail::block_header_state_common`. -/
structure BlockHeaderStateCommon (Digest : Type) where
  blockNum : Nat
  dposProposedIrreversibleBlocknum : Nat
  dposIrreversibleBlocknum : Nat
  activeSchedule : ProducerAuthoritySchedule
  blockrootMerkle : IncrementalMerkle Digest
  producerToLastProduced : ProducerMap
  producerToLastImpliedIrb : ProducerMap
  confirmCount : List UInt8

/-- `pending_block_header_state`: the state `next` builds before the block is signed. -/
structure PendingBlockHeaderState (Digest : Type) extends BlockHeaderStateCommon Digest where
  prevActivatedProtocolFeatures : List Digest
  prevPendingSchedule : ScheduleInfo
  wasPendingPromoted : Bool
  previous : Digest
  producer : Name
  timestamp : Nat
  activeScheduleVersion : Nat
  confirmed : Nat

/-- `block_header_state`. -/
structure BlockHeaderState (Digest : Type) extends BlockHeaderStateCommon Digest where
  id : Digest
  header : SignedBlockHeader Digest
  pendingSchedule : ScheduleInfo
  activatedProtocolFeatures : List Digest

/-- What finishing a header needs from outside `block_header_state`: the hash of a canonical pair
for the block-root merkle, `signed_block_header::calculate_id`, the digest the protocol feature
set gives the WTMsig builtin, and the controller's protocol feature validator, which accepts or
rejects new features given the block time and the features already active, with its own
message. -/
structure HeaderContext (Digest : Type) where
  hashPair : Digest → Digest → Digest
  calculateId : SignedBlockHeader Digest → Digest
  wtmsigDigest : Option Digest
  validator : Nat → List Digest → List Digest → Except String Unit

variable {Digest : Type}

namespace BlockHeaderState

/-! ### Producer selection and the irreversibility quorum -/

/-- `get_scheduled_producer`: the active producer owning the slot of `t`, each producer owning
`producer_repetitions` consecutive slots. -/
def getScheduledProducer (s : BlockHeaderState Digest) (t : Nat) : Name :=
  let index := t % (s.activeSchedule.producers.length * producerRepetitions)
  s.activeSchedule.producers.getD (index / producerRepetitions) default

/-- The block numbers `calc_dpos_last_irreversible` sorts: each producer's last implied
irreversible block, with the producer of the next block counted at the proposed one. -/
def impliedBlocknums (s : BlockHeaderState Digest) (producerOfNextBlock : Name) : List Nat :=
  s.producerToLastImpliedIrb.entries.map fun entry =>
    if entry.1 = producerOfNextBlock then s.dposProposedIrreversibleBlocknum else entry.2

/-- The quorum rule of `calc_dpos_last_irreversible`: the block number a third of the way up the
sorted list, so that two thirds of the producers are at or above it. -/
def dposQuorum (blocknums : List Nat) : Nat :=
  if blocknums.length = 0 then 0
  else OrderStatistic.nth blocknums ((blocknums.length - 1) / 3) 0

/-- `calc_dpos_last_irreversible`. -/
def calcDposLastIrreversible (s : BlockHeaderState Digest) (producerOfNextBlock : Name) : Nat :=
  dposQuorum (s.impliedBlocknums producerOfNextBlock)

end BlockHeaderState

/-! ### The confirmation window -/

/-- Lines 79-88 of `next`: the new block's required confirmations join the window, which slides
by one block once it tracks `maximum_tracked_dpos_confirmations` blocks. -/
def growConfirmCount (confirmCount : List UInt8) (requiredConfs : UInt8) : List UInt8 :=
  if confirmCount.length < maximumTrackedDposConfirmations then confirmCount ++ [requiredConfs]
  else confirmCount.tail ++ [requiredConfs]

/-- The `while( i >= 0 && blocks_to_confirm )` loop of `next`, where `remaining` is `i + 1`.
Walking back from the newest block, each of the confirmed blocks loses one outstanding
confirmation. The first block whose count reaches zero becomes the proposed irreversible block,
and its count is dropped with every older one. -/
def confirmLoop (blockNum : Nat) :
    (remaining blocksToConfirm : Nat) → (confirmCount : List UInt8) → (proposed : Nat) →
      List UInt8 × Nat
  | 0, _, confirmCount, proposed => (confirmCount, proposed)
  | _, 0, confirmCount, proposed => (confirmCount, proposed)
  | i + 1, blocksToConfirm + 1, confirmCount, proposed =>
    let confirmCount := confirmCount.modify i (· - 1)
    if confirmCount.getD i 0 = 0 then
      -- the source's `uint32_t` subtraction
      let blockNumForI := (blockNum + 2 ^ 32 - (confirmCount.length - 1 - i)) % 2 ^ 32
      if i = confirmCount.length - 1 then ([], blockNumForI)
      else (confirmCount.drop (i + 1), blockNumForI)
    else confirmLoop blockNum i blocksToConfirm confirmCount proposed

/-! ### Promotion of the pending schedule -/

/-- The `producer_to_last_produced` rebuilt for a promoted schedule: the producer of this block
at this block, the other producers at their old value, and new producers at the new last
irreversible block. The producer of this block is recorded even when it leaves the schedule. -/
def promotedLastProduced (old : ProducerMap) (producers : List Name) (producer : Name)
    (blockNum lastIrreversible : Nat) : ProducerMap :=
  let rebuilt := producers.foldl (fun (rebuilt : ProducerMap) pro =>
    if pro = producer then rebuilt.insert pro blockNum
    else match old.lookup pro with
      | some existing => rebuilt.insert pro existing
      | none => rebuilt.insert pro lastIrreversible) ∅
  rebuilt.insert producer blockNum

/-- The `producer_to_last_implied_irb` rebuilt for a promoted schedule: the producer of this
block at the old proposed irreversible block, the other producers at their old value, and new
producers at the new last irreversible block. -/
def promotedLastImpliedIrb (old : ProducerMap) (producers : List Name) (producer : Name)
    (proposed lastIrreversible : Nat) : ProducerMap :=
  producers.foldl (fun (rebuilt : ProducerMap) pro =>
    if pro = producer then rebuilt.insert pro proposed
    else match old.lookup pro with
      | some existing => rebuilt.insert pro existing
      | none => rebuilt.insert pro lastIrreversible) ∅

namespace BlockHeaderState

variable [Inhabited Digest] (hashPair : Digest → Digest → Digest)

/-! ### `block_header_state::next` -/

/-- The timestamp of the next block: `when` must be later than this block, and the default
timestamp stands for the next slot, whose `uint32_t` wraps unchecked. -/
def nextTimestamp (s : BlockHeaderState Digest) (when : Nat) : Except String Nat :=
  if when ≠ 0 then
    if when > s.header.timestamp then .ok when else .error "next block must be in the future"
  else .ok ((s.header.timestamp + 1) % 2 ^ 32)

/-- A producer may not confirm blocks at or below the last block it produced. The difference is
the source's `uint32_t` one. -/
def checkDoubleConfirm (s : BlockHeaderState Digest) (producer : Name)
    (numPrevBlocksToConfirm : Nat) : Except String Unit :=
  match s.producerToLastProduced.lookup producer with
  | some lastProduced =>
    if (lastProduced : Int) < ((s.blockNum + 1 : Int) - numPrevBlocksToConfirm) % 2 ^ 32 then
      .ok ()
    else .error "producer double-confirming known range"
  | none => .ok ()

/-- Whether `next` promotes the pending schedule: it has producers and its block is
irreversible. -/
def promotes (s : BlockHeaderState Digest) (lastIrreversible : Nat) : Bool :=
  decide (s.pendingSchedule.schedule.producers ≠ [] ∧
    s.pendingSchedule.scheduleLibNum ≤ lastIrreversible)

/-- The body of `next` once the timestamp is fixed and the checks have passed. The source's one
`if` on the promotion decides three fields; here each field has its own `if` on it. -/
def nextPending (s : BlockHeaderState Digest) (when numPrevBlocksToConfirm : Nat) :
    PendingBlockHeaderState Digest :=
  let producer := s.getScheduledProducer when
  let blockNum := (s.blockNum + 1) % 2 ^ 32
  -- the schedule that signs, and so confirms, the new block is the current one
  let requiredConfs : UInt8 := (s.activeSchedule.producers.length * 2 / 3 + 1).toUInt8
  let grown := growConfirmCount s.confirmCount requiredConfs
  let window := confirmLoop blockNum grown.length (numPrevBlocksToConfirm + 1) grown
    s.dposProposedIrreversibleBlocknum
  let lastIrreversible := s.calcDposLastIrreversible producer
  let promoted := s.promotes lastIrreversible
  { blockNum, dposProposedIrreversibleBlocknum := window.2,
    dposIrreversibleBlocknum := lastIrreversible,
    activeSchedule := if promoted then s.pendingSchedule.schedule else s.activeSchedule,
    blockrootMerkle := (s.blockrootMerkle.append hashPair s.id).1,
    producerToLastProduced :=
      if promoted then
        promotedLastProduced s.producerToLastProduced s.pendingSchedule.schedule.producers
          producer blockNum lastIrreversible
      else s.producerToLastProduced.insert producer blockNum,
    producerToLastImpliedIrb :=
      if promoted then
        promotedLastImpliedIrb s.producerToLastImpliedIrb s.pendingSchedule.schedule.producers
          producer s.dposProposedIrreversibleBlocknum lastIrreversible
      else s.producerToLastImpliedIrb.insert producer s.dposProposedIrreversibleBlocknum,
    confirmCount := window.1,
    prevActivatedProtocolFeatures := s.activatedProtocolFeatures,
    prevPendingSchedule := s.pendingSchedule,
    wasPendingPromoted := promoted,
    previous := s.id, producer, timestamp := when,
    activeScheduleVersion := s.activeSchedule.version,
    confirmed := numPrevBlocksToConfirm }

/-- `block_header_state::next(when, num_prev_blocks_to_confirm)`. -/
def next (s : BlockHeaderState Digest) (when numPrevBlocksToConfirm : Nat) :
    Except String (PendingBlockHeaderState Digest) := do
  let when ← s.nextTimestamp when
  s.checkDoubleConfirm (s.getScheduledProducer when) numPrevBlocksToConfirm
  pure (s.nextPending hashPair when numPrevBlocksToConfirm)

/-- `next` either fails or builds `nextPending` at some timestamp. -/
theorem next_eq_ok {s : BlockHeaderState Digest} {when numPrevBlocksToConfirm : Nat}
    {p : PendingBlockHeaderState Digest}
    (built : s.next hashPair when numPrevBlocksToConfirm = .ok p) :
    ∃ when', p = s.nextPending hashPair when' numPrevBlocksToConfirm := by
  obtain ⟨when', _, checked⟩ := Transition.bind_eq_ok.mp built
  obtain ⟨_, _, pure⟩ := Transition.bind_eq_ok.mp checked
  exact ⟨when', (Except.ok.inj pure).symm⟩

end BlockHeaderState

namespace PendingBlockHeaderState

variable [DecidableEq Digest] (context : HeaderContext Digest)

/-! ### `pending_block_header_state::_finish_next` -/

/-- `detail::is_builtin_activated` for the WTMsig block signatures builtin. -/
def wtmsigActivated (features : List Digest) : Bool :=
  match context.wtmsigDigest with
  | some digest => decide (digest ∈ features)
  | none => false

/-- `make_block_header`: the header a producer signs for the pending state, proposing
`newProducers` in the encoding the active protocol features call for. Merkle roots of the
block's transactions and actions are not modelled. -/
def makeBlockHeader (p : PendingBlockHeaderState Digest)
    (newProducers : Option ProducerAuthoritySchedule)
    (newProtocolFeatureActivations : List Digest) : SignedBlockHeader Digest :=
  let wtmsig := wtmsigActivated context p.prevActivatedProtocolFeatures
  { timestamp := p.timestamp, producer := p.producer, confirmed := p.confirmed,
    previous := p.previous, scheduleVersion := p.activeScheduleVersion,
    newProducers := if wtmsig then none else newProducers,
    producerScheduleChange := if wtmsig then newProducers else none,
    newProtocolFeatures :=
      if newProtocolFeatureActivations.length > 0 then some newProtocolFeatureActivations
      else none }

/-- The signed header must be the one the pending state describes. -/
def checkHeader (p : PendingBlockHeaderState Digest) (h : SignedBlockHeader Digest) :
    Except String Unit := do
  unless h.timestamp = p.timestamp do throw "timestamp mismatch"
  unless h.previous = p.previous do throw "previous mismatch"
  unless h.confirmed = p.confirmed do throw "confirmed mismatch"
  unless h.producer = p.producer do throw "wrong producer specified"
  unless h.scheduleVersion = p.activeScheduleVersion do
    throw "schedule_version in signed block is corrupted"

/-- The checks the legacy field and the extension make alike of a proposed schedule. -/
def checkProposal (p : PendingBlockHeaderState Digest) (proposal : ProducerAuthoritySchedule) :
    Except String Unit := do
  unless !p.wasPendingPromoted do
    throw "cannot set pending producer schedule in the same block in which pending was promoted to active"
  unless proposal.version = p.activeSchedule.version + 1 do
    throw "wrong producer schedule version specified"
  unless p.prevPendingSchedule.schedule.producers = [] do
    throw "cannot set new pending producers until last pending is confirmed"

/-- The schedule the header proposes, if any. The legacy field is refused once WTMsig block
signatures are active and the extension before; when both are present the extension wins. -/
def newProducerSchedule (p : PendingBlockHeaderState Digest) (h : SignedBlockHeader Digest) :
    Except String (Option ProducerAuthoritySchedule) := do
  let wtmsigEnabled :=
    if h.newProducers.isSome || h.producerScheduleChange.isSome then
      wtmsigActivated context p.prevActivatedProtocolFeatures
    else false
  let legacy ← match h.newProducers with
    | some newProducers => do
      unless !wtmsigEnabled do
        throw "Block header contains legacy producer schedule outdated by activation of WTMsig Block Signatures"
      p.checkProposal newProducers
      pure (some newProducers)
    | none => pure none
  match h.producerScheduleChange with
  | some change => do
    unless wtmsigEnabled do
      throw "Block header producer_schedule_change_extension before activation of WTMsig Block Signatures"
    p.checkProposal change
    pure (some change)
  | none => pure legacy

/-- The protocol features active after the block: the validator must accept the new ones, which
must not repeat an active one. The source keeps the union sorted; here it is a list. -/
def newActivatedProtocolFeatures (p : PendingBlockHeaderState Digest)
    (h : SignedBlockHeader Digest) : Except String (List Digest) :=
  match h.newProtocolFeatures with
  | some newFeatures => do
    context.validator p.timestamp p.prevActivatedProtocolFeatures newFeatures
    unless (p.prevActivatedProtocolFeatures ++ newFeatures).Nodup do
      throw "duplication of protocol feature digests"
    pure (p.prevActivatedProtocolFeatures ++ newFeatures)
  | none => pure p.prevActivatedProtocolFeatures

/-- The pending schedule after the block: a proposal becomes pending at this block; after a
promotion only the version of the promoted schedule is kept; otherwise nothing changes. -/
def nextPendingSchedule (p : PendingBlockHeaderState Digest)
    (maybeNewProducerSchedule : Option ProducerAuthoritySchedule) : ScheduleInfo :=
  match maybeNewProducerSchedule with
  | some schedule => ⟨p.blockNum, schedule⟩
  | none =>
    if p.wasPendingPromoted then
      ⟨p.prevPendingSchedule.scheduleLibNum,
        .emptyOf p.prevPendingSchedule.schedule.version⟩
    else p.prevPendingSchedule

/-- `pending_block_header_state::_finish_next(h, pfs, validator)`. -/
def finishNext (p : PendingBlockHeaderState Digest) (h : SignedBlockHeader Digest) :
    Except String (BlockHeaderState Digest) := do
  p.checkHeader h
  let maybeNewProducerSchedule ← p.newProducerSchedule context h
  let activatedProtocolFeatures ← p.newActivatedProtocolFeatures context h
  pure { p.toBlockHeaderStateCommon with
    id := context.calculateId h, header := h,
    pendingSchedule := p.nextPendingSchedule maybeNewProducerSchedule,
    activatedProtocolFeatures }

/-- Finishing a pending state keeps every field of `block_header_state_common`. -/
theorem finishNext_toCommon {p : PendingBlockHeaderState Digest} {h : SignedBlockHeader Digest}
    {s : BlockHeaderState Digest} (finished : p.finishNext context h = .ok s) :
    s.toBlockHeaderStateCommon = p.toBlockHeaderStateCommon := by
  obtain ⟨_, _, rest⟩ := Transition.bind_eq_ok.mp finished
  obtain ⟨_, _, rest⟩ := Transition.bind_eq_ok.mp rest
  obtain ⟨_, _, pure⟩ := Transition.bind_eq_ok.mp rest
  rw [← Except.ok.inj pure]

end PendingBlockHeaderState

namespace BlockHeaderState

variable [Inhabited Digest] [DecidableEq Digest] (context : HeaderContext Digest)

/-! ### Genesis and runs -/

/-- The schedule of `initialize_blockchain_state`: `eosio` alone, version 0. -/
def initialSchedule : ProducerAuthoritySchedule :=
  ⟨0, [systemAccountName], by decide, List.nodup_singleton _⟩

/-- The header of the genesis block: the genesis timestamp and the defaults of
`signed_block_header`, among them `confirmed = 1`. -/
def genesisHeader (initialTimestamp : Nat) : SignedBlockHeader Digest :=
  { timestamp := initialTimestamp, producer := default, confirmed := 1, previous := default,
    scheduleVersion := 0, newProducers := none, producerScheduleChange := none,
    newProtocolFeatures := none }

/-- `controller_impl::initialize_blockchain_state`: block 1, with the initial schedule both active
and pending and every other field at its default. -/
def genesis (initialTimestamp : Nat) : BlockHeaderState Digest :=
  { blockNum := 1, dposProposedIrreversibleBlocknum := 0, dposIrreversibleBlocknum := 0,
    activeSchedule := initialSchedule, blockrootMerkle := .empty,
    producerToLastProduced := ∅, producerToLastImpliedIrb := ∅, confirmCount := [],
    id := context.calculateId (genesisHeader initialTimestamp),
    header := genesisHeader initialTimestamp,
    pendingSchedule := ⟨0, initialSchedule⟩, activatedProtocolFeatures := [] }

/-- A genesis state whose timestamp is a slot. -/
def IsGenesis (s : BlockHeaderState Digest) : Prop :=
  ∃ initialTimestamp < 2 ^ 32, s = genesis context initialTimestamp

/-- One block: `next`, given a slot and a `uint16_t` count of confirmed blocks, followed by
finishing the pending state with a signed header. -/
def Step (s s' : BlockHeaderState Digest) : Prop :=
  ∃ when numPrevBlocksToConfirm h, when < 2 ^ 32 ∧ numPrevBlocksToConfirm < 2 ^ 16 ∧
    (s.next context.hashPair when numPrevBlocksToConfirm >>= fun p => p.finishNext context h) =
      .ok s'

/-- The header states of a chain started from a genesis state. -/
def Reachable : BlockHeaderState Digest → Prop :=
  Transition.Reachable (IsGenesis context) (Step context)

/-- A block whose number does not wrap: it is built on a block below `2 ^ 32 - 1`. -/
def UnwrappedStep (s s' : BlockHeaderState Digest) : Prop :=
  s.blockNum + 1 < 2 ^ 32 ∧ Step context s s'

/-- The header states of a chain whose block numbers never wrap. -/
def ReachableUnwrapped : BlockHeaderState Digest → Prop :=
  Transition.Reachable (IsGenesis context) (UnwrappedStep context)

theorem ReachableUnwrapped.reachable {s : BlockHeaderState Digest}
    (reachable : ReachableUnwrapped context s) : Reachable context s := by
  obtain ⟨start, isGenesis, run⟩ := reachable
  exact ⟨start, isGenesis, Relation.ReflTransGen.mono (fun _ _ stepped => stepped.2) _ _ run⟩

/-- A step is `nextPending` at some timestamp, finished with some header. -/
theorem Step.elim {s s' : BlockHeaderState Digest} (stepped : Step context s s') :
    ∃ when numPrevBlocksToConfirm h,
      (s.nextPending context.hashPair when numPrevBlocksToConfirm).finishNext context h =
        .ok s' := by
  obtain ⟨_, numPrevBlocksToConfirm, h, _, _, stepped⟩ := stepped
  obtain ⟨p, built, finished⟩ := Transition.bind_eq_ok.mp stepped
  obtain ⟨when', rfl⟩ := next_eq_ok context.hashPair built
  exact ⟨when', numPrevBlocksToConfirm, h, finished⟩

/-- A step moves the block number on by one, modulo `2 ^ 32`. -/
theorem Step.blockNum {s s' : BlockHeaderState Digest} (stepped : Step context s s') :
    s'.blockNum = (s.blockNum + 1) % 2 ^ 32 := by
  obtain ⟨when, numPrevBlocksToConfirm, h, finished⟩ := stepped.elim
  -- finishing keeps the block number `nextPending` computed
  exact congrArg BlockHeaderStateCommon.blockNum
    (PendingBlockHeaderState.finishNext_toCommon context finished)

/-! ### Producing blocks -/

/-- A producer's block: `next`, the header `make_block_header` makes with an optional schedule
proposal and no new protocol features, and `_finish_next` with that header. -/
def produceBlock (context : HeaderContext Digest) (s : BlockHeaderState Digest)
    (block : Nat × Nat × Option ProducerAuthoritySchedule) :
    Except String (BlockHeaderState Digest) := do
  let p ← s.next context.hashPair block.1 block.2.1
  p.finishNext context (p.makeBlockHeader context block.2.2 [])

/-- Blocks produced one after another. -/
def produceBlocks (context : HeaderContext Digest) :
    BlockHeaderState Digest → List (Nat × Nat × Option ProducerAuthoritySchedule) →
      Except String (BlockHeaderState Digest)
  | s, [] => .ok s
  | s, block :: rest => do
    let s' ← produceBlock context s block
    produceBlocks context s' rest

/-- The arguments of a produced block that `next` can be given: a slot and a `uint16_t`. -/
def BlockArguments (block : Nat × Nat × Option ProducerAuthoritySchedule) : Prop :=
  block.1 < 2 ^ 32 ∧ block.2.1 < 2 ^ 16

instance (block : Nat × Nat × Option ProducerAuthoritySchedule) :
    Decidable (BlockArguments block) :=
  inferInstanceAs (Decidable (_ ∧ _))

theorem produceBlock_step {context : HeaderContext Digest} {s s' : BlockHeaderState Digest}
    {block : Nat × Nat × Option ProducerAuthoritySchedule} (arguments : BlockArguments block)
    (produced : produceBlock context s block = .ok s') : Step context s s' := by
  obtain ⟨p, built, finished⟩ := Transition.bind_eq_ok.mp produced
  refine ⟨block.1, block.2.1, p.makeBlockHeader context block.2.2 [], arguments.1,
    arguments.2, ?_⟩
  rw [built]
  exact finished

theorem produceBlocks_reachable {context : HeaderContext Digest} :
    ∀ {s s' : BlockHeaderState Digest} (blocks : List (Nat × Nat × Option ProducerAuthoritySchedule)),
      (∀ block ∈ blocks, BlockArguments block) →
      Reachable context s → produceBlocks context s blocks = .ok s' → Reachable context s'
  | _, _, [], _, reachable, produced => by
    rw [produceBlocks, Except.ok.injEq] at produced
    exact produced ▸ reachable
  | _, _, block :: rest, arguments, reachable, produced => by
    obtain ⟨next, first, others⟩ := Transition.bind_eq_ok.mp produced
    have stepped := produceBlock_step (arguments block List.mem_cons_self) first
    exact produceBlocks_reachable rest (fun other member => arguments other
      (List.mem_cons_of_mem block member)) (reachable.step stepped) others

/-- Blocks produced on a chain that never wrapped, numbered below `2 ^ 32`, extend it. -/
theorem produceBlocks_reachableUnwrapped {context : HeaderContext Digest} :
    ∀ {s s' : BlockHeaderState Digest} (blocks : List (Nat × Nat × Option ProducerAuthoritySchedule)),
      (∀ block ∈ blocks, BlockArguments block) → s.blockNum + blocks.length < 2 ^ 32 →
      ReachableUnwrapped context s → produceBlocks context s blocks = .ok s' →
        ReachableUnwrapped context s'
  | _, _, [], _, _, reachable, produced => by
    rw [produceBlocks, Except.ok.injEq] at produced
    exact produced ▸ reachable
  | s, _, block :: rest, arguments, fits, reachable, produced => by
    obtain ⟨next, first, others⟩ := Transition.bind_eq_ok.mp produced
    have stepped := produceBlock_step (arguments block List.mem_cons_self) first
    have numbered : next.blockNum = s.blockNum + 1 := by
      rw [stepped.blockNum, Nat.mod_eq_of_lt (by simp only [List.length_cons] at fits; omega)]
    refine produceBlocks_reachableUnwrapped rest (fun other member => arguments other
      (List.mem_cons_of_mem block member)) ?_ (reachable.step ⟨?_, stepped⟩) others
    · simp only [List.length_cons] at fits
      omega
    · simp only [List.length_cons] at fits
      omega

/-- A context for replaying a chain: ids are timestamps and the merkle hash adds. -/
def replayContext : HeaderContext Nat :=
  ⟨fun left right => left + right, fun h => h.timestamp, none, fun _ _ _ => .ok ()⟩

/-! ### A replayed chain with two promotions -/

/-- Four producers, of which `⟨2⟩` will be kept by the next schedule. -/
def fourProducers : ProducerAuthoritySchedule := ⟨1, [⟨1⟩, ⟨2⟩, ⟨3⟩, ⟨4⟩], by decide, by decide⟩

/-- The schedule that keeps producer `⟨2⟩` and adds producer `⟨5⟩`. -/
def keptAndNew : ProducerAuthoritySchedule := ⟨2, [⟨2⟩, ⟨5⟩], by decide, by decide⟩

/-- Blocks 2 to 14 of the replayed chain, as (slot, confirmed blocks, proposal). `eosio` produces
blocks 2 to 4, proposing `fourProducers` in block 3, which block 4 promotes; then producers
`⟨1⟩`, `⟨3⟩` and `⟨4⟩` take turns, while `⟨2⟩` never produces, and block 8 proposes
`keptAndNew`. Block 13 promotes it, with a last irreversible block of 8, and block 14 is
produced by the new producer `⟨5⟩`. -/
def promotionChain : List (Nat × Nat × Option ProducerAuthoritySchedule) :=
  [(1, 0, none), (2, 0, some fourProducers), (3, 0, none), (4, 1, none), (24, 1, none),
    (36, 2, none), (48, 2, some keptAndNew), (72, 2, none), (84, 2, none), (96, 2, none),
    (120, 2, none), (132, 2, none), (133, 0, none)]

/-- The header state after the first `count` blocks of `promotionChain`. -/
def promotionChainState (count : Nat) : BlockHeaderState Nat :=
  ((produceBlocks replayContext (genesis replayContext 0) (promotionChain.take count)).toOption).getD
    (genesis replayContext 0)

end BlockHeaderState

end Eosio.Chain
