/-
This file models `subjective_billing.hpp` of the producer plugin: the CPU a node bills the first
authorizer of a transaction it ran speculatively, before any block holds the transaction.

The class keeps a cache of the transactions it billed, with a unique index by id and an index by
expiry; per account, the CPU of those transactions that may still make it into a block
(`pending_cpu_us`) and a decaying accumulator of the CPU of those that expired or failed; and per
account, the part of `pending_cpu_us` that the pending block holds. `get_subjective_bill` charges
an account its pending CPU less the part in the pending block, plus its decayed expired CPU.

A call changes the object in place, and an exception leaves what the call did before the throw,
so the methods are programs in `EStateM`. The counters are `uint64_t` and `uint32_t` and wrap as
the code's do. Time points and durations are `fc::time_point` and `fc::microseconds`, counts of
microseconds in an `int64_t`. A block is given by the receipts of its transactions, or is absent
for a null `block_state_ptr`. The deadline of `remove_expired` is given by the number of times the
clock reads before it; the log lines change nothing.
-/

import EosioChain.ChainConfig
import EosioChain.DecayAccumulator
import EosioChain.RefCounts
import EosioChain.UnappliedTransactionQueue

namespace Eosio

open Chain Chain.ResourceLimits.Impl

namespace SubjectiveBilling

/-- `subjective_time_interval_ms`. -/
def subjectiveTimeIntervalMs : UInt32 := 5000

/-- `expired_accumulator_average_window`. -/
def expiredAccumulatorAverageWindow : UInt32 :=
  Config.accountCpuUsageAverageWindowMs / subjectiveTimeIntervalMs

/-- `trx_cache_entry`. -/
structure TrxCacheEntry (TxId : Type) where
  trxId : TxId
  account : Name
  subjectiveCpuBill : UInt32
  expiry : Int64

/-- `subjective_billing_info`. -/
structure SubjectiveBillingInfo where
  /-- tracked cpu us for transactions that may still succeed in a block -/
  pendingCpuUs : UInt64
  /-- accumulator used to account for transactions that have expired -/
  expiredAccumulator : ExponentialDecayAccumulator

/-- The info that `operator[]` of the account cache creates for an account it does not hold. -/
def SubjectiveBillingInfo.initial : SubjectiveBillingInfo :=
  ⟨0, .initial⟩

/-- `subjective_billing_info::empty(time_ordinal)`. -/
def SubjectiveBillingInfo.empty (info : SubjectiveBillingInfo) (timeOrdinal : UInt32) :
    Except String Bool :=
  if info.pendingCpuUs = 0 then
    (· == 0) <$> info.expiredAccumulator.valueAt Config.rateLimitingPrecision timeOrdinal
      expiredAccumulatorAverageWindow
  else pure false

end SubjectiveBilling

open SubjectiveBilling

/-- `subjective_billing`: the transaction cache, whose `by_id` index keeps the ids unique, in the
order of insertion; the account cache; the block cache; and the disabled accounts. The code tells
an account the account cache holds from one it does not, so that cache is a partial map; the block
cache is only ever read with `0` for an account it does not hold, so it is read as a total one. -/
structure SubjectiveBilling (TxId : Type) where
  disabled : Bool
  trxCacheIndex : List (TrxCacheEntry TxId)
  idsUnique : KeyedTable.Unique TrxCacheEntry.trxId trxCacheIndex
  accountSubjectiveBillCache : Name → Option SubjectiveBillingInfo
  blockSubjectiveBillCache : Name → UInt64
  disabledAccounts : List Name

namespace SubjectiveBilling

variable {TxId : Type}

/-- A default-constructed object: enabled and empty. -/
def initial : SubjectiveBilling TxId :=
  ⟨false, [], List.nodup_nil, fun _ => none, fun _ => 0, []⟩

/-- The methods: programs over the object that may throw the text of an `EOS_ASSERT`. -/
abbrev BillingM (TxId : Type) := EStateM String (SubjectiveBilling TxId)

/-- `time_ordinal_for(t)`: the count of microseconds, converted to `uint64_t`, in intervals of
`subjective_time_interval_ms`. -/
def timeOrdinalFor (t : Int64) : Except String UInt32 := do
  let ordinal := t.toUInt64 / (1000 * subjectiveTimeIntervalMs.toUInt64)
  unless ordinal ≤ 4294967295 do
    throw "overflow of quantized time in subjective billing"
  pure ordinal.toUInt32

/-! ### The containers -/

/-- `_trx_cache_index.get<by_id>().find(id)`. -/
def findEntry [DecidableEq TxId] (s : SubjectiveBilling TxId) (id : TxId) :
    Option (TrxCacheEntry TxId) :=
  KeyedTable.find TrxCacheEntry.trxId s.trxCacheIndex id

/-- Insert an entry whose id the cache does not hold. -/
def insertEntry (s : SubjectiveBilling TxId) (entry : TrxCacheEntry TxId)
    (fresh : ∀ other ∈ s.trxCacheIndex, other.trxId ≠ entry.trxId) : SubjectiveBilling TxId :=
  { s with
    trxCacheIndex := s.trxCacheIndex ++ [entry]
    idsUnique := KeyedTable.unique_append s.idsUnique fresh }

/-- Erase the entry with id `id`. -/
def eraseEntry [DecidableEq TxId] (s : SubjectiveBilling TxId) (id : TxId) :
    SubjectiveBilling TxId :=
  { s with
    trxCacheIndex := KeyedTable.erase TrxCacheEntry.trxId s.trxCacheIndex id
    idsUnique := KeyedTable.unique_erase s.idsUnique id }

/-- `_account_subjective_bill_cache[account]`: the account's info, created if it is not held. -/
def accountInfo (s : SubjectiveBilling TxId) (account : Name) : SubjectiveBillingInfo :=
  (s.accountSubjectiveBillCache account).getD .initial

/-- Store the info of an account. -/
def setAccountInfo (s : SubjectiveBilling TxId) (account : Name) (info : SubjectiveBillingInfo) :
    SubjectiveBilling TxId :=
  { s with accountSubjectiveBillCache := Function.update s.accountSubjectiveBillCache account info }

/-- `_account_subjective_bill_cache.erase(aitr)`. -/
def eraseAccountInfo (s : SubjectiveBilling TxId) (account : Name) : SubjectiveBilling TxId :=
  { s with accountSubjectiveBillCache := Function.update s.accountSubjectiveBillCache account none }

/-- Whether the object bills an account: `!_disabled && !_disabled_accounts.count(account)`. -/
def billsAccount (s : SubjectiveBilling TxId) (account : Name) : Bool :=
  !s.disabled && !s.disabledAccounts.contains account

/-- `uint32_t bill = std::max<int64_t>( 0, elapsed.count() )`: the conversion keeps the low 32
bits. -/
def billOf (elapsed : Int64) : UInt32 :=
  (max 0 elapsed).toUInt64.toUInt32

/-- `_account_subjective_bill_cache[account].expired_accumulator.add(units, time_ordinal,
expired_accumulator_average_window)`: the account's info is created if it is not held, and keeps
what `add` left of the accumulator, also when it throws. -/
def addExpired (account : Name) (units : UInt64) (timeOrdinal : UInt32) : BillingM TxId Unit :=
  fun s =>
    let info := s.accountInfo account
    match (ExponentialDecayAccumulator.add Config.rateLimitingPrecision units timeOrdinal
        expiredAccumulatorAverageWindow).run info.expiredAccumulator with
    | .ok () accumulator =>
      .ok () (s.setAccountInfo account { info with expiredAccumulator := accumulator })
    | .error e accumulator =>
      .error e (s.setAccountInfo account { info with expiredAccumulator := accumulator })

/-! ### The private methods -/

/-- `remove_subjective_billing(entry, time_ordinal)`: the entry's bill leaves its account's
pending CPU, and an account left with nothing is erased. The `EOS_ASSERT` that the `uint64_t`
counter is at least `0` is always true and is left out. -/
def removeSubjectiveBillingEntry (entry : TrxCacheEntry TxId) (timeOrdinal : UInt32) :
    BillingM TxId Unit := do
  match (← get).accountSubjectiveBillCache entry.account with
  | some info =>
    let info := { info with pendingCpuUs := info.pendingCpuUs - entry.subjectiveCpuBill.toUInt64 }
    modify fun s => s.setAccountInfo entry.account info
    if ← MonadExcept.ofExcept (info.empty timeOrdinal) then
      modify fun s => s.eraseAccountInfo entry.account
  | none => pure ()

/-- `transition_to_expired(entry, time_ordinal)`: the entry's bill moves from its account's
pending CPU to its expired accumulator. -/
def transitionToExpired (entry : TrxCacheEntry TxId) (timeOrdinal : UInt32) :
    BillingM TxId Unit := do
  match (← get).accountSubjectiveBillCache entry.account with
  | some info =>
    modify fun s => s.setAccountInfo entry.account
      { info with pendingCpuUs := info.pendingCpuUs - entry.subjectiveCpuBill.toUInt64 }
    addExpired entry.account entry.subjectiveCpuBill.toUInt64 timeOrdinal
  | none => pure ()

section Removal

variable [DecidableEq TxId]

/-- `remove_subjective_billing(trx_id, time_ordinal)`, public for the tests. -/
def removeSubjectiveBilling (trxId : TxId) (timeOrdinal : UInt32) : BillingM TxId Unit := do
  match (← get).findEntry trxId with
  | some entry =>
    removeSubjectiveBillingEntry entry timeOrdinal
    modify fun s => s.eraseEntry trxId
  | none => pure ()

/-- The body of the loop of `remove_subjective_billing(bsp, time_ordinal)` for one receipt. -/
def removeReceiptBilling (timeOrdinal : UInt32) (receipt : ReceiptTrx TxId) :
    BillingM TxId Unit :=
  match receipt with
  | .packedTransaction id => removeSubjectiveBilling id timeOrdinal
  | .transactionId _ => pure ()

/-- `remove_subjective_billing(bsp, time_ordinal)`, given the receipts of the block's
transactions. -/
def removeSubjectiveBillingBlock (receipts : List (ReceiptTrx TxId)) (timeOrdinal : UInt32) :
    BillingM TxId Unit := do
  if (← get).trxCacheIndex.isEmpty then return
  receipts.forM (removeReceiptBilling timeOrdinal)

end Removal

/-! ### The public methods -/

/-- `disable()`. -/
def disable : BillingM TxId Unit :=
  modify fun s => { s with disabled := true }

/-- `disable_account(a)`: `_disabled_accounts.emplace(a)`, into a set. -/
def disableAccount (a : Name) : BillingM TxId Unit :=
  modify fun s => if s.disabledAccounts.contains a then s
    else { s with disabledAccounts := s.disabledAccounts ++ [a] }

section Billing

variable [DecidableEq TxId]

/-- `subjective_bill(id, expire, first_auth, elapsed, in_pending_block)`: a transaction the cache
does not hold is cached and its bill added to its first authorizer's pending CPU, and to the
pending block's part of it when the pending block holds the transaction. -/
def subjectiveBill (id : TxId) (expire : Int64) (firstAuth : Name) (elapsed : Int64)
    (inPendingBlock : Bool) : BillingM TxId Unit := do
  let s ← get
  if s.billsAccount firstAuth then
    let bill := billOf elapsed
    if fresh : ∀ other ∈ s.trxCacheIndex, other.trxId ≠ id then
      set (s.insertEntry ⟨id, firstAuth, bill, expire⟩ fresh)
      modify fun s => s.setAccountInfo firstAuth
        { s.accountInfo firstAuth with
          pendingCpuUs := (s.accountInfo firstAuth).pendingCpuUs + bill.toUInt64 }
      if inPendingBlock then
        modify fun s => { s with
          blockSubjectiveBillCache := Function.update s.blockSubjectiveBillCache firstAuth
            (s.blockSubjectiveBillCache firstAuth + bill.toUInt64) }

end Billing

/-- `subjective_bill_failure(first_auth, elapsed, now)`: the bill of a failed transaction goes to
its first authorizer's expired accumulator. -/
def subjectiveBillFailure (firstAuth : Name) (elapsed now : Int64) : BillingM TxId Unit := do
  if (← get).billsAccount firstAuth then
    let bill := billOf elapsed
    let timeOrdinal ← MonadExcept.ofExcept (timeOrdinalFor now)
    addExpired firstAuth bill.toUInt64 timeOrdinal

/-- `get_subjective_bill(first_auth, now)`: the account's pending CPU less the pending block's
part of it, plus its expired CPU at `now`, converted to `uint32_t`. It changes nothing. -/
def getSubjectiveBill (s : SubjectiveBilling TxId) (firstAuth : Name) (now : Int64) :
    Except String UInt32 := do
  if !s.billsAccount firstAuth then return 0
  let timeOrdinal ← timeOrdinalFor now
  let inBlockPendingCpuUs := s.blockSubjectiveBillCache firstAuth
  match s.accountSubjectiveBillCache firstAuth with
  | some info =>
    unless info.pendingCpuUs ≥ inBlockPendingCpuUs do
      throw "Logic error subjective billing ${a}"
    let expired ← info.expiredAccumulator.valueAt Config.rateLimitingPrecision timeOrdinal
      expiredAccumulatorAverageWindow
    pure (info.pendingCpuUs - inBlockPendingCpuUs + expired).toUInt32
  | none => pure 0

/-- `abort_block()`. -/
def abortBlock : BillingM TxId Unit :=
  modify fun s => { s with blockSubjectiveBillCache := fun _ => 0 }

section Blocks

variable [DecidableEq TxId]

/-- `on_block(bsp, now)`, for a block given by the receipts of its transactions, or absent. -/
def onBlock (block : Option (List (ReceiptTrx TxId))) (now : Int64) : BillingM TxId Unit :=
  match block with
  | none => pure ()
  | some receipts => do
    let timeOrdinal ← MonadExcept.ofExcept (timeOrdinalFor now)
    removeSubjectiveBillingBlock receipts timeOrdinal

/-- The entry the `by_expiry` index begins with: the first of those that expire earliest. The
order of the expiries is that of `Int`, given by its linear order, which computes. -/
def expiryFront (s : SubjectiveBilling TxId) : Option (TrxCacheEntry TxId) :=
  @List.argmin _ Int Int.instLinearOrder.toPartialOrder.toPreorder _ (·.expiry.toInt)
    s.trxCacheIndex

/-- The loop of `remove_expired`, which says whether the deadline stopped it: while the cache
holds a transaction, the clock is read, and the first transaction by expiry moves to the expired
CPU if it has expired by `pending_block_time`. The argument is the number of times the clock reads
before the deadline. -/
def removeExpiredLoop (pendingBlockTime : Int64) (timeOrdinal : UInt32) :
    Nat → BillingM TxId Bool
  | 0 => do pure !(← get).trxCacheIndex.isEmpty
  | checks + 1 => do
    match (← get).expiryFront with
    | none => pure false
    | some b =>
      if pendingBlockTime < b.expiry then pure false
      else
        transitionToExpired b timeOrdinal
        modify fun s => s.eraseEntry b.trxId
        removeExpiredLoop pendingBlockTime timeOrdinal checks

/-- `remove_expired(log, pending_block_time, now, deadline)`: it says whether the deadline left
the loop to its end. -/
def removeExpired (pendingBlockTime now : Int64) (checks : Nat) : BillingM TxId Bool := do
  if (← get).trxCacheIndex.isEmpty then return true
  let timeOrdinal ← MonadExcept.ofExcept (timeOrdinalFor now)
  let exhausted ← removeExpiredLoop pendingBlockTime timeOrdinal checks
  return !exhausted

end Blocks

end SubjectiveBilling

end Eosio
