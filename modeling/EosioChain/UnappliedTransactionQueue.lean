/-
This file models `unapplied_transaction_queue.hpp`: the transactions a producer holds between
blocks, in a container with a unique index by id, and two counters kept beside it, the number of
incoming transactions and the bytes the queue takes.

A call changes the queue in place, and an exception leaves what the call did before the throw, so
the methods are programs in `EStateM`, whose error results carry the state at the throw. The size
counter and the sizes are `uint64_t`, so they are `UInt64` and wrap as the code's do. A
transaction's metadata is reduced to what the queue reads of it: its id, the expiration of its
packed transaction and the size `get_estimated_size` reports. The `next` callback is reduced to
whether one is set, since the queue only tests it, clears it or hands it an exception.
-/

import Mathlib
import EosioChain.KeyedTable
import EosioChain.StateExcept

namespace Eosio.Chain

/-- `trx_enum_type`. -/
inductive TrxEnumType
  | unknown
  | persisted
  | forked
  | aborted
  | incomingPersisted
  | incoming
deriving DecidableEq, Repr

/-- The two types that `incoming_count` counts. -/
def TrxEnumType.isIncoming : TrxEnumType → Bool
  | .incoming | .incomingPersisted => true
  | _ => false

/-- What the queue reads of a `transaction_metadata`: its id, the expiration of its packed
transaction and `get_estimated_size()`. -/
structure TrxMeta (Id Time : Type) where
  id : Id
  expiration : Time
  estimatedSize : UInt32

/-- `unapplied_transaction`, with `next` reduced to whether a callback is set. -/
structure UnappliedTransaction (Id Time : Type) where
  trxMeta : TrxMeta Id Time
  expiry : Time
  trxType : TrxEnumType
  next : Bool

/-- `unapplied_transaction::id()`. -/
def UnappliedTransaction.id {Id Time : Type} (entry : UnappliedTransaction Id Time) : Id :=
  entry.trxMeta.id

/-- The `trx` of a `transaction_receipt`: a transaction id or a packed transaction, given by its
id. -/
inductive ReceiptTrx (Id : Type)
  | transactionId (id : Id)
  | packedTransaction (id : Id)

/-- `unapplied_transaction_queue`: the entries, whose ids the `by_trx_id` index keeps unique, the
configured maximum, and the two counters. -/
structure UnappliedTransactionQueue (Id Time : Type) where
  queue : List (UnappliedTransaction Id Time)
  idsUnique : KeyedTable.Unique UnappliedTransaction.id queue
  maxTransactionQueueSize : UInt64
  sizeInBytes : UInt64
  incomingCount : Nat

namespace UnappliedTransactionQueue

variable {Id Time : Type}

/-- A default-constructed queue: empty, with a maximum of 1 GiB. -/
def initial : UnappliedTransactionQueue Id Time :=
  ⟨[], List.nodup_nil, 1024 * 1024 * 1024, 0, 0⟩

/-- The methods: programs over the queue that may throw the text of an `EOS_ASSERT`. -/
abbrev QueueM (Id Time : Type) := EStateM String (UnappliedTransactionQueue Id Time)

/-! ### The container -/

section Container

variable [DecidableEq Id]

/-- `queue.get<by_trx_id>().find(id)`. -/
def find (q : UnappliedTransactionQueue Id Time) (id : Id) :
    Option (UnappliedTransaction Id Time) :=
  KeyedTable.find UnappliedTransaction.id q.queue id

/-- Insert an entry whose id the queue does not hold. -/
def insertEntry (q : UnappliedTransactionQueue Id Time) (entry : UnappliedTransaction Id Time)
    (fresh : ∀ other ∈ q.queue, other.id ≠ entry.id) : UnappliedTransactionQueue Id Time :=
  { q with
    queue := q.queue ++ [entry]
    idsUnique := KeyedTable.unique_append q.idsUnique fresh }

/-- Erase the entry with id `id`. -/
def eraseEntry (q : UnappliedTransactionQueue Id Time) (id : Id) :
    UnappliedTransactionQueue Id Time :=
  { q with
    queue := KeyedTable.erase UnappliedTransaction.id q.queue id
    idsUnique := KeyedTable.unique_erase q.idsUnique id }

/-- `queue.get<by_trx_id>().modify(itr, ...)` on the entry with id `id`, for an update that keeps
the id. -/
def updateEntry (q : UnappliedTransactionQueue Id Time) (id : Id)
    (update : UnappliedTransaction Id Time → UnappliedTransaction Id Time)
    (keepsId : ∀ entry, (update entry).id = entry.id) : UnappliedTransactionQueue Id Time :=
  { q with
    queue := KeyedTable.modify UnappliedTransaction.id q.queue id update
    idsUnique := KeyedTable.unique_modify q.idsUnique id keepsId }

/-- `queue.insert(entry)`: it takes place only when no entry has the id, and says whether it
did. -/
def insert (entry : UnappliedTransaction Id Time) : QueueM Id Time Bool := do
  let q ← get
  if fresh : ∀ other ∈ q.queue, other.id ≠ entry.id then
    set (q.insertEntry entry fresh)
    pure true
  else pure false

end Container

/-! ### The counters -/

section Counters

variable (entrySize : UInt64)

/-- `calc_size(trx)`: `sizeof(unapplied_transaction)`, which the compiler fixes and is
`entrySize` here, and the estimated size of the transaction. -/
def calcSize (trx : TrxMeta Id Time) : UInt64 :=
  entrySize + trx.estimatedSize.toUInt64

/-- The text of the `tx_resource_exhaustion` that `added` throws. -/
def queueSizeExceeded : String :=
  "Transaction ${id}, size ${s} bytes would exceed configured " ++
    "incoming-transaction-queue-size-mb ${qs}, current queue size ${cs} bytes"

/-- `added(itr)`: count an incoming entry and check that the queue stays below its maximum, then
count the entry's bytes. The check comes after the entry was inserted and counted. -/
def added (entry : UnappliedTransaction Id Time) : QueueM Id Time Unit := do
  let size := calcSize entrySize entry.trxMeta
  if entry.trxType.isIncoming then
    modify fun q => { q with incomingCount := q.incomingCount + 1 }
    let q ← get
    unless q.sizeInBytes + size < q.maxTransactionQueueSize do
      throw queueSizeExceeded
  modify fun q => { q with sizeInBytes := q.sizeInBytes + size }

/-- `removed(itr)`: uncount an incoming entry and the entry's bytes. -/
def removed (entry : UnappliedTransaction Id Time) : QueueM Id Time Unit := do
  if entry.trxType.isIncoming then
    modify fun q => { q with incomingCount := q.incomingCount - 1 }
  modify fun q => { q with sizeInBytes := q.sizeInBytes - calcSize entrySize entry.trxMeta }

end Counters

/-! ### The methods -/

section Methods

variable [DecidableEq Id] (entrySize : UInt64)

/-- `auto insert_itr = queue.insert(entry); if( insert_itr.second ) added( insert_itr.first );` -/
def insertAdded (entry : UnappliedTransaction Id Time) : QueueM Id Time Unit := do
  if ← insert entry then added entrySize entry

/-- `removed( itr ); queue.erase( itr );` for an entry of the queue. -/
def removeEntry (entry : UnappliedTransaction Id Time) : QueueM Id Time Unit := do
  removed entrySize entry
  modify fun q => q.eraseEntry entry.id

/-- `set_max_transaction_queue_size(v)`. -/
def setMaxTransactionQueueSize (v : UInt64) : QueueM Id Time Unit :=
  modify fun q => { q with maxTransactionQueueSize := v }

/-- `add_forked(forked_branch)`: the transactions of the blocks of a branch given from its head,
taken from its oldest block on. -/
def addForked (forkedBranch : List (List (TrxMeta Id Time))) : QueueM Id Time Unit :=
  forkedBranch.reverse.forM fun trxsMetas =>
    trxsMetas.forM fun trx => insertAdded entrySize ⟨trx, trx.expiration, .forked, false⟩

/-- `add_aborted(aborted_trxs)`. -/
def addAborted (abortedTrxs : List (TrxMeta Id Time)) : QueueM Id Time Unit :=
  abortedTrxs.forM fun trx => insertAdded entrySize ⟨trx, trx.expiration, .aborted, false⟩

/-- `add_persisted(trx)`: a new transaction is inserted as persisted; a queued one that is not
persisted becomes so, leaving the incoming count if it was incoming. -/
def addPersisted (trx : TrxMeta Id Time) : QueueM Id Time Unit := do
  match (← get).find trx.id with
  | none => insertAdded entrySize ⟨trx, trx.expiration, .persisted, false⟩
  | some entry =>
    if entry.trxType ≠ .persisted then
      if entry.trxType.isIncoming then
        modify fun q => { q with incomingCount := q.incomingCount - 1 }
      modify fun q => q.updateEntry trx.id (fun un => { un with trxType := .persisted })
        fun _ => rfl

/-- `add_incoming(trx, persist_until_expired, next)`: a new transaction is inserted as incoming,
which may throw; a queued one becomes incoming, joining the incoming count if it was not, with
the new callback. -/
def addIncoming (trx : TrxMeta Id Time) (persistUntilExpired next : Bool) :
    QueueM Id Time Unit := do
  let trxType := if persistUntilExpired then TrxEnumType.incomingPersisted else .incoming
  match (← get).find trx.id with
  | none => insertAdded entrySize ⟨trx, trx.expiration, trxType, next⟩
  | some entry =>
    if !entry.trxType.isIncoming then
      modify fun q => { q with incomingCount := q.incomingCount + 1 }
    modify fun q => q.updateEntry trx.id (fun un => { un with trxType, next }) fun _ => rfl

/-- The body of the loop of `clear_applied` for one receipt: a queued transaction the block
applied leaves the queue unless it is persisted; a persisted one loses its callback. -/
def clearAppliedReceipt (receipt : ReceiptTrx Id) : QueueM Id Time Unit := do
  match receipt with
  | .packedTransaction id =>
    match (← get).find id with
    | some entry =>
      if entry.trxType ≠ .persisted ∧ entry.trxType ≠ .incomingPersisted then
        removeEntry entrySize entry
      else if entry.next then
        modify fun q => q.updateEntry id (fun un => { un with next := false }) fun _ => rfl
    | none => pure ()
  | .transactionId _ => pure ()

/-- `clear_applied(bs)`, given the receipts of the block's transactions. -/
def clearApplied (receipts : List (ReceiptTrx Id)) : QueueM Id Time Unit := do
  if (← get).queue.isEmpty then return
  receipts.forM (clearAppliedReceipt entrySize)

/-- `erase(itr)`, for the entry with id `id`; the iterator the caller passes points to an entry,
so an id the queue does not hold changes nothing. -/
def erase (id : Id) : QueueM Id Time Unit := do
  match (← get).find id with
  | some entry => removeEntry entrySize entry
  | none => pure ()

variable [LinearOrder Time]

/-- The entry `clear_expired` looks at, the first of the `by_expiry` index, when it has expired
by `pendingBlockTime`. -/
def expiredFront (q : UnappliedTransactionQueue Id Time) (pendingBlockTime : Time) :
    Option (UnappliedTransaction Id Time) :=
  match q.queue.argmin (·.expiry) with
  | some entry => if pendingBlockTime < entry.expiry then none else some entry
  | none => none

/-- `clear_expired(pending_block_time, deadline, callback)`: while the first entry by expiry has
expired, remove it, unless the deadline has passed. The argument is the number of times the clock
reads before the deadline; the callbacks change nothing in the queue. -/
def clearExpired (pendingBlockTime : Time) : Nat → QueueM Id Time Bool
  | 0 => do
    match (← get).expiredFront pendingBlockTime with
    | none => pure true
    | some _ => pure false
  | checks + 1 => do
    match (← get).expiredFront pendingBlockTime with
    | none => pure true
    | some entry =>
      removeEntry entrySize entry
      clearExpired pendingBlockTime checks

end Methods

end UnappliedTransactionQueue

end Eosio.Chain
