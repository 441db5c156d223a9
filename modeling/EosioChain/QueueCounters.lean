/-
This file proves what the counters of `unapplied_transaction_queue` keep, and what they do not.

`incoming_count` is the number of incoming entries after every call, also after one that throws:
`added` counts an incoming entry before its check, and the entry stays. `size_in_bytes` is the
sum of `calc_size` over the entries after every call that returns. A call that throws does not
leave the queue as it was: `add_incoming` inserts the entry and counts it as incoming before
`added` finds that it does not fit, and the exception leaves both in place, with its bytes
uncounted. The size counter then falls short by the entry's size, and the later removal of the
entry takes its size off anyway, wrapping the unsigned counter below zero.
-/

import Mathlib
import EosioChain.UnappliedTransactionQueue

namespace Eosio.Chain

namespace UnappliedTransactionQueue

open StateExcept

variable {Id Time : Type} (entrySize : UInt64)

/-! ### The counts -/

/-- The number of incoming entries. -/
def incomingEntries (entries : List (UnappliedTransaction Id Time)) : Nat :=
  entries.countP fun entry => entry.trxType.isIncoming

/-- The bytes the entries take, by `calc_size`. -/
def queuedBytes (entries : List (UnappliedTransaction Id Time)) : UInt64 :=
  (entries.map fun entry => calcSize entrySize entry.trxMeta).sum

@[simp] theorem incomingEntries_nil : incomingEntries ([] : List (UnappliedTransaction Id Time)) = 0 :=
  rfl

@[simp] theorem incomingEntries_append (first second : List (UnappliedTransaction Id Time)) :
    incomingEntries (first ++ second) = incomingEntries first + incomingEntries second :=
  List.countP_append

@[simp] theorem incomingEntries_cons (entry : UnappliedTransaction Id Time)
    (entries : List (UnappliedTransaction Id Time)) :
    incomingEntries (entry :: entries) =
      incomingEntries entries + if entry.trxType.isIncoming then 1 else 0 :=
  List.countP_cons

@[simp] theorem queuedBytes_nil : queuedBytes entrySize ([] : List (UnappliedTransaction Id Time)) = 0 :=
  rfl

@[simp] theorem queuedBytes_append (first second : List (UnappliedTransaction Id Time)) :
    queuedBytes entrySize (first ++ second) =
      queuedBytes entrySize first + queuedBytes entrySize second := by
  simp [queuedBytes]

@[simp] theorem queuedBytes_cons (entry : UnappliedTransaction Id Time)
    (entries : List (UnappliedTransaction Id Time)) :
    queuedBytes entrySize (entry :: entries) =
      calcSize entrySize entry.trxMeta + queuedBytes entrySize entries := by
  simp [queuedBytes]

/-- `incoming_size()` is the number of incoming entries. -/
def IncomingExact (q : UnappliedTransactionQueue Id Time) : Prop :=
  q.incomingCount = incomingEntries q.queue

/-- Both counters are exact: `incoming_count` counts the incoming entries and `size_in_bytes` is
the sum of `calc_size` over the entries. -/
structure CountersExact (q : UnappliedTransactionQueue Id Time) : Prop where
  incoming : IncomingExact q
  size : q.sizeInBytes = queuedBytes entrySize q.queue

theorem countersExact_initial : CountersExact entrySize (initial : UnappliedTransactionQueue Id Time) :=
  ⟨rfl, rfl⟩

/-! ### The counters, step by step -/

section Steps

variable {q : UnappliedTransactionQueue Id Time} {entry : UnappliedTransaction Id Time}

theorem added_run_of_not_incoming (notIncoming : entry.trxType.isIncoming = false) :
    (added entrySize entry).run q =
      .ok () { q with sizeInBytes := q.sizeInBytes + calcSize entrySize entry.trxMeta } := by
  simp [added, notIncoming]

theorem added_run_of_fits (incoming : entry.trxType.isIncoming = true)
    (fits : q.sizeInBytes + calcSize entrySize entry.trxMeta < q.maxTransactionQueueSize) :
    (added entrySize entry).run q =
      .ok () { q with
        incomingCount := q.incomingCount + 1
        sizeInBytes := q.sizeInBytes + calcSize entrySize entry.trxMeta } := by
  simp [added, incoming, fits]

/-- `added` throws for an incoming entry that does not fit, after counting it. -/
theorem added_run_of_exceeds (incoming : entry.trxType.isIncoming = true)
    (exceeds : ¬ q.sizeInBytes + calcSize entrySize entry.trxMeta < q.maxTransactionQueueSize) :
    (added entrySize entry).run q =
      .error queueSizeExceeded { q with incomingCount := q.incomingCount + 1 } := by
  simp [added, incoming, exceeds]

theorem removed_run :
    (removed entrySize entry).run q =
      .ok () { q with
        incomingCount := if entry.trxType.isIncoming then q.incomingCount - 1 else q.incomingCount
        sizeInBytes := q.sizeInBytes - calcSize entrySize entry.trxMeta } := by
  cases incoming : entry.trxType.isIncoming <;> simp [removed, incoming]

variable [DecidableEq Id]

theorem insert_run_of_fresh (fresh : ∀ other ∈ q.queue, other.id ≠ entry.id) :
    (insert entry).run q = .ok true (q.insertEntry entry fresh) := by
  simp only [insert, EStateM.run_bind, EStateM.run_get, dif_pos fresh, EStateM.run_set,
    EStateM.run_pure]

theorem insert_run_of_held (held : ¬ ∀ other ∈ q.queue, other.id ≠ entry.id) :
    (insert entry).run q = .ok false q := by
  simp only [insert, EStateM.run_bind, EStateM.run_get, dif_neg held, EStateM.run_pure]

theorem insertAdded_run_of_held (held : ¬ ∀ other ∈ q.queue, other.id ≠ entry.id) :
    (insertAdded entrySize entry).run q = .ok () q := by
  simp only [insertAdded, EStateM.run_bind, insert_run_of_held held]
  rfl

/-- A new entry joins the queue and is counted, when it is not incoming or fits. -/
theorem insertAdded_run_of_fresh (fresh : ∀ other ∈ q.queue, other.id ≠ entry.id)
    (returns : entry.trxType.isIncoming = false ∨
      q.sizeInBytes + calcSize entrySize entry.trxMeta < q.maxTransactionQueueSize) :
    (insertAdded entrySize entry).run q =
      .ok () { q.insertEntry entry fresh with
        incomingCount := q.incomingCount + if entry.trxType.isIncoming then 1 else 0
        sizeInBytes := q.sizeInBytes + calcSize entrySize entry.trxMeta } := by
  simp only [insertAdded, EStateM.run_bind, insert_run_of_fresh fresh, if_true]
  cases incoming : entry.trxType.isIncoming
  · rw [added_run_of_not_incoming entrySize incoming]
    rfl
  · -- the insertion changes neither counter nor the maximum
    have fits : (q.insertEntry entry fresh).sizeInBytes + calcSize entrySize entry.trxMeta <
        (q.insertEntry entry fresh).maxTransactionQueueSize :=
      returns.resolve_left (by simp [incoming])
    rw [added_run_of_fits entrySize incoming fits]
    rfl

/-- **A new incoming entry that does not fit is left in the queue, counted as incoming, with its
bytes uncounted.** -/
theorem insertAdded_run_of_exceeds (fresh : ∀ other ∈ q.queue, other.id ≠ entry.id)
    (incoming : entry.trxType.isIncoming = true)
    (exceeds : ¬ q.sizeInBytes + calcSize entrySize entry.trxMeta < q.maxTransactionQueueSize) :
    (insertAdded entrySize entry).run q =
      .error queueSizeExceeded { q.insertEntry entry fresh with
        incomingCount := q.incomingCount + 1 } := by
  simp only [insertAdded, EStateM.run_bind, insert_run_of_fresh fresh, if_true]
  exact added_run_of_exceeds entrySize (q := q.insertEntry entry fresh) incoming exceeds

theorem removeEntry_run :
    (removeEntry entrySize entry).run q =
      .ok () ({ q with
        incomingCount := if entry.trxType.isIncoming then q.incomingCount - 1 else q.incomingCount
        sizeInBytes := q.sizeInBytes - calcSize entrySize entry.trxMeta }.eraseEntry entry.id) := by
  simp only [removeEntry, EStateM.run_bind, removed_run, EStateM.run_modify]

variable {trx : TrxMeta Id Time}

theorem addPersisted_run_of_missing (missing : q.find trx.id = none) :
    (addPersisted entrySize trx).run q =
      (insertAdded entrySize ⟨trx, trx.expiration, .persisted, false⟩).run q := by
  simp only [addPersisted, EStateM.run_bind, EStateM.run_get, missing]

/-- A queued transaction that is not persisted becomes so, leaving the incoming count if it was
incoming. -/
theorem addPersisted_run_of_found (found : q.find trx.id = some entry) :
    (addPersisted entrySize trx).run q =
      .ok () (if entry.trxType ≠ .persisted then
        { q with incomingCount := q.incomingCount - if entry.trxType.isIncoming then 1 else 0 }.updateEntry
          trx.id (fun un => { un with trxType := .persisted }) (fun _ => rfl)
      else q) := by
  simp only [addPersisted, EStateM.run_bind, EStateM.run_get, found]
  by_cases persisted : entry.trxType = .persisted
  · simp [persisted]
  · cases entry.trxType.isIncoming <;> simp [persisted]

theorem addIncoming_run_of_missing {persistUntilExpired next : Bool} (missing : q.find trx.id = none) :
    (addIncoming entrySize trx persistUntilExpired next).run q =
      (insertAdded entrySize ⟨trx, trx.expiration,
        if persistUntilExpired then .incomingPersisted else .incoming, next⟩).run q := by
  simp only [addIncoming, EStateM.run_bind, EStateM.run_get, missing]

/-- A queued transaction becomes incoming with the new callback, joining the incoming count if it
was not incoming. -/
theorem addIncoming_run_of_found {persistUntilExpired next : Bool}
    (found : q.find trx.id = some entry) :
    (addIncoming entrySize trx persistUntilExpired next).run q =
      .ok () ({ q with incomingCount := q.incomingCount + if entry.trxType.isIncoming then 0 else 1 }.updateEntry
        trx.id (fun un => { un with
          trxType := if persistUntilExpired then .incomingPersisted else .incoming, next })
        (fun _ => rfl)) := by
  simp only [addIncoming, EStateM.run_bind, EStateM.run_get, found]
  cases entry.trxType.isIncoming <;> simp

theorem erase_run_of_found {id : Id} (found : q.find id = some entry) :
    (erase entrySize id).run q = (removeEntry entrySize entry).run q := by
  simp only [erase, EStateM.run_bind, EStateM.run_get, found]

theorem erase_run_of_missing {id : Id} (missing : q.find id = none) :
    (erase entrySize id).run q = .ok () q := by
  simp only [erase, EStateM.run_bind, EStateM.run_get, missing]
  rfl

/-- A transaction of the block leaves the queue unless it is persisted; a persisted one loses its
callback. -/
theorem clearAppliedReceipt_run_of_found {id : Id} (found : q.find id = some entry) :
    (clearAppliedReceipt entrySize (.packedTransaction id)).run q =
      if entry.trxType ≠ .persisted ∧ entry.trxType ≠ .incomingPersisted then
        (removeEntry entrySize entry).run q
      else .ok () (if entry.next then
        q.updateEntry id (fun un => { un with next := false }) (fun _ => rfl) else q) := by
  simp only [clearAppliedReceipt, EStateM.run_bind, EStateM.run_get, found]
  split_ifs <;> rfl

theorem clearAppliedReceipt_run_of_missing {receipt : ReceiptTrx Id}
    (missing : ∀ id, receipt = .packedTransaction id → q.find id = none) :
    (clearAppliedReceipt entrySize receipt).run q = .ok () q := by
  cases receipt with
  | packedTransaction id =>
    simp only [clearAppliedReceipt, EStateM.run_bind, EStateM.run_get, missing id rfl]
    rfl
  | transactionId id => rfl

section Expiry

variable [LinearOrder Time] {pendingBlockTime : Time}

omit [DecidableEq Id] in
theorem expiredFront_mem (front : q.expiredFront pendingBlockTime = some entry) : entry ∈ q.queue := by
  unfold expiredFront at front
  split at front
  · rename_i first argmin
    split at front
    · cases front
    · rw [← Option.some.inj front]
      exact List.argmin_mem argmin
  · cases front

theorem clearExpired_run_of_none {checks : Nat} (none : q.expiredFront pendingBlockTime = none) :
    (clearExpired entrySize pendingBlockTime checks).run q = .ok true q := by
  cases checks <;> simp only [clearExpired, EStateM.run_bind, EStateM.run_get, none] <;> rfl

theorem clearExpired_zero_run_of_front (front : q.expiredFront pendingBlockTime = some entry) :
    (clearExpired entrySize pendingBlockTime 0).run q = .ok false q := by
  simp only [clearExpired, EStateM.run_bind, EStateM.run_get, front]
  rfl

/-- With a check left, the expired front entry is removed and the loop goes on. -/
theorem clearExpired_succ_run_of_front {checks : Nat}
    (front : q.expiredFront pendingBlockTime = some entry) :
    (clearExpired entrySize pendingBlockTime (checks + 1)).run q =
      (clearExpired entrySize pendingBlockTime checks).run
        (finalState ((removeEntry entrySize entry).run q)) := by
  simp only [clearExpired, EStateM.run_bind, EStateM.run_get, front, removeEntry_run, finalState_ok]

end Expiry

/-! ### Counting after a change of the container -/

omit [DecidableEq Id] in
theorem incomingExact_insertEntry (fresh : ∀ other ∈ q.queue, other.id ≠ entry.id)
    (exact : IncomingExact q) :
    IncomingExact { q.insertEntry entry fresh with
      incomingCount := q.incomingCount + if entry.trxType.isIncoming then 1 else 0 } := by
  unfold IncomingExact at exact ⊢
  simp [insertEntry, exact]

omit [DecidableEq Id] in
theorem queuedBytes_insertEntry (fresh : ∀ other ∈ q.queue, other.id ≠ entry.id) :
    queuedBytes entrySize (q.insertEntry entry fresh).queue =
      queuedBytes entrySize q.queue + calcSize entrySize entry.trxMeta := by
  simp [insertEntry]

/-- Removing an entry of the queue takes it off the incoming entries. -/
theorem incomingEntries_eraseEntry (member : entry ∈ q.queue) :
    incomingEntries (q.eraseEntry entry.id).queue + (if entry.trxType.isIncoming then 1 else 0) =
      incomingEntries q.queue := by
  obtain ⟨before, after, split, erased⟩ := KeyedTable.erase_eq_of_mem q.idsUnique member
  have queueAfter : (q.eraseEntry entry.id).queue = before ++ after := erased
  rw [queueAfter, split]
  simp only [incomingEntries_append, incomingEntries_cons]
  omega

/-- Removing an entry of the queue takes its bytes off. -/
theorem queuedBytes_eraseEntry (member : entry ∈ q.queue) :
    queuedBytes entrySize (q.eraseEntry entry.id).queue + calcSize entrySize entry.trxMeta =
      queuedBytes entrySize q.queue := by
  obtain ⟨before, after, split, erased⟩ := KeyedTable.erase_eq_of_mem q.idsUnique member
  have queueAfter : (q.eraseEntry entry.id).queue = before ++ after := erased
  rw [queueAfter, split]
  simp only [queuedBytes_append, queuedBytes_cons]
  abel

section Update

variable {update : UnappliedTransaction Id Time → UnappliedTransaction Id Time}

/-- Changing an entry of the queue in place changes the incoming entries by its change of type. -/
theorem incomingEntries_updateEntry (member : entry ∈ q.queue)
    (keepsId : ∀ un, (update un).id = un.id) :
    incomingEntries (q.updateEntry entry.id update keepsId).queue +
        (if entry.trxType.isIncoming then 1 else 0) =
      incomingEntries q.queue + (if (update entry).trxType.isIncoming then 1 else 0) := by
  obtain ⟨before, after, split, modified⟩ := KeyedTable.modify_eq_of_mem q.idsUnique member update
  have queueAfter : (q.updateEntry entry.id update keepsId).queue = before ++ update entry :: after :=
    modified
  rw [queueAfter, split]
  simp only [incomingEntries_append, incomingEntries_cons]
  omega

/-- Changing an entry of the queue in place, keeping its transaction, keeps its bytes. -/
theorem queuedBytes_updateEntry (member : entry ∈ q.queue)
    (keepsId : ∀ un, (update un).id = un.id) (keepsMeta : ∀ un, (update un).trxMeta = un.trxMeta) :
    queuedBytes entrySize (q.updateEntry entry.id update keepsId).queue =
      queuedBytes entrySize q.queue := by
  obtain ⟨before, after, split, modified⟩ := KeyedTable.modify_eq_of_mem q.idsUnique member update
  have queueAfter : (q.updateEntry entry.id update keepsId).queue = before ++ update entry :: after :=
    modified
  rw [queueAfter, split]
  simp only [queuedBytes_append, queuedBytes_cons, keepsMeta]

/-- An update in place, with the incoming count moved by the entry's change of type, keeps the
incoming count exact. This is what `add_persisted`, `add_incoming` and `clear_applied` do to a
queued entry. -/
theorem incomingExact_updateEntry (member : entry ∈ q.queue)
    (keepsId : ∀ un, (update un).id = un.id) {count : Nat}
    (moved : count = q.incomingCount + (if (update entry).trxType.isIncoming then 1 else 0) -
      (if entry.trxType.isIncoming then 1 else 0))
    (exact : IncomingExact q) :
    IncomingExact ({ q with incomingCount := count }.updateEntry entry.id update keepsId) := by
  have counted := incomingEntries_updateEntry member keepsId
  unfold IncomingExact at exact ⊢
  show count = incomingEntries (q.updateEntry entry.id update keepsId).queue
  omega

theorem countersExact_updateEntry (member : entry ∈ q.queue)
    (keepsId : ∀ un, (update un).id = un.id) (keepsMeta : ∀ un, (update un).trxMeta = un.trxMeta)
    {count : Nat}
    (moved : count = q.incomingCount + (if (update entry).trxType.isIncoming then 1 else 0) -
      (if entry.trxType.isIncoming then 1 else 0))
    (exact : CountersExact entrySize q) :
    CountersExact entrySize ({ q with incomingCount := count }.updateEntry entry.id update keepsId) :=
  ⟨incomingExact_updateEntry member keepsId moved exact.incoming,
    (exact.size.trans (queuedBytes_updateEntry entrySize member keepsId keepsMeta).symm :)⟩

end Update

end Steps

/-! ### What each method keeps

Every method keeps the incoming count exact on every run, also one that throws, and both counters
exact on every run that returns. -/

section Keeping

variable [DecidableEq Id]

/-- The incoming count stays exact through an insertion, also one that throws. -/
theorem insertAdded_keeps_incomingExact (entry : UnappliedTransaction Id Time) :
    Keeps IncomingExact (insertAdded entrySize entry) := by
  intro q exact
  by_cases fresh : ∀ other ∈ q.queue, other.id ≠ entry.id
  · by_cases returns : entry.trxType.isIncoming = false ∨
        q.sizeInBytes + calcSize entrySize entry.trxMeta < q.maxTransactionQueueSize
    · rw [insertAdded_run_of_fresh entrySize fresh returns, finalState_ok]
      exact incomingExact_insertEntry fresh exact
    · -- the throw leaves the entry counted as incoming
      rw [not_or, Bool.not_eq_false] at returns
      rw [insertAdded_run_of_exceeds entrySize fresh returns.1 returns.2, finalState_error]
      have counted := incomingExact_insertEntry fresh exact
      rw [returns.1, if_pos rfl] at counted
      exact counted
  · rw [insertAdded_run_of_held entrySize fresh, finalState_ok]
    exact exact

theorem insertAdded_keepsOnReturn_countersExact (entry : UnappliedTransaction Id Time) :
    KeepsOnReturn (CountersExact entrySize) (insertAdded entrySize entry) := by
  intro q exact _ q' ran
  by_cases fresh : ∀ other ∈ q.queue, other.id ≠ entry.id
  · by_cases returns : entry.trxType.isIncoming = false ∨
        q.sizeInBytes + calcSize entrySize entry.trxMeta < q.maxTransactionQueueSize
    · rw [insertAdded_run_of_fresh entrySize fresh returns, EStateM.Result.ok.injEq] at ran
      rw [← ran.2]
      refine ⟨incomingExact_insertEntry fresh exact.incoming, ?_⟩
      show q.sizeInBytes + calcSize entrySize entry.trxMeta =
        queuedBytes entrySize (q.insertEntry entry fresh).queue
      rw [queuedBytes_insertEntry, exact.size]
    · rw [not_or, Bool.not_eq_false] at returns
      rw [insertAdded_run_of_exceeds entrySize fresh returns.1 returns.2] at ran
      cases ran
  · rw [insertAdded_run_of_held entrySize fresh, EStateM.Result.ok.injEq] at ran
    rw [← ran.2]
    exact exact

section Member

variable {q : UnappliedTransactionQueue Id Time} {entry : UnappliedTransaction Id Time}

theorem removeEntry_incomingExact (member : entry ∈ q.queue) (exact : IncomingExact q) :
    IncomingExact (finalState ((removeEntry entrySize entry).run q)) := by
  rw [removeEntry_run, finalState_ok]
  have counted := incomingEntries_eraseEntry member
  unfold IncomingExact at exact ⊢
  show (if entry.trxType.isIncoming then q.incomingCount - 1 else q.incomingCount) =
    incomingEntries (q.eraseEntry entry.id).queue
  split
  · rename_i incoming
    rw [if_pos incoming] at counted
    omega
  · rename_i notIncoming
    rw [if_neg notIncoming] at counted
    omega

theorem removeEntry_countersExact (member : entry ∈ q.queue) (exact : CountersExact entrySize q) :
    CountersExact entrySize (finalState ((removeEntry entrySize entry).run q)) := by
  refine ⟨removeEntry_incomingExact entrySize member exact.incoming, ?_⟩
  rw [removeEntry_run, finalState_ok]
  show q.sizeInBytes - calcSize entrySize entry.trxMeta =
    queuedBytes entrySize (q.eraseEntry entry.id).queue
  rw [exact.size, ← queuedBytes_eraseEntry entrySize member]
  abel

/-- Clearing a queued entry's callback changes no count. -/
theorem incomingExact_clearNext (member : entry ∈ q.queue) (exact : IncomingExact q) :
    IncomingExact (q.updateEntry entry.id (fun un => { un with next := false }) fun _ => rfl) := by
  refine incomingExact_updateEntry member _ ?_ exact
  simp

theorem countersExact_clearNext (member : entry ∈ q.queue) (exact : CountersExact entrySize q) :
    CountersExact entrySize (q.updateEntry entry.id (fun un => { un with next := false }) fun _ => rfl) := by
  refine countersExact_updateEntry entrySize member _ ?_ ?_ exact
  · exact fun _ => rfl
  · simp

end Member

omit [DecidableEq Id] in
/-- `add_persisted` moves a queued entry out of the incoming count by what it counted. -/
theorem movedOut (entry : UnappliedTransaction Id Time) (count : Nat) :
    count - (if entry.trxType.isIncoming then 1 else 0) =
      count + (if TrxEnumType.persisted.isIncoming then 1 else 0) -
        (if entry.trxType.isIncoming then 1 else 0) := by
  simp [TrxEnumType.isIncoming]

omit [DecidableEq Id] in
/-- `add_incoming` moves a queued entry into the incoming count unless it was there. -/
theorem movedIn (entry : UnappliedTransaction Id Time) (count : Nat) {persistUntilExpired : Bool} :
    count + (if entry.trxType.isIncoming then 0 else 1) =
      count + (if (if persistUntilExpired then TrxEnumType.incomingPersisted else .incoming).isIncoming
        then 1 else 0) - (if entry.trxType.isIncoming then 1 else 0) := by
  cases persistUntilExpired <;> cases entry.trxType.isIncoming <;> simp [TrxEnumType.isIncoming]

omit [DecidableEq Id] in
/-- `set_max_transaction_queue_size` changes neither the entries nor the counters. -/
theorem setMaxTransactionQueueSize_keeps_countersExact (v : UInt64) :
    Keeps (CountersExact entrySize)
      (setMaxTransactionQueueSize v : QueueM Id Time Unit) :=
  fun _ exact => ⟨exact.incoming, exact.size⟩

theorem addPersisted_keeps_incomingExact (trx : TrxMeta Id Time) :
    Keeps IncomingExact (addPersisted entrySize trx) := by
  intro q exact
  cases found : q.find trx.id with
  | none =>
    rw [addPersisted_run_of_missing entrySize found]
    exact insertAdded_keeps_incomingExact entrySize _ q exact
  | some entry =>
    obtain ⟨member, sameId⟩ := KeyedTable.find_eq_some found
    rw [addPersisted_run_of_found entrySize found, finalState_ok]
    split
    · rw [← sameId]
      refine incomingExact_updateEntry member _ ?_ exact
      exact movedOut entry q.incomingCount
    · exact exact

theorem addPersisted_keepsOnReturn_countersExact (trx : TrxMeta Id Time) :
    KeepsOnReturn (CountersExact entrySize) (addPersisted entrySize trx) := by
  intro q exact _ q' ran
  cases found : q.find trx.id with
  | none =>
    rw [addPersisted_run_of_missing entrySize found] at ran
    exact insertAdded_keepsOnReturn_countersExact entrySize _ q exact _ q' ran
  | some entry =>
    obtain ⟨member, sameId⟩ := KeyedTable.find_eq_some found
    rw [addPersisted_run_of_found entrySize found, EStateM.Result.ok.injEq] at ran
    rw [← ran.2]
    split
    · rw [← sameId]
      refine countersExact_updateEntry entrySize member _ ?_ ?_ exact
      · exact fun _ => rfl
      · exact movedOut entry q.incomingCount
    · exact exact

theorem addIncoming_keeps_incomingExact (trx : TrxMeta Id Time) (persistUntilExpired next : Bool) :
    Keeps IncomingExact (addIncoming entrySize trx persistUntilExpired next) := by
  intro q exact
  cases found : q.find trx.id with
  | none =>
    rw [addIncoming_run_of_missing entrySize found]
    exact insertAdded_keeps_incomingExact entrySize _ q exact
  | some entry =>
    obtain ⟨member, sameId⟩ := KeyedTable.find_eq_some found
    rw [addIncoming_run_of_found entrySize found, finalState_ok, ← sameId]
    refine incomingExact_updateEntry member _ ?_ exact
    exact movedIn entry q.incomingCount

theorem addIncoming_keepsOnReturn_countersExact (trx : TrxMeta Id Time)
    (persistUntilExpired next : Bool) :
    KeepsOnReturn (CountersExact entrySize) (addIncoming entrySize trx persistUntilExpired next) := by
  intro q exact _ q' ran
  cases found : q.find trx.id with
  | none =>
    rw [addIncoming_run_of_missing entrySize found] at ran
    exact insertAdded_keepsOnReturn_countersExact entrySize _ q exact _ q' ran
  | some entry =>
    obtain ⟨member, sameId⟩ := KeyedTable.find_eq_some found
    rw [addIncoming_run_of_found entrySize found, EStateM.Result.ok.injEq, ← sameId] at ran
    rw [← ran.2]
    refine countersExact_updateEntry entrySize member _ ?_ ?_ exact
    · exact fun _ => rfl
    · exact movedIn entry q.incomingCount

/-! The removing methods keep any invariant that the removal of a queued entry and the clearing of
a queued entry's callback keep: both counters on every run, since these methods never throw. -/

section Removals

variable {invariant : UnappliedTransactionQueue Id Time → Prop}
  (removes : ∀ q entry, entry ∈ q.queue → invariant q →
    invariant (finalState ((removeEntry entrySize entry).run q)))

include removes

theorem erase_keeps (id : Id) : Keeps invariant (erase entrySize id) := by
  intro q holds
  cases found : q.find id with
  | none =>
    rw [erase_run_of_missing entrySize found, finalState_ok]
    exact holds
  | some entry =>
    rw [erase_run_of_found entrySize found]
    exact removes q entry (KeyedTable.find_eq_some found).1 holds

/-- `clear_expired` keeps the invariant however many checks of the deadline it makes: by
induction on the checks, each removing an expired entry of the queue. -/
theorem clearExpired_keeps [LinearOrder Time] (pendingBlockTime : Time) (checks : Nat) :
    Keeps invariant (clearExpired entrySize pendingBlockTime checks) := by
  induction checks with
  | zero =>
    intro q holds
    cases front : q.expiredFront pendingBlockTime with
    | none => rw [clearExpired_run_of_none entrySize front, finalState_ok]; exact holds
    | some entry => rw [clearExpired_zero_run_of_front entrySize front, finalState_ok]; exact holds
  | succ checks inductionHypothesis =>
    intro q holds
    cases front : q.expiredFront pendingBlockTime with
    | none => rw [clearExpired_run_of_none entrySize front, finalState_ok]; exact holds
    | some entry =>
      rw [clearExpired_succ_run_of_front entrySize front]
      exact inductionHypothesis _ (removes q entry (expiredFront_mem front) holds)

variable (clearsNext : ∀ q (entry : UnappliedTransaction Id Time), entry ∈ q.queue → invariant q →
    invariant (q.updateEntry entry.id (fun un => { un with next := false }) fun _ => rfl))

include clearsNext

theorem clearAppliedReceipt_keeps (receipt : ReceiptTrx Id) :
    Keeps invariant (clearAppliedReceipt entrySize receipt) := by
  intro q holds
  by_cases listed : ∃ id entry, receipt = .packedTransaction id ∧ q.find id = some entry
  · obtain ⟨id, entry, rfl, found⟩ := listed
    obtain ⟨member, sameId⟩ := KeyedTable.find_eq_some found
    rw [clearAppliedReceipt_run_of_found entrySize found]
    split
    · exact removes q entry member holds
    · rw [finalState_ok]
      split
      · rw [← sameId]
        exact clearsNext q entry member holds
      · exact holds
  · have missing : ∀ id, receipt = .packedTransaction id → q.find id = none := by
      intro id listedId
      cases found : q.find id with
      | none => rfl
      | some entry => exact absurd ⟨id, entry, listedId, found⟩ listed
    rw [clearAppliedReceipt_run_of_missing entrySize missing, finalState_ok]
    exact holds

theorem clearApplied_keeps (receipts : List (ReceiptTrx Id)) :
    Keeps invariant (clearApplied entrySize receipts) := by
  unfold clearApplied
  refine Keeps.bind (fun _ holds => holds) fun q => ?_
  split
  · exact keeps_pure _
  · exact keeps_forM fun receipt _ => clearAppliedReceipt_keeps entrySize removes clearsNext receipt

end Removals

end Keeping

/-! ### Runs of calls -/

/-- A call of the queue's interface, with its arguments. -/
inductive QueueCall (Id Time : Type)
  | addForked (forkedBranch : List (List (TrxMeta Id Time)))
  | addAborted (abortedTrxs : List (TrxMeta Id Time))
  | addPersisted (trx : TrxMeta Id Time)
  | addIncoming (trx : TrxMeta Id Time) (persistUntilExpired next : Bool)
  | clearApplied (receipts : List (ReceiptTrx Id))
  | clearExpired (pendingBlockTime : Time) (checks : Nat)
  | erase (id : Id)
  | setMaxTransactionQueueSize (v : UInt64)

section Runs

variable [DecidableEq Id] [LinearOrder Time]

/-- The method a call runs; what `clear_expired` returns is dropped. -/
def QueueCall.perform : QueueCall Id Time → QueueM Id Time Unit
  | .addForked forkedBranch => UnappliedTransactionQueue.addForked entrySize forkedBranch
  | .addAborted abortedTrxs => UnappliedTransactionQueue.addAborted entrySize abortedTrxs
  | .addPersisted trx => UnappliedTransactionQueue.addPersisted entrySize trx
  | .addIncoming trx persistUntilExpired next =>
    UnappliedTransactionQueue.addIncoming entrySize trx persistUntilExpired next
  | .clearApplied receipts => UnappliedTransactionQueue.clearApplied entrySize receipts
  | .clearExpired pendingBlockTime checks => do
    let _ ← UnappliedTransactionQueue.clearExpired entrySize pendingBlockTime checks
  | .erase id => UnappliedTransactionQueue.erase entrySize id
  | .setMaxTransactionQueueSize v => UnappliedTransactionQueue.setMaxTransactionQueueSize v

/-- A run of calls, each from the queue the one before left, whether it returned or threw: the
exception goes to the caller, and the queue lives on. -/
def performAll (q : UnappliedTransactionQueue Id Time) :
    List (QueueCall Id Time) → UnappliedTransactionQueue Id Time
  | [] => q
  | call :: calls => performAll (finalState ((call.perform entrySize).run q)) calls

/-- Every call of the run returns. -/
def ReturnsAll (q : UnappliedTransactionQueue Id Time) : List (QueueCall Id Time) → Prop
  | [] => True
  | call :: calls => ∃ q', (call.perform entrySize).run q = .ok () q' ∧ ReturnsAll q' calls

theorem perform_keeps_incomingExact (call : QueueCall Id Time) :
    Keeps IncomingExact (call.perform entrySize) := by
  cases call with
  | addForked forkedBranch =>
    exact keeps_forM fun _ _ => keeps_forM fun _ _ => insertAdded_keeps_incomingExact entrySize _
  | addAborted abortedTrxs =>
    exact keeps_forM fun _ _ => insertAdded_keeps_incomingExact entrySize _
  | addPersisted trx => exact addPersisted_keeps_incomingExact entrySize trx
  | addIncoming trx persistUntilExpired next =>
    exact addIncoming_keeps_incomingExact entrySize trx persistUntilExpired next
  | clearApplied receipts =>
    exact clearApplied_keeps entrySize (fun _ _ => removeEntry_incomingExact entrySize)
      (fun _ _ => incomingExact_clearNext) receipts
  | clearExpired pendingBlockTime checks =>
    exact (clearExpired_keeps entrySize (fun _ _ => removeEntry_incomingExact entrySize)
      pendingBlockTime checks).bind fun _ => keeps_pure _
  | erase id => exact erase_keeps entrySize (fun _ _ => removeEntry_incomingExact entrySize) id
  | setMaxTransactionQueueSize v => exact fun _ exact => exact

theorem perform_keepsOnReturn_countersExact (call : QueueCall Id Time) :
    KeepsOnReturn (CountersExact entrySize) (call.perform entrySize) := by
  cases call with
  | addForked forkedBranch =>
    exact keepsOnReturn_forM fun _ _ =>
      keepsOnReturn_forM fun _ _ => insertAdded_keepsOnReturn_countersExact entrySize _
  | addAborted abortedTrxs =>
    exact keepsOnReturn_forM fun _ _ => insertAdded_keepsOnReturn_countersExact entrySize _
  | addPersisted trx => exact addPersisted_keepsOnReturn_countersExact entrySize trx
  | addIncoming trx persistUntilExpired next =>
    exact addIncoming_keepsOnReturn_countersExact entrySize trx persistUntilExpired next
  | clearApplied receipts =>
    exact (clearApplied_keeps entrySize (fun _ _ => removeEntry_countersExact entrySize)
      (fun _ _ => countersExact_clearNext entrySize) receipts).onReturn
  | clearExpired pendingBlockTime checks =>
    exact ((clearExpired_keeps entrySize (fun _ _ => removeEntry_countersExact entrySize)
      pendingBlockTime checks).bind fun _ => keeps_pure _).onReturn
  | erase id =>
    exact (erase_keeps entrySize (fun _ _ => removeEntry_countersExact entrySize) id).onReturn
  | setMaxTransactionQueueSize v =>
    exact (setMaxTransactionQueueSize_keeps_countersExact entrySize v).onReturn

/-- **`incoming_size()` counts the incoming entries after every run of calls**, also one in which
calls throw: by induction on the run, from what each call keeps. -/
theorem performAll_incomingExact {q : UnappliedTransactionQueue Id Time} (exact : IncomingExact q)
    (calls : List (QueueCall Id Time)) : IncomingExact (performAll entrySize q calls) := by
  induction calls generalizing q with
  | nil => exact exact
  | cons call calls inductionHypothesis =>
    exact inductionHypothesis (perform_keeps_incomingExact entrySize call q exact)

/-- **Both counters are exact after every run of calls that all return.** -/
theorem performAll_countersExact {q : UnappliedTransactionQueue Id Time}
    (exact : CountersExact entrySize q) {calls : List (QueueCall Id Time)}
    (returns : ReturnsAll entrySize q calls) : CountersExact entrySize (performAll entrySize q calls) := by
  induction calls generalizing q with
  | nil => exact exact
  | cons call calls inductionHypothesis =>
    obtain ⟨q', ran, rest⟩ := returns
    have kept := perform_keepsOnReturn_countersExact entrySize call q exact () q' ran
    show CountersExact entrySize (performAll entrySize (finalState ((call.perform entrySize).run q)) calls)
    rw [ran, finalState_ok]
    exact inductionHypothesis kept rest

/-- **The counters over every run from an empty queue.** `incoming_size()` counts the incoming
entries after every run, whichever calls throw, and `size_in_bytes` is the sum of `calc_size` over
the entries after every run whose calls all return. -/
theorem performAll_counters (calls : List (QueueCall Id Time)) :
    IncomingExact (performAll entrySize initial calls) ∧
      (ReturnsAll entrySize initial calls →
        CountersExact entrySize (performAll entrySize initial calls)) :=
  ⟨performAll_incomingExact entrySize (countersExact_initial entrySize).incoming calls,
    performAll_countersExact entrySize (countersExact_initial entrySize)⟩

/-- A run that configures the queue, queues an incoming and a persisted transaction, and erases the
first. -/
def queuedCalls : List (QueueCall Nat Nat) :=
  [.setMaxTransactionQueueSize (1024 * 1024), .addIncoming ⟨1, 0, 600000⟩ false true,
    .addPersisted ⟨2, 5, 1000⟩, .erase 1]

/-- Every call of that run returns. -/
theorem performAll_counters_queued :
    ReturnsAll 64 (initial : UnappliedTransactionQueue Nat Nat) queuedCalls ∧
      CountersExact 64 (performAll 64 (initial : UnappliedTransactionQueue Nat Nat) queuedCalls) := by
  have returns : ReturnsAll 64 (initial : UnappliedTransactionQueue Nat Nat) queuedCalls := by
    unfold queuedCalls
    exact ⟨_, rfl, _, rfl, _, rfl, _, rfl, trivial⟩
  exact ⟨returns, (performAll_counters 64 _).2 returns⟩

end Runs

/-! ### A call that throws -/

section Throw

variable [DecidableEq Id] {q : UnappliedTransactionQueue Id Time} {trx : TrxMeta Id Time}
  (persistUntilExpired next : Bool)

/-- `add_incoming` of a new transaction that does not fit throws after changing the queue: the
transaction stays queued and counted as incoming, with its bytes uncounted. -/
theorem addIncoming_run_of_exceeds (missing : q.find trx.id = none)
    (exceeds : ¬ q.sizeInBytes + calcSize entrySize trx < q.maxTransactionQueueSize) :
    ∃ fresh, (addIncoming entrySize trx persistUntilExpired next).run q =
      .error queueSizeExceeded { q.insertEntry ⟨trx, trx.expiration,
        if persistUntilExpired then .incomingPersisted else .incoming, next⟩ fresh with
        incomingCount := q.incomingCount + 1 } := by
  have fresh := KeyedTable.find_eq_none missing
  refine ⟨fresh, ?_⟩
  rw [addIncoming_run_of_missing entrySize missing]
  exact insertAdded_run_of_exceeds entrySize fresh (by cases persistUntilExpired <;> rfl) exceeds

/-- **A throwing `add_incoming` leaves the counters inexact**: from a queue whose counters are
exact, the throw leaves one entry more, counted as incoming, and a size counter that misses the
entry's bytes whenever they are not zero modulo `2^64`. -/
theorem addIncoming_throw_breaks_size (exact : CountersExact entrySize q)
    (missing : q.find trx.id = none)
    (exceeds : ¬ q.sizeInBytes + calcSize entrySize trx < q.maxTransactionQueueSize)
    (sized : calcSize entrySize trx ≠ 0) :
    ∃ thrown, (addIncoming entrySize trx persistUntilExpired next).run q =
        .error queueSizeExceeded thrown ∧
      thrown.queue.length = q.queue.length + 1 ∧ thrown.incomingCount = q.incomingCount + 1 ∧
      thrown.sizeInBytes ≠ queuedBytes entrySize thrown.queue := by
  obtain ⟨fresh, ran⟩ := addIncoming_run_of_exceeds entrySize persistUntilExpired next missing exceeds
  refine ⟨_, ran, by simp [insertEntry], rfl, ?_⟩
  show q.sizeInBytes ≠ queuedBytes entrySize (q.insertEntry _ fresh).queue
  rw [queuedBytes_insertEntry, exact.size]
  intro same
  exact sized (add_eq_left.mp same.symm)

end Throw

/-- **The failing run.** On a queue configured to the smallest maximum the producer allows, 1 MiB,
with entries of 64 bytes, a second incoming transaction of 600000 bytes makes `add_incoming`
throw. The throw leaves the transaction queued and counted as incoming and the size counter short
of its bytes; erasing both transactions then wraps the counter to `2^64 - 600064`. -/
theorem addIncoming_throw_leaves_transaction :
    ∃ configured thrown, configured = performAll 64 (initial : UnappliedTransactionQueue Nat Nat)
        [.setMaxTransactionQueueSize (1024 * 1024), .addIncoming ⟨1, 0, 600000⟩ false true] ∧
      ((QueueCall.addIncoming ⟨2, 0, 600000⟩ false true).perform 64).run configured =
        .error queueSizeExceeded thrown ∧
      thrown.queue.length = configured.queue.length + 1 ∧
      thrown.incomingCount = configured.incomingCount + 1 ∧
      thrown.sizeInBytes ≠ queuedBytes 64 thrown.queue ∧
      (performAll 64 thrown [.erase 1, .erase 2]).sizeInBytes.toNat = 2 ^ 64 - 600064 := by
  refine ⟨_, _, rfl, rfl, rfl, rfl, by decide, by decide⟩

end UnappliedTransactionQueue

end Eosio.Chain
