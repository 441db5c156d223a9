/-
This file proves what the subjective-billing object keeps over any run of its methods.

The pending CPU of an account is the sum of the bills of the account's cached transactions. A
bill adds a transaction and its bill together. Every removal takes a transaction and its bill
together: because a block holds the transaction, because it was removed by its id, or because it
expired. An account that the account cache no longer holds has no bill left. The subtraction of a
removal therefore never wraps, as long as no account has `2^64` microseconds billed.

The block cache counts the bills of the transactions billed in the pending block since the last
`abort_block`. While all of them are still cached, it is at most the pending CPU, and
`get_subjective_bill` does not throw its logic error. A removal of one of them before the next
`abort_block` can make it throw.

`remove_expired`, given a clock that reads before the deadline more times than there are cached
transactions, removes exactly the transactions that have expired by the pending block's time.
-/

import EosioChain.SubjectiveBilling

namespace Eosio.SubjectiveBilling

open Chain Chain.ResourceLimits.Impl StateExcept

variable {TxId : Type}

/-! ### What the ledger holds -/

/-- The pending CPU the account cache records for an account, `0` for one it does not hold. -/
def pendingOf (s : SubjectiveBilling TxId) (account : Name) : UInt64 :=
  (s.accountSubjectiveBillCache account).elim 0 (·.pendingCpuUs)

/-- The bills of an account's transactions among `entries`. -/
def bills (entries : List (TrxCacheEntry TxId)) (account : Name) : Nat :=
  RefCounts.held TrxCacheEntry.account (·.subjectiveCpuBill.toNat) entries account

/-- The bills of an account's cached transactions. -/
def billed (s : SubjectiveBilling TxId) (account : Name) : Nat :=
  bills s.trxCacheIndex account

/-- The pending CPU of every account is the sum of the bills of its cached transactions. -/
def PendingExact (s : SubjectiveBilling TxId) : Prop :=
  ∀ account, (pendingOf s account).toNat = billed s account

/-- No account has `2^64` microseconds billed. -/
def BillsFit (s : SubjectiveBilling TxId) : Prop :=
  ∀ account, billed s account < 2 ^ 64

theorem pendingOf_setAccountInfo (s : SubjectiveBilling TxId) (account : Name)
    (info : SubjectiveBillingInfo) (other : Name) :
    pendingOf (s.setAccountInfo account info) other =
      if other = account then info.pendingCpuUs else pendingOf s other := by
  unfold pendingOf setAccountInfo
  dsimp only
  by_cases same : other = account
  · rw [if_pos same, same, Function.update_self]
    rfl
  · rw [if_neg same, Function.update_of_ne same]

theorem pendingOf_eraseAccountInfo (s : SubjectiveBilling TxId) (account other : Name) :
    pendingOf (s.eraseAccountInfo account) other =
      if other = account then 0 else pendingOf s other := by
  unfold pendingOf eraseAccountInfo
  dsimp only
  by_cases same : other = account
  · rw [if_pos same, same, Function.update_self]
    rfl
  · rw [if_neg same, Function.update_of_ne same]

theorem pendingCpuUs_accountInfo (s : SubjectiveBilling TxId) (account : Name) :
    (s.accountInfo account).pendingCpuUs = pendingOf s account := by
  unfold accountInfo pendingOf
  cases s.accountSubjectiveBillCache account <;> rfl

/-- A table that holds nothing of an account records nothing for it. -/
theorem billed_eq_of_trxCacheIndex_eq {s s' : SubjectiveBilling TxId}
    (sameCache : s'.trxCacheIndex = s.trxCacheIndex) (account : Name) :
    billed s' account = billed s account := by
  unfold billed
  rw [sameCache]

/-- An exact ledger fits. -/
theorem PendingExact.billsFit {s : SubjectiveBilling TxId} (exact : PendingExact s) :
    BillsFit s := fun account => exact account ▸ (pendingOf s account).toNat_lt

/-- Each bill is a `uint32_t`, so the entries bill an account less than `2^32` apiece. -/
theorem bills_le_length (entries : List (TrxCacheEntry TxId)) (account : Name) :
    bills entries account ≤ 2 ^ 32 * entries.length := by
  induction entries with
  | nil => simp [bills, RefCounts.held]
  | cons entry entries inductionHypothesis =>
    have below := entry.subjectiveCpuBill.toNat_lt
    unfold bills at *
    rw [RefCounts.held_cons, List.length_cons]
    split <;> omega

/-- A cache of fewer than `2^32` transactions fits. -/
theorem billsFit_of_length {s : SubjectiveBilling TxId} (few : s.trxCacheIndex.length < 2 ^ 32) :
    BillsFit s := fun account =>
  calc billed s account ≤ 2 ^ 32 * s.trxCacheIndex.length := bills_le_length _ account
    _ < 2 ^ 32 * 2 ^ 32 := Nat.mul_lt_mul_of_pos_left few (by decide)
    _ = 2 ^ 64 := by norm_num

/-- A change that keeps the cache and every account's pending CPU keeps the ledger exact. -/
theorem PendingExact.of_same {s s' : SubjectiveBilling TxId} (exact : PendingExact s)
    (sameCache : s'.trxCacheIndex = s.trxCacheIndex)
    (samePending : ∀ account, pendingOf s' account = pendingOf s account) : PendingExact s' :=
  fun account => by rw [samePending, billed_eq_of_trxCacheIndex_eq sameCache, exact]

/-! ### Moving a bill out -/

/-- The pending CPU after `entry`'s bill left it: the entry's account has the bill taken from its
recorded pending CPU, if the account cache holds the account. -/
def debited (s : SubjectiveBilling TxId) (entry : TrxCacheEntry TxId) (account : Name) : UInt64 :=
  if account = entry.account then
    (s.accountSubjectiveBillCache account).elim 0
      (·.pendingCpuUs - entry.subjectiveCpuBill.toUInt64)
  else pendingOf s account

/-- A step that takes `entry`'s bill out of the pending CPU and changes neither the cache nor the
block cache. -/
structure Debits (s s' : SubjectiveBilling TxId) (entry : TrxCacheEntry TxId) : Prop where
  trxCacheIndex : s'.trxCacheIndex = s.trxCacheIndex
  block : s'.blockSubjectiveBillCache = s.blockSubjectiveBillCache
  pending : ∀ account, pendingOf s' account = debited s entry account

section Removals

variable [DecidableEq TxId]

/-- A step that removes the cached `entry` and takes its bill out of the pending CPU, and keeps the
block cache. -/
structure Removes (s s' : SubjectiveBilling TxId) (entry : TrxCacheEntry TxId) : Prop where
  member : entry ∈ s.trxCacheIndex
  trxCacheIndex : s'.trxCacheIndex =
    KeyedTable.erase TrxCacheEntry.trxId s.trxCacheIndex entry.trxId
  block : s'.blockSubjectiveBillCache = s.blockSubjectiveBillCache
  pending : ∀ account, pendingOf s' account = debited s entry account

/-- A step that removes one cached transaction with its bill. -/
def Removal (s s' : SubjectiveBilling TxId) : Prop :=
  ∃ entry, Removes s s' entry

/-- Debiting a cached entry and then erasing it removes it. -/
theorem Debits.removes {s s' : SubjectiveBilling TxId} {entry : TrxCacheEntry TxId}
    (debits : Debits s s' entry) (member : entry ∈ s.trxCacheIndex) :
    Removes s (s'.eraseEntry entry.trxId) entry where
  member := member
  trxCacheIndex := by
    change KeyedTable.erase _ s'.trxCacheIndex _ = _
    rw [debits.trxCacheIndex]
  block := debits.block
  pending := debits.pending

/-- **Removing a cached transaction with its bill keeps the ledger exact.** -/
theorem PendingExact.of_removes {s s' : SubjectiveBilling TxId} (exact : PendingExact s)
    {entry : TrxCacheEntry TxId} (removes : Removes s s' entry) : PendingExact s' := by
  intro account
  have moved : billed s' account +
      (if entry.account = account then entry.subjectiveCpuBill.toNat else 0) = billed s account := by
    unfold billed bills
    rw [removes.trxCacheIndex]
    exact RefCounts.held_erase_of_mem s.idsUnique removes.member account
  have before := exact account
  rw [removes.pending account]
  unfold debited
  by_cases same : account = entry.account
  · rw [if_pos same.symm] at moved
    rw [if_pos same]
    unfold pendingOf at before
    cases held : s.accountSubjectiveBillCache account with
    | none =>
      -- an account the cache does not hold has nothing billed, so the entry's bill is `0`
      rw [held] at before
      change (0 : UInt64).toNat = _ at before
      change (0 : UInt64).toNat = _
      rw [UInt64.toNat_zero] at before ⊢
      omega
    | some info =>
      rw [held] at before
      change info.pendingCpuUs.toNat = _ at before
      change (info.pendingCpuUs - entry.subjectiveCpuBill.toUInt64).toNat = _
      have covered : entry.subjectiveCpuBill.toUInt64 ≤ info.pendingCpuUs := by
        rw [UInt64.le_iff_toNat_le, UInt32.toNat_toUInt64]
        omega
      rw [UInt64.toNat_sub_of_le _ _ covered, UInt32.toNat_toUInt64]
      omega
  · rw [if_neg (Ne.symm same)] at moved
    rw [if_neg same]
    omega

/-- Removals one after another keep the ledger exact and the block cache. -/
theorem PendingExact.of_removals {s s' : SubjectiveBilling TxId} (exact : PendingExact s)
    (removals : Relation.ReflTransGen Removal s s') : PendingExact s' := by
  induction removals with
  | refl => exact exact
  | tail _ removal kept =>
    obtain ⟨entry, removes⟩ := removal
    exact kept.of_removes removes

theorem block_of_removals {s s' : SubjectiveBilling TxId}
    (removals : Relation.ReflTransGen Removal s s') :
    s'.blockSubjectiveBillCache = s.blockSubjectiveBillCache := by
  induction removals with
  | refl => rfl
  | tail _ removal kept =>
    obtain ⟨entry, removes⟩ := removal
    rw [removes.block, kept]

end Removals

/-! ### What each private method does to the ledger -/

/-- A step that changes neither the cache, the pending CPU nor the block cache. -/
structure KeepsLedger (s s' : SubjectiveBilling TxId) : Prop where
  trxCacheIndex : s'.trxCacheIndex = s.trxCacheIndex
  block : s'.blockSubjectiveBillCache = s.blockSubjectiveBillCache
  pending : ∀ account, pendingOf s' account = pendingOf s account

theorem KeepsLedger.refl (s : SubjectiveBilling TxId) : KeepsLedger s s :=
  ⟨rfl, rfl, fun _ => rfl⟩

theorem Debits.keepsLedger {s s' s'' : SubjectiveBilling TxId} {entry : TrxCacheEntry TxId}
    (debits : Debits s s' entry) (keeps : KeepsLedger s' s'') : Debits s s'' entry :=
  ⟨keeps.trxCacheIndex.trans debits.trxCacheIndex, keeps.block.trans debits.block,
    fun account => (keeps.pending account).trans (debits.pending account)⟩

/-- The bill of a transaction fits the expired accumulator. -/
theorem bill_le_maxRawValue (bill : UInt32) :
    bill.toUInt64 ≤ ExponentialDecayAccumulator.maxRawValue Config.rateLimitingPrecision := by
  have raw : (ExponentialDecayAccumulator.maxRawValue Config.rateLimitingPrecision).toNat =
      18446744073709 := rfl
  have below := bill.toNat_lt
  rw [UInt64.le_iff_toNat_le, raw, UInt32.toNat_toUInt64]
  omega

/-- Storing another expired accumulator for an account changes nothing of the ledger. -/
theorem keepsLedger_setExpiredAccumulator (s : SubjectiveBilling TxId) (account : Name)
    (accumulator : ExponentialDecayAccumulator) :
    KeepsLedger s (s.setAccountInfo account
      { s.accountInfo account with expiredAccumulator := accumulator }) := by
  refine ⟨rfl, rfl, fun other => ?_⟩
  rw [pendingOf_setAccountInfo]
  split
  · rename_i same
    rw [same]
    exact pendingCpuUs_accountInfo s account
  · rfl

/-- Adding a bill to an expired accumulator returns, and changes nothing of the ledger. -/
theorem addExpired_run (s : SubjectiveBilling TxId) (account : Name) (bill timeOrdinal : UInt32) :
    ∃ s', (addExpired account bill.toUInt64 timeOrdinal : BillingM TxId Unit).run s = .ok () s' ∧
      KeepsLedger s s' := by
  obtain ⟨accumulator, ran⟩ : ∃ accumulator,
      (addExpired account bill.toUInt64 timeOrdinal : BillingM TxId Unit).run s =
        .ok () (s.setAccountInfo account
          { s.accountInfo account with expiredAccumulator := accumulator }) :=
    ⟨_, by
      have added := ExponentialDecayAccumulator.add_run_eq _
        (s.accountInfo account).expiredAccumulator (bill_le_maxRawValue bill) timeOrdinal
        expiredAccumulatorAverageWindow
      unfold addExpired EStateM.run at *
      dsimp only
      rw [added]⟩
  exact ⟨_, ran, keepsLedger_setExpiredAccumulator s account accumulator⟩

/-- The info of an account is empty only if it has no pending CPU, and the test never throws. -/
theorem SubjectiveBillingInfo.empty_eq_ok (info : SubjectiveBillingInfo) (timeOrdinal : UInt32) :
    ∃ isEmpty, info.empty timeOrdinal = .ok isEmpty ∧ (isEmpty = true → info.pendingCpuUs = 0) := by
  unfold SubjectiveBillingInfo.empty
  by_cases idle : info.pendingCpuUs = 0
  · obtain ⟨value, read, -⟩ := info.expiredAccumulator.valueAt_eq_ok Config.rateLimitingPrecision
      timeOrdinal expiredAccumulatorAverageWindow
    rw [if_pos idle, read]
    exact ⟨_, rfl, fun _ => idle⟩
  · rw [if_neg idle]
    exact ⟨false, rfl, fun isEmpty => absurd isEmpty Bool.false_ne_true⟩

/-- A method that finds no info for the entry's account changes nothing, and debits the entry's
bill of `0`. -/
theorem Debits.of_none {s : SubjectiveBilling TxId} {entry : TrxCacheEntry TxId}
    (held : s.accountSubjectiveBillCache entry.account = none) : Debits s s entry := by
  refine ⟨rfl, rfl, fun account => ?_⟩
  unfold debited pendingOf
  split
  · rename_i same
    rw [same, held]
    rfl
  · rfl

theorem debited_of_some {s : SubjectiveBilling TxId} {entry : TrxCacheEntry TxId}
    {info : SubjectiveBillingInfo} (held : s.accountSubjectiveBillCache entry.account = some info)
    (account : Name) :
    debited s entry account = if account = entry.account then
      info.pendingCpuUs - entry.subjectiveCpuBill.toUInt64 else pendingOf s account := by
  unfold debited
  split
  · rename_i same
    rw [same, held]
    rfl
  · rfl

/-- `remove_subjective_billing(entry, time_ordinal)` returns and takes the entry's bill out of the
pending CPU. -/
theorem removeSubjectiveBillingEntry_run (s : SubjectiveBilling TxId) (entry : TrxCacheEntry TxId)
    (timeOrdinal : UInt32) :
    ∃ s', (removeSubjectiveBillingEntry entry timeOrdinal : BillingM TxId Unit).run s = .ok () s' ∧
      Debits s s' entry := by
  unfold removeSubjectiveBillingEntry
  rw [EStateM.run_bind, EStateM.run_get]
  dsimp only
  cases held : s.accountSubjectiveBillCache entry.account with
  | none => exact ⟨s, rfl, Debits.of_none held⟩
  | some info =>
    obtain ⟨isEmpty, empty, idle⟩ := SubjectiveBillingInfo.empty_eq_ok
      { info with pendingCpuUs := info.pendingCpuUs - entry.subjectiveCpuBill.toUInt64 } timeOrdinal
    simp only [EStateM.run_bind, EStateM.run_modify, run_ofExcept, empty]
    cases isEmpty with
    | false =>
      refine ⟨_, rfl, rfl, rfl, fun account => ?_⟩
      rw [pendingOf_setAccountInfo, debited_of_some held]
    | true =>
      -- an account left with nothing is erased, and reads as `0` again
      refine ⟨_, rfl, rfl, rfl, fun account => ?_⟩
      rw [pendingOf_eraseAccountInfo, pendingOf_setAccountInfo, debited_of_some held, ← idle rfl]
      split <;> rfl

/-- `transition_to_expired(entry, time_ordinal)` returns and takes the entry's bill out of the
pending CPU. -/
theorem transitionToExpired_run (s : SubjectiveBilling TxId) (entry : TrxCacheEntry TxId)
    (timeOrdinal : UInt32) :
    ∃ s', (transitionToExpired entry timeOrdinal : BillingM TxId Unit).run s = .ok () s' ∧
      Debits s s' entry := by
  unfold transitionToExpired
  rw [EStateM.run_bind, EStateM.run_get]
  dsimp only
  cases held : s.accountSubjectiveBillCache entry.account with
  | none => exact ⟨s, rfl, Debits.of_none held⟩
  | some info =>
    rw [EStateM.run_bind, EStateM.run_modify]
    dsimp only
    have debits : Debits s (s.setAccountInfo entry.account
        { info with pendingCpuUs := info.pendingCpuUs - entry.subjectiveCpuBill.toUInt64 }) entry :=
      ⟨rfl, rfl, fun account => by rw [pendingOf_setAccountInfo, debited_of_some held]⟩
    obtain ⟨s', added, keeps⟩ := addExpired_run _ entry.account entry.subjectiveCpuBill timeOrdinal
    exact ⟨s', added, debits.keepsLedger keeps⟩

/-! ### Expiry -/

/-- The entries that have not expired by `pendingBlockTime`. -/
def unexpired (pendingBlockTime : Int64) (entries : List (TrxCacheEntry TxId)) :
    List (TrxCacheEntry TxId) :=
  entries.filter fun entry => pendingBlockTime < entry.expiry

/-- The front of the expiry index is a cached entry that expires no later than any other. -/
theorem expiry_le_of_expiryFront {s : SubjectiveBilling TxId} {front : TrxCacheEntry TxId}
    (found : s.expiryFront = some front) :
    front ∈ s.trxCacheIndex ∧ ∀ other ∈ s.trxCacheIndex, front.expiry.toInt ≤ other.expiry.toInt :=
  ⟨List.argmin_mem found, fun _ member => by
    have earliest := List.le_of_mem_argmin member found
    exact earliest⟩

/-- When the first entry by expiry has not expired, none has. -/
theorem unexpired_eq_self {s : SubjectiveBilling TxId} {front : TrxCacheEntry TxId}
    (found : s.expiryFront = some front) {pendingBlockTime : Int64}
    (alive : pendingBlockTime < front.expiry) :
    unexpired pendingBlockTime s.trxCacheIndex = s.trxCacheIndex := by
  refine List.filter_eq_self.mpr fun other member => decide_eq_true ?_
  rw [Int64.lt_iff_toInt_lt] at alive ⊢
  exact lt_of_lt_of_le alive ((expiry_le_of_expiryFront found).2 other member)

section Removals

variable [DecidableEq TxId]

/-- `remove_subjective_billing(trx_id, time_ordinal)` returns, and removes the transaction with
its bill if the cache holds it. -/
theorem removeSubjectiveBilling_run (s : SubjectiveBilling TxId) (trxId : TxId)
    (timeOrdinal : UInt32) :
    ∃ s', (removeSubjectiveBilling trxId timeOrdinal : BillingM TxId Unit).run s = .ok () s' ∧
      Relation.ReflTransGen Removal s s' := by
  unfold removeSubjectiveBilling
  rw [EStateM.run_bind, EStateM.run_get]
  dsimp only
  cases found : s.findEntry trxId with
  | none => exact ⟨s, rfl, .refl⟩
  | some entry =>
    obtain ⟨member, keyed⟩ := KeyedTable.find_eq_some found
    obtain ⟨s', removed, debits⟩ := removeSubjectiveBillingEntry_run s entry timeOrdinal
    rw [EStateM.run_bind, removed]
    dsimp only
    rw [EStateM.run_modify]
    refine ⟨_, rfl, .single ⟨entry, ?_⟩⟩
    rw [← keyed]
    exact debits.removes member

theorem removeReceiptBilling_run (s : SubjectiveBilling TxId) (receipt : ReceiptTrx TxId)
    (timeOrdinal : UInt32) :
    ∃ s', (removeReceiptBilling timeOrdinal receipt : BillingM TxId Unit).run s = .ok () s' ∧
      Relation.ReflTransGen Removal s s' := by
  cases receipt with
  | packedTransaction id => exact removeSubjectiveBilling_run s id timeOrdinal
  | transactionId _ => exact ⟨s, rfl, .refl⟩

/-- The removal of the transactions of a block returns, and only removes transactions with their
bills. -/
theorem removeSubjectiveBillingBlock_run (s : SubjectiveBilling TxId)
    (receipts : List (ReceiptTrx TxId)) (timeOrdinal : UInt32) :
    ∃ s', (removeSubjectiveBillingBlock receipts timeOrdinal : BillingM TxId Unit).run s =
      .ok () s' ∧ Relation.ReflTransGen Removal s s' := by
  unfold removeSubjectiveBillingBlock
  rw [EStateM.run_bind, EStateM.run_get]
  dsimp only
  by_cases idle : s.trxCacheIndex.isEmpty = true
  · rw [if_pos idle]
    exact ⟨s, rfl, .refl⟩
  · rw [if_neg idle]
    -- the loop keeps "reached from `s` by removals", one receipt at a time
    have each : ∀ receipt ∈ receipts, Keeps (Relation.ReflTransGen Removal s)
        (removeReceiptBilling timeOrdinal receipt : BillingM TxId Unit) := by
      intro receipt _ current reached
      obtain ⟨s', ran, removals⟩ := removeReceiptBilling_run current receipt timeOrdinal
      rw [ran, finalState_ok]
      exact reached.trans removals
    obtain ⟨s', ran⟩ := forM_returns (fun receipt _ current =>
      (removeReceiptBilling_run current receipt timeOrdinal).imp fun _ => And.left) s
    have reached := keeps_forM each s .refl
    rw [ran, finalState_ok] at reached
    exact ⟨s', ran, reached⟩

/-- `on_block` only removes cached transactions with their bills, whether it returns or throws. -/
theorem onBlock_removals (s : SubjectiveBilling TxId) (block : Option (List (ReceiptTrx TxId)))
    (now : Int64) :
    Relation.ReflTransGen Removal s (finalState ((onBlock block now : BillingM TxId Unit).run s)) := by
  cases block with
  | none => exact .refl
  | some receipts =>
    unfold onBlock
    rw [EStateM.run_bind, run_ofExcept]
    cases timeOrdinalFor now with
    | error _ => exact .refl
    | ok timeOrdinal =>
      obtain ⟨s', ran, removals⟩ := removeSubjectiveBillingBlock_run s receipts timeOrdinal
      dsimp only
      rw [ran]
      exact removals

end Removals

section Expiry

variable [DecidableEq TxId]

/-- Erasing an expired entry leaves the unexpired ones as they are, and one entry fewer. -/
theorem unexpired_erase {entries : List (TrxCacheEntry TxId)}
    (unique : KeyedTable.Unique TrxCacheEntry.trxId entries) {entry : TrxCacheEntry TxId}
    (member : entry ∈ entries) {pendingBlockTime : Int64} (expired : ¬pendingBlockTime < entry.expiry) :
    unexpired pendingBlockTime (KeyedTable.erase TrxCacheEntry.trxId entries entry.trxId) =
        unexpired pendingBlockTime entries ∧
      (KeyedTable.erase TrxCacheEntry.trxId entries entry.trxId).length + 1 = entries.length := by
  obtain ⟨before, after, rfl, erased⟩ := KeyedTable.erase_eq_of_mem unique member
  rw [erased]
  refine ⟨?_, by simp only [List.length_append, List.length_cons]; omega⟩
  unfold unexpired
  rw [List.filter_append, List.filter_append, List.filter_cons_of_neg (by simpa using expired)]

/-- **The loop of `remove_expired`.** It returns and only removes transactions with their bills;
when the clock reads before the deadline more times than there are cached transactions, it
removes exactly those that have expired, and says the deadline did not stop it. -/
theorem removeExpiredLoop_run (pendingBlockTime : Int64) (timeOrdinal : UInt32) (checks : Nat)
    (s : SubjectiveBilling TxId) :
    ∃ exhausted s', (removeExpiredLoop pendingBlockTime timeOrdinal checks : BillingM TxId Bool).run s =
        .ok exhausted s' ∧ Relation.ReflTransGen Removal s s' ∧
      (s.trxCacheIndex.length < checks →
        exhausted = false ∧ s'.trxCacheIndex = unexpired pendingBlockTime s.trxCacheIndex) := by
  -- induction on the clock reads left; each round removes the front entry or stops
  induction checks generalizing s with
  | zero => exact ⟨_, s, rfl, .refl, fun short => absurd short (Nat.not_lt_zero _)⟩
  | succ checks inductionHypothesis =>
    rw [removeExpiredLoop, EStateM.run_bind, EStateM.run_get]
    dsimp only
    cases found : s.expiryFront with
    | none =>
      have empty : s.trxCacheIndex = [] := List.argmin_eq_none.mp found
      refine ⟨false, s, rfl, .refl, fun _ => ⟨rfl, ?_⟩⟩
      rw [empty]
      rfl
    | some front =>
      dsimp only
      by_cases alive : pendingBlockTime < front.expiry
      · rw [if_pos alive]
        exact ⟨false, s, rfl, .refl, fun _ => ⟨rfl, (unexpired_eq_self found alive).symm⟩⟩
      · rw [if_neg alive]
        have member := (expiry_le_of_expiryFront found).1
        obtain ⟨s₁, moved, debits⟩ := transitionToExpired_run s front timeOrdinal
        have removes := debits.removes member
        obtain ⟨exhausted, s', ran, removals, finished⟩ :=
          inductionHypothesis (s₁.eraseEntry front.trxId)
        rw [EStateM.run_bind, moved]
        dsimp only
        rw [EStateM.run_bind, EStateM.run_modify]
        refine ⟨exhausted, s', ran, .head ⟨front, removes⟩ removals, fun short => ?_⟩
        have ⟨kept, shorter⟩ := unexpired_erase s.idsUnique member alive
        rw [← removes.trxCacheIndex] at kept shorter
        obtain ⟨stopped, rest⟩ := finished (by omega)
        exact ⟨stopped, by rw [rest, kept]⟩

/-- `remove_expired` only removes cached transactions with their bills, whether it returns or
throws. -/
theorem removeExpired_removals (s : SubjectiveBilling TxId) (pendingBlockTime now : Int64)
    (checks : Nat) :
    Relation.ReflTransGen Removal s
      (finalState ((removeExpired pendingBlockTime now checks : BillingM TxId Bool).run s)) := by
  unfold removeExpired
  rw [EStateM.run_bind, EStateM.run_get]
  dsimp only
  by_cases idle : s.trxCacheIndex.isEmpty = true
  · rw [if_pos idle]
    exact .refl
  · rw [if_neg idle, EStateM.run_bind, run_ofExcept]
    cases timeOrdinalFor now with
    | error _ => exact .refl
    | ok timeOrdinal =>
      obtain ⟨exhausted, s', ran, removals, -⟩ :=
        removeExpiredLoop_run pendingBlockTime timeOrdinal checks s
      dsimp only
      rw [EStateM.run_bind, ran]
      exact removals

end Expiry

/-! ### Billing -/

/-- A step that caches `entry` and adds its bill to its account's pending CPU, and to the block
cache when the pending block holds the transaction. -/
structure Charges (s s' : SubjectiveBilling TxId) (entry : TrxCacheEntry TxId) (inPendingBlock : Bool) :
    Prop where
  trxCacheIndex : s'.trxCacheIndex = s.trxCacheIndex ++ [entry]
  pending : ∀ account, pendingOf s' account =
    if account = entry.account then pendingOf s account + entry.subjectiveCpuBill.toUInt64
    else pendingOf s account
  block : ∀ account, s'.blockSubjectiveBillCache account =
    if inPendingBlock = true ∧ account = entry.account then
      s.blockSubjectiveBillCache account + entry.subjectiveCpuBill.toUInt64
    else s.blockSubjectiveBillCache account

/-- **A bill keeps the ledger exact**, as long as the account's bills still fit a `uint64_t`. -/
theorem PendingExact.of_charges {s s' : SubjectiveBilling TxId} (exact : PendingExact s)
    {entry : TrxCacheEntry TxId} {inPendingBlock : Bool} (charges : Charges s s' entry inPendingBlock)
    (fits : BillsFit s') : PendingExact s' := by
  intro account
  have added : billed s' account = billed s account +
      if entry.account = account then entry.subjectiveCpuBill.toNat else 0 := by
    unfold billed bills
    rw [charges.trxCacheIndex]
    exact RefCounts.held_append _ _ account
  have before := exact account
  have below := fits account
  rw [charges.pending]
  by_cases same : account = entry.account
  · rw [if_pos same]
    rw [if_pos same.symm] at added
    rw [UInt64.toNat_add, UInt32.toNat_toUInt64, before, ← added]
    exact Nat.mod_eq_of_lt below
  · rw [if_neg same]
    rw [if_neg (Ne.symm same)] at added
    rw [before, added]
    rfl

section Billing

variable [DecidableEq TxId]

theorem findEntry_eq_none_iff (s : SubjectiveBilling TxId) (id : TxId) :
    s.findEntry id = none ↔ ∀ other ∈ s.trxCacheIndex, other.trxId ≠ id := by
  refine ⟨KeyedTable.find_eq_none, fun fresh => ?_⟩
  unfold findEntry KeyedTable.find
  exact List.find?_eq_none.mpr fun other member => by simpa using fresh other member

/-- `subjective_bill` returns; it charges a transaction the cache does not hold to a billed
account, and otherwise changes nothing. -/
theorem subjectiveBill_run (s : SubjectiveBilling TxId) (id : TxId) (expire : Int64)
    (firstAuth : Name) (elapsed : Int64) (inPendingBlock : Bool) :
    ∃ s', (subjectiveBill id expire firstAuth elapsed inPendingBlock : BillingM TxId Unit).run s =
        .ok () s' ∧
      if s.billsAccount firstAuth && (s.findEntry id).isNone then
        Charges s s' ⟨id, firstAuth, billOf elapsed, expire⟩ inPendingBlock
      else s' = s := by
  unfold subjectiveBill
  rw [EStateM.run_bind, EStateM.run_get]
  dsimp only
  by_cases billed : s.billsAccount firstAuth = true
  · rw [if_pos billed]
    by_cases fresh : ∀ other ∈ s.trxCacheIndex, other.trxId ≠ id
    · have missing := (findEntry_eq_none_iff s id).mpr fresh
      rw [dif_pos fresh, EStateM.run_bind, EStateM.run_set]
      dsimp only
      rw [EStateM.run_bind, EStateM.run_modify]
      dsimp only
      have pending : ∀ account, pendingOf ((s.insertEntry ⟨id, firstAuth, billOf elapsed, expire⟩
          fresh).setAccountInfo firstAuth
          { s.accountInfo firstAuth with
            pendingCpuUs := (s.accountInfo firstAuth).pendingCpuUs + (billOf elapsed).toUInt64 })
          account = if account = firstAuth then
            pendingOf s account + (billOf elapsed).toUInt64 else pendingOf s account := by
        intro account
        rw [pendingOf_setAccountInfo, pendingCpuUs_accountInfo]
        split
        · rename_i same
          rw [same]
        · rfl
      have charged : (s.billsAccount firstAuth && (s.findEntry id).isNone) = true := by
        simp [billed, missing]
      simp only [if_pos charged]
      cases inPendingBlock with
      | false =>
        refine ⟨_, rfl, rfl, pending, fun account => ?_⟩
        rw [if_neg (fun both => Bool.false_ne_true both.1)]
        rfl
      | true =>
        refine ⟨_, rfl, rfl, pending, fun account => ?_⟩
        change Function.update _ _ _ account = _
        by_cases same : account = firstAuth
        · rw [if_pos ⟨rfl, same⟩, same, Function.update_self]
          rfl
        · rw [if_neg (fun both => same both.2), Function.update_of_ne same]
          rfl
    · rw [dif_neg fresh]
      refine ⟨s, rfl, ?_⟩
      have held : (s.findEntry id).isNone = false := by
        cases found : s.findEntry id with
        | none => exact absurd ((findEntry_eq_none_iff s id).mp found) fresh
        | some _ => rfl
      have uncharged : (s.billsAccount firstAuth && (s.findEntry id).isNone) ≠ true := by
        simp [held]
      simp only [if_neg uncharged]
  · rw [if_neg billed]
    refine ⟨s, rfl, ?_⟩
    have uncharged : (s.billsAccount firstAuth && (s.findEntry id).isNone) ≠ true := by
      simp [billed]
    simp only [if_neg uncharged]

end Billing

/-- `subjective_bill_failure` changes nothing of the ledger, whether it returns or throws. -/
theorem subjectiveBillFailure_keepsLedger (s : SubjectiveBilling TxId) (firstAuth : Name)
    (elapsed now : Int64) :
    KeepsLedger s
      (finalState ((subjectiveBillFailure firstAuth elapsed now : BillingM TxId Unit).run s)) := by
  unfold subjectiveBillFailure
  rw [EStateM.run_bind, EStateM.run_get]
  dsimp only
  by_cases billed : s.billsAccount firstAuth = true
  · rw [if_pos billed, EStateM.run_bind, run_ofExcept]
    cases timeOrdinalFor now with
    | error _ => exact .refl s
    | ok timeOrdinal =>
      obtain ⟨s', added, keeps⟩ := addExpired_run s firstAuth (billOf elapsed) timeOrdinal
      dsimp only
      rw [added]
      exact keeps
  · rw [if_neg billed]
    exact .refl s

/-! ### Runs of the public methods -/

/-- A call of a public method that may change the object. `get_subjective_bill` and
`is_disabled` change nothing. -/
inductive Call (TxId : Type) where
  | disable
  | disableAccount (a : Name)
  | subjectiveBill (id : TxId) (expire : Int64) (firstAuth : Name) (elapsed : Int64)
      (inPendingBlock : Bool)
  | subjectiveBillFailure (firstAuth : Name) (elapsed now : Int64)
  | abortBlock
  | onBlock (block : Option (List (ReceiptTrx TxId))) (now : Int64)
  | removeExpired (pendingBlockTime now : Int64) (checks : Nat)
  | removeSubjectiveBilling (trxId : TxId) (timeOrdinal : UInt32)

section Runs

variable [DecidableEq TxId]

/-- The object after a call, whether the call returned or threw. -/
def Call.run : Call TxId → SubjectiveBilling TxId → SubjectiveBilling TxId
  | .disable, s => finalState ((SubjectiveBilling.disable : BillingM TxId Unit).run s)
  | .disableAccount a, s => finalState ((SubjectiveBilling.disableAccount a : BillingM TxId Unit).run s)
  | .subjectiveBill id expire firstAuth elapsed inPendingBlock, s =>
    finalState ((SubjectiveBilling.subjectiveBill id expire firstAuth elapsed inPendingBlock : BillingM TxId Unit).run s)
  | .subjectiveBillFailure firstAuth elapsed now, s =>
    finalState ((SubjectiveBilling.subjectiveBillFailure firstAuth elapsed now : BillingM TxId Unit).run s)
  | .abortBlock, s => finalState ((SubjectiveBilling.abortBlock : BillingM TxId Unit).run s)
  | .onBlock block now, s => finalState ((SubjectiveBilling.onBlock block now : BillingM TxId Unit).run s)
  | .removeExpired pendingBlockTime now checks, s =>
    finalState ((SubjectiveBilling.removeExpired pendingBlockTime now checks : BillingM TxId Bool).run s)
  | .removeSubjectiveBilling trxId timeOrdinal, s =>
    finalState ((SubjectiveBilling.removeSubjectiveBilling trxId timeOrdinal : BillingM TxId Unit).run s)

/-- The transactions billed in the pending block since the last `abort_block`, after a call: the
history whose bills the block cache adds up, and which the object does not keep. -/
def Call.billedInBlock (call : Call TxId) (s : SubjectiveBilling TxId)
    (inBlock : List (TrxCacheEntry TxId)) : List (TrxCacheEntry TxId) :=
  match call with
  | .subjectiveBill id expire firstAuth elapsed inPendingBlock =>
    if s.billsAccount firstAuth && (s.findEntry id).isNone && inPendingBlock then
      inBlock ++ [⟨id, firstAuth, billOf elapsed, expire⟩]
    else inBlock
  | .abortBlock => []
  | _ => inBlock

/-- The states a default-constructed object reaches by calls after which no account has `2^64`
microseconds billed, each with the transactions billed in its pending block since the last
`abort_block`. -/
inductive Run : SubjectiveBilling TxId → List (TrxCacheEntry TxId) → Prop
  | initial : Run initial []
  | call {s : SubjectiveBilling TxId} {inBlock : List (TrxCacheEntry TxId)} (call : Call TxId) :
    Run s inBlock → BillsFit (call.run s) → Run (call.run s) (call.billedInBlock s inBlock)

end Runs

/-- The block cache of every account is the sum of the bills of its transactions billed in the
pending block, as a `uint64_t`. -/
def BlockTracked (s : SubjectiveBilling TxId) (inBlock : List (TrxCacheEntry TxId)) : Prop :=
  ∀ account, s.blockSubjectiveBillCache account = (bills inBlock account).toUInt64

/-- What every run keeps. -/
structure Holds (s : SubjectiveBilling TxId) (inBlock : List (TrxCacheEntry TxId)) : Prop where
  exact : PendingExact s
  tracked : BlockTracked s inBlock

theorem Holds.initial : Holds (initial : SubjectiveBilling TxId) [] :=
  ⟨fun _ => rfl, fun _ => rfl⟩

theorem Holds.of_keepsLedger {s s' : SubjectiveBilling TxId} {inBlock : List (TrxCacheEntry TxId)}
    (holds : Holds s inBlock) (keeps : KeepsLedger s s') : Holds s' inBlock :=
  ⟨holds.exact.of_same keeps.trxCacheIndex keeps.pending,
    fun account => by rw [keeps.block, holds.tracked]⟩

theorem Holds.of_removals [DecidableEq TxId] {s s' : SubjectiveBilling TxId}
    {inBlock : List (TrxCacheEntry TxId)} (holds : Holds s inBlock)
    (removals : Relation.ReflTransGen Removal s s') : Holds s' inBlock :=
  ⟨holds.exact.of_removals removals, fun account => by rw [block_of_removals removals, holds.tracked]⟩

/-- The block cache follows a bill made in the pending block. -/
theorem BlockTracked.of_charges {s s' : SubjectiveBilling TxId} {inBlock : List (TrxCacheEntry TxId)}
    (tracked : BlockTracked s inBlock) {entry : TrxCacheEntry TxId} {inPendingBlock : Bool}
    (charges : Charges s s' entry inPendingBlock) :
    BlockTracked s' (if inPendingBlock then inBlock ++ [entry] else inBlock) := by
  intro account
  rw [charges.block, tracked]
  cases inPendingBlock with
  | false => rfl
  | true =>
    unfold bills
    rw [if_pos rfl, RefCounts.held_append, Nat.toUInt64_eq, Nat.toUInt64_eq, UInt64.ofNat_add]
    by_cases same : account = entry.account
    · rw [if_pos ⟨rfl, same⟩, if_pos same.symm, UInt64.ofNat_uInt32ToNat]
    · rw [if_neg (fun both => same both.2), if_neg (Ne.symm same)]
      simp

/-- **What one call keeps.** -/
theorem Holds.call [DecidableEq TxId] {s : SubjectiveBilling TxId}
    {inBlock : List (TrxCacheEntry TxId)} (holds : Holds s inBlock) (call : Call TxId)
    (fits : BillsFit (call.run s)) : Holds (call.run s) (call.billedInBlock s inBlock) := by
  cases call with
  | disable => exact holds.of_keepsLedger ⟨rfl, rfl, fun _ => rfl⟩
  | disableAccount a =>
    refine holds.of_keepsLedger ?_
    change KeepsLedger s (if s.disabledAccounts.contains a then s else _)
    split
    · exact .refl s
    · exact ⟨rfl, rfl, fun _ => rfl⟩
  | subjectiveBill id expire firstAuth elapsed inPendingBlock =>
    obtain ⟨s', ran, effect⟩ := subjectiveBill_run s id expire firstAuth elapsed inPendingBlock
    simp only [Call.run, Call.billedInBlock] at fits ⊢
    rw [ran, finalState_ok] at fits ⊢
    split at effect
    · rename_i charged
      rw [charged, Bool.true_and]
      exact ⟨holds.exact.of_charges effect fits, holds.tracked.of_charges effect⟩
    · rename_i uncharged
      rw [Bool.eq_false_iff.mpr uncharged, Bool.false_and, effect]
      exact holds
  | subjectiveBillFailure firstAuth elapsed now =>
    exact holds.of_keepsLedger (subjectiveBillFailure_keepsLedger s firstAuth elapsed now)
  | abortBlock => exact ⟨holds.exact, fun _ => rfl⟩
  | onBlock block now => exact holds.of_removals (onBlock_removals s block now)
  | removeExpired pendingBlockTime now checks =>
    exact holds.of_removals (removeExpired_removals s pendingBlockTime now checks)
  | removeSubjectiveBilling trxId timeOrdinal =>
    obtain ⟨s', ran, removals⟩ := removeSubjectiveBilling_run s trxId timeOrdinal
    change Holds (finalState ((removeSubjectiveBilling trxId timeOrdinal :
      BillingM TxId Unit).run s)) inBlock
    rw [ran, finalState_ok]
    exact holds.of_removals removals

/-- **What every run keeps.** -/
theorem Holds.of_run [DecidableEq TxId] {s : SubjectiveBilling TxId}
    {inBlock : List (TrxCacheEntry TxId)} (run : Run s inBlock) : Holds s inBlock := by
  induction run with
  | initial => exact Holds.initial
  | call call _ fits holds => exact holds.call call fits

/-! ### A run that bills one account twice

Account `5` is billed for transaction `1` in the pending block and for transaction `2` outside it;
the next block then carries transaction `1`, before any `abort_block`. -/

/-- The two bills. -/
def billedTwice : SubjectiveBilling Nat :=
  (Call.subjectiveBill 2 500 ⟨5⟩ 7 false).run ((Call.subjectiveBill 1 1000 ⟨5⟩ 10 true).run initial)

/-- The block that carries transaction `1`. -/
def afterBlock : SubjectiveBilling Nat :=
  (Call.onBlock (some [.packedTransaction 1]) 0).run billedTwice

theorem run_billedTwice : Run billedTwice [⟨1, ⟨5⟩, 10, 1000⟩] := by
  have first := Run.call (Call.subjectiveBill 1 1000 ⟨5⟩ 10 true) Run.initial
    (billsFit_of_length (by decide))
  exact Run.call (Call.subjectiveBill 2 500 ⟨5⟩ 7 false) first (billsFit_of_length (by decide))

theorem run_afterBlock : Run afterBlock [⟨1, ⟨5⟩, 10, 1000⟩] :=
  Run.call (Call.onBlock (some [.packedTransaction 1]) 0) run_billedTwice
    (billsFit_of_length (by decide))

theorem trxCacheIndex_billedTwice :
    billedTwice.trxCacheIndex = [⟨1, ⟨5⟩, 10, 1000⟩, ⟨2, ⟨5⟩, 7, 500⟩] := rfl

theorem trxCacheIndex_afterBlock : afterBlock.trxCacheIndex = [⟨2, ⟨5⟩, 7, 500⟩] := rfl

/-! ### What the runs give -/

/-- **The pending CPU of an account is the sum of the bills of its cached transactions**, in every
state a run reaches. -/
theorem pendingCpuUs_eq_billed [DecidableEq TxId] {s : SubjectiveBilling TxId}
    {inBlock : List (TrxCacheEntry TxId)} (run : Run s inBlock) (account : Name) :
    (pendingOf s account).toNat = billed s account :=
  (Holds.of_run run).exact account

theorem pendingCpuUs_eq_billed_afterBlock :
    (pendingOf afterBlock ⟨5⟩).toNat = billed afterBlock ⟨5⟩ :=
  pendingCpuUs_eq_billed run_afterBlock ⟨5⟩

example : pendingOf afterBlock ⟨5⟩ = 7 := by decide

/-- While the transactions billed in the pending block are all still cached, the pending block's
part of an account's pending CPU is at most its pending CPU. -/
theorem block_le_pending {s : SubjectiveBilling TxId} {inBlock : List (TrxCacheEntry TxId)}
    (holds : Holds s inBlock) (cached : inBlock.Sublist s.trxCacheIndex) (account : Name) :
    s.blockSubjectiveBillCache account ≤ pendingOf s account := by
  have within : bills inBlock account ≤ billed s account :=
    RefCounts.held_le_of_sublist cached account
  have fits := holds.exact.billsFit account
  have size : UInt64.size = 2 ^ 64 := rfl
  rw [holds.tracked, UInt64.le_iff_toNat_le, UInt64.toNat_ofNat_of_lt' (by omega),
    holds.exact account]
  exact within

/-- **`get_subjective_bill` does not throw its logic error** in a state a run reaches, while the
transactions billed in the pending block since the last `abort_block` are all still cached: it
returns whenever the time ordinal of `now` fits a `uint32_t`. -/
theorem getSubjectiveBill_eq_ok [DecidableEq TxId] {s : SubjectiveBilling TxId}
    {inBlock : List (TrxCacheEntry TxId)} (run : Run s inBlock)
    (cached : inBlock.Sublist s.trxCacheIndex) (account : Name) {now : Int64} {timeOrdinal : UInt32}
    (clock : timeOrdinalFor now = .ok timeOrdinal) :
    ∃ bill, s.getSubjectiveBill account now = .ok bill := by
  have covered := block_le_pending (Holds.of_run run) cached account
  unfold getSubjectiveBill
  by_cases billed : s.billsAccount account = true
  · rw [if_neg (by simpa using billed), clock]
    cases held : s.accountSubjectiveBillCache account with
    | none => exact ⟨0, rfl⟩
    | some info =>
      have guard : info.pendingCpuUs ≥ s.blockSubjectiveBillCache account := by
        unfold pendingOf at covered
        rw [held] at covered
        exact covered
      obtain ⟨expired, read, -⟩ := info.expiredAccumulator.valueAt_eq_ok Config.rateLimitingPrecision
        timeOrdinal expiredAccumulatorAverageWindow
      refine ⟨(info.pendingCpuUs - s.blockSubjectiveBillCache account + expired).toUInt32, ?_⟩
      simp only [bind, Except.bind, if_pos guard, read]
      rfl
  · exact ⟨0, by rw [if_pos (by simpa using billed)]; rfl⟩

theorem getSubjectiveBill_eq_ok_billedTwice :
    ∃ bill, billedTwice.getSubjectiveBill ⟨5⟩ 0 = .ok bill := by
  have cached : ([⟨1, ⟨5⟩, 10, 1000⟩] : List (TrxCacheEntry Nat)).Sublist
      billedTwice.trxCacheIndex := by
    rw [trxCacheIndex_billedTwice]
    exact List.Sublist.cons_cons _ (List.nil_sublist _)
  exact getSubjectiveBill_eq_ok run_billedTwice cached ⟨5⟩ (rfl : timeOrdinalFor 0 = .ok 0)

/-- **Without the premise it throws**: the block removed transaction `1`, billed in the pending
block, before `abort_block`, which leaves the block cache above the pending CPU. -/
theorem getSubjectiveBill_throws_afterBlock :
    Run afterBlock [⟨1, ⟨5⟩, 10, 1000⟩] ∧
      ¬ ([⟨1, ⟨5⟩, 10, 1000⟩] : List (TrxCacheEntry Nat)).Sublist afterBlock.trxCacheIndex ∧
      afterBlock.getSubjectiveBill ⟨5⟩ 0 = .error "Logic error subjective billing ${a}" := by
  refine ⟨run_afterBlock, ?_, rfl⟩
  rw [trxCacheIndex_afterBlock, List.singleton_sublist]
  simp

/-- **`remove_expired` removes exactly the transactions that have expired** by the pending block's
time, each with its bill, when the clock reads before the deadline more times than there are
cached transactions: it returns `true`, the deadline did not stop it, the ledger stays exact and
the block cache is left as it was. -/
theorem removeExpired_eq_ok [DecidableEq TxId] {s : SubjectiveBilling TxId} (exact : PendingExact s)
    (pendingBlockTime now : Int64) {checks : Nat} (enough : s.trxCacheIndex.length < checks)
    {timeOrdinal : UInt32} (clock : timeOrdinalFor now = .ok timeOrdinal) :
    ∃ s', (removeExpired pendingBlockTime now checks : BillingM TxId Bool).run s = .ok true s' ∧
      s'.trxCacheIndex = unexpired pendingBlockTime s.trxCacheIndex ∧ PendingExact s' ∧
      s'.blockSubjectiveBillCache = s.blockSubjectiveBillCache := by
  unfold removeExpired
  rw [EStateM.run_bind, EStateM.run_get]
  dsimp only
  by_cases idle : s.trxCacheIndex.isEmpty = true
  · rw [if_pos idle]
    have empty : s.trxCacheIndex = [] := List.isEmpty_iff.mp idle
    refine ⟨s, rfl, ?_, exact, rfl⟩
    rw [empty]
    rfl
  · obtain ⟨exhausted, s', ran, removals, finished⟩ :=
      removeExpiredLoop_run pendingBlockTime timeOrdinal checks s
    obtain ⟨stopped, rest⟩ := finished enough
    rw [if_neg idle, EStateM.run_bind, run_ofExcept, clock]
    dsimp only
    rw [EStateM.run_bind, ran, stopped]
    exact ⟨s', rfl, rest, exact.of_removals removals, block_of_removals removals⟩

theorem removeExpired_eq_ok_billedTwice :
    ∃ s', (removeExpired 600 0 3 : BillingM Nat Bool).run billedTwice = .ok true s' ∧
      s'.trxCacheIndex = unexpired 600 billedTwice.trxCacheIndex ∧ PendingExact s' ∧
      s'.blockSubjectiveBillCache = billedTwice.blockSubjectiveBillCache :=
  removeExpired_eq_ok (Holds.of_run run_billedTwice).exact 600 0 (by decide)
    (rfl : timeOrdinalFor 0 = .ok 0)

example : unexpired 600 billedTwice.trxCacheIndex = [⟨1, ⟨5⟩, 10, 1000⟩] := rfl

end Eosio.SubjectiveBilling
