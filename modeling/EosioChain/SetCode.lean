/-
This file models `apply_eosio_setcode` of `eosio_contract.cpp`, the native action by which an
account installs, replaces or clears its contract, with the three tables it changes. Rows of
`account_metadata_object`, unique by name, name their code by the key (code hash, VM type, VM
version). Rows of `code_object`, unique on that key, share one copy of a code among the accounts
that run it and count them. The `resource_usage_object` rows carry the RAM charged to each
account, ten bytes for each byte of code.

SHA-256 and the WASM validator lie outside the chain library and are parameters; so are the
head block number and the pending block time, which the controller supplies. Every transaction
runs in an undo session, so a `setcode` that throws, or a transaction that fails after it, leaves
the tables as they were: a step of the chain either commits a `setcode` that returned or changes
nothing.

Beside the model stand what a `setcode` that returns has done, read off its checks and stages,
and how each table operation moves three readings of the tables: the references the code table
holds under a key (`heldRefs`), the accounts naming a key (`referrers`), and the code stored
under a key (`codeAt`).
-/

import EosioChain.Name
import EosioChain.RefCounts
import EosioChain.Transition

namespace Eosio.Chain.SetCode

/-- `config::setcode_ram_bytes_multiplier`. -/
def setcodeRamBytesMultiplier : Nat := 10

/-- `UINT64_MAX`. -/
def uint64Max : Nat := 18446744073709551615

/-! ### Tables -/

/-- `account_metadata_object`, with the fields `setcode` reads and writes. -/
structure AccountMetadataObject (Digest : Type) where
  name : Name
  codeSequence : UInt64
  codeHash : Digest
  lastCodeUpdate : Int
  vmType : UInt8
  vmVersion : UInt8
deriving DecidableEq

/-- The key an account's code is looked up by, in `setcode` and in `apply_context::exec_one`. -/
@[reducible] def AccountMetadataObject.codeKey {Digest : Type}
    (account : AccountMetadataObject Digest) : Digest × UInt8 × UInt8 :=
  (account.codeHash, account.vmType, account.vmVersion)

/-- `code_object`. -/
structure CodeObject (Digest : Type) where
  codeHash : Digest
  code : List UInt8
  codeRefCount : Nat
  firstBlockUsed : UInt32
  vmType : UInt8
  vmVersion : UInt8
deriving DecidableEq

/-- The key of the `by_code_hash` index. -/
@[reducible] def CodeObject.byCodeHash {Digest : Type} (entry : CodeObject Digest) :
    Digest × UInt8 × UInt8 :=
  (entry.codeHash, entry.vmType, entry.vmVersion)

/-- `resource_usage_object`, with the RAM charged to its owner. -/
structure ResourceUsageObject where
  owner : Name
  ramUsage : Nat
deriving DecidableEq

/-- The three tables `setcode` reads and writes, each with its unique index. -/
structure Database (Digest : Type) where
  accounts : List (AccountMetadataObject Digest)
  accountsUnique : KeyedTable.Unique AccountMetadataObject.name accounts
  codes : List (CodeObject Digest)
  codesUnique : KeyedTable.Unique CodeObject.byCodeHash codes
  usage : List ResourceUsageObject
  usageUnique : KeyedTable.Unique ResourceUsageObject.owner usage

/-- The `setcode` action. -/
structure Setcode where
  account : Name
  vmtype : UInt8
  vmversion : UInt8
  code : List UInt8

/-- What `setcode` reads of its `apply_context`: the actors of the action's authorizations, and
the controller's head block number and pending block time. -/
structure ApplyContext where
  authorization : List Name
  headBlockNum : UInt32
  pendingBlockTime : Int

/-- What `setcode` calls outside the chain library. -/
structure Externals (Digest : Type) where
  /-- `fc::sha256::hash`. -/
  hash : List UInt8 → Digest
  /-- `digest_type()`, the all-zeros hash. -/
  zeroDigest : Digest
  /-- `wasm_interface::validate`: the message of the exception it throws, if it rejects. -/
  validate : List UInt8 → Option String

/-- The exceptions of `setcode`, each with the message of its assertion. -/
inductive SetcodeError where
  /-- `missing_auth_exception`: "missing authority of ${account}". -/
  | missingAuth (account : Name)
  | invalidContractVmType (message : String)
  | invalidContractVmVersion (message : String)
  /-- An exception of `wasm_interface::validate`. -/
  | wasmValidation (message : String)
  /-- chainbase's `get` of a missing row. -/
  | unknownKey
  /-- chainbase's `create` of a row whose key is taken. -/
  | uniquenessViolated
  | setExactCode (message : String)
  | transaction (message : String)
deriving DecidableEq

/-! ### Table operations -/

/-- `EOS_ASSERT(condition, exception, message)`. -/
def eosAssert (condition : Prop) [Decidable condition] (failure : SetcodeError) :
    Except SetcodeError Unit :=
  if condition then pure () else throw failure

namespace Database

variable {Digest : Type} [DecidableEq Digest]

/-- `db.get<account_metadata_object, by_name>`. -/
def getAccount (db : Database Digest) (name : Name) :
    Except SetcodeError (AccountMetadataObject Digest) :=
  match KeyedTable.find AccountMetadataObject.name db.accounts name with
  | some account => .ok account
  | none => .error .unknownKey

/-- `db.find<code_object, by_code_hash>`. -/
def findCode (db : Database Digest) (k : Digest × UInt8 × UInt8) : Option (CodeObject Digest) :=
  KeyedTable.find CodeObject.byCodeHash db.codes k

/-- `db.get<code_object, by_code_hash>`. -/
def getCode (db : Database Digest) (k : Digest × UInt8 × UInt8) :
    Except SetcodeError (CodeObject Digest) :=
  match db.findCode k with
  | some entry => .ok entry
  | none => .error .unknownKey

/-- `db.create<code_object>`: fails when the key is taken. -/
def createCode (db : Database Digest) (entry : CodeObject Digest) :
    Except SetcodeError (Database Digest) :=
  match fresh : db.findCode entry.byCodeHash with
  | some _ => .error .uniquenessViolated
  | none => .ok { db with
      codes := db.codes ++ [entry]
      codesUnique := KeyedTable.unique_append db.codesUnique (KeyedTable.find_eq_none fresh) }

/-- `db.modify` of the code object with key `k`, by a change that keeps the key. -/
def modifyCode (db : Database Digest) (k : Digest × UInt8 × UInt8)
    (update : CodeObject Digest → CodeObject Digest)
    (keepsKey : ∀ entry, (update entry).byCodeHash = entry.byCodeHash) : Database Digest :=
  { db with
    codes := KeyedTable.modify CodeObject.byCodeHash db.codes k update
    codesUnique := KeyedTable.unique_modify db.codesUnique k keepsKey }

/-- `db.remove` of the code object with key `k`. -/
def removeCode (db : Database Digest) (k : Digest × UInt8 × UInt8) : Database Digest :=
  { db with
    codes := KeyedTable.erase CodeObject.byCodeHash db.codes k
    codesUnique := KeyedTable.unique_erase db.codesUnique k }

/-- `db.modify` of the account named `name`, by a change that keeps the name. -/
def modifyAccount (db : Database Digest) (name : Name)
    (update : AccountMetadataObject Digest → AccountMetadataObject Digest)
    (keepsName : ∀ account, (update account).name = account.name) : Database Digest :=
  { db with
    accounts := KeyedTable.modify AccountMetadataObject.name db.accounts name update
    accountsUnique := KeyedTable.unique_modify db.accountsUnique name keepsName }

/-- `_db.modify` of the usage row of `owner`, by a change that keeps the owner. -/
def modifyUsage (db : Database Digest) (owner : Name)
    (update : ResourceUsageObject → ResourceUsageObject)
    (keepsOwner : ∀ usage, (update usage).owner = usage.owner) : Database Digest :=
  { db with
    usage := KeyedTable.modify ResourceUsageObject.owner db.usage owner update
    usageUnique := KeyedTable.unique_modify db.usageUnique owner keepsOwner }

/-- `resource_limits_manager::add_pending_ram_usage`, which `apply_context::add_ram_usage`
reaches through `transaction_context::add_ram_usage`. -/
def addPendingRamUsage (db : Database Digest) (account : Name) (ramDelta : Int) :
    Except SetcodeError (Database Digest) := do
  if ramDelta = 0 then return db
  let some usage := KeyedTable.find ResourceUsageObject.owner db.usage account
    | throw .unknownKey
  eosAssert (ramDelta ≤ 0 ∨ ramDelta ≤ (uint64Max : Int) - usage.ramUsage)
    (.transaction "Ram usage delta would overflow UINT64_MAX")
  eosAssert (ramDelta ≥ 0 ∨ -ramDelta ≤ (usage.ramUsage : Int))
    (.transaction "Ram usage delta would underflow UINT64_MAX")
  return db.modifyUsage account (fun u => { u with ramUsage := (u.ramUsage + ramDelta).toNat })
    (fun _ => rfl)

/-- `resource_limits_manager::get_account_ram_usage`. -/
def getAccountRamUsage (db : Database Digest) (name : Name) : Except SetcodeError Nat :=
  match KeyedTable.find ResourceUsageObject.owner db.usage name with
  | some usage => .ok usage.ramUsage
  | none => .error .unknownKey

/-- The code `apply_context::exec_one` runs for an account: none while its code hash is the
all-zeros hash, and otherwise the code object under its code key. -/
def runningCode (externals : Externals Digest) (db : Database Digest)
    (account : AccountMetadataObject Digest) : Option (CodeObject Digest) :=
  if account.codeHash = externals.zeroDigest then none else db.findCode account.codeKey

/-- The size of the code an account runs, zero for none. -/
def runningCodeSize (externals : Externals Digest) (db : Database Digest)
    (account : AccountMetadataObject Digest) : Nat :=
  ((db.runningCode externals account).map fun entry => entry.code.length).getD 0

end Database

/-! ### The action -/

/-- `apply_context::require_authorization(account)`: some authorization of the action is by
`account`. -/
def ApplyContext.requireAuthorization (context : ApplyContext) (account : Name) :
    Except SetcodeError Unit :=
  eosAssert (account ∈ context.authorization) (.missingAuth account)

variable {Digest : Type} [DecidableEq Digest]

/-- The block `if( code_size > 0 )` that opens `setcode`: hash the code and validate it. Empty
code keeps the default `code_hash`, the all-zeros hash. -/
def hashCode (externals : Externals Digest) (code : List UInt8) : Except SetcodeError Digest :=
  if (code.length : Int) > 0 then
    match externals.validate code with
    | some message => throw (.wasmValidation message)
    | none => pure (externals.hash code)
  else pure externals.zeroDigest

/-- The block `if( existing_code )` of `setcode`: release the account's old code object, which
must hold other code than the new, and give `old_size`, the RAM charged for it. -/
def releaseCode (db : Database Digest) (account : AccountMetadataObject Digest)
    (codeHash : Digest) (existingCode : Bool) : Except SetcodeError (Database Digest × Int) :=
  if existingCode then do
    let oldCodeEntry ← db.getCode account.codeKey
    eosAssert (oldCodeEntry.codeHash ≠ codeHash)
      (.setExactCode "contract is already running this version of code")
    let oldSize : Int := oldCodeEntry.code.length * setcodeRamBytesMultiplier
    if oldCodeEntry.codeRefCount = 1 then
      pure (db.removeCode oldCodeEntry.byCodeHash, oldSize)
    else
      pure (db.modifyCode oldCodeEntry.byCodeHash
        (fun o => { o with codeRefCount := o.codeRefCount - 1 }) (fun _ => rfl), oldSize)
  else pure (db, 0)

/-- The block `if( code_size > 0 )` that follows: take one more reference to the code object of
the new code, creating it when there is none. -/
def acquireCode (db : Database Digest) (codeHash : Digest) (act : Setcode)
    (headBlockNum : UInt32) : Except SetcodeError (Database Digest) :=
  if (act.code.length : Int) > 0 then
    match db.findCode (codeHash, act.vmtype, act.vmversion) with
    | some newCodeEntry =>
      pure (db.modifyCode newCodeEntry.byCodeHash
        (fun o => { o with codeRefCount := o.codeRefCount + 1 }) (fun _ => rfl))
    | none =>
      db.createCode
        { codeHash := codeHash
          code := act.code
          codeRefCount := 1
          firstBlockUsed := headBlockNum + 1
          vmType := act.vmtype
          vmVersion := act.vmversion }
  else pure db

/-- The change `setcode` makes to its account's row. -/
def setAccountCode (codeHash : Digest) (act : Setcode) (context : ApplyContext)
    (a : AccountMetadataObject Digest) : AccountMetadataObject Digest :=
  { a with
    codeSequence := a.codeSequence + 1
    codeHash := codeHash
    vmType := act.vmtype
    vmVersion := act.vmversion
    lastCodeUpdate := context.pendingBlockTime }

omit [DecidableEq Digest] in
theorem setAccountCode_name (codeHash : Digest) (act : Setcode) (context : ApplyContext)
    (a : AccountMetadataObject Digest) : (setAccountCode codeHash act context a).name = a.name :=
  rfl

omit [DecidableEq Digest] in
@[simp] theorem setAccountCode_codeHash (codeHash : Digest) (act : Setcode)
    (context : ApplyContext) (a : AccountMetadataObject Digest) :
    (setAccountCode codeHash act context a).codeHash = codeHash :=
  rfl

omit [DecidableEq Digest] in
@[simp] theorem setAccountCode_codeKey (codeHash : Digest) (act : Setcode)
    (context : ApplyContext) (a : AccountMetadataObject Digest) :
    (setAccountCode codeHash act context a).codeKey = (codeHash, act.vmtype, act.vmversion) :=
  rfl

/-- `apply_eosio_setcode`. -/
def applyEosioSetcode (externals : Externals Digest) (context : ApplyContext) (act : Setcode)
    (db : Database Digest) : Except SetcodeError (Database Digest) := do
  context.requireAuthorization act.account
  eosAssert (act.vmtype = 0) (.invalidContractVmType "code should be 0")
  eosAssert (act.vmversion = 0) (.invalidContractVmVersion "version should be 0")
  let codeSize : Int := act.code.length
  let codeHash ← hashCode externals act.code
  let account ← db.getAccount act.account
  let existingCode := decide (account.codeHash ≠ externals.zeroDigest)
  eosAssert (codeSize > 0 ∨ existingCode) (.setExactCode "contract is already cleared")
  let newSize : Int := codeSize * setcodeRamBytesMultiplier
  let (db, oldSize) ← releaseCode db account codeHash existingCode
  let db ← acquireCode db codeHash act context.headBlockNum
  let db := db.modifyAccount act.account (setAccountCode codeHash act context)
    (setAccountCode_name codeHash act context)
  if newSize ≠ oldSize then db.addPendingRamUsage act.account (newSize - oldSize) else pure db

/-! ### What a `setcode` that returns has done -/

theorem eosAssert_eq_ok {condition : Prop} [Decidable condition] {failure : SetcodeError}
    {u : Unit} : eosAssert condition failure = .ok u ↔ condition := by
  unfold eosAssert
  rw [Transition.ite_throw_eq_ok]
  exact ⟨fun both => both.1, fun holds => ⟨holds, rfl⟩⟩

theorem length_pos_iff_ne_nil (code : List UInt8) : (code.length : Int) > 0 ↔ code ≠ [] := by
  rw [ne_eq, ← List.length_eq_zero_iff]
  omega

namespace Database

omit [DecidableEq Digest] in
theorem getAccount_eq_ok {db : Database Digest} {name : Name}
    {account : AccountMetadataObject Digest} (found : db.getAccount name = .ok account) :
    account ∈ db.accounts ∧ account.name = name := by
  unfold getAccount at found
  split at found
  · rename_i row lookup
    cases found
    exact KeyedTable.find_eq_some lookup
  · cases found

theorem getCode_eq_ok {db : Database Digest} {k : Digest × UInt8 × UInt8}
    {entry : CodeObject Digest} (found : db.getCode k = .ok entry) :
    db.findCode k = some entry := by
  unfold getCode at found
  split at found
  · rename_i row lookup
    cases found
    exact lookup
  · cases found

end Database

omit [DecidableEq Digest] in
theorem hashCode_eq_ok {externals : Externals Digest} {code : List UInt8} {codeHash : Digest}
    (hashed : hashCode externals code = .ok codeHash) :
    (code ≠ [] → codeHash = externals.hash code) ∧
      (code = [] → codeHash = externals.zeroDigest) := by
  unfold hashCode at hashed
  by_cases nonempty : code ≠ []
  · rw [if_pos ((length_pos_iff_ne_nil code).mpr nonempty)] at hashed
    split at hashed
    · cases hashed
    · cases hashed
      exact ⟨fun _ => rfl, fun empty => absurd empty nonempty⟩
  · rw [if_neg (mt (length_pos_iff_ne_nil code).mp nonempty)] at hashed
    cases hashed
    exact ⟨fun nonempty' => absurd nonempty' nonempty, fun _ => rfl⟩

/-- **What a `setcode` that returns has done.** The checks passed, the account was found, and
the stages ran in turn. -/
theorem applyEosioSetcode_eq_ok {externals : Externals Digest} {context : ApplyContext}
    {act : Setcode} {db db' : Database Digest}
    (ran : applyEosioSetcode externals context act db = .ok db') :
    act.account ∈ context.authorization ∧ act.vmtype = 0 ∧ act.vmversion = 0 ∧
    ∃ codeHash account released oldSize acquired,
      hashCode externals act.code = .ok codeHash ∧
      account ∈ db.accounts ∧ account.name = act.account ∧
      (act.code ≠ [] ∨ account.codeHash ≠ externals.zeroDigest) ∧
      releaseCode db account codeHash (decide (account.codeHash ≠ externals.zeroDigest)) =
        .ok (released, oldSize) ∧
      acquireCode released codeHash act context.headBlockNum = .ok acquired ∧
      (if (act.code.length : Int) * setcodeRamBytesMultiplier ≠ oldSize then
        (acquired.modifyAccount act.account (setAccountCode codeHash act context)
          (setAccountCode_name codeHash act context)).addPendingRamUsage act.account
            ((act.code.length : Int) * setcodeRamBytesMultiplier - oldSize)
      else pure (acquired.modifyAccount act.account (setAccountCode codeHash act context)
        (setAccountCode_name codeHash act context))) = .ok db' := by
  unfold applyEosioSetcode at ran
  obtain ⟨_, authorized, ran⟩ := Transition.bind_eq_ok.mp ran
  obtain ⟨_, vmType, ran⟩ := Transition.bind_eq_ok.mp ran
  obtain ⟨_, vmVersion, ran⟩ := Transition.bind_eq_ok.mp ran
  obtain ⟨codeHash, hashed, ran⟩ := Transition.bind_eq_ok.mp ran
  obtain ⟨account, found, ran⟩ := Transition.bind_eq_ok.mp ran
  obtain ⟨_, notCleared, ran⟩ := Transition.bind_eq_ok.mp ran
  obtain ⟨⟨released, oldSize⟩, releasedOk, ran⟩ := Transition.bind_eq_ok.mp ran
  obtain ⟨acquired, acquiredOk, ran⟩ := Transition.bind_eq_ok.mp ran
  have ⟨member, named⟩ := Database.getAccount_eq_ok found
  refine ⟨eosAssert_eq_ok.mp authorized, eosAssert_eq_ok.mp vmType, eosAssert_eq_ok.mp vmVersion,
    codeHash, account, released, oldSize, acquired, hashed, member, named, ?_, releasedOk,
    acquiredOk, ran⟩
  have checked := eosAssert_eq_ok.mp notCleared
  rw [length_pos_iff_ne_nil, decide_eq_true_iff] at checked
  exact checked


theorem releaseCode_eq_ok {db released : Database Digest}
    {account : AccountMetadataObject Digest} {codeHash : Digest} {existingCode : Bool}
    {oldSize : Int} (ran : releaseCode db account codeHash existingCode = .ok (released, oldSize)) :
    (existingCode = false → released = db ∧ oldSize = 0) ∧
    (existingCode = true → ∃ old, db.findCode account.codeKey = some old ∧
      old.codeHash ≠ codeHash ∧ oldSize = old.code.length * setcodeRamBytesMultiplier ∧
      released = if old.codeRefCount = 1 then db.removeCode old.byCodeHash
        else db.modifyCode old.byCodeHash (fun o => { o with codeRefCount := o.codeRefCount - 1 })
          (fun _ => rfl)) := by
  unfold releaseCode at ran
  cases existingCode with
  | false =>
    cases ran
    exact ⟨fun _ => ⟨rfl, rfl⟩, fun impossible => (nomatch impossible)⟩
  | true =>
    refine ⟨fun impossible => (nomatch impossible), fun _ => ?_⟩
    rw [if_pos rfl] at ran
    obtain ⟨old, found, ran⟩ := Transition.bind_eq_ok.mp ran
    obtain ⟨_, otherCode, ran⟩ := Transition.bind_eq_ok.mp ran
    refine ⟨old, Database.getCode_eq_ok found, eosAssert_eq_ok.mp otherCode, ?_⟩
    by_cases last : old.codeRefCount = 1
    · rw [if_pos last] at ran
      cases ran
      exact ⟨rfl, by rw [if_pos last]⟩
    · rw [if_neg last] at ran
      cases ran
      exact ⟨rfl, by rw [if_neg last]⟩

theorem acquireCode_eq_ok {db acquired : Database Digest} {codeHash : Digest} {act : Setcode}
    {headBlockNum : UInt32} (ran : acquireCode db codeHash act headBlockNum = .ok acquired) :
    (act.code = [] → acquired = db) ∧
    (act.code ≠ [] →
      (∃ entry, db.findCode (codeHash, act.vmtype, act.vmversion) = some entry ∧
        acquired = db.modifyCode entry.byCodeHash
          (fun o => { o with codeRefCount := o.codeRefCount + 1 }) (fun _ => rfl)) ∨
      (db.findCode (codeHash, act.vmtype, act.vmversion) = none ∧
        db.createCode
          { codeHash := codeHash
            code := act.code
            codeRefCount := 1
            firstBlockUsed := headBlockNum + 1
            vmType := act.vmtype
            vmVersion := act.vmversion } = .ok acquired)) := by
  unfold acquireCode at ran
  by_cases nonempty : act.code ≠ []
  · rw [if_pos ((length_pos_iff_ne_nil act.code).mpr nonempty)] at ran
    refine ⟨fun empty => absurd empty nonempty, fun _ => ?_⟩
    split at ran
    · rename_i entry found
      cases ran
      exact .inl ⟨entry, found, rfl⟩
    · rename_i missing
      exact .inr ⟨missing, ran⟩
  · rw [if_neg (mt (length_pos_iff_ne_nil act.code).mp nonempty)] at ran
    cases ran
    exact ⟨fun _ => rfl, fun nonempty' => absurd nonempty' nonempty⟩

/-! ### How each stage moves the tables -/

namespace Database

/-- The references the code table holds under `k`. -/
def heldRefs (db : Database Digest) (k : Digest × UInt8 × UInt8) : Nat :=
  RefCounts.held CodeObject.byCodeHash CodeObject.codeRefCount db.codes k

/-- How many accounts name `k` as the key of their code. -/
def referrers (db : Database Digest) (k : Digest × UInt8 × UInt8) : Nat :=
  db.accounts.countP fun account => account.codeKey = k

/-- The code stored under `k`. -/
def codeAt (db : Database Digest) (k : Digest × UInt8 × UInt8) : Option (List UInt8) :=
  (db.findCode k).map CodeObject.code

theorem heldRefs_removeCode (db : Database Digest) (k k' : Digest × UInt8 × UInt8) :
    (db.removeCode k).heldRefs k' = if k' = k then 0 else db.heldRefs k' :=
  RefCounts.held_erase db.codes k k'

theorem codeAt_removeCode (db : Database Digest) (k k' : Digest × UInt8 × UInt8) :
    (db.removeCode k).codeAt k' = if k' = k then none else db.codeAt k' := by
  unfold codeAt findCode removeCode
  rw [KeyedTable.find_erase]
  split <;> rfl

theorem mem_removeCode {db : Database Digest} {k : Digest × UInt8 × UInt8}
    {entry : CodeObject Digest} (member : entry ∈ (db.removeCode k).codes) : entry ∈ db.codes :=
  (KeyedTable.mem_erase.mp member).1

section Modify

variable {update : CodeObject Digest → CodeObject Digest}
  {keepsKey : ∀ entry, (update entry).byCodeHash = entry.byCodeHash}

theorem heldRefs_modifyCode_of_ne (db : Database Digest) {k k' : Digest × UInt8 × UInt8}
    (other : k' ≠ k) : (db.modifyCode k update keepsKey).heldRefs k' = db.heldRefs k' :=
  RefCounts.held_modify_of_ne db.codes keepsKey other

theorem heldRefs_modifyCode_self {db : Database Digest} {entry : CodeObject Digest}
    (member : entry ∈ db.codes) :
    (db.modifyCode entry.byCodeHash update keepsKey).heldRefs entry.byCodeHash =
      (update entry).codeRefCount :=
  RefCounts.held_modify_self db.codesUnique member keepsKey

theorem codeAt_modifyCode (db : Database Digest) (k k' : Digest × UInt8 × UInt8)
    (keepsCode : ∀ entry, (update entry).code = entry.code) :
    (db.modifyCode k update keepsKey).codeAt k' = db.codeAt k' := by
  unfold codeAt findCode modifyCode
  rw [KeyedTable.find_modify keepsKey]
  split
  · rw [Option.map_map]
    congr 1
    funext entry
    exact keepsCode entry
  · rfl

end Modify

theorem createCode_eq_ok {db db' : Database Digest} {entry : CodeObject Digest}
    (ran : db.createCode entry = .ok db') :
    db.findCode entry.byCodeHash = none ∧ db'.codes = db.codes ++ [entry] ∧
      db'.accounts = db.accounts ∧ db'.usage = db.usage := by
  unfold createCode at ran
  split at ran
  · cases ran
  · rename_i fresh
    cases ran
    exact ⟨fresh, rfl, rfl, rfl⟩

theorem heldRefs_append (db db' : Database Digest) {entry : CodeObject Digest}
    (appended : db'.codes = db.codes ++ [entry]) (k : Digest × UInt8 × UInt8) :
    db'.heldRefs k = db.heldRefs k + if entry.byCodeHash = k then entry.codeRefCount else 0 := by
  unfold heldRefs
  rw [appended, RefCounts.held_append]

theorem codeAt_append {db db' : Database Digest} {entry : CodeObject Digest}
    (fresh : db.findCode entry.byCodeHash = none) (appended : db'.codes = db.codes ++ [entry])
    (k : Digest × UInt8 × UInt8) :
    db'.codeAt k = if entry.byCodeHash = k then some entry.code else db.codeAt k := by
  unfold codeAt findCode
  rw [appended, KeyedTable.find_append_of_fresh (KeyedTable.find_eq_none fresh)]
  split <;> rfl

/-- **Moving one account.** Changing the code key of one account takes one from the accounts
naming its old key and adds one to those naming its new key. -/
theorem referrers_modifyAccount {db : Database Digest} {account : AccountMetadataObject Digest}
    (member : account ∈ db.accounts)
    (update : AccountMetadataObject Digest → AccountMetadataObject Digest)
    (keepsName : ∀ account, (update account).name = account.name) (k : Digest × UInt8 × UInt8) :
    (db.modifyAccount account.name update keepsName).referrers k +
        (if account.codeKey = k then 1 else 0) =
      db.referrers k + if (update account).codeKey = k then 1 else 0 := by
  have moved := RefCounts.countP_modify db.accountsUnique member update
    (fun other => decide (other.codeKey = k))
  simpa [referrers, modifyAccount] using moved

omit [DecidableEq Digest] in
theorem addPendingRamUsage_eq_ok {db db' : Database Digest} {owner : Name} {ramDelta : Int}
    (ran : db.addPendingRamUsage owner ramDelta = .ok db') :
    db'.accounts = db.accounts ∧ db'.codes = db.codes ∧
      ∀ name, db'.getAccountRamUsage name =
        if name = owner then
          (fun usage : Nat => ((usage : Int) + ramDelta).toNat) <$> db.getAccountRamUsage name
        else db.getAccountRamUsage name := by
  unfold addPendingRamUsage at ran
  by_cases unchanged : ramDelta = 0
  · rw [if_pos unchanged] at ran
    cases ran
    refine ⟨rfl, rfl, fun name => ?_⟩
    split
    · cases db.getAccountRamUsage name <;> simp [unchanged, Functor.map, Except.map]
    · rfl
  · rw [if_neg unchanged] at ran
    split at ran
    · rename_i usage found
      obtain ⟨_, -, ran⟩ := Transition.bind_eq_ok.mp ran
      obtain ⟨_, -, ran⟩ := Transition.bind_eq_ok.mp ran
      cases ran
      refine ⟨rfl, rfl, fun name => ?_⟩
      have lookup := @KeyedTable.find_modify _ _ ResourceUsageObject.owner _ db.usage owner
        (fun u => { u with ramUsage := (u.ramUsage + ramDelta).toNat }) (fun _ => rfl) name
      unfold getAccountRamUsage modifyUsage
      dsimp only
      rw [lookup]
      by_cases same : name = owner
      · subst same
        rw [if_pos rfl, if_pos rfl, found]
        rfl
      · rw [if_neg same, if_neg same]
    · cases ran

end Database

namespace Database

omit [DecidableEq Digest] in
theorem getAccountRamUsage_of_usage_eq {db db' : Database Digest} (same : db'.usage = db.usage) :
    db'.getAccountRamUsage = db.getAccountRamUsage := by
  unfold getAccountRamUsage
  rw [same]

theorem codeAt_of_codes_eq {db db' : Database Digest} (same : db'.codes = db.codes) :
    db'.codeAt = db.codeAt := by
  unfold codeAt findCode
  rw [same]

theorem heldRefs_of_codes_eq {db db' : Database Digest} (same : db'.codes = db.codes) :
    db'.heldRefs = db.heldRefs := by
  unfold heldRefs
  rw [same]

/-- The size of the code an account runs, read from the code stored under its key. -/
theorem runningCodeSize_eq_codeAt (externals : Externals Digest) (db : Database Digest)
    (account : AccountMetadataObject Digest) :
    db.runningCodeSize externals account =
      if account.codeHash = externals.zeroDigest then 0
      else ((db.codeAt account.codeKey).map List.length).getD 0 := by
  unfold runningCodeSize runningCode codeAt
  split
  · rfl
  · cases db.findCode account.codeKey <;> rfl

end Database

end Eosio.Chain.SetCode
