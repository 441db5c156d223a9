/-
This file proves that `setcode` counts contract code exactly, in every state a run of `setcode`
transactions reaches from genesis. Each code object counts the accounts naming its key, one at
least; each account with code has one code object under its key, holding code of that hash; and
each account is charged, beyond what genesis charged it, ten bytes for each byte of the code it
runs.

This holds given two facts of the hash, about the codes the run sends: none of them that is
non-empty hashes to the all-zeros digest, which marks an account without code, and two of them
with one hash have one size. A run sends finitely many codes, so a hash with a finite digest can
meet both; the codes stored are codes sent (`StoredSent`), so the facts reach them. The argument reads
the code table, key by key, as the references it holds (`RefCounts.held`). A `setcode` moves its
account from the key of its old code to the key of its new one, and the table moves in step: the
old entry loses one, and goes when its count was one; the new entry gains one, and is created
when there was none (`Moved`). Without the first fact a code stored under the zero digest is
counted once but matched by every account without code; without the second the RAM charged for a
code found by its hash is the size of the code sent, not of the code stored.
-/

import EosioChain.SetCode

namespace Eosio.Chain.SetCode

variable {Digest : Type} [DecidableEq Digest]

/-! ### The stages -/

/-- Every code object holds a reference at least, and non-empty code that hashes to its hash. -/
def EntriesValid (externals : Externals Digest) (db : Database Digest) : Prop :=
  ∀ entry ∈ db.codes,
    0 < entry.codeRefCount ∧ entry.code ≠ [] ∧ externals.hash entry.code = entry.codeHash

/-- **Releasing the old code.** Under the key of the account's old code the table holds one
reference fewer, and the code stays there unless that was its last reference. -/
theorem releaseCode_moves {externals : Externals Digest} {db released : Database Digest}
    {account : AccountMetadataObject Digest} {codeHash : Digest} {oldSize : Int}
    (valid : EntriesValid externals db)
    (ran : releaseCode db account codeHash (decide (account.codeHash ≠ externals.zeroDigest)) =
      .ok (released, oldSize)) :
    released.accounts = db.accounts ∧ released.usage = db.usage ∧
    EntriesValid externals released ∧
    (account.codeHash ≠ externals.zeroDigest → account.codeHash ≠ codeHash) ∧
    oldSize = db.runningCodeSize externals account * setcodeRamBytesMultiplier ∧
    (∀ k, released.heldRefs k +
        (if k = account.codeKey ∧ account.codeHash ≠ externals.zeroDigest then 1 else 0) =
      db.heldRefs k) ∧
    (∀ k, (k ≠ account.codeKey ∨ 2 ≤ db.heldRefs k) →
      released.codeAt k = db.codeAt k) := by
  obtain ⟨unused, used⟩ := releaseCode_eq_ok ran
  by_cases existing : account.codeHash ≠ externals.zeroDigest
  · obtain ⟨old, found, otherHash, sized, releasedEq⟩ := used (decide_eq_true existing)
    have ⟨member, keyed⟩ := KeyedTable.find_eq_some found
    have sameHash : old.codeHash = account.codeHash := congrArg Prod.fst keyed
    have heldOld : db.heldRefs account.codeKey = old.codeRefCount := by
      unfold Database.heldRefs
      rw [← keyed]
      exact RefCounts.held_of_mem db.codesUnique member
    have running : db.runningCodeSize externals account = old.code.length := by
      unfold Database.runningCodeSize Database.runningCode
      rw [if_neg existing, found]
      rfl
    have positive := (valid old member).1
    by_cases last : old.codeRefCount = 1
    · -- the last reference: the entry goes
      rw [if_pos last] at releasedEq
      subst releasedEq
      refine ⟨rfl, rfl, fun entry member' => valid entry (Database.mem_removeCode member'),
        fun _ => sameHash ▸ otherHash, by rw [sized, running], fun k => ?_, fun k kept => ?_⟩
      · rw [Database.heldRefs_removeCode, keyed]
        by_cases same : k = account.codeKey
        · rw [if_pos same, if_pos ⟨same, existing⟩, same, heldOld, last]
        · rw [if_neg same, if_neg fun both => same both.1, Nat.add_zero]
      · have notOld : k ≠ account.codeKey := by
          rcases kept with other | many
          · exact other
          · intro same
            rw [same, heldOld, last] at many
            omega
        rw [Database.codeAt_removeCode, keyed, if_neg notOld]
    · -- other references remain: the entry loses one
      rw [if_neg last] at releasedEq
      subst releasedEq
      refine ⟨rfl, rfl, ?_, fun _ => sameHash ▸ otherHash, by rw [sized, running], fun k => ?_,
        fun k _ => Database.codeAt_modifyCode db _ k fun _ => rfl⟩
      · intro entry member'
        obtain ⟨before, beforeMember, rfl⟩ := KeyedTable.mem_modify member'
        have ⟨beforePositive, beforeCode, beforeHash⟩ := valid before beforeMember
        by_cases updated : before.byCodeHash = old.byCodeHash
        · have same : before = old :=
            KeyedTable.eq_of_key_eq db.codesUnique beforeMember member updated
          subst same
          rw [if_pos updated]
          exact ⟨by dsimp only; omega, beforeCode, beforeHash⟩
        · rw [if_neg updated]
          exact ⟨beforePositive, beforeCode, beforeHash⟩
      · by_cases same : k = account.codeKey
        · have lowered : (db.modifyCode old.byCodeHash
              (fun o => { o with codeRefCount := o.codeRefCount - 1 }) (fun _ => rfl)).heldRefs
                old.byCodeHash = old.codeRefCount - 1 :=
            Database.heldRefs_modifyCode_self member
          rw [same, if_pos ⟨rfl, existing⟩, heldOld, ← keyed, lowered]
          omega
        · have other : k ≠ old.byCodeHash := keyed ▸ same
          rw [if_neg fun both => same both.1, Nat.add_zero,
            Database.heldRefs_modifyCode_of_ne db other]
  · -- no code before: nothing is released
    have ⟨releasedEq, sizeZero⟩ := unused (decide_eq_false existing)
    subst released
    subst oldSize
    have running : db.runningCodeSize externals account = 0 := by
      unfold Database.runningCodeSize Database.runningCode
      rw [if_pos (not_not.mp existing)]
      rfl
    refine ⟨rfl, rfl, valid, fun existing' => absurd existing' existing, by rw [running]; simp,
      fun k => ?_, fun _ _ => rfl⟩
    rw [if_neg fun both => existing both.2, Nat.add_zero]

/-- **Acquiring the new code.** Under the key of the new code the table holds one reference
more, and stores there the code it stored before, or the code sent when it stored none. -/
theorem acquireCode_moves {externals : Externals Digest} {db acquired : Database Digest}
    {codeHash : Digest} {act : Setcode} {headBlockNum : UInt32} (valid : EntriesValid externals db)
    (hashed : act.code ≠ [] → codeHash = externals.hash act.code)
    (ran : acquireCode db codeHash act headBlockNum = .ok acquired) :
    acquired.accounts = db.accounts ∧ acquired.usage = db.usage ∧
    EntriesValid externals acquired ∧
    (∀ k, acquired.heldRefs k =
      db.heldRefs k +
        if k = (codeHash, act.vmtype, act.vmversion) ∧ act.code ≠ [] then 1 else 0) ∧
    (∀ k, k ≠ (codeHash, act.vmtype, act.vmversion) → acquired.codeAt k = db.codeAt k) ∧
    (act.code ≠ [] →
      ∃ code, acquired.codeAt (codeHash, act.vmtype, act.vmversion) = some code ∧
      externals.hash code = codeHash ∧
      (db.codeAt (codeHash, act.vmtype, act.vmversion) = none ∨
        db.codeAt (codeHash, act.vmtype, act.vmversion) = some code)) := by
  obtain ⟨empty, nonempty⟩ := acquireCode_eq_ok ran
  by_cases sent : act.code ≠ []
  · rcases nonempty sent with ⟨entry, found, acquiredEq⟩ | ⟨missing, created⟩
    · -- the code is stored already: its entry gains one
      subst acquiredEq
      have ⟨member, keyed⟩ := KeyedTable.find_eq_some found
      have ⟨_, storedCode, storedHash⟩ := valid entry member
      have raised : (db.modifyCode entry.byCodeHash
          (fun o => { o with codeRefCount := o.codeRefCount + 1 }) (fun _ => rfl)).heldRefs
            entry.byCodeHash = entry.codeRefCount + 1 :=
        Database.heldRefs_modifyCode_self member
      have heldEntry : db.heldRefs entry.byCodeHash = entry.codeRefCount :=
        RefCounts.held_of_mem db.codesUnique member
      have sameCode : ∀ k, (db.modifyCode entry.byCodeHash
          (fun o => { o with codeRefCount := o.codeRefCount + 1 }) (fun _ => rfl)).codeAt k =
            db.codeAt k :=
        fun k => Database.codeAt_modifyCode db _ k fun _ => rfl
      refine ⟨rfl, rfl, ?_, fun k => ?_, fun k _ => sameCode k,
        fun _ => ⟨entry.code, ?_, ?_, .inr ?_⟩⟩
      · intro updated member'
        obtain ⟨before, beforeMember, rfl⟩ := KeyedTable.mem_modify member'
        have ⟨beforePositive, beforeCode, beforeHash⟩ := valid before beforeMember
        by_cases raisedHere : before.byCodeHash = entry.byCodeHash
        · rw [if_pos raisedHere]
          exact ⟨Nat.succ_pos _, beforeCode, beforeHash⟩
        · rw [if_neg raisedHere]
          exact ⟨beforePositive, beforeCode, beforeHash⟩
      · by_cases same : k = (codeHash, act.vmtype, act.vmversion)
        · rw [if_pos ⟨same, sent⟩, same, ← keyed, raised, heldEntry]
        · rw [if_neg fun both => same both.1, Nat.add_zero,
            Database.heldRefs_modifyCode_of_ne db (keyed ▸ same)]
      · rw [sameCode]
        unfold Database.codeAt
        rw [found]
        rfl
      · rw [storedHash]
        exact congrArg Prod.fst keyed
      · unfold Database.codeAt
        rw [found]
        rfl
    · -- no entry holds the code: one is created with a single reference
      obtain ⟨fresh, appended, sameAccounts, sameUsage⟩ := Database.createCode_eq_ok created
      refine ⟨sameAccounts, sameUsage, ?_, fun k => ?_, fun k other => ?_,
        fun _ => ⟨act.code, ?_, (hashed sent).symm, .inl ?_⟩⟩
      · intro entry member'
        rw [appended, List.mem_append, List.mem_singleton] at member'
        rcases member' with old | rfl
        · exact valid entry old
        · exact ⟨Nat.one_pos, sent, (hashed sent).symm⟩
      · rw [Database.heldRefs_append db acquired appended]
        by_cases same : k = (codeHash, act.vmtype, act.vmversion)
        · rw [if_pos same.symm, if_pos ⟨same, sent⟩]
        · rw [if_neg fun keyed => same keyed.symm, if_neg fun both => same both.1]
      · rw [Database.codeAt_append fresh appended, if_neg fun keyed => other keyed.symm]
      · rw [Database.codeAt_append fresh appended, if_pos rfl]
      · unfold Database.codeAt
        rw [missing]
        rfl
  · -- empty code: nothing is acquired
    have same := empty (not_not.mp sent)
    subst acquired
    refine ⟨rfl, rfl, valid, fun k => ?_, fun _ _ => rfl, fun sent' => absurd sent' sent⟩
    rw [if_neg fun both => sent both.2, Nat.add_zero]

omit [DecidableEq Digest] in
/-- **Charging the RAM.** The last stage charges the account the difference of the sizes, and
changes nothing else. -/
theorem chargeRam_eq_ok {modified db' : Database Digest} {owner : Name} {newSize oldSize : Int}
    (ran : (if newSize ≠ oldSize then modified.addPendingRamUsage owner (newSize - oldSize)
      else pure modified) = .ok db') :
    db'.accounts = modified.accounts ∧ db'.codes = modified.codes ∧
      ∀ name, db'.getAccountRamUsage name =
        if name = owner then
          (fun usage : Nat => ((usage : Int) + (newSize - oldSize)).toNat) <$>
            modified.getAccountRamUsage name
        else modified.getAccountRamUsage name := by
  by_cases differ : newSize ≠ oldSize
  · rw [if_pos differ] at ran
    exact Database.addPendingRamUsage_eq_ok ran
  · rw [if_neg differ] at ran
    cases ran
    have nothing : newSize - oldSize = 0 := by omega
    refine ⟨rfl, rfl, fun name => ?_⟩
    split
    · rw [nothing]
      cases modified.getAccountRamUsage name <;> simp [Functor.map, Except.map]
    · rfl

/-- What a `setcode` that returns does to the tables, for its account `account` and the hash
`codeHash` it computes. -/
structure Moved (externals : Externals Digest) (context : ApplyContext) (act : Setcode)
    (db db' : Database Digest) (account : AccountMetadataObject Digest) (codeHash : Digest) :
    Prop where
  member : account ∈ db.accounts
  named : account.name = act.account
  hashed : act.code ≠ [] → codeHash = externals.hash act.code
  cleared : act.code = [] → codeHash = externals.zeroDigest
  /-- The account moves to a key other than its old one. -/
  distinct : account.codeKey ≠ (codeHash, act.vmtype, act.vmversion)
  accounts : db'.accounts = (db.modifyAccount act.account (setAccountCode codeHash act context)
    (setAccountCode_name codeHash act context)).accounts
  entries : EntriesValid externals db'
  /-- One reference leaves the old key and one arrives at the new key. -/
  heldRefs : ∀ k, db'.heldRefs k +
      (if k = account.codeKey ∧ account.codeHash ≠ externals.zeroDigest then 1 else 0) =
    db.heldRefs k + if k = (codeHash, act.vmtype, act.vmversion) ∧ act.code ≠ [] then 1 else 0
  /-- The code stays under every other key, and under the old key unless its last reference
  left. -/
  codeAt : ∀ k, k ≠ (codeHash, act.vmtype, act.vmversion) →
    (k ≠ account.codeKey ∨ 2 ≤ db.heldRefs k) → db'.codeAt k = db.codeAt k
  /-- Under the new key is stored the code stored there before, or else the code sent. -/
  newCode : act.code ≠ [] →
    ∃ code, db'.codeAt (codeHash, act.vmtype, act.vmversion) = some code ∧
    externals.hash code = codeHash ∧
    (db.codeAt (codeHash, act.vmtype, act.vmversion) = none ∨
      db.codeAt (codeHash, act.vmtype, act.vmversion) = some code)
  /-- The account is charged the size of the code sent less that of the code it ran. -/
  ramUsage : ∀ name, db'.getAccountRamUsage name =
    if name = act.account then
      (fun usage : Nat => ((usage : Int) + ((act.code.length : Int) * setcodeRamBytesMultiplier -
        (db.runningCodeSize externals account : Int) * setcodeRamBytesMultiplier)).toNat) <$>
          db.getAccountRamUsage name
    else db.getAccountRamUsage name

/-- **A `setcode` that returns moves its account.** The stages together, when the code sent, if
not empty, does not hash to the all-zeros hash. -/
theorem applyEosioSetcode_moved {externals : Externals Digest} {context : ApplyContext}
    {act : Setcode} {db db' : Database Digest}
    (nonzero : act.code ≠ [] → externals.hash act.code ≠ externals.zeroDigest)
    (valid : EntriesValid externals db)
    (ran : applyEosioSetcode externals context act db = .ok db') :
    ∃ account codeHash, Moved externals context act db db' account codeHash := by
  obtain ⟨-, -, -, codeHash, account, released, oldSize, acquired, hashedOk, member, named,
    notCleared, releasedOk, acquiredOk, charged⟩ := applyEosioSetcode_eq_ok ran
  obtain ⟨hashed, cleared⟩ := hashCode_eq_ok hashedOk
  obtain ⟨releasedAccounts, releasedUsage, releasedValid, otherHash, oldSized, releasedHeld,
    releasedCode⟩ := releaseCode_moves valid releasedOk
  obtain ⟨acquiredAccounts, acquiredUsage, acquiredValid, acquiredHeld, acquiredCode,
    acquiredNew⟩ := acquireCode_moves releasedValid hashed acquiredOk
  obtain ⟨finalAccounts, finalCodes, finalRam⟩ := chargeRam_eq_ok charged
  have distinct : account.codeKey ≠ (codeHash, act.vmtype, act.vmversion) := by
    intro same
    have sameHash : account.codeHash = codeHash := congrArg Prod.fst same
    by_cases existing : account.codeHash ≠ externals.zeroDigest
    · exact otherHash existing sameHash
    · -- without code before, the code sent is not empty and its hash is not the zero hash
      rcases notCleared with sent | existing'
      · exact nonzero sent
          ((hashed sent).symm.trans (sameHash.symm.trans (not_not.mp existing)))
      · exact existing existing'
  refine ⟨account, codeHash, member, named, hashed, cleared, distinct, ?_, ?_, fun k => ?_,
    fun k notNew kept => ?_, fun sent => ?_, fun name => ?_⟩
  · rw [finalAccounts]
    unfold Database.modifyAccount
    dsimp only
    rw [acquiredAccounts, releasedAccounts]
  · intro entry member'
    rw [finalCodes] at member'
    exact acquiredValid entry member'
  · rw [Database.heldRefs_of_codes_eq finalCodes]
    have lowered := releasedHeld k
    have raised := acquiredHeld k
    change acquired.heldRefs k + _ = _
    omega
  · rw [Database.codeAt_of_codes_eq finalCodes]
    change acquired.codeAt k = _
    rw [acquiredCode k notNew, releasedCode k kept]
  · obtain ⟨code, stored, hashOk, before⟩ := acquiredNew sent
    refine ⟨code, ?_, hashOk, ?_⟩
    · rw [Database.codeAt_of_codes_eq finalCodes]
      exact stored
    · rw [← releasedCode _ (.inl (Ne.symm distinct))]
      exact before
  · have sameUsage : (acquired.modifyAccount act.account (setAccountCode codeHash act context)
        (setAccountCode_name codeHash act context)).usage = db.usage :=
      acquiredUsage.trans releasedUsage
    rw [finalRam name, Database.getAccountRamUsage_of_usage_eq sameUsage, oldSized]

/-! ### Exact reference counts -/

/-- **The code table counts references exactly.** Under a key whose hash is not the all-zeros
hash it holds as many references as there are accounts naming the key, under the others none,
and its entries are valid. -/
structure ExactRefCounts (externals : Externals Digest) (db : Database Digest) : Prop where
  heldRefs : ∀ k, db.heldRefs k = if k.1 = externals.zeroDigest then 0 else db.referrers k
  entries : EntriesValid externals db

/-- The RAM charged to every account is what genesis charged it and ten bytes for each byte of
the code it runs. -/
def Charged (externals : Externals Digest) (genesis db : Database Digest) : Prop :=
  ∀ account ∈ db.accounts, db.getAccountRamUsage account.name =
    (fun usage => usage + setcodeRamBytesMultiplier * db.runningCodeSize externals account) <$>
      genesis.getAccountRamUsage account.name

section Invariants

variable {externals : Externals Digest}

theorem referrers_pos {db : Database Digest} {account : AccountMetadataObject Digest}
    (member : account ∈ db.accounts) : 0 < db.referrers account.codeKey :=
  List.countP_pos_iff.mpr ⟨account, member, by simp⟩

/-- An account with code has an entry under its key. -/
theorem ExactRefCounts.exists_entry {db : Database Digest} (exact : ExactRefCounts externals db)
    {account : AccountMetadataObject Digest} (member : account ∈ db.accounts)
    (hasCode : account.codeHash ≠ externals.zeroDigest) :
    ∃ entry ∈ db.codes, entry.byCodeHash = account.codeKey := by
  have held : 0 < db.heldRefs account.codeKey := by
    rw [exact.heldRefs, if_neg hasCode]
    exact referrers_pos member
  exact RefCounts.exists_mem_of_held_pos held

/-- An account with code finds it stored under its key. -/
theorem ExactRefCounts.codeAt_ne_none {db : Database Digest} (exact : ExactRefCounts externals db)
    {account : AccountMetadataObject Digest} (member : account ∈ db.accounts)
    (hasCode : account.codeHash ≠ externals.zeroDigest) : db.codeAt account.codeKey ≠ none := by
  obtain ⟨entry, entryMember, keyed⟩ := exact.exists_entry member hasCode
  unfold Database.codeAt Database.findCode
  rw [← keyed, KeyedTable.find_eq_some_of_mem db.codesUnique entryMember]
  exact Option.some_ne_none _

section Moved

variable {context : ApplyContext} {act : Setcode} {db db' : Database Digest}
  {account : AccountMetadataObject Digest} {codeHash : Digest}

/-- The accounts naming a key move as the account of the action does. -/
theorem Moved.referrers (moved : Moved externals context act db db' account codeHash)
    (k : Digest × UInt8 × UInt8) :
    db'.referrers k + (if account.codeKey = k then 1 else 0) =
      db.referrers k + if (codeHash, act.vmtype, act.vmversion) = k then 1 else 0 := by
  have moves := Database.referrers_modifyAccount moved.member (setAccountCode codeHash act context)
    (setAccountCode_name codeHash act context) k
  rw [setAccountCode_codeKey, moved.named] at moves
  unfold Database.referrers
  rw [moved.accounts]
  exact moves

/-- **A `setcode` keeps the counts exact**: the table and the accounts move by the same one
reference. -/
theorem ExactRefCounts.setcode
    (nonzero : act.code ≠ [] → externals.hash act.code ≠ externals.zeroDigest)
    (exact : ExactRefCounts externals db)
    (moved : Moved externals context act db db' account codeHash) :
    ExactRefCounts externals db' := by
  refine ⟨fun k => ?_, moved.entries⟩
  have table := moved.heldRefs k
  have before := exact.heldRefs k
  have accounts := moved.referrers k
  by_cases zero : k.1 = externals.zeroDigest
  · -- neither the old nor the new key of the account is a key with the zero hash
    have notOld : ¬ (k = account.codeKey ∧ account.codeHash ≠ externals.zeroDigest) :=
      fun ⟨same, existing⟩ => existing (by rw [same] at zero; exact zero)
    have notNew : ¬ (k = (codeHash, act.vmtype, act.vmversion) ∧ act.code ≠ []) :=
      fun ⟨same, sent⟩ => nonzero sent (by rw [← moved.hashed sent, ← zero, same])
    rw [if_pos zero] at before ⊢
    rw [if_neg notOld, if_neg notNew, before] at table
    omega
  · -- under any other key the account's old and new keys count for the table too
    have oldKey :
        (if k = account.codeKey ∧ account.codeHash ≠ externals.zeroDigest then 1 else 0) =
          if account.codeKey = k then 1 else 0 := by
      by_cases same : account.codeKey = k
      · have existing : account.codeHash ≠ externals.zeroDigest := fun cleared =>
          zero (by rw [← same]; exact cleared)
        rw [if_pos same, if_pos ⟨same.symm, existing⟩]
      · rw [if_neg same, if_neg fun both => same both.1.symm]
    have newKey : (if k = (codeHash, act.vmtype, act.vmversion) ∧ act.code ≠ [] then 1 else 0) =
        if (codeHash, act.vmtype, act.vmversion) = k then 1 else 0 := by
      by_cases same : (codeHash, act.vmtype, act.vmversion) = k
      · have sent : act.code ≠ [] := fun empty =>
          zero (by rw [← same]; exact moved.cleared empty)
        rw [if_pos same, if_pos ⟨same.symm, sent⟩]
      · rw [if_neg same, if_neg fun both => same both.1.symm]
    rw [if_neg zero] at before ⊢
    rw [oldKey, newKey, before] at table
    omega

/-- The account of the action runs code of the size it sent, when no code stored after it with
the hash of the code sent has another size. -/
theorem Moved.runningCodeSize_self
    (nonzero : act.code ≠ [] → externals.hash act.code ≠ externals.zeroDigest)
    (sizes : ∀ entry ∈ db'.codes, externals.hash entry.code = externals.hash act.code →
      entry.code.length = act.code.length)
    (moved : Moved externals context act db db' account codeHash) :
    db'.runningCodeSize externals (setAccountCode codeHash act context account) =
      act.code.length := by
  rw [Database.runningCodeSize_eq_codeAt, setAccountCode_codeHash, setAccountCode_codeKey]
  by_cases sent : act.code ≠ []
  · obtain ⟨code, stored, hashOk, -⟩ := moved.newCode sent
    have hasCode : codeHash ≠ externals.zeroDigest := moved.hashed sent ▸ nonzero sent
    -- the code under the new key is held by an entry of the table
    obtain ⟨entry, found, rfl⟩ := Option.map_eq_some_iff.mp stored
    rw [if_neg hasCode, stored]
    exact sizes entry (KeyedTable.find_eq_some found).1 (hashOk.trans (moved.hashed sent))
  · have empty := not_not.mp sent
    rw [if_pos (moved.cleared empty), empty]
    rfl

/-- Every other account runs the code it ran. -/
theorem Moved.runningCodeSize_of_ne (exact : ExactRefCounts externals db)
    (moved : Moved externals context act db db' account codeHash)
    {other : AccountMetadataObject Digest} (otherMember : other ∈ db.accounts)
    (otherName : other.name ≠ act.account) :
    db'.runningCodeSize externals other = db.runningCodeSize externals other := by
  rw [Database.runningCodeSize_eq_codeAt, Database.runningCodeSize_eq_codeAt]
  by_cases noCode : other.codeHash = externals.zeroDigest
  · rw [if_pos noCode, if_pos noCode]
  rw [if_neg noCode, if_neg noCode]
  suffices same : db'.codeAt other.codeKey = db.codeAt other.codeKey by rw [same]
  have stored := exact.codeAt_ne_none otherMember noCode
  by_cases toNew : other.codeKey = (codeHash, act.vmtype, act.vmversion)
  · -- it runs the new code, which was stored already
    have sent : act.code ≠ [] := fun empty =>
      noCode ((congrArg Prod.fst toNew).trans (moved.cleared empty))
    obtain ⟨code, storedNew, -, before⟩ := moved.newCode sent
    rw [toNew] at stored ⊢
    rcases before with missing | found
    · exact absurd missing stored
    · rw [storedNew, found]
  · refine moved.codeAt _ toNew ?_
    by_cases fromOld : other.codeKey = account.codeKey
    · -- it runs the old code, which keeps this account's reference
      right
      have stays : other ∈ db'.accounts := by
        rw [moved.accounts]
        exact KeyedTable.mem_modify_of_ne otherMember otherName
      have countedAfter := referrers_pos stays
      have moves := moved.referrers other.codeKey
      rw [if_pos fromOld.symm, if_neg fun same => toNew same.symm] at moves
      rw [exact.heldRefs, if_neg noCode]
      omega
    · exact .inl fromOld

/-- **A `setcode` keeps the RAM charged**: its account is charged the difference of the sizes,
and the others run what they ran. -/
theorem Charged.setcode
    (nonzero : act.code ≠ [] → externals.hash act.code ≠ externals.zeroDigest)
    (sizes : ∀ entry ∈ db'.codes, externals.hash entry.code = externals.hash act.code →
      entry.code.length = act.code.length)
    {genesis : Database Digest} (exact : ExactRefCounts externals db)
    (charged : Charged externals genesis db)
    (moved : Moved externals context act db db' account codeHash) :
    Charged externals genesis db' := by
  intro after afterMember
  rw [moved.accounts] at afterMember
  obtain ⟨before, beforeMember, rfl⟩ := KeyedTable.mem_modify afterMember
  by_cases renamed : before.name = act.account
  · -- the account of the action
    have same : before = account := KeyedTable.eq_of_key_eq db.accountsUnique beforeMember
      moved.member (renamed.trans moved.named.symm)
    subst same
    rw [if_pos renamed, moved.ramUsage, setAccountCode_name, if_pos renamed,
      charged before beforeMember, moved.runningCodeSize_self nonzero sizes]
    cases genesis.getAccountRamUsage before.name with
    | error failure => rfl
    | ok usage =>
      simp only [Functor.map, Except.map, setcodeRamBytesMultiplier, Except.ok.injEq]
      omega
  · rw [if_neg renamed, moved.ramUsage, if_neg renamed, charged before beforeMember,
      moved.runningCodeSize_of_ne exact beforeMember renamed]

end Moved

end Invariants

/-! ### The codes stored -/

/-- Every code the table stores is one that `sends` admits. -/
def StoredSent (sends : List UInt8 → Prop) (db : Database Digest) : Prop :=
  ∀ entry ∈ db.codes, sends entry.code

section StoredSent

variable {sends : List UInt8 → Prop} {db : Database Digest}

theorem StoredSent.modifyCode (stored : StoredSent sends db) (k : Digest × UInt8 × UInt8)
    {update : CodeObject Digest → CodeObject Digest}
    {keepsKey : ∀ entry, (update entry).byCodeHash = entry.byCodeHash}
    (keepsCode : ∀ entry, (update entry).code = entry.code) :
    StoredSent sends (db.modifyCode k update keepsKey) := by
  intro entry member
  obtain ⟨before, beforeMember, rfl⟩ := KeyedTable.mem_modify member
  split
  · rw [keepsCode]
    exact stored before beforeMember
  · exact stored before beforeMember

theorem StoredSent.removeCode (stored : StoredSent sends db) (k : Digest × UInt8 × UInt8) :
    StoredSent sends (db.removeCode k) :=
  fun entry member => stored entry (Database.mem_removeCode member)

/-- **A `setcode` stores no code but the one it sends**: releasing lowers or removes the old
entry, acquiring raises an entry or creates one holding the code sent, and charging the RAM leaves
the code table alone. -/
theorem StoredSent.setcode {externals : Externals Digest} {context : ApplyContext} {act : Setcode}
    {db' : Database Digest} (stored : StoredSent sends db) (sent : sends act.code)
    (ran : applyEosioSetcode externals context act db = .ok db') : StoredSent sends db' := by
  obtain ⟨-, -, -, codeHash, account, released, oldSize, acquired, -, -, -, -, releasedOk,
    acquiredOk, charged⟩ := applyEosioSetcode_eq_ok ran
  have releasedStored : StoredSent sends released := by
    obtain ⟨kept, lowered⟩ := releaseCode_eq_ok releasedOk
    cases existing : decide (account.codeHash ≠ externals.zeroDigest)
    · rw [(kept existing).1]
      exact stored
    · obtain ⟨old, -, -, -, releasedEq⟩ := lowered existing
      rw [releasedEq]
      split
      · exact stored.removeCode _
      · exact stored.modifyCode _ fun _ => rfl
  have acquiredStored : StoredSent sends acquired := by
    obtain ⟨empty, nonempty⟩ := acquireCode_eq_ok acquiredOk
    by_cases nonEmpty : act.code ≠ []
    · rcases nonempty nonEmpty with ⟨entry, -, rfl⟩ | ⟨-, created⟩
      · exact releasedStored.modifyCode _ fun _ => rfl
      · intro entry member
        rw [(Database.createCode_eq_ok created).2.1] at member
        rcases List.mem_append.mp member with old | new
        · exact releasedStored entry old
        · rw [List.mem_singleton.mp new]
          exact sent
    · rw [empty (not_not.mp nonEmpty)]
      exact releasedStored
  intro entry member
  rw [(chargeRam_eq_ok charged).2.1] at member
  exact acquiredStored entry member

end StoredSent

/-! ### Runs from genesis -/

/-- One transaction carrying a `setcode` of a code that `sends` admits: it commits what the action
returned, or it is rolled back, after a throw of the action or a failure later in the transaction,
and changes nothing. -/
inductive Step (externals : Externals Digest) (sends : List UInt8 → Prop) :
    Database Digest → Database Digest → Prop
  | commit {db db' : Database Digest} (context : ApplyContext) (act : Setcode)
      (sent : sends act.code) :
      applyEosioSetcode externals context act db = .ok db' → Step externals sends db db'
  | rollBack (db : Database Digest) : Step externals sends db db

/-- Genesis: no code is stored and no account runs code. -/
structure Genesis (externals : Externals Digest) (db : Database Digest) : Prop where
  noCodes : db.codes = []
  noContracts : ∀ account ∈ db.accounts, account.codeHash = externals.zeroDigest

section Runs

variable {externals : Externals Digest}

theorem Genesis.exactRefCounts {genesis : Database Digest} (start : Genesis externals genesis) :
    ExactRefCounts externals genesis := by
  refine ⟨fun k => ?_, fun entry member => by rw [start.noCodes] at member; cases member⟩
  have empty : genesis.heldRefs k = 0 := by
    unfold Database.heldRefs
    rw [start.noCodes]
    rfl
  rw [empty]
  split
  · rfl
  · -- every account names a key with the zero hash
    rename_i hasCode
    refine (List.countP_eq_zero.mpr fun account member named => hasCode ?_).symm
    rw [← of_decide_eq_true named]
    exact start.noContracts account member

omit [DecidableEq Digest] in
theorem Genesis.storedSent {sends : List UInt8 → Prop} {genesis : Database Digest}
    (start : Genesis externals genesis) : StoredSent sends genesis := by
  intro entry member
  rw [start.noCodes] at member
  cases member

theorem Genesis.charged {genesis : Database Digest} (start : Genesis externals genesis) :
    Charged externals genesis genesis := by
  intro account member
  have noCode : genesis.runningCodeSize externals account = 0 := by
    rw [Database.runningCodeSize_eq_codeAt, if_pos (start.noContracts account member)]
  rw [noCode]
  cases genesis.getAccountRamUsage account.name <;> rfl

/-- **Every run from genesis keeps the counts exact and the RAM charged**, when no non-empty code
the run sends hashes to the all-zeros hash and no two codes it sends of different sizes share a
hash. The codes stored are codes sent, so the facts reach them too. -/
theorem exactRefCounts_of_run {sends : List UInt8 → Prop}
    (nonzero : ∀ code, sends code → code ≠ [] → externals.hash code ≠ externals.zeroDigest)
    (sizes : ∀ code other, sends code → sends other → externals.hash code = externals.hash other →
      code.length = other.length)
    {genesis db : Database Digest} (start : Genesis externals genesis)
    (run : Relation.ReflTransGen (Step externals sends) genesis db) :
    ExactRefCounts externals db ∧ Charged externals genesis db ∧ StoredSent sends db := by
  induction run with
  | refl => exact ⟨start.exactRefCounts, start.charged, start.storedSent⟩
  | tail _ stepped inductionHypothesis =>
    obtain ⟨exact, charged, stored⟩ := inductionHypothesis
    cases stepped with
    | commit context act sent ran =>
      have storedAfter := stored.setcode sent ran
      have sentNonzero := nonzero act.code sent
      obtain ⟨account, codeHash, moved⟩ := applyEosioSetcode_moved sentNonzero exact.entries ran
      exact ⟨exact.setcode sentNonzero moved,
        charged.setcode sentNonzero
          (fun entry member => sizes entry.code act.code (storedAfter entry member) sent) exact
          moved,
        storedAfter⟩
    | rollBack => exact ⟨exact, charged, stored⟩

end Runs

/-- **Contract code is counted exactly**, in every state a run of `setcode` transactions reaches
from genesis, when every code the run sends is one of `codes`, no non-empty one of them hashes to
the all-zeros hash, and no two of them of different sizes share a hash: each code object counts
the accounts that name its key, one at least; each account with code has exactly one code object
under its key, holding code of that hash; and each account is charged, beyond what genesis charged
it, ten bytes for each byte of the code it runs. -/
theorem setcode_counts_code_references (externals : Externals Digest) (codes : List (List UInt8))
    (nonzero : ∀ code ∈ codes, code ≠ [] → externals.hash code ≠ externals.zeroDigest)
    (sizes : ∀ code ∈ codes, ∀ other ∈ codes, externals.hash code = externals.hash other →
      code.length = other.length)
    {genesis db : Database Digest} (start : Genesis externals genesis)
    (run : Relation.ReflTransGen (Step externals (· ∈ codes)) genesis db) :
    (∀ entry ∈ db.codes,
      entry.codeRefCount =
        db.accounts.countP (fun account => account.codeKey = entry.byCodeHash) ∧
        1 ≤ entry.codeRefCount) ∧
    (∀ account ∈ db.accounts, account.codeHash ≠ externals.zeroDigest →
      ∃ entry ∈ db.codes, entry.byCodeHash = account.codeKey ∧
        externals.hash entry.code = account.codeHash ∧
        ∀ other ∈ db.codes, other.byCodeHash = account.codeKey → other = entry) ∧
    (∀ account ∈ db.accounts,
      db.getAccountRamUsage account.name =
        (fun usage => usage + setcodeRamBytesMultiplier * db.runningCodeSize externals account) <$>
          genesis.getAccountRamUsage account.name) := by
  obtain ⟨exact, charged, stored⟩ := exactRefCounts_of_run nonzero
    (fun code other codeSent otherSent => sizes code codeSent other otherSent) start run
  refine ⟨fun entry member => ?_, fun account member hasCode => ?_, charged⟩
  · obtain ⟨positive, sent, hashed⟩ := exact.entries entry member
    have held := exact.heldRefs entry.byCodeHash
    have own : db.heldRefs entry.byCodeHash = entry.codeRefCount :=
      RefCounts.held_of_mem db.codesUnique member
    have hasCode : entry.codeHash ≠ externals.zeroDigest :=
      hashed ▸ nonzero entry.code (stored entry member) sent
    rw [own, if_neg hasCode] at held
    exact ⟨held, positive⟩
  · obtain ⟨entry, entryMember, keyed⟩ := exact.exists_entry member hasCode
    obtain ⟨-, -, hashed⟩ := exact.entries entry entryMember
    refine ⟨entry, entryMember, keyed, hashed.trans (congrArg Prod.fst keyed),
      fun other otherMember otherKeyed => ?_⟩
    exact KeyedTable.eq_of_key_eq db.codesUnique otherMember entryMember
      (otherKeyed.trans keyed.symm)

/-- A stand-in for `fc::sha256::hash` with a 256-bit digest: the bytes as digits in base 257,
each one above its value, after a leading `1`. No code hashes to the zero digest, and codes of
fewer than 31 bytes have distinct hashes. -/
def wideHash : Externals (BitVec 256) :=
  ⟨fun code => BitVec.ofNat 256 (code.foldl (fun acc byte => acc * 257 + byte.toNat + 1) 1), 0,
    fun _ => none⟩

/-- Two accounts without code, each charged 100 bytes. -/
def twoWideAccounts : Database (BitVec 256) where
  accounts := [⟨⟨1⟩, 0, 0, 0, 0, 0⟩, ⟨⟨2⟩, 0, 0, 0, 0, 0⟩]
  accountsUnique := by unfold KeyedTable.Unique; decide
  codes := []
  codesUnique := List.nodup_nil
  usage := [⟨⟨1⟩, 100⟩, ⟨⟨2⟩, 100⟩]
  usageUnique := by unfold KeyedTable.Unique; decide

/-- A run that shares, replaces and clears code under `wideHash`: the first account sets
`[1, 2]`, the second sets the same code and shares its entry, the first replaces it with
`[3, 4, 5]`, and the second clears its code, which removes the entry of `[1, 2]`. -/
theorem setcode_counts_code_references_of_shared_code :
    ∃ db, Relation.ReflTransGen (Step wideHash (· ∈ [[1, 2], [3, 4, 5], []])) twoWideAccounts db ∧
      db.codes.map CodeObject.code = [[3, 4, 5]] ∧
      (∀ entry ∈ db.codes,
        entry.codeRefCount =
          db.accounts.countP (fun account => account.codeKey = entry.byCodeHash) ∧
          1 ≤ entry.codeRefCount) ∧
      (∀ account ∈ db.accounts, account.codeHash ≠ wideHash.zeroDigest →
        ∃ entry ∈ db.codes, entry.byCodeHash = account.codeKey ∧
          wideHash.hash entry.code = account.codeHash ∧
          ∀ other ∈ db.codes, other.byCodeHash = account.codeKey → other = entry) ∧
      (∀ account ∈ db.accounts,
        db.getAccountRamUsage account.name =
          (fun usage => usage + setcodeRamBytesMultiplier * db.runningCodeSize wideHash account) <$>
            twoWideAccounts.getAccountRamUsage account.name) := by
  have start : Genesis wideHash twoWideAccounts := ⟨rfl, by decide⟩
  have first : Step wideHash (· ∈ [[1, 2], [3, 4, 5], []]) twoWideAccounts _ :=
    .commit ⟨[⟨1⟩], 5, 7⟩ ⟨⟨1⟩, 0, 0, [1, 2]⟩ (by decide) rfl
  have shared := (Relation.ReflTransGen.single first).tail
    (.commit ⟨[⟨2⟩], 6, 8⟩ ⟨⟨2⟩, 0, 0, [1, 2]⟩ (by decide) rfl)
  have replaced := shared.tail (.commit ⟨[⟨1⟩], 7, 9⟩ ⟨⟨1⟩, 0, 0, [3, 4, 5]⟩ (by decide) rfl)
  have cleared := replaced.tail (.commit ⟨[⟨2⟩], 8, 10⟩ ⟨⟨2⟩, 0, 0, []⟩ (by decide) rfl)
  exact ⟨_, cleared, rfl,
    setcode_counts_code_references wideHash _ (by decide) (by decide) start cleared⟩

/-- Two accounts without code, each charged 100 bytes. -/
def twoAccounts : Database (List UInt8) where
  accounts := [⟨⟨1⟩, 0, [], 0, 0, 0⟩, ⟨⟨2⟩, 0, [], 0, 0, 0⟩]
  accountsUnique := by unfold KeyedTable.Unique; decide
  codes := []
  codesUnique := List.nodup_nil
  usage := [⟨⟨1⟩, 100⟩, ⟨⟨2⟩, 100⟩]
  usageUnique := by unfold KeyedTable.Unique; decide

/-- A hash under which the non-empty code `[1, 2]` is the all-zeros hash, the empty list; it is
injective. -/
def zeroingHash : Externals (List UInt8) :=
  ⟨fun code => if code = [1, 2] then [] else 0 :: code, [], fun _ => none⟩

/-- The first account after it sets the code `[1, 2]` under `zeroingHash`. -/
def zeroCodeStored : Database (List UInt8) where
  accounts := [⟨⟨1⟩, 1, [], 7, 0, 0⟩, ⟨⟨2⟩, 0, [], 0, 0, 0⟩]
  accountsUnique := by unfold KeyedTable.Unique; decide
  codes := [⟨[], [1, 2], 1, 6, 0, 0⟩]
  codesUnique := by unfold KeyedTable.Unique; decide
  usage := [⟨⟨1⟩, 120⟩, ⟨⟨2⟩, 100⟩]
  usageUnique := by unfold KeyedTable.Unique; decide

/-- A hash under which `[1]` and `[1, 2]` collide; no non-empty code is the all-zeros hash. -/
def collidingHash : Externals (List UInt8) := ⟨fun code => code.take 1, [], fun _ => none⟩

/-- The first account after it sets `[1]` under `collidingHash`. -/
def collidingFirst : Database (List UInt8) where
  accounts := [⟨⟨1⟩, 1, [1], 7, 0, 0⟩, ⟨⟨2⟩, 0, [], 0, 0, 0⟩]
  accountsUnique := by unfold KeyedTable.Unique; decide
  codes := [⟨[1], [1], 1, 6, 0, 0⟩]
  codesUnique := by unfold KeyedTable.Unique; decide
  usage := [⟨⟨1⟩, 110⟩, ⟨⟨2⟩, 100⟩]
  usageUnique := by unfold KeyedTable.Unique; decide

/-- Then the second account sets `[1, 2]`, which shares the first account's entry. -/
def collidingBoth : Database (List UInt8) where
  accounts := [⟨⟨1⟩, 1, [1], 7, 0, 0⟩, ⟨⟨2⟩, 1, [1], 8, 0, 0⟩]
  accountsUnique := by unfold KeyedTable.Unique; decide
  codes := [⟨[1], [1], 2, 6, 0, 0⟩]
  codesUnique := by unfold KeyedTable.Unique; decide
  usage := [⟨⟨1⟩, 110⟩, ⟨⟨2⟩, 120⟩]
  usageUnique := by unfold KeyedTable.Unique; decide

theorem setcode_miscounts_without_hash_facts :
    (Genesis zeroingHash twoAccounts ∧
      Relation.ReflTransGen (Step zeroingHash (· ∈ [[1, 2]])) twoAccounts zeroCodeStored ∧
      ∃ entry ∈ zeroCodeStored.codes, entry.codeRefCount ≠
        zeroCodeStored.accounts.countP fun account => account.codeKey = entry.byCodeHash) ∧
    (Genesis collidingHash twoAccounts ∧
      Relation.ReflTransGen (Step collidingHash (· ∈ [[1], [1, 2]])) twoAccounts collidingBoth ∧
      ∃ account ∈ collidingBoth.accounts, collidingBoth.getAccountRamUsage account.name ≠
        (fun usage => usage + setcodeRamBytesMultiplier *
          collidingBoth.runningCodeSize collidingHash account) <$>
          twoAccounts.getAccountRamUsage account.name) := by
  refine ⟨⟨⟨rfl, by simp [twoAccounts, zeroingHash]⟩,
      .single (.commit ⟨[⟨1⟩], 5, 7⟩ ⟨⟨1⟩, 0, 0, [1, 2]⟩ (by decide) rfl),
      ⟨_, List.mem_singleton_self _, by decide⟩⟩,
    ⟨⟨rfl, by simp [twoAccounts, collidingHash]⟩, ?_,
      ⟨_, List.mem_cons_of_mem _ (List.mem_singleton_self _), by decide⟩⟩⟩
  -- the first account sets [1], then the second sets [1, 2], found under the same hash
  have first : Step collidingHash (· ∈ [[1], [1, 2]]) twoAccounts collidingFirst :=
    .commit ⟨[⟨1⟩], 5, 7⟩ ⟨⟨1⟩, 0, 0, [1]⟩ (by decide) rfl
  exact (Relation.ReflTransGen.single first).tail
    (.commit ⟨[⟨2⟩], 5, 8⟩ ⟨⟨2⟩, 0, 0, [1, 2]⟩ (by decide) rfl)

end Eosio.Chain.SetCode
