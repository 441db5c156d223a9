/-
This file proves that the totals of `resource_limits_state_object` stay the sums of the positive
limits in force, along every run of `initialize_account`, `set_account_limits` and
`process_account_limit_updates` from `initialize_database`, and that the underflow assertion of
`update_state_and_value` never fires.

A new account's limits of `-1` add nothing to a total; `set_account_limits` writes only pending
rows, which the totals do not count; a pass of `process_account_limit_updates` moves each total
by the old value out and the pending value in, exactly as it changes the row in force. The old
value is one of the terms of the total's sum, so taking it out never underflows. The overflow
assertion can fire; the call then fails and its undo session restores the tables.
-/

import Mathlib
import EosioChain.ResourceLimits

namespace Eosio.Chain.ResourceLimits

open Database

/-! ### The two halves of `update_state_and_value` -/

theorem toNat_uint64Max : uint64Max.toNat = 2 ^ 64 - 1 := rfl

theorem revertValue_eq_ok {total reverted : UInt64} {value : Int64} {debugWhich : String}
    (reverting : revertValue total value debugWhich = .ok reverted) :
    reverted.toNat + value.toNatClampNeg = total.toNat := by
  unfold revertValue at reverting
  split at reverting
  · rename_i positive
    split at reverting
    · rename_i enough
      have held := UInt64.le_iff_toNat_le.mp enough
      rw [← Except.ok.inj reverting, UInt64.toNat_sub_of_le _ _ enough,
        ← Int64.toNat_toUInt64_of_le (Int64.le_of_lt positive)]
      omega
    · cases reverting
  · rename_i nonPositive
    rw [← Except.ok.inj reverting, Int64.toNatClampNeg_eq_zero_iff.mpr (Int64.not_lt.mp nonPositive),
      Nat.add_zero]

/-- A total that holds the old value can have it taken out. -/
theorem revertValue_ok_of_covered (total : UInt64) {value : Int64} (debugWhich : String)
    (covered : value.toNatClampNeg ≤ total.toNat) :
    ∃ reverted, revertValue total value debugWhich = .ok reverted := by
  unfold revertValue
  split
  · rename_i positive
    have held : total ≥ value.toUInt64 := by
      rw [GE.ge, UInt64.le_iff_toNat_le, Int64.toNat_toUInt64_of_le (Int64.le_of_lt positive)]
      exact covered
    rw [if_pos held]
    exact ⟨_, rfl⟩
  · exact ⟨_, rfl⟩

theorem applyPendingValue_eq_ok {total applied : UInt64} {pendingValue : Int64}
    {debugWhich : String} (applying : applyPendingValue total pendingValue debugWhich = .ok applied) :
    applied.toNat = total.toNat + pendingValue.toNatClampNeg := by
  unfold applyPendingValue at applying
  split at applying
  · rename_i positive
    split at applying
    · rename_i fits
      have below := total.toNat_lt
      have room : (uint64Max - total).toNat = 2 ^ 64 - 1 - total.toNat := by
        rw [UInt64.toNat_sub_of_le _ _ (UInt64.le_iff_toNat_le.mpr (by rw [toNat_uint64Max]; omega)),
          toNat_uint64Max]
      have fitting := UInt64.le_iff_toNat_le.mp fits
      rw [room, Int64.toNat_toUInt64_of_le (Int64.le_of_lt positive)] at fitting
      rw [← Except.ok.inj applying, UInt64.toNat_add,
        Int64.toNat_toUInt64_of_le (Int64.le_of_lt positive)]
      exact Nat.mod_eq_of_lt (by omega)
    · cases applying
  · rename_i nonPositive
    rw [← Except.ok.inj applying,
      Int64.toNatClampNeg_eq_zero_iff.mpr (Int64.not_lt.mp nonPositive), Nat.add_zero]

theorem applyPendingValue_eq_error {total : UInt64} {pendingValue : Int64} {debugWhich : String}
    {failure : LimitsError} (failed : applyPendingValue total pendingValue debugWhich = .error failure) :
    failure = .overflow debugWhich := by
  unfold applyPendingValue at failed
  split at failed
  · split at failed
    · cases failed
    · exact (Except.error.inj failed).symm
  · cases failed

/-- **`update_state_and_value` moves the total by the old value out and the pending value in.** -/
theorem updateStateAndValue_eq_ok {total : UInt64} {value pendingValue : Int64}
    {debugWhich : String} {result : UInt64 × Int64}
    (updated : updateStateAndValue total value pendingValue debugWhich = .ok result) :
    result.1.toNat + value.toNatClampNeg = total.toNat + pendingValue.toNatClampNeg ∧
      result.2 = pendingValue := by
  obtain ⟨reverted, reverting, rest⟩ := Transition.bind_eq_ok.mp updated
  obtain ⟨applied, applying, finished⟩ := Transition.bind_eq_ok.mp rest
  have revertedTotal := revertValue_eq_ok reverting
  have appliedTotal := applyPendingValue_eq_ok applying
  rw [← Except.ok.inj finished]
  exact ⟨by dsimp only; omega, rfl⟩

/-- With the old value held by the total, `update_state_and_value` can only fail on overflow. -/
theorem updateStateAndValue_eq_error {total : UInt64} {value pendingValue : Int64}
    {debugWhich : String} {failure : LimitsError} (covered : value.toNatClampNeg ≤ total.toNat)
    (failed : updateStateAndValue total value pendingValue debugWhich = .error failure) :
    failure = .overflow debugWhich := by
  obtain ⟨reverted, reverting⟩ := revertValue_ok_of_covered total debugWhich covered
  unfold updateStateAndValue at failed
  rw [reverting] at failed
  rcases Transition.bind_eq_error failed with revertFailed | ⟨_, _, rest⟩
  · cases revertFailed
  rcases Transition.bind_eq_error rest with applyFailed | ⟨_, _, finished⟩
  · exact applyPendingValue_eq_error applyFailed
  · cases finished

/-! ### Totals over the rows in force -/

/-- The sum, over the rows in force, of the positive part of `field`. -/
def positiveTotal (field : ResourceLimitsObject → Int64) (limits : List ResourceLimitsObject) : Nat :=
  ((limits.filter fun row => !row.pending).map fun row => (field row).toNatClampNeg).sum

/-- What a row adds to `positiveTotal`. -/
def rowWeight (field : ResourceLimitsObject → Int64) (row : ResourceLimitsObject) : Nat :=
  if row.pending then 0 else (field row).toNatClampNeg

theorem positiveTotal_eq_sum (field : ResourceLimitsObject → Int64)
    (limits : List ResourceLimitsObject) :
    positiveTotal field limits = (limits.map (rowWeight field)).sum := by
  induction limits with
  | nil => rfl
  | cons row rest inductionHypothesis =>
    unfold positiveTotal at inductionHypothesis ⊢
    rw [List.filter_cons, List.map_cons, List.sum_cons, rowWeight]
    cases row.pending
    · rw [Bool.not_false, if_pos rfl, if_neg Bool.false_ne_true, List.map_cons, List.sum_cons,
        inductionHypothesis]
    · rw [Bool.not_true, if_neg Bool.false_ne_true, if_pos rfl, Nat.zero_add, inductionHypothesis]

theorem positiveTotal_append (field : ResourceLimitsObject → Int64)
    (limits : List ResourceLimitsObject) (row : ResourceLimitsObject) :
    positiveTotal field (limits ++ [row]) = positiveTotal field limits + rowWeight field row := by
  rw [positiveTotal_eq_sum, positiveTotal_eq_sum, List.map_append, List.sum_append,
    List.map_singleton, List.sum_singleton]

/-- Changing a pending row leaves every total over the rows in force as it was. -/
theorem positiveTotal_modify_pending (field : ResourceLimitsObject → Int64)
    (limits : List ResourceLimitsObject) {k : Bool × Name} (pendingKey : k.1 = true)
    {update : ResourceLimitsObject → ResourceLimitsObject}
    (keepsKey : ∀ row, (update row).byOwner = row.byOwner) :
    positiveTotal field (KeyedTable.modify ResourceLimitsObject.byOwner limits k update) =
      positiveTotal field limits := by
  rw [positiveTotal_eq_sum, positiveTotal_eq_sum]
  refine KeyedTable.sum_modify_of_weight_eq limits k fun row keyed => ?_
  have rowPending : row.pending = true := by rw [← pendingKey, ← keyed]; rfl
  have updatedPending : (update row).pending = true := by
    rw [← rowPending]
    exact congrArg Prod.fst (keepsKey row)
  rw [rowWeight, rowWeight, if_pos rowPending, if_pos updatedPending]

/-- A total is the sum of the positive part of its field over the rows in force. -/
def TotalMatches (field : ResourceLimitsObject → Int64) (total : UInt64)
    (limits : List ResourceLimitsObject) : Prop :=
  total.toNat = positiveTotal field limits

/-- The three totals of the state match the rows in force. -/
structure TotalsMatch (db : Database) : Prop where
  ramBytes : TotalMatches ResourceLimitsObject.ramBytes db.state.totalRamBytes db.limits
  cpuWeight : TotalMatches ResourceLimitsObject.cpuWeight db.state.totalCpuWeight db.limits
  netWeight : TotalMatches ResourceLimitsObject.netWeight db.state.totalNetWeight db.limits

/-- A call that keeps the state and the three totals over the rows in force keeps the match. -/
theorem TotalsMatch.of_totals {db db' : Database} (matched : TotalsMatch db)
    (sameState : db'.state = db.state)
    (sameRamBytes : positiveTotal ResourceLimitsObject.ramBytes db'.limits =
      positiveTotal ResourceLimitsObject.ramBytes db.limits)
    (sameCpuWeight : positiveTotal ResourceLimitsObject.cpuWeight db'.limits =
      positiveTotal ResourceLimitsObject.cpuWeight db.limits)
    (sameNetWeight : positiveTotal ResourceLimitsObject.netWeight db'.limits =
      positiveTotal ResourceLimitsObject.netWeight db.limits) :
    TotalsMatch db' := by
  refine ⟨?_, ?_, ?_⟩ <;> unfold TotalMatches <;> rw [sameState]
  · rw [sameRamBytes]
    exact matched.ramBytes
  · rw [sameCpuWeight]
    exact matched.cpuWeight
  · rw [sameNetWeight]
    exact matched.netWeight

/-- A row in force is held by a matching total. -/
theorem TotalMatches.covered {field : ResourceLimitsObject → Int64} {total : UInt64}
    {limits : List ResourceLimitsObject} (matched : TotalMatches field total limits)
    {row : ResourceLimitsObject} (member : row ∈ limits) (inForce : row.pending = false) :
    (field row).toNatClampNeg ≤ total.toNat := by
  have weight : rowWeight field row = (field row).toNatClampNeg := by
    rw [rowWeight, if_neg (by rw [inForce]; exact Bool.false_ne_true)]
  rw [matched, positiveTotal_eq_sum, ← weight]
  exact List.le_sum_of_mem (List.mem_map_of_mem member)

/-! ### `initialize_account` and `set_account_limits` -/

theorem createLimits_eq_ok {db db' : Database} {row : ResourceLimitsObject}
    (created : db.createLimits row = .ok db') :
    db'.limits = db.limits ++ [row] ∧ db'.state = db.state := by
  unfold createLimits at created
  split at created
  · cases created
  · rw [← Except.ok.inj created]
    exact ⟨rfl, rfl⟩

theorem createUsage_eq_ok {db db' : Database} {owner : Name} (created : db.createUsage owner = .ok db') :
    db'.limits = db.limits ∧ db'.state = db.state := by
  unfold createUsage at created
  split at created
  · cases created
  · rw [← Except.ok.inj created]
    exact ⟨rfl, rfl⟩

theorem initializeAccount_totalsMatch {db db' : Database} {account : Name}
    (matched : TotalsMatch db) (initialized : db.initializeAccount account = .ok db') :
    TotalsMatch db' := by
  obtain ⟨created, limitsCreated, usageCreated⟩ := Transition.bind_eq_ok.mp initialized
  obtain ⟨appended, sameState⟩ := createLimits_eq_ok limitsCreated
  obtain ⟨sameLimits, sameState'⟩ := createUsage_eq_ok usageCreated
  -- the new row's limits of `-1` add nothing to any total
  have unchanged : ∀ field : ResourceLimitsObject → Int64,
      field ⟨account, false, -1, -1, -1⟩ = -1 →
        positiveTotal field db'.limits = positiveTotal field db.limits := by
    intro field unlimited
    rw [sameLimits, appended, positiveTotal_append, rowWeight, if_neg Bool.false_ne_true, unlimited,
      Int64.toNatClampNeg_eq_zero_iff.mpr (by decide), Nat.add_zero]
  exact matched.of_totals (sameState'.trans sameState) (unchanged ResourceLimitsObject.ramBytes rfl)
    (unchanged ResourceLimitsObject.cpuWeight rfl) (unchanged ResourceLimitsObject.netWeight rfl)

/-- The row `get_or_create_pending_account_limits` returns is pending, and the call changes no
total over the rows in force. -/
theorem getOrCreatePendingAccountLimits_eq_ok {db db' : Database} {account : Name}
    {row : ResourceLimitsObject}
    (gotten : db.getOrCreatePendingAccountLimits account = .ok (db', row)) :
    row.pending = true ∧ db'.state = db.state ∧
      ∀ field, positiveTotal field db'.limits = positiveTotal field db.limits := by
  unfold getOrCreatePendingAccountLimits at gotten
  split at gotten
  · rename_i pendingLimits found
    obtain ⟨rfl, rfl⟩ := Prod.mk.inj (Except.ok.inj gotten)
    exact ⟨congrArg Prod.fst (KeyedTable.find_eq_some found).2, rfl, fun _ => rfl⟩
  · split at gotten
    · cases gotten
    · rename_i limits _
      obtain ⟨created, createdOk, paired⟩ := Transition.map_eq_ok.mp gotten
      obtain ⟨rfl, rfl⟩ := Prod.mk.inj paired
      obtain ⟨appended, sameState⟩ := createLimits_eq_ok createdOk
      refine ⟨rfl, sameState, fun field => ?_⟩
      rw [appended, positiveTotal_append, rowWeight, if_pos rfl, Nat.add_zero]

theorem setAccountLimits_totalsMatch {db db' : Database} {account : Name}
    {ramBytes netWeight cpuWeight : Int64} {decreasedLimit : Bool} (matched : TotalsMatch db)
    (set : db.setAccountLimits account ramBytes netWeight cpuWeight = .ok (db', decreasedLimit)) :
    TotalsMatch db' := by
  obtain ⟨⟨gottenDb, limits⟩, gotten, finished⟩ := Transition.bind_eq_ok.mp set
  obtain ⟨pending, sameState, sameTotals⟩ := getOrCreatePendingAccountLimits_eq_ok gotten
  obtain ⟨rfl, -⟩ := Prod.mk.inj (Except.ok.inj finished)
  have unchanged : ∀ field, positiveTotal field (gottenDb.modifyLimits limits.byOwner
      (fun pendingLimits => { pendingLimits with
        ramBytes := ramBytes, netWeight := netWeight, cpuWeight := cpuWeight })
      fun _ => rfl).limits = positiveTotal field db.limits := fun field => by
    rw [← sameTotals field]
    exact positiveTotal_modify_pending field gottenDb.limits pending fun _ => rfl
  exact matched.of_totals sameState (unchanged _) (unchanged _) (unchanged _)

/-! ### `process_account_limit_updates` -/

/-- **A pass moves a total as it moves the row in force**: the old value of the row in force
out and the pending value in, with the pending row gone. -/
theorem TotalMatches.collapse (field : ResourceLimitsObject → Int64)
    {limits : List ResourceLimitsObject}
    (unique : KeyedTable.Unique ResourceLimitsObject.byOwner limits)
    {actualEntry itr : ResourceLimitsObject} (actualMember : actualEntry ∈ limits)
    (inForce : actualEntry.pending = false) (itrMember : itr ∈ limits) (itrPending : itr.pending = true)
    (update : ResourceLimitsObject → ResourceLimitsObject)
    (keepsKey : ∀ row, (update row).byOwner = row.byOwner) {total total' : UInt64}
    (moved : total'.toNat + (field actualEntry).toNatClampNeg =
      total.toNat + (field (update actualEntry)).toNatClampNeg)
    (matched : TotalMatches field total limits) :
    TotalMatches field total' (KeyedTable.erase ResourceLimitsObject.byOwner
      (KeyedTable.modify ResourceLimitsObject.byOwner limits actualEntry.byOwner update)
      itr.byOwner) := by
  have otherKey : itr.byOwner ≠ actualEntry.byOwner := fun same => by
    have pendingSame := congrArg Prod.fst same
    dsimp only [ResourceLimitsObject.byOwner] at pendingSame
    rw [itrPending, inForce] at pendingSame
    cases pendingSame
  have updatedInForce : (update actualEntry).pending = false := by
    rw [← inForce]
    exact congrArg Prod.fst (keepsKey actualEntry)
  have erased := KeyedTable.sum_erase (KeyedTable.unique_modify unique _ keepsKey)
    (KeyedTable.mem_modify_of_ne itrMember otherKey) (rowWeight field)
  have modified := KeyedTable.sum_modify unique actualMember update (rowWeight field)
  rw [rowWeight, if_pos itrPending] at erased
  rw [rowWeight, rowWeight, if_neg (by rw [inForce]; exact Bool.false_ne_true),
    if_neg (by rw [updatedInForce]; exact Bool.false_ne_true)] at modified
  unfold TotalMatches at matched ⊢
  rw [positiveTotal_eq_sum] at matched ⊢
  omega

/-- One pass keeps the totals matched. -/
theorem collapsePending_totalsMatch {db db' : Database} {itr : ResourceLimitsObject}
    (matched : TotalsMatch db) (chosen : db.firstPending = some itr)
    (collapsed : db.collapsePending itr = .ok db') : TotalsMatch db' := by
  obtain ⟨itrMember, itrPending⟩ := firstPending_eq_some chosen
  unfold collapsePending at collapsed
  split at collapsed
  · rename_i actualEntry found
    obtain ⟨actualMember, actualKey⟩ := KeyedTable.find_eq_some found
    have inForce : actualEntry.pending = false := congrArg Prod.fst actualKey
    obtain ⟨⟨totalRamBytes, ramBytes⟩, ramUpdated, rest⟩ := Transition.bind_eq_ok.mp collapsed
    obtain ⟨⟨totalCpuWeight, cpuWeight⟩, cpuUpdated, rest⟩ := Transition.bind_eq_ok.mp rest
    obtain ⟨⟨totalNetWeight, netWeight⟩, netUpdated, finished⟩ := Transition.bind_eq_ok.mp rest
    obtain ⟨ramMoved, rfl⟩ := updateStateAndValue_eq_ok ramUpdated
    obtain ⟨cpuMoved, rfl⟩ := updateStateAndValue_eq_ok cpuUpdated
    obtain ⟨netMoved, rfl⟩ := updateStateAndValue_eq_ok netUpdated
    rw [← Except.ok.inj finished]
    -- the row in force takes the pending row's three values
    let update := fun rlo : ResourceLimitsObject => { rlo with
      ramBytes := itr.ramBytes, cpuWeight := itr.cpuWeight, netWeight := itr.netWeight }
    exact ⟨matched.ramBytes.collapse _ db.limitsUnique actualMember inForce itrMember itrPending
        update (fun _ => rfl) ramMoved,
      matched.cpuWeight.collapse _ db.limitsUnique actualMember inForce itrMember itrPending
        update (fun _ => rfl) cpuMoved,
      matched.netWeight.collapse _ db.limitsUnique actualMember inForce itrMember itrPending
        update (fun _ => rfl) netMoved⟩
  · cases collapsed

/-- From matched totals, a pass fails only on a missing row in force or on an overflow. -/
theorem collapsePending_eq_error {db : Database} {itr : ResourceLimitsObject}
    {failure : LimitsError} (matched : TotalsMatch db)
    (failed : db.collapsePending itr = .error failure) :
    failure = .unknownKey ∨ ∃ which, failure = .overflow which := by
  unfold collapsePending at failed
  split at failed
  · rename_i actualEntry found
    obtain ⟨actualMember, actualKey⟩ := KeyedTable.find_eq_some found
    have inForce : actualEntry.pending = false := congrArg Prod.fst actualKey
    rcases Transition.bind_eq_error failed with ramFailed | ⟨_, _, rest⟩
    · exact Or.inr ⟨_, updateStateAndValue_eq_error
        (matched.ramBytes.covered actualMember inForce) ramFailed⟩
    rcases Transition.bind_eq_error rest with cpuFailed | ⟨_, _, rest⟩
    · exact Or.inr ⟨_, updateStateAndValue_eq_error
        (matched.cpuWeight.covered actualMember inForce) cpuFailed⟩
    rcases Transition.bind_eq_error rest with netFailed | ⟨_, _, finished⟩
    · exact Or.inr ⟨_, updateStateAndValue_eq_error
        (matched.netWeight.covered actualMember inForce) netFailed⟩
    · cases finished
  · exact Or.inl (Except.error.inj failed).symm

/-- The loop ends with no pending row and, pass by pass, keeps the totals matched; it never
fails on an underflow. The induction follows the loop's own recursion. -/
theorem processAccountLimitUpdates_spec (db : Database) (matched : TotalsMatch db) :
    (∀ db', db.processAccountLimitUpdates = .ok db' →
      (∀ row ∈ db'.limits, row.pending = false) ∧ TotalsMatch db') ∧
    ∀ which, db.processAccountLimitUpdates ≠ .error (.underflow which) := by
  induction db using processAccountLimitUpdates.induct with
  | case1 db none =>
    rw [processAccountLimitUpdates, none]
    refine ⟨fun db' processed => ?_, fun which failed => ?_⟩
    · cases Except.ok.inj processed
      refine ⟨fun row member => ?_, matched⟩
      unfold firstPending at none
      rw [List.argmin_eq_none, List.filter_eq_nil_iff] at none
      simpa using none row member
    · cases failed
  | case2 db itr chosen db' collapsed inductionHypothesis =>
    rw [processAccountLimitUpdates, chosen]
    dsimp only
    rw [collapsed]
    exact inductionHypothesis (collapsePending_totalsMatch matched chosen collapsed)
  | case3 db itr chosen failure collapsed =>
    rw [processAccountLimitUpdates, chosen]
    dsimp only
    rw [collapsed]
    dsimp only
    constructor
    · intro _ processed
      cases processed
    · intro which failed
      rcases collapsePending_eq_error matched collapsed with rfl | ⟨_, rfl⟩ <;> cases failed

/-! ### Runs -/

theorem TotalsMatch.step {db db' : Database} (matched : TotalsMatch db) (stepped : Step db db') :
    TotalsMatch db' := by
  cases stepped with
  | initializeAccount account initialized => exact initializeAccount_totalsMatch matched initialized
  | setAccountLimits account ramBytes netWeight cpuWeight decreasedLimit set =>
    exact setAccountLimits_totalsMatch matched set
  | processAccountLimitUpdates processed =>
    exact ((processAccountLimitUpdates_spec db matched).1 db' processed).2

/-- **The limit totals match the limits in force.** At every database reached from
`initialize_database`, each total of the state is the sum over the rows in force of the positive
part of its field; `process_account_limit_updates` never fails on the underflow assertion, and
when it returns no pending row is left and the totals still match. -/
theorem reachable_limitTotals {db : Database} (reachable : Reachable db) :
    TotalsMatch db ∧
      (∀ db', db.processAccountLimitUpdates = .ok db' →
        (∀ row ∈ db'.limits, row.pending = false) ∧ TotalsMatch db') ∧
      ∀ which, db.processAccountLimitUpdates ≠ .error (.underflow which) := by
  have matched : TotalsMatch db :=
    Transition.Reachable.invariant TotalsMatch
      (fun start isInitial => by
        rw [isInitial]
        exact ⟨rfl, rfl, rfl⟩)
      (fun _ _ matched stepped => matched.step stepped) reachable
  exact ⟨matched, processAccountLimitUpdates_spec db matched⟩

/-- A run of every call: accounts 1 and 2 are initialized, 1 is given limits twice (the second
time with unlimited NET), 2 is given unlimited RAM, the updates are processed, 2 is given new
limits and they are processed again, taking its old weights out of the totals. -/
theorem limitRun_limitTotals :
    ∃ db : Database, Reachable db ∧ db.state.totalNetWeight = 1 ∧ db.state.totalCpuWeight = 10 ∧
      db.state.totalRamBytes = 60 ∧ TotalsMatch db ∧
      (∀ db', db.processAccountLimitUpdates = .ok db' →
        (∀ row ∈ db'.limits, row.pending = false) ∧ TotalsMatch db') ∧
      ∀ which, db.processAccountLimitUpdates ≠ .error (.underflow which) := by
  have started : Reachable initializeDatabase := Transition.Reachable.of_initial rfl
  have first := started.step (Step.initializeAccount ⟨1⟩ rfl)
  have second := first.step (Step.initializeAccount ⟨2⟩ rfl)
  have limited := second.step (Step.setAccountLimits ⟨1⟩ 100 5 7 true rfl)
  have relimited := limited.step (Step.setAccountLimits ⟨1⟩ 50 (-1) 9 true rfl)
  have limitedSecond := relimited.step (Step.setAccountLimits ⟨2⟩ (-1) 3 2 false rfl)
  -- the loop recurses on the number of pending rows, so its passes are unfolded by hand
  have processed := limitedSecond.step (Step.processAccountLimitUpdates (by
    unfold processAccountLimitUpdates
    unfold processAccountLimitUpdates
    unfold processAccountLimitUpdates
    exact rfl))
  have changed := processed.step (Step.setAccountLimits ⟨2⟩ 10 1 1 true rfl)
  have processedAgain := changed.step (Step.processAccountLimitUpdates (by
    unfold processAccountLimitUpdates
    unfold processAccountLimitUpdates
    exact rfl))
  exact ⟨_, processedAgain, rfl, rfl, rfl, reachable_limitTotals processedAgain⟩

end Eosio.Chain.ResourceLimits
