/-
This file models the account limits of `resource_limits.cpp`: the `resource_limits_object` rows,
each the limits in force for an account or a pending change to them, and the three totals of
`resource_limits_state_object` that `process_account_limit_updates` maintains.

The rows live in a chainbase table whose `by_owner` index is unique on (pending, owner);
`KeyedTable` gives its lookups and updates, and a `create` that would break the index fails, as
chainbase's does. Every call runs inside the undo session the controller opens around a
transaction or a block, so a call that throws leaves the tables as they were: the runs below are
made of calls that return. Resource usage, the block limits and the configuration are not
modelled; of `resource_usage_object` only the owner, which `initialize_account` creates, is kept.
-/

import Mathlib
import EosioChain.KeyedTable
import EosioChain.Name
import EosioChain.Transition

namespace Eosio.Chain.ResourceLimits

/-- `resource_limits_object`. -/
structure ResourceLimitsObject where
  owner : Name
  pending : Bool
  netWeight : Int64
  cpuWeight : Int64
  ramBytes : Int64
deriving DecidableEq

/-- The key of the `by_owner` index. -/
def ResourceLimitsObject.byOwner (row : ResourceLimitsObject) : Bool × Name :=
  (row.pending, row.owner)

/-- The totals of `resource_limits_state_object`. -/
structure ResourceLimitsStateObject where
  totalNetWeight : UInt64
  totalCpuWeight : UInt64
  totalRamBytes : UInt64

/-- The part of the database the limit updates read and write. -/
structure Database where
  limits : List ResourceLimitsObject
  limitsUnique : KeyedTable.Unique ResourceLimitsObject.byOwner limits
  usageOwners : List Name
  usageUnique : usageOwners.Nodup
  state : ResourceLimitsStateObject

/-- The exceptions of these calls: chainbase's, for a uniqueness violation or a missing key, and
the two assertions of `update_state_and_value`, which name the resource. -/
inductive LimitsError where
  | uniquenessViolated
  | unknownKey
  | underflow (which : String)
  | overflow (which : String)
deriving DecidableEq

/-- The message of a `rate_limiting_state_inconsistent` assertion. -/
def LimitsError.message : LimitsError → Option String
  | .underflow which => some ("underflow when reverting old value to " ++ which)
  | .overflow which => some ("overflow when applying new value to " ++ which)
  | _ => none

/-- `UINT64_MAX`. -/
def uint64Max : UInt64 := 18446744073709551615

namespace Database

/-! ### Table operations -/

/-- `_db.create<resource_limits_object>`: fails when the key is taken. -/
def createLimits (db : Database) (row : ResourceLimitsObject) : Except LimitsError Database :=
  match fresh : KeyedTable.find ResourceLimitsObject.byOwner db.limits row.byOwner with
  | some _ => .error .uniquenessViolated
  | none => .ok { db with
      limits := db.limits ++ [row]
      limitsUnique := KeyedTable.unique_append db.limitsUnique (KeyedTable.find_eq_none fresh) }

/-- `_db.create<resource_usage_object>` for `owner`: fails when `owner` has one. -/
def createUsage (db : Database) (owner : Name) : Except LimitsError Database :=
  if taken : owner ∈ db.usageOwners then .error .uniquenessViolated
  else .ok { db with
    usageOwners := db.usageOwners ++ [owner]
    usageUnique := db.usageUnique.append (List.nodup_singleton _)
      (List.disjoint_singleton.mpr taken) }

/-- `_db.modify` of the row with key `k`, with a change that keeps the key. -/
def modifyLimits (db : Database) (k : Bool × Name)
    (update : ResourceLimitsObject → ResourceLimitsObject)
    (keepsKey : ∀ row, (update row).byOwner = row.byOwner) : Database :=
  { db with
    limits := KeyedTable.modify ResourceLimitsObject.byOwner db.limits k update
    limitsUnique := KeyedTable.unique_modify db.limitsUnique k keepsKey }

/-- `multi_index.remove` of the row with key `k`. -/
def removeLimits (db : Database) (k : Bool × Name) : Database :=
  { db with
    limits := KeyedTable.erase ResourceLimitsObject.byOwner db.limits k
    limitsUnique := KeyedTable.unique_erase db.limitsUnique k }

/-! ### The calls -/

/-- `resource_limits_manager::initialize_database`: no rows, and totals of zero. -/
def initializeDatabase : Database :=
  { limits := [], limitsUnique := List.nodup_nil, usageOwners := [], usageUnique := List.nodup_nil,
    state := ⟨0, 0, 0⟩ }

/-- `resource_limits_manager::initialize_account`: limits of `-1` in force, and a usage row. -/
def initializeAccount (db : Database) (account : Name) : Except LimitsError Database := do
  let db ← db.createLimits
    { owner := account, pending := false, netWeight := -1, cpuWeight := -1, ramBytes := -1 }
  db.createUsage account

/-- `get_or_create_pending_account_limits`: the pending row of `account`, created as a copy of
the row in force when there is none. -/
def getOrCreatePendingAccountLimits (db : Database) (account : Name) :
    Except LimitsError (Database × ResourceLimitsObject) :=
  match KeyedTable.find ResourceLimitsObject.byOwner db.limits (true, account) with
  | some pendingLimits => .ok (db, pendingLimits)
  | none =>
    match KeyedTable.find ResourceLimitsObject.byOwner db.limits (false, account) with
    | none => .error .unknownKey
    | some limits =>
      let pendingLimits := { limits with pending := true }
      (·, pendingLimits) <$> db.createLimits pendingLimits

/-- `resource_limits_manager::set_account_limits`: write the new limits into the pending row, and
report whether the RAM limit went down. -/
def setAccountLimits (db : Database) (account : Name) (ramBytes netWeight cpuWeight : Int64) :
    Except LimitsError (Database × Bool) := do
  let (db, limits) ← db.getOrCreatePendingAccountLimits account
  let decreasedLimit :=
    if ramBytes ≥ 0 then decide (limits.ramBytes < 0 ∨ ramBytes < limits.ramBytes) else false
  pure (db.modifyLimits limits.byOwner
    (fun pendingLimits => { pendingLimits with
      ramBytes := ramBytes, netWeight := netWeight, cpuWeight := cpuWeight })
    (fun _ => rfl), decreasedLimit)

end Database

/-- The first half of `update_state_and_value`: take a positive old value out of the total,
asserting that the total holds it. -/
def revertValue (total : UInt64) (value : Int64) (debugWhich : String) :
    Except LimitsError UInt64 :=
  if value > 0 then
    if total ≥ value.toUInt64 then pure (total - value.toUInt64)
    else throw (.underflow debugWhich)
  else pure total

/-- The second half of `update_state_and_value`: put a positive pending value into the total,
asserting that it fits. -/
def applyPendingValue (total : UInt64) (pendingValue : Int64) (debugWhich : String) :
    Except LimitsError UInt64 :=
  if pendingValue > 0 then
    if uint64Max - total ≥ pendingValue.toUInt64 then pure (total + pendingValue.toUInt64)
    else throw (.overflow debugWhich)
  else pure total

/-- The lambda `update_state_and_value` of `process_account_limit_updates`: the new total, and the
pending value as the new value. -/
def updateStateAndValue (total : UInt64) (value pendingValue : Int64) (debugWhich : String) :
    Except LimitsError (UInt64 × Int64) := do
  let total ← revertValue total value debugWhich
  let total ← applyPendingValue total pendingValue debugWhich
  pure (total, pendingValue)

namespace Database

/-- One pass of the loop of `process_account_limit_updates`: fold the pending row `itr` into the
row in force and the totals, then remove it. -/
def collapsePending (db : Database) (itr : ResourceLimitsObject) : Except LimitsError Database := do
  let some actualEntry := KeyedTable.find ResourceLimitsObject.byOwner db.limits (false, itr.owner)
    | throw .unknownKey
  let (totalRamBytes, ramBytes) ←
    updateStateAndValue db.state.totalRamBytes actualEntry.ramBytes itr.ramBytes "ram_bytes"
  let (totalCpuWeight, cpuWeight) ←
    updateStateAndValue db.state.totalCpuWeight actualEntry.cpuWeight itr.cpuWeight "cpu_weight"
  let (totalNetWeight, netWeight) ←
    updateStateAndValue db.state.totalNetWeight actualEntry.netWeight itr.netWeight "net_weight"
  let updated := db.modifyLimits actualEntry.byOwner
    (fun rlo => { rlo with ramBytes, cpuWeight, netWeight }) fun _ => rfl
  pure { updated.removeLimits itr.byOwner with
    state := { totalNetWeight, totalCpuWeight, totalRamBytes } }

/-- `by_owner_index.lower_bound(true)`: the pending row of the least owner. -/
def firstPending (db : Database) : Option ResourceLimitsObject :=
  (db.limits.filter (·.pending)).argmin fun row => row.owner.value.toNat

/-- The number of pending rows, which each pass lowers by one. -/
def pendingCount (db : Database) : Nat :=
  (db.limits.map fun row => if row.pending then 1 else 0).sum

theorem firstPending_eq_some {db : Database} {itr : ResourceLimitsObject}
    (chosen : db.firstPending = some itr) : itr ∈ db.limits ∧ itr.pending = true := by
  unfold firstPending at chosen
  exact List.mem_filter.mp (List.argmin_mem chosen)

theorem collapsePending_limits {db db' : Database} {itr : ResourceLimitsObject}
    (collapsed : db.collapsePending itr = .ok db') :
    ∃ k update, k.1 = false ∧ (∀ row, (update row).byOwner = row.byOwner) ∧
      db'.limits = KeyedTable.erase ResourceLimitsObject.byOwner
        (KeyedTable.modify ResourceLimitsObject.byOwner db.limits k update) itr.byOwner := by
  unfold collapsePending at collapsed
  split at collapsed
  · rename_i actualEntry found
    obtain ⟨⟨_, ramBytes⟩, _, rest⟩ := Transition.bind_eq_ok.mp collapsed
    obtain ⟨⟨_, cpuWeight⟩, _, rest⟩ := Transition.bind_eq_ok.mp rest
    obtain ⟨⟨_, netWeight⟩, _, rest⟩ := Transition.bind_eq_ok.mp rest
    refine ⟨actualEntry.byOwner,
      fun rlo => { rlo with ramBytes := ramBytes, cpuWeight := cpuWeight, netWeight := netWeight },
      ?_, fun _ => rfl, by rw [← Except.ok.inj rest]; rfl⟩
    rw [(KeyedTable.find_eq_some found).2]
  · cases collapsed

/-- A pass removes one pending row and changes no pending flag. -/
theorem pendingCount_collapsePending {db db' : Database} {itr : ResourceLimitsObject}
    (chosen : db.firstPending = some itr) (collapsed : db.collapsePending itr = .ok db') :
    db'.pendingCount < db.pendingCount := by
  obtain ⟨itrMember, itrPending⟩ := firstPending_eq_some chosen
  obtain ⟨k, update, inForce, keepsKey, limits⟩ := collapsePending_limits collapsed
  have otherKey : itr.byOwner ≠ k := fun same => by
    rw [← same, ResourceLimitsObject.byOwner, itrPending] at inForce
    cases inForce
  have keepsWeight : ∀ row, (if (update row).pending then 1 else 0) =
      if row.pending then 1 else 0 := fun row => by
    have sameKey := keepsKey row
    rw [ResourceLimitsObject.byOwner, ResourceLimitsObject.byOwner, Prod.mk.injEq] at sameKey
    rw [sameKey.1]
  have erased := KeyedTable.sum_erase (KeyedTable.unique_modify db.limitsUnique k keepsKey)
    (KeyedTable.mem_modify_of_ne itrMember otherKey) fun row => if row.pending then 1 else 0
  rw [KeyedTable.sum_modify_of_weight_eq db.limits k fun row _ => keepsWeight row,
    if_pos itrPending] at erased
  unfold pendingCount
  rw [limits]
  omega

/-- `resource_limits_manager::process_account_limit_updates`: fold every pending row, the least
owner first, until none is left. -/
def processAccountLimitUpdates (db : Database) : Except LimitsError Database :=
  match _chosen : db.firstPending with
  | none => .ok db
  | some itr =>
    match _collapsed : db.collapsePending itr with
    | .ok db' => processAccountLimitUpdates db'
    | .error e => .error e
termination_by db.pendingCount
decreasing_by exact pendingCount_collapsePending _chosen _collapsed

/-! ### Runs -/

/-- One call that returns. -/
inductive Step : Database → Database → Prop
  | initializeAccount {db db' : Database} (account : Name) :
      db.initializeAccount account = .ok db' → Step db db'
  | setAccountLimits {db db' : Database} (account : Name) (ramBytes netWeight cpuWeight : Int64)
      (decreasedLimit : Bool) :
      db.setAccountLimits account ramBytes netWeight cpuWeight = .ok (db', decreasedLimit) →
        Step db db'
  | processAccountLimitUpdates {db db' : Database} :
      db.processAccountLimitUpdates = .ok db' → Step db db'

/-- The databases reached from `initialize_database`. -/
def Reachable : Database → Prop :=
  Transition.Reachable (· = initializeDatabase) Step

end Database

end Eosio.Chain.ResourceLimits
