/-
This file models `authority_checker` of `authority_checker.hpp` and its two uses in
`authorization_manager.cpp`, `get_required_keys` and `check_authorization` for one permission.

The checker tallies an authority's entries from the highest weight down, each with a
`weight_tally_visitor` that adds the weight of a provided key, of a wait within the provided delay
and of a satisfied permission level, and stops as soon as the threshold is reached. A level is
looked up in a cache of statuses kept for the whole call, and evaluated from its authority only
when the cache knows nothing of it and the visitor's depth is below `recursion_depth_limit`. A
provided key that a visit meets is marked used; the marks made under an authority that turns out
unsatisfied are restored, while the cache keeps what it learnt there.

`permission_to_authority` is a parameter: `none` stands for the `permission_query_exception` of a
level that does not exist, which the visitor skips. The `checktime` callback is left out.
-/

import Mathlib
import EosioChain.Authority
import EosioChain.ThresholdScan

namespace Eosio.Chain

variable {Key : Type}

/-! ### The sorted entries of an authority -/

/-- A value of `detail::meta_permission_map`: one entry of an authority, of any kind. -/
inductive MetaPermission (Key : Type)
  | account (permission : PermissionLevelWeight)
  | key (permission : KeyWeight Key)
  | wait (permission : WaitWeight)

namespace MetaPermission

/-- The entry's weight, the first half of its `meta_permission_key`. -/
def weight : MetaPermission Key → UInt16
  | account permission => permission.weight
  | key permission => permission.weight
  | wait permission => permission.weight

/-- The priority the checker gives each kind, the second half of its `meta_permission_key`. -/
def priority : MetaPermission Key → Nat
  | account _ => 1
  | key _ => 2
  | wait _ => 3

/-- `std::greater<>` on the keys `(weight, priority)`. -/
def greater (lhs rhs : MetaPermission Key) : Prop :=
  lhs.weight > rhs.weight ∨ (lhs.weight = rhs.weight ∧ lhs.priority > rhs.priority)

instance : DecidableRel (@greater Key) := fun _ _ => inferInstanceAs (Decidable (_ ∨ _))

end MetaPermission

/-- `flat_multimap::emplace` for the comparator `std::greater<>`: the new entry goes after every
entry whose key is not below its own. -/
def emplacePermission (permissions : List (MetaPermission Key)) (mp : MetaPermission Key) :
    List (MetaPermission Key) :=
  permissions.orderedInsert MetaPermission.greater mp

/-- The `meta_permission_map` of an authority: its accounts, then its keys, then its waits,
emplaced one by one. -/
def metaPermissions (authority : Authority Key) : List (MetaPermission Key) :=
  (authority.accounts.map MetaPermission.account ++ authority.keys.map MetaPermission.key ++
    authority.waits.map MetaPermission.wait).foldl emplacePermission []

/-! ### The cache of permission statuses -/

/-- `permission_cache_status`. -/
inductive PermissionCacheStatus
  | beingEvaluated
  | permissionUnsatisfied
  | permissionSatisfied
deriving DecidableEq, Repr

/-- `permission_status_in_cache`: the level's status, else that of the actor's empty permission
name, the form in which a permission of any name is provided. -/
def permissionStatusInCache (permissions : PermissionLevel → Option PermissionCacheStatus)
    (level : PermissionLevel) : Option PermissionCacheStatus :=
  match permissions level with
  | some status => some status
  | none => permissions ⟨level.actor, Name.empty⟩

/-- What a call of the checker changes as it goes: `_used_keys` and the cache of statuses. -/
structure CheckState where
  usedKeys : List Bool
  cachedPermissions : PermissionLevel → Option PermissionCacheStatus

/-- Set the cached status of one level. -/
def CheckState.setStatus (state : CheckState) (level : PermissionLevel)
    (status : PermissionCacheStatus) : CheckState :=
  { state with
    cachedPermissions := fun other => if other = level then some status else state.cachedPermissions other }

/-! ### The checker -/

/-- `authority_checker`, as `make_auth_checker` builds it. The delay is a count of microseconds. -/
structure AuthorityChecker (Key : Type) where
  permissionToAuthority : PermissionLevel → Option (Authority Key)
  recursionDepthLimit : UInt16
  providedKeys : List Key
  providedPermissions : List PermissionLevel
  providedDelay : Int

namespace AuthorityChecker

variable [DecidableEq Key] (checker : AuthorityChecker Key)

/-- `weight_tally_visitor::operator()(wait_weight)`: a wait within the provided delay adds its
weight. -/
def tallyWait (permission : WaitWeight) (current : CheckState × UInt32) : CheckState × UInt32 :=
  if checker.providedDelay ≥ permission.waitSec.toNat * 1000000 then
    (current.1, current.2 + permission.weight.toUInt32)
  else current

/-- `weight_tally_visitor::operator()(key_weight)`: a provided key adds its weight and is marked
used. -/
def tallyKey (permission : KeyWeight Key) (current : CheckState × UInt32) : CheckState × UInt32 :=
  match checker.providedKeys.idxOf? permission.key with
  | some index =>
    ({ current.1 with usedKeys := current.1.usedKeys.set index true },
      current.2 + permission.weight.toUInt32)
  | none => current

/-- `weight_tally_visitor::operator()(permission_level_weight)`. `evaluate` checks an authority one
level deeper; it is `none` once the visitor's depth has reached `recursion_depth_limit`. -/
def tallyLevel (evaluate : Option (Authority Key → CheckState → Bool × CheckState))
    (permission : PermissionLevelWeight) (current : CheckState × UInt32) : CheckState × UInt32 :=
  let (state, total) := current
  match permissionStatusInCache state.cachedPermissions permission.permission with
  | none =>
    match evaluate with
    | none => (state, total)
    | some evaluate =>
      match checker.permissionToAuthority permission.permission with
      -- the permission does not exist: continue without it
      | none => (state, total)
      | some auth =>
        let (r, state) := evaluate auth (state.setStatus permission.permission .beingEvaluated)
        if r then
          (state.setStatus permission.permission .permissionSatisfied,
            total + permission.weight.toUInt32)
        else (state.setStatus permission.permission .permissionUnsatisfied, total)
  | some .permissionSatisfied => (state, total + permission.weight.toUInt32)
  | some _ => (state, total)

/-- The visitor applied to one entry. -/
def tally (evaluate : Option (Authority Key → CheckState → Bool × CheckState)) :
    MetaPermission Key → CheckState × UInt32 → CheckState × UInt32
  | .account permission => checker.tallyLevel evaluate permission
  | .key permission => checker.tallyKey permission
  | .wait permission => checker.tallyWait permission

/-- The body of `satisfied(authority, cached_permissions, depth)`: tally the sorted entries until
the threshold is reached. When it is not, `KeyReverter` restores the used keys of the start. -/
def checkAuthority (evaluate : Option (Authority Key → CheckState → Bool × CheckState))
    (authority : Authority Key) (state : CheckState) : Bool × CheckState :=
  match ThresholdScan.run (checker.tally evaluate) authority.threshold (metaPermissions authority)
      (state, 0) with
  | (true, reached) => (true, reached)
  | (false, exhausted) => (false, { exhausted with usedKeys := state.usedKeys })

/-- `satisfied(authority, cached_permissions, depth)`, with the depth carried as `depthLeft`, the
number of levels its visitor may still open: `recursion_depth_limit - depth`. -/
def satisfiedAuthority : Nat → Authority Key → CheckState → Bool × CheckState
  | 0 => checker.checkAuthority none
  | depthLeft + 1 => checker.checkAuthority (some (satisfiedAuthority depthLeft))

/-- The check a visitor with `depthLeft` levels left may open one level deeper: none at the
limit. -/
def deeperCheck : Nat → Option (Authority Key → CheckState → Bool × CheckState)
  | 0 => none
  | depthLeft + 1 => some (checker.satisfiedAuthority depthLeft)

/-- `initialize_permission_cache`: every provided permission is satisfied. -/
def initializePermissionCache (level : PermissionLevel) : Option PermissionCacheStatus :=
  if level ∈ checker.providedPermissions then some .permissionSatisfied else none

/-- `_used_keys` of a new checker: one unmarked flag per provided key. -/
def initialUsedKeys : List Bool :=
  checker.providedKeys.map fun _ => false

/-- `satisfied(permission)`: a visitor at depth `0` tallies the level with weight `1` against a
fresh cache. The used keys carry over from one call to the next. -/
def satisfied (permission : PermissionLevel) (usedKeys : List Bool) : Bool × List Bool :=
  let (state, total) := checker.tallyLevel (checker.deeperCheck checker.recursionDepthLimit.toNat)
    ⟨permission, 1⟩ (⟨usedKeys, checker.initializePermissionCache⟩, 0)
  (total > 0, state.usedKeys)

/-- `used_keys()`: the provided keys marked used. -/
def usedKeysOf (usedKeys : List Bool) : List Key :=
  ((checker.providedKeys.zip usedKeys).filter fun marked => marked.2).map fun marked => marked.1

/-- `all_keys_used()`. -/
def allKeysUsed (usedKeys : List Bool) : Bool :=
  usedKeys.all id

end AuthorityChecker

/-! ### Uses in `authorization_manager` -/

/-- The exceptions of the two checks. -/
inductive AuthorizationError
  | unsatisfiedAuthorization (auth : PermissionLevel)
  | txIrrelevantSig
deriving DecidableEq, Repr

variable [DecidableEq Key]

/-- `authorization_manager::get_required_keys`: a checker of the candidate keys must satisfy each
declared authorization of the transaction's actions, in order; the keys it used are returned. -/
def getRequiredKeys (permissionToAuthority : PermissionLevel → Option (Authority Key))
    (maxAuthorityDepth : UInt16) (declaredAuths : List PermissionLevel) (candidateKeys : List Key)
    (providedDelay : Int) : Except AuthorizationError (List Key) := do
  let checker : AuthorityChecker Key :=
    ⟨permissionToAuthority, maxAuthorityDepth, candidateKeys, [], providedDelay⟩
  let usedKeys ← declaredAuths.foldlM (fun usedKeys declaredAuth =>
      match checker.satisfied declaredAuth usedKeys with
      | (true, usedKeys) => .ok usedKeys
      | (false, _) => .error (.unsatisfiedAuthorization declaredAuth))
    checker.initialUsedKeys
  pure (checker.usedKeysOf usedKeys)

/-- `fc::microseconds::maximum()`. -/
def microsecondsMaximum : Int := 9223372036854775807

/-- `authorization_manager::check_authorization` for one permission: the permission must be
satisfied, and unless unused keys are allowed, every provided key must have been used. A delay at
or above `max_transaction_delay` counts as unbounded. -/
def checkAuthorization (permissionToAuthority : PermissionLevel → Option (Authority Key))
    (maxAuthorityDepth : UInt16) (maxTransactionDelay : UInt32) (level : PermissionLevel)
    (providedKeys : List Key) (providedPermissions : List PermissionLevel) (providedDelay : Int)
    (allowUnusedKeys : Bool) : Except AuthorizationError Unit :=
  let delayMaxLimit := maxTransactionDelay.toNat * 1000000
  let checker : AuthorityChecker Key :=
    ⟨permissionToAuthority, maxAuthorityDepth, providedKeys, providedPermissions,
      if providedDelay ≥ delayMaxLimit then microsecondsMaximum else providedDelay⟩
  match checker.satisfied level checker.initialUsedKeys with
  | (false, _) => .error (.unsatisfiedAuthorization level)
  | (true, usedKeys) =>
    if !allowUnusedKeys && !AuthorityChecker.allKeysUsed usedKeys then .error .txIrrelevantSig else .ok ()

end Eosio.Chain
