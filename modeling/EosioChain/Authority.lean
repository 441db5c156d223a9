/-
This file models the authorities of `authority.hpp`: permission levels, the three kinds of
weighted entries, and `validate`, which every authority stored by `newaccount` and `updateauth`
passes. Public keys come from `fc` and stay a type parameter with the order `validate` sorts them
by.
-/

import EosioChain.Name

namespace Eosio.Chain

/-- `permission_level`: an actor and one of its permissions. -/
structure PermissionLevel where
  actor : Name
  permission : Name
deriving DecidableEq, Repr

/-- `operator<` on `permission_level`: by actor, then by permission, each by its name's value. -/
def PermissionLevel.less (lhs rhs : PermissionLevel) : Bool :=
  lhs.actor.value < rhs.actor.value ||
    (lhs.actor.value == rhs.actor.value && lhs.permission.value < rhs.permission.value)

/-- `permission_level_weight`. -/
structure PermissionLevelWeight where
  permission : PermissionLevel
  weight : UInt16
deriving DecidableEq, Repr

/-- `key_weight`. -/
structure KeyWeight (Key : Type) where
  key : Key
  weight : UInt16
deriving DecidableEq, Repr

/-- `wait_weight`. -/
structure WaitWeight where
  waitSec : UInt32
  weight : UInt16
deriving DecidableEq, Repr

/-- `authority`: a threshold over keys, permission levels and waits. -/
structure Authority (Key : Type) where
  threshold : UInt32
  keys : List (KeyWeight Key)
  accounts : List PermissionLevelWeight
  waits : List WaitWeight
deriving DecidableEq, Repr

/-- Each entry after the first is above the one before it: the `prev` comparisons of the loops
of `validate`. -/
def strictlyAscending {α : Type} (less : α → α → Bool) : List α → Bool
  | [] => true
  | [_] => true
  | prev :: next :: rest => less prev next && strictlyAscending less (next :: rest)

namespace Authority

variable {Key : Type}

/-- The number of entries of all three kinds. -/
def size (auth : Authority Key) : Nat :=
  auth.keys.length + auth.accounts.length + auth.waits.length

/-- `total_weight` of `validate`: the `uint32_t` sum of the weights of all entries. -/
def totalWeight (auth : Authority Key) : UInt32 :=
  (auth.keys.map fun k => k.weight.toUInt32).sum + (auth.accounts.map fun a => a.weight.toUInt32).sum +
    (auth.waits.map fun w => w.weight.toUInt32).sum

variable [LT Key] [DecidableRel (LT.lt : Key → Key → Prop)]

/-- `validate`: at most `2^16` entries, a non-zero threshold, keys, levels and waits each in
strictly ascending order, no wait of zero seconds first, and a total weight that reaches the
threshold. -/
def validate (auth : Authority Key) : Bool :=
  -- overflow protection: with `2^16` entries of `uint16_t` weight the total fits in `uint32_t`
  decide (auth.size ≤ 2 ^ 16) && auth.threshold != 0 &&
    strictlyAscending (fun prev k => decide (prev.key < k.key)) auth.keys &&
    strictlyAscending (fun prev a => prev.permission.less a.permission) auth.accounts &&
    (auth.waits.head?.map fun w => w.waitSec != 0).getD true &&
    strictlyAscending (fun prev w => decide (prev.waitSec < w.waitSec)) auth.waits &&
    decide (auth.totalWeight ≥ auth.threshold)

end Authority

end Eosio.Chain
