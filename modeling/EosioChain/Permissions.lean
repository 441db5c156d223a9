/-
This file models the permission table of `authorization_manager` and the native actions of
`eosio_contract.cpp` that change it or the links to it: `newaccount`, `updateauth`, `deleteauth`,
`linkauth` and `unlinkauth`, run from the tables `controller_impl::initialize_database` creates.
It ends with `permission_object::satisfies`, which walks up the parents of a permission.

The tables are chainbase indices: `KeyedTable` gives their lookups by a unique key, and a
`create` that would break a unique index fails, as chainbase's does. An action that throws is
rolled back as a whole by the undo session of its transaction, so a run is made of the actions
that succeed. Of an account only its name and its privilege are kept, of a link its four names,
and of a permission everything but its usage object and times. RAM accounting, resource limits,
the key blacklist checked while producing, and the interpolated parts of the messages are left
out.
-/

import EosioChain.Authority
import EosioChain.KeyedTable
import EosioChain.Transition

namespace Eosio.Chain

variable {Key : Type}

/-! ### Names the actions single out -/

/-- `config::owner_name`, the name `owner`. -/
def ownerName : Name := ⟨12044502819693133824⟩

/-- `config::active_name`. -/
def activeName : Name := ⟨3617214756542218240⟩

/-- `config::eosio_any_name`, the name `eosio.any`. -/
def eosioAnyName : Name := ⟨6138663581382606848⟩

/-- `config::eosio_code_name`, the name `eosio.code`. -/
def eosioCodeName : Name := ⟨6138663582462279680⟩

/-- `config::null_account_name`, the name `eosio.null`. -/
def nullAccountName : Name := ⟨6138663588472832000⟩

/-- `config::producers_account_name`, the name `eosio.prods`. -/
def producersAccountName : Name := ⟨6138663589497696256⟩

/-- `config::majority_producers_permission_name`, the name `prod.major`. -/
def majorityProducersPermissionName : Name := ⟨12531424605554196480⟩

/-- `config::minority_producers_permission_name`, the name `prod.minor`. -/
def minorityProducersPermissionName : Name := ⟨12531424609916272640⟩

/-! ### The tables -/

/-- `permission_object`, without its usage object and times. `parent` is the id of the parent
permission, `0` for none. -/
structure PermissionObject (Key : Type) where
  id : Nat
  parent : Nat
  owner : Name
  name : Name
  auth : Authority Key

/-- The key of the `by_owner` index. -/
def PermissionObject.byOwner (permission : PermissionObject Key) : Name × Name :=
  (permission.owner, permission.name)

/-- An account: the name of its `account_object` and the privilege of its
`account_metadata_object`, which every call here creates together. -/
structure AccountObject where
  name : Name
  privileged : Bool

/-- `permission_link_object`. -/
structure PermissionLinkObject where
  account : Name
  code : Name
  messageType : Name
  requiredPermission : Name

/-- The key of the `by_action_name` index. -/
def PermissionLinkObject.byActionName (link : PermissionLinkObject) : Name × Name × Name :=
  (link.account, link.code, link.messageType)

/-- The tables of accounts, permissions and links, with their unique indices. Permission ids
are handed out in order, so each row's id is below the next one. -/
structure AuthTables (Key : Type) where
  accounts : List AccountObject
  accountsUnique : KeyedTable.Unique AccountObject.name accounts
  permissions : List (PermissionObject Key)
  permissionsById : KeyedTable.Unique PermissionObject.id permissions
  permissionsByOwner : KeyedTable.Unique PermissionObject.byOwner permissions
  nextPermissionId : Nat
  idsBelowNext : ∀ permission ∈ permissions, permission.id < nextPermissionId
  links : List PermissionLinkObject
  linksUnique : KeyedTable.Unique PermissionLinkObject.byActionName links

/-- What the actions read from the global properties and the protocol state. -/
structure AuthConfig (Key : Type) where
  /-- `max_transaction_delay`, in seconds. -/
  maxTransactionDelay : UInt32
  /-- Whether the type of a key is below `num_supported_key_types`. -/
  keyTypeSupported : Key → Bool
  /-- Whether `only_link_to_existing_permission` is activated. -/
  onlyLinkToExistingPermission : Bool

/-- The exceptions of these calls, each with what its message names. -/
inductive ActionError
  | actionValidate (message : String)
  | missingAuth (account : Name)
  | accountNameExists (name : Name)
  | accountQuery (account : Name)
  | permissionQuery (level : PermissionLevel)
  | invalidPermission
  | unactivatedKeyType
  /-- chainbase's `create` of a row whose key is taken. -/
  | uniquenessViolated
  /-- chainbase's `get` of a missing row. -/
  | unknownKey
deriving DecidableEq, Repr

namespace AuthTables

variable (tables : AuthTables Key)

/-! ### Table operations -/

theorem id_ne_nextPermissionId :
    ∀ permission ∈ tables.permissions, permission.id ≠ tables.nextPermissionId :=
  fun permission member => Nat.ne_of_lt (tables.idsBelowNext permission member)

theorem idsBelowNext_append {permission : PermissionObject Key}
    (takesNext : permission.id = tables.nextPermissionId) :
    ∀ other ∈ tables.permissions ++ [permission], other.id < tables.nextPermissionId + 1 := by
  intro other member
  rcases List.mem_append.mp member with old | added
  · exact Nat.lt_succ_of_lt (tables.idsBelowNext other old)
  · rw [List.mem_singleton.mp added, takesNext]
    exact Nat.lt_succ_self _

theorem idsBelowNext_filter (keep : PermissionObject Key → Bool) :
    ∀ other ∈ tables.permissions.filter keep, other.id < tables.nextPermissionId :=
  fun other member => tables.idsBelowNext other (List.mem_filter.mp member).1

/-- `db.find<account_object, by_name>`. -/
def findAccount (name : Name) : Option AccountObject :=
  KeyedTable.find AccountObject.name tables.accounts name

/-- `db.find<permission_object, by_owner>`. -/
def findPermissionByOwner (account name : Name) : Option (PermissionObject Key) :=
  KeyedTable.find PermissionObject.byOwner tables.permissions (account, name)

/-- `get_index<permission_index, by_id>().find`. -/
def findPermissionById (id : Nat) : Option (PermissionObject Key) :=
  KeyedTable.find PermissionObject.id tables.permissions id

/-- `db.find<permission_link_object, by_action_name>`. -/
def findLink (account code messageType : Name) : Option PermissionLinkObject :=
  KeyedTable.find PermissionLinkObject.byActionName tables.links (account, code, messageType)

/-- `db.create<account_object>` and `db.create<account_metadata_object>` for a new name. -/
def createAccount (account : AccountObject) : Except ActionError (AuthTables Key) :=
  match fresh : tables.findAccount account.name with
  | some _ => .error .uniquenessViolated
  | none => .ok { tables with
      accounts := tables.accounts ++ [account]
      accountsUnique := KeyedTable.unique_append tables.accountsUnique (KeyedTable.find_eq_none fresh) }

/-- `authorization_manager::find_permission`: both names must be non-empty. -/
def findPermission (level : PermissionLevel) : Except ActionError (Option (PermissionObject Key)) :=
  if level.actor = Name.empty ∨ level.permission = Name.empty then .error .invalidPermission
  else .ok (tables.findPermissionByOwner level.actor level.permission)

/-- `authorization_manager::get_permission`: the missing row of chainbase's `get` is rethrown as
a `permission_query_exception`. -/
def getPermission (level : PermissionLevel) : Except ActionError (PermissionObject Key) :=
  if level.actor = Name.empty ∨ level.permission = Name.empty then .error .invalidPermission
  else match tables.findPermissionByOwner level.actor level.permission with
    | some permission => .ok permission
    | none => .error (.permissionQuery level)

/-- The key check of `create_permission` and `modify_permission`. -/
def keyTypesSupported (config : AuthConfig Key) (auth : Authority Key) : Bool :=
  auth.keys.all fun k => config.keyTypeSupported k.key

/-- `authorization_manager::create_permission`: the new row takes the next id, and the account
must not have a permission of that name. -/
def createPermission (config : AuthConfig Key) (account name : Name) (parent : Nat)
    (auth : Authority Key) : Except ActionError (AuthTables Key × PermissionObject Key) :=
  if keyTypesSupported config auth then
    let permission : PermissionObject Key := ⟨tables.nextPermissionId, parent, account, name, auth⟩
    match fresh : tables.findPermissionByOwner account name with
    | some _ => .error .uniquenessViolated
    | none => .ok ({ tables with
        permissions := tables.permissions ++ [permission]
        permissionsById := KeyedTable.unique_append tables.permissionsById tables.id_ne_nextPermissionId
        permissionsByOwner :=
          KeyedTable.unique_append tables.permissionsByOwner (KeyedTable.find_eq_none fresh)
        nextPermissionId := tables.nextPermissionId + 1
        idsBelowNext := tables.idsBelowNext_append rfl }, permission)
  else .error .unactivatedKeyType

/-- `authorization_manager::modify_permission`: only the authority of the row changes. -/
def modifyPermission (config : AuthConfig Key) (permission : PermissionObject Key)
    (auth : Authority Key) : Except ActionError (AuthTables Key) :=
  if keyTypesSupported config auth then
    .ok { tables with
      permissions := KeyedTable.modify PermissionObject.id tables.permissions permission.id
        fun po => { po with auth }
      permissionsById := KeyedTable.unique_modify tables.permissionsById _ fun _ => rfl
      permissionsByOwner := KeyedTable.unique_modify tables.permissionsByOwner _ fun _ => rfl
      idsBelowNext := fun other member => by
        obtain ⟨old, oldMember, rfl⟩ := KeyedTable.mem_modify member
        split
        · exact tables.idsBelowNext old oldMember
        · exact tables.idsBelowNext old oldMember }
  else .error .unactivatedKeyType

/-- `authorization_manager::remove_permission`: a permission that is the parent of a row, in the
`by_parent` index, is not removed. -/
def removePermission (permission : PermissionObject Key) : Except ActionError (AuthTables Key) :=
  if tables.permissions.any (fun child => child.parent = permission.id) then
    .error (.actionValidate "Cannot remove a permission which has children. Remove the children first.")
  else .ok { tables with
    permissions := KeyedTable.erase PermissionObject.id tables.permissions permission.id
    permissionsById := KeyedTable.unique_erase tables.permissionsById _
    permissionsByOwner := KeyedTable.unique_erase tables.permissionsByOwner _
    idsBelowNext := tables.idsBelowNext_filter _ }

/-- `db.create<permission_link_object>`. -/
def createLink (link : PermissionLinkObject) : Except ActionError (AuthTables Key) :=
  match fresh : tables.findLink link.account link.code link.messageType with
  | some _ => .error .uniquenessViolated
  | none => .ok { tables with
      links := tables.links ++ [link]
      linksUnique := KeyedTable.unique_append tables.linksUnique (KeyedTable.find_eq_none fresh) }

/-- `db.modify` of a link's required permission. -/
def modifyLink (link : PermissionLinkObject) (requirement : Name) : AuthTables Key :=
  { tables with
    links := KeyedTable.modify PermissionLinkObject.byActionName tables.links link.byActionName
      fun l => { l with requiredPermission := requirement }
    linksUnique := KeyedTable.unique_modify tables.linksUnique _ fun _ => rfl }

/-- `db.remove` of a link. -/
def removeLink (link : PermissionLinkObject) : AuthTables Key :=
  { tables with
    links := KeyedTable.erase PermissionLinkObject.byActionName tables.links link.byActionName
    linksUnique := KeyedTable.unique_erase tables.linksUnique _ }

end AuthTables

/-! ### Genesis -/

/-- The tables before genesis. -/
def AuthTables.empty : AuthTables Key :=
  { accounts := [], accountsUnique := List.nodup_nil, permissions := [],
    permissionsById := List.nodup_nil, permissionsByOwner := List.nodup_nil, nextPermissionId := 0,
    idsBelowNext := fun _ member => absurd member List.not_mem_nil, links := [],
    linksUnique := List.nodup_nil }

/-- `authorization_manager::initialize_database`: the reserved permission `0`, of empty owner and
name, its own parent. -/
def AuthTables.initializeDatabase (tables : AuthTables Key) : Except ActionError (AuthTables Key) :=
  let reserved : PermissionObject Key :=
    ⟨tables.nextPermissionId, 0, Name.empty, Name.empty, ⟨0, [], [], []⟩⟩
  match fresh : tables.findPermissionByOwner reserved.owner reserved.name with
  | some _ => .error .uniquenessViolated
  | none => .ok { tables with
      permissions := tables.permissions ++ [reserved]
      permissionsById := KeyedTable.unique_append tables.permissionsById tables.id_ne_nextPermissionId
      permissionsByOwner :=
        KeyedTable.unique_append tables.permissionsByOwner (KeyedTable.find_eq_none fresh)
      nextPermissionId := tables.nextPermissionId + 1
      idsBelowNext := tables.idsBelowNext_append rfl }

namespace Controller

/-- `controller_impl::create_native_account`: the account, then its `owner` and its `active`
under it. -/
def createNativeAccount (config : AuthConfig Key) (tables : AuthTables Key) (name : Name)
    (owner active : Authority Key) (isPrivileged : Bool) : Except ActionError (AuthTables Key) := do
  let tables ← tables.createAccount ⟨name, isPrivileged⟩
  let (tables, ownerPermission) ← tables.createPermission config name ownerName 0 owner
  let (tables, _) ← tables.createPermission config name activeName ownerPermission.id active
  pure tables

/-- The authorities of genesis: `authority(initial_key)`, `authority(1, {}, {})`, and the
producers' authority, satisfied by `eosio@active`. -/
def systemAuth (initialKey : Key) : Authority Key := ⟨1, [⟨initialKey, 1⟩], [], []⟩

/-- `authority(1, {}, {})`, which nothing satisfies. -/
def emptyAuthority : Authority Key := ⟨1, [], [], []⟩

/-- The authority of `eosio.prods@active` and of its two sub-permissions at genesis. -/
def activeProducersAuthority : Authority Key :=
  ⟨1, [], [⟨⟨systemAccountName, activeName⟩, 1⟩], []⟩

/-- The permission part of `controller_impl::initialize_database`: the reserved permission, the
native accounts `eosio`, `eosio.null` and `eosio.prods`, and the producers' `prod.major` under
`eosio.prods@active` and `prod.minor` under it. -/
def initializeDatabase (config : AuthConfig Key) (initialKey : Key) :
    Except ActionError (AuthTables Key) := do
  let tables ← AuthTables.empty.initializeDatabase
  let tables ← createNativeAccount config tables systemAccountName (systemAuth initialKey)
    (systemAuth initialKey) true
  let tables ← createNativeAccount config tables nullAccountName emptyAuthority emptyAuthority false
  let tables ← createNativeAccount config tables producersAccountName emptyAuthority
    activeProducersAuthority false
  let activePermission ← tables.getPermission ⟨producersAccountName, activeName⟩
  let (tables, majorityPermission) ← tables.createPermission config producersAccountName
    majorityProducersPermissionName activePermission.id activeProducersAuthority
  let (tables, _) ← tables.createPermission config producersAccountName
    minorityProducersPermissionName majorityPermission.id activeProducersAuthority
  pure tables

end Controller

/-! ### The native actions -/

/-- `apply_context::require_authorization(account)`: some authorization the action declares is
of `account`. -/
def requireAuthorization (authorization : List PermissionLevel) (account : Name) :
    Except ActionError Unit :=
  if authorization.any (fun level => level.actor = account) then .ok ()
  else .error (.missingAuth account)

/-- `validate_authority_precondition`: every account an authority names exists, and so does every
permission it names, but `owner`, `active` and the virtual `eosio.code`. -/
def validateAuthorityPrecondition (tables : AuthTables Key) (auth : Authority Key) :
    Except ActionError Unit :=
  auth.accounts.forM fun a => do
    unless (tables.findAccount a.permission.actor).isSome do
      throw (.actionValidate "account does not exist")
    -- the account exists, so its owner and active permissions do
    unless a.permission.permission = ownerName ∨ a.permission.permission = activeName ∨
        a.permission.permission = eosioCodeName do
      match tables.getPermission a.permission with
      | .ok _ => pure ()
      | .error (.permissionQuery _) => throw (.actionValidate "permission does not exist")
      | .error e => throw e

/-- The table change of `apply_eosio_updateauth`: a permission of that name has its authority
replaced, keeping its parent; else one is created under the named parent, or under none for
`owner`. -/
def updatePermission (config : AuthConfig Key) (tables : AuthTables Key)
    (account permission parent : Name) (auth : Authority Key) :
    Except ActionError (AuthTables Key) := do
  let existing ← tables.findPermission ⟨account, permission⟩
  let parentId ← if permission = ownerName then pure 0
    else (·.id) <$> tables.getPermission ⟨account, parent⟩
  match existing with
  | some existing =>
    unless parentId = existing.parent do
      throw (.actionValidate "Changing parent authority is not currently supported")
    tables.modifyPermission config existing auth
  | none => (·.1) <$> tables.createPermission config account permission parentId auth

/-- `apply_eosio_deleteauth`: neither `owner`, `active` nor a permission that a link requires is
deleted. -/
def applyDeleteauth (authorization : List PermissionLevel) (tables : AuthTables Key)
    (account permission : Name) : Except ActionError (AuthTables Key) := do
  requireAuthorization authorization account
  unless permission ≠ activeName do throw (.actionValidate "Cannot delete active authority")
  unless permission ≠ ownerName do throw (.actionValidate "Cannot delete owner authority")
  -- the `by_permission_name` index of the links
  unless !tables.links.any (fun link => link.account = account ∧ link.requiredPermission = permission) do
    throw (.actionValidate "Cannot delete a linked authority. Unlink the authority first.")
  let existing ← tables.getPermission ⟨account, permission⟩
  tables.removePermission existing

/-- The table change of `apply_eosio_linkauth`: the link of the action is pointed at the new
requirement, or created. -/
def updateLink (tables : AuthTables Key) (account code type requirement : Name) :
    Except ActionError (AuthTables Key) :=
  match tables.findLink account code type with
  | some link => do
    unless link.requiredPermission ≠ requirement do
      throw (.actionValidate "Attempting to update required authority, but new requirement is same as old")
    pure (tables.modifyLink link requirement)
  | none => tables.createLink ⟨account, code, type, requirement⟩

/-- `apply_eosio_linkauth`: before `only_link_to_existing_permission`, a permission of that name
of any account will do. -/
def applyLinkauth (config : AuthConfig Key) (authorization : List PermissionLevel)
    (tables : AuthTables Key) (account code type requirement : Name) :
    Except ActionError (AuthTables Key) := do
  unless requirement ≠ Name.empty do
    throw (.actionValidate "Required permission cannot be empty")
  requireAuthorization authorization account
  unless (tables.findAccount account).isSome do throw (.accountQuery account)
  unless (tables.findAccount code).isSome do throw (.accountQuery code)
  if requirement ≠ eosioAnyName then
    let found :=
      if config.onlyLinkToExistingPermission then
        (tables.findPermissionByOwner account requirement).isSome
      else tables.permissions.any fun p => p.name = requirement
    unless found do throw (.permissionQuery ⟨account, requirement⟩)
  updateLink tables account code type requirement

/-- `apply_eosio_unlinkauth`. -/
def applyUnlinkauth (authorization : List PermissionLevel) (tables : AuthTables Key)
    (account code type : Name) : Except ActionError (AuthTables Key) := do
  requireAuthorization authorization account
  let some link := tables.findLink account code type
    | throw (.actionValidate "Attempting to unlink authority, but no link found")
  pure (tables.removeLink link)

section Actions

variable [LT Key] [DecidableRel (LT.lt : Key → Key → Prop)]

/-- The assertions of `apply_eosio_newaccount` before it creates the account. -/
def checkNewaccount (tables : AuthTables Key) (creator name : Name) (owner active : Authority Key) :
    Except ActionError Unit := do
  unless owner.validate do throw (.actionValidate "Invalid owner authority")
  unless active.validate do throw (.actionValidate "Invalid active authority")
  let nameStr := name.toString
  unless name ≠ Name.empty do throw (.actionValidate "account name cannot be empty")
  unless nameStr.length ≤ 12 do
    throw (.actionValidate "account names can only be 12 chars long")
  let some creatorAccount := tables.findAccount creator | throw .unknownKey
  unless creatorAccount.privileged do
    unless !"eosio.".toList.isPrefixOf nameStr do
      throw (.actionValidate "only privileged accounts can have names that start with 'eosio.'")
  unless (tables.findAccount name).isNone do throw (.accountNameExists name)

/-- `apply_eosio_newaccount`. The authorities are checked against the tables after the account
is created, so they may name the new account. -/
def applyNewaccount (config : AuthConfig Key) (authorization : List PermissionLevel)
    (tables : AuthTables Key) (creator name : Name) (owner active : Authority Key) :
    Except ActionError (AuthTables Key) := do
  requireAuthorization authorization creator
  checkNewaccount tables creator name owner active
  let tables ← tables.createAccount ⟨name, false⟩
  validateAuthorityPrecondition tables owner
  validateAuthorityPrecondition tables active
  let (tables, ownerPermission) ← tables.createPermission config name ownerName 0 owner
  let (tables, _) ← tables.createPermission config name activeName ownerPermission.id active
  pure tables

/-- The assertions of `apply_eosio_updateauth` before it looks the permission up. -/
def checkUpdateauth (config : AuthConfig Key) (tables : AuthTables Key)
    (account permission parent : Name) (auth : Authority Key) : Except ActionError Unit := do
  unless permission ≠ Name.empty do
    throw (.actionValidate "Cannot create authority with empty name")
  unless !"eosio.".toList.isPrefixOf permission.toString do
    throw (.actionValidate "Permission names that start with 'eosio.' are reserved")
  unless permission ≠ parent do
    throw (.actionValidate "Cannot set an authority as its own parent")
  unless (tables.findAccount account).isSome do throw .unknownKey
  unless auth.validate do throw (.actionValidate "Invalid authority")
  if permission = activeName then
    unless parent = ownerName do
      throw (.actionValidate "Cannot change active authority's parent from owner")
  if permission = ownerName then
    unless parent = Name.empty do
      throw (.actionValidate "Cannot change owner authority's parent")
  else
    unless parent ≠ Name.empty do
      throw (.actionValidate "Only owner permission can have empty parent")
  -- the waits are ascending, so the last is the longest
  if let some wait := auth.waits.getLast? then
    unless wait.waitSec ≤ config.maxTransactionDelay do
      throw (.actionValidate "Cannot set delay longer than max_transacton_delay")

/-- `apply_eosio_updateauth`. -/
def applyUpdateauth (config : AuthConfig Key) (authorization : List PermissionLevel)
    (tables : AuthTables Key) (account permission parent : Name) (auth : Authority Key) :
    Except ActionError (AuthTables Key) := do
  requireAuthorization authorization account
  checkUpdateauth config tables account permission parent auth
  validateAuthorityPrecondition tables auth
  updatePermission config tables account permission parent auth

/-! ### Runs -/

/-- The data of the five actions. -/
inductive AuthAction (Key : Type)
  | newaccount (creator name : Name) (owner active : Authority Key)
  | updateauth (account permission parent : Name) (auth : Authority Key)
  | deleteauth (account permission : Name)
  | linkauth (account code type requirement : Name)
  | unlinkauth (account code type : Name)

/-- The handler the controller dispatches an action to. -/
def applyAction (config : AuthConfig Key) (authorization : List PermissionLevel)
    (tables : AuthTables Key) : AuthAction Key → Except ActionError (AuthTables Key)
  | .newaccount creator name owner active =>
    applyNewaccount config authorization tables creator name owner active
  | .updateauth account permission parent auth =>
    applyUpdateauth config authorization tables account permission parent auth
  | .deleteauth account permission => applyDeleteauth authorization tables account permission
  | .linkauth account code type requirement =>
    applyLinkauth config authorization tables account code type requirement
  | .unlinkauth account code type => applyUnlinkauth authorization tables account code type

/-- One action that succeeds, with any declared authorizations. -/
def AuthTables.Step (config : AuthConfig Key) (tables tables' : AuthTables Key) : Prop :=
  ∃ authorization action, applyAction config authorization tables action = .ok tables'

/-- The tables a run of actions from some genesis reaches. -/
def AuthTables.Reachable (config : AuthConfig Key) : AuthTables Key → Prop :=
  Transition.Reachable
    (fun tables => ∃ initialKey, Controller.initializeDatabase config initialKey = .ok tables)
    (AuthTables.Step config)

end Actions

/-! ### Walking up the parents -/

/-- The loop of `permission_object::satisfies`, from the permission of id `parentId`, with `fuel`
passes at most. `none` stands for the dereference of a missing id, or for running out of fuel. -/
def PermissionObject.satisfiesWalk (self : PermissionObject Key)
    (permissions : List (PermissionObject Key)) : Nat → Nat → Option Bool
  | 0, _ => none
  | fuel + 1, parentId =>
    match KeyedTable.find PermissionObject.id permissions parentId with
    | none => none
    | some parent =>
      if self.id = parent.parent then some true
      else if parent.parent = 0 then some false
      else self.satisfiesWalk permissions fuel parent.parent

/-- `permission_object::satisfies`: whether `self` is `other` or above it in its account's tree. -/
def PermissionObject.satisfies (self other : PermissionObject Key)
    (permissions : List (PermissionObject Key)) (fuel : Nat) : Option Bool :=
  if self.owner ≠ other.owner then some false
  else if self.id = other.id ∨ self.id = other.parent then some true
  else self.satisfiesWalk permissions fuel other.parent

end Eosio.Chain
