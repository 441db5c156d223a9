/-
This file proves that the permission table stays a forest of one tree per account along every
run of `newaccount`, `updateauth`, `deleteauth`, `linkauth` and `unlinkauth` from genesis, and
that `permission_object::satisfies` then decides, without a missing lookup and within a bound on
its passes, whether one permission is another or above it in the same tree.

The invariant is stated on the shape of each permission, its id, parent, owner and name: changing
an authority keeps the shape, so each action is one of four changes of the shape, and each change
keeps the invariant.
-/

import EosioChain.ParentForest
import EosioChain.Permissions

namespace Eosio.Chain

variable {Key : Type}

/-! ### The shape of the table -/

/-- What the tree and `satisfies` read of a permission. -/
structure PermissionNode where
  id : Nat
  parent : Nat
  owner : Name
  name : Name

/-- The shape of a permission. -/
def PermissionObject.node (permission : PermissionObject Key) : PermissionNode :=
  ⟨permission.id, permission.parent, permission.owner, permission.name⟩

/-- The shapes of the permissions of the table. -/
def AuthTables.nodes (tables : AuthTables Key) : List PermissionNode :=
  tables.permissions.map PermissionObject.node

namespace AuthTables

/-- A change that keeps the accounts and the shape of the permissions. -/
structure KeepsShape (tables tables' : AuthTables Key) : Prop where
  accounts : tables'.accounts = tables.accounts
  nodes : tables'.nodes = tables.nodes

/-- A new account `name` with an `owner` permission of the next id, at the root, and an `active`
permission under it. -/
structure AddsAccount (tables tables' : AuthTables Key) (name : Name) : Prop where
  accounts : ∃ privileged, tables'.accounts = tables.accounts ++ [⟨name, privileged⟩]
  nodes : tables'.nodes = tables.nodes ++
    [⟨tables.nextPermissionId, 0, name, ownerName⟩,
      ⟨tables.nextPermissionId + 1, tables.nextPermissionId, name, activeName⟩]

/-- A new permission of the next id. -/
structure AddsPermission (tables tables' : AuthTables Key) (account permission : Name)
    (parentId : Nat) : Prop where
  accounts : tables'.accounts = tables.accounts
  nodes : tables'.nodes = tables.nodes ++ [⟨tables.nextPermissionId, parentId, account, permission⟩]

/-- The removal of a permission that is the parent of none. -/
structure RemovesPermission (tables tables' : AuthTables Key) (removed : PermissionObject Key) :
    Prop where
  accounts : tables'.accounts = tables.accounts
  childless : ∀ child ∈ tables.permissions, child.parent ≠ removed.id
  nodes : ∀ node, node ∈ tables'.nodes ↔ node ∈ tables.nodes ∧ node.id ≠ removed.id

variable {tables tables' : AuthTables Key}

theorem KeepsShape.of_eq (accounts : tables'.accounts = tables.accounts)
    (permissions : tables'.permissions = tables.permissions) : KeepsShape tables tables' := by
  refine ⟨accounts, ?_⟩
  unfold AuthTables.nodes
  rw [permissions]

/-! ### The table operations -/

theorem createAccount_eq_ok {account : AccountObject}
    (created : tables.createAccount account = .ok tables') :
    tables'.accounts = tables.accounts ++ [account] ∧ tables'.permissions = tables.permissions ∧
      tables'.nextPermissionId = tables.nextPermissionId := by
  unfold createAccount at created
  split at created
  · cases created
  · cases created
    exact ⟨rfl, rfl, rfl⟩

theorem createPermission_eq_ok {config : AuthConfig Key} {account name : Name} {parent : Nat}
    {auth : Authority Key} {permission : PermissionObject Key}
    (created : tables.createPermission config account name parent auth = .ok (tables', permission)) :
    tables.findPermissionByOwner account name = none ∧
      permission = ⟨tables.nextPermissionId, parent, account, name, auth⟩ ∧
      tables'.accounts = tables.accounts ∧ tables'.permissions = tables.permissions ++ [permission] ∧
      tables'.nextPermissionId = tables.nextPermissionId + 1 := by
  unfold createPermission at created
  split at created
  · split at created
    · cases created
    · rename_i fresh
      cases created
      exact ⟨fresh, rfl, rfl, rfl, rfl⟩
  · cases created

/-- A created permission adds its shape. -/
theorem createPermission_addsPermission {config : AuthConfig Key} {account name : Name}
    {parent : Nat} {auth : Authority Key} {permission : PermissionObject Key}
    (created : tables.createPermission config account name parent auth = .ok (tables', permission)) :
    AddsPermission tables tables' account name parent := by
  obtain ⟨-, rfl, accounts, permissions, -⟩ := createPermission_eq_ok created
  refine ⟨accounts, ?_⟩
  rw [nodes, nodes, permissions, List.map_append, List.map_singleton]
  rfl

theorem modifyPermission_keepsShape {config : AuthConfig Key} {permission : PermissionObject Key}
    {auth : Authority Key} (modified : tables.modifyPermission config permission auth = .ok tables') :
    KeepsShape tables tables' := by
  unfold modifyPermission at modified
  split at modified
  · cases modified
    exact ⟨rfl, KeyedTable.map_modify_of_keeps _ _ _ fun _ => rfl⟩
  · cases modified

theorem removePermission_removes {permission : PermissionObject Key}
    (removed : tables.removePermission permission = .ok tables') :
    RemovesPermission tables tables' permission := by
  unfold removePermission at removed
  split at removed
  · cases removed
  · rename_i childless
    cases removed
    refine ⟨rfl, fun child member linked => childless (List.any_eq_true.mpr
      ⟨child, member, decide_eq_true linked⟩), fun node => ?_⟩
    simp only [nodes, List.mem_map, KeyedTable.mem_erase]
    constructor
    · rintro ⟨object, ⟨member, other⟩, rfl⟩
      exact ⟨⟨object, member, rfl⟩, other⟩
    · rintro ⟨⟨object, member, rfl⟩, other⟩
      exact ⟨object, ⟨member, other⟩, rfl⟩

theorem getPermission_eq_ok {level : PermissionLevel} {permission : PermissionObject Key}
    (got : tables.getPermission level = .ok permission) :
    level.actor ≠ Name.empty ∧ permission ∈ tables.permissions ∧ permission.owner = level.actor ∧
      permission.name = level.permission := by
  unfold getPermission at got
  split at got
  · cases got
  · rename_i named
    split at got
    · rename_i found
      cases got
      obtain ⟨member, keyed⟩ := KeyedTable.find_eq_some found
      exact ⟨fun empty => named (Or.inl empty), member, congrArg Prod.fst keyed,
        congrArg Prod.snd keyed⟩
    · cases got

theorem findPermission_eq_ok {level : PermissionLevel} {result : Option (PermissionObject Key)}
    (found : tables.findPermission level = .ok result) :
    result = tables.findPermissionByOwner level.actor level.permission := by
  unfold findPermission at found
  split at found
  · cases found
  · cases found
    rfl

theorem createLink_keepsShape {link : PermissionLinkObject}
    (created : tables.createLink link = .ok tables') : KeepsShape tables tables' := by
  unfold createLink at created
  split at created
  · cases created
  · cases created
    exact KeepsShape.of_eq rfl rfl

end AuthTables

/-! ### The actions as changes of the shape -/

/-- An account created with its `owner` and `active` permissions, as `newaccount` and
`create_native_account` do. -/
theorem addsAccount_of_created {config : AuthConfig Key} {tables accountTables ownerTables
      activeTables : AuthTables Key} {name : Name} {privileged : Bool}
    {owner active : Authority Key} {ownerPermission activePermission : PermissionObject Key}
    (accountCreated : tables.createAccount ⟨name, privileged⟩ = .ok accountTables)
    (ownerCreated : accountTables.createPermission config name ownerName 0 owner =
      .ok (ownerTables, ownerPermission))
    (activeCreated : ownerTables.createPermission config name activeName ownerPermission.id active =
      .ok (activeTables, activePermission)) :
    AuthTables.AddsAccount tables activeTables name := by
  obtain ⟨accounts, permissions, next⟩ := AuthTables.createAccount_eq_ok accountCreated
  obtain ⟨-, rfl, ownerAccounts, ownerPermissions, ownerNext⟩ :=
    AuthTables.createPermission_eq_ok ownerCreated
  obtain ⟨-, rfl, activeAccounts, activePermissions, -⟩ :=
    AuthTables.createPermission_eq_ok activeCreated
  refine ⟨⟨privileged, by rw [activeAccounts, ownerAccounts, accounts]⟩, ?_⟩
  rw [AuthTables.nodes, AuthTables.nodes, activePermissions, ownerPermissions, permissions,
    ownerNext, next]
  simp only [List.map_append, List.map_cons, List.map_nil, List.append_assoc, List.cons_append,
    List.nil_append]
  rfl

/-- The parent that **`updateauth`** resolves before it looks at the permission: `0` for
`owner`, else the id of a permission of the account. -/
theorem updatePermission_parent_eq_ok {α : Type} {tables : AuthTables Key}
    {account permission parent : Name} {rest : Nat → Except ActionError α} {result : α}
    (resolved : (if permission = ownerName then pure 0 >>= rest
      else (fun upper : PermissionObject Key => upper.id) <$> tables.getPermission ⟨account, parent⟩
        >>= rest) = .ok result) :
    ∃ parentId, (permission = ownerName → parentId = 0) ∧
      (permission ≠ ownerName → ∃ upper ∈ tables.permissions, upper.owner = account ∧
        upper.id = parentId) ∧
      rest parentId = .ok result := by
  by_cases isOwner : permission = ownerName
  · rw [if_pos isOwner] at resolved
    exact ⟨0, fun _ => rfl, fun notOwner => absurd isOwner notOwner, resolved⟩
  · rw [if_neg isOwner] at resolved
    obtain ⟨parentId, got, resolved⟩ := Transition.bind_eq_ok.mp resolved
    obtain ⟨upper, gotUpper, rfl⟩ := Transition.map_eq_ok.mp got
    obtain ⟨-, member, owned, -⟩ := AuthTables.getPermission_eq_ok gotUpper
    exact ⟨upper.id, fun owner => absurd owner isOwner, fun _ => ⟨upper, member, owned, rfl⟩,
      resolved⟩

/-- The table change of **`updateauth`** keeps the shape when the permission exists, and adds it
otherwise: at the root for `owner`, else under a permission of the account. -/
theorem updatePermission_eq_ok {config : AuthConfig Key} {tables tables' : AuthTables Key}
    {account permission parent : Name} {auth : Authority Key}
    (updated : updatePermission config tables account permission parent auth = .ok tables') :
    AuthTables.KeepsShape tables tables' ∨
      tables.findPermissionByOwner account permission = none ∧
        ∃ parentId, AuthTables.AddsPermission tables tables' account permission parentId ∧
          (permission = ownerName → parentId = 0) ∧
          (permission ≠ ownerName → ∃ upper ∈ tables.permissions, upper.owner = account ∧
            upper.id = parentId) := by
  simp only [updatePermission, Transition.bind_eq_ok] at updated
  obtain ⟨existing, found, changed⟩ := updated
  rw [AuthTables.findPermission_eq_ok found] at changed
  obtain ⟨parentId, rootOfOwner, underAccount, changed⟩ := updatePermission_parent_eq_ok changed
  dsimp only at changed
  split at changed
  · rename_i existing _
    have checked : (if parentId = existing.parent then tables.modifyPermission config existing auth
        else throw (ActionError.actionValidate "Changing parent authority is not currently supported"))
        = .ok tables' := changed
    exact Or.inl (AuthTables.modifyPermission_keepsShape (Transition.ite_throw_eq_ok.mp checked).2)
  · rename_i missing
    obtain ⟨⟨created, permissionCreated⟩, createdOk, rfl⟩ := Transition.map_eq_ok.mp changed
    exact Or.inr ⟨missing, parentId, AuthTables.createPermission_addsPermission createdOk,
      rootOfOwner, underAccount⟩

section Actions

variable [LT Key] [DecidableRel (LT.lt : Key → Key → Prop)] {config : AuthConfig Key}
  {authorization : List PermissionLevel} {tables tables' : AuthTables Key}

/-- **`newaccount`** adds an account of a non-empty name. -/
theorem applyNewaccount_addsAccount {creator name : Name} {owner active : Authority Key}
    (applied : applyNewaccount config authorization tables creator name owner active = .ok tables') :
    name ≠ Name.empty ∧ AuthTables.AddsAccount tables tables' name := by
  simp only [applyNewaccount, Transition.bind_eq_ok] at applied
  obtain ⟨_, -, _, checked, accountTables, accountCreated, _, -, _, -, ⟨ownerTables, ownerPermission⟩,
    ownerCreated, ⟨activeTables, activePermission⟩, activeCreated, finished⟩ := applied
  cases finished
  simp only [checkNewaccount, Transition.throw_bind, Transition.ite_throw_eq_ok] at checked
  exact ⟨checked.2.2.1, addsAccount_of_created accountCreated ownerCreated activeCreated⟩

/-- **`updateauth`**: an existing account's permission is updated or added. -/
theorem applyUpdateauth_eq_ok {account permission parent : Name} {auth : Authority Key}
    (applied : applyUpdateauth config authorization tables account permission parent auth =
      .ok tables') :
    (tables.findAccount account).isSome ∧
      updatePermission config tables account permission parent auth = .ok tables' := by
  simp only [applyUpdateauth, Transition.bind_eq_ok] at applied
  obtain ⟨_, -, _, checked, _, -, updated⟩ := applied
  simp only [checkUpdateauth, Transition.throw_bind, Transition.ite_throw_eq_ok] at checked
  exact ⟨checked.2.2.2.1, updated⟩

end Actions

/-- **`deleteauth`** removes a childless permission of a named account that is neither `owner`
nor `active`. -/
theorem applyDeleteauth_removes {authorization : List PermissionLevel}
    {tables tables' : AuthTables Key} {account permission : Name}
    (applied : applyDeleteauth authorization tables account permission = .ok tables') :
    ∃ removed ∈ tables.permissions, account ≠ Name.empty ∧ removed.owner = account ∧
      removed.name ≠ ownerName ∧ removed.name ≠ activeName ∧
      AuthTables.RemovesPermission tables tables' removed := by
  simp only [applyDeleteauth, Transition.bind_eq_ok, Transition.throw_bind,
    Transition.ite_throw_eq_ok] at applied
  obtain ⟨_, -, notActive, notOwner, -, removed, got, removedOk⟩ := applied
  obtain ⟨named, member, owned, sameName⟩ := AuthTables.getPermission_eq_ok got
  refine ⟨removed, member, named, owned, ?_, ?_, AuthTables.removePermission_removes removedOk⟩
  · rw [sameName]
    exact notOwner
  · rw [sameName]
    exact notActive

theorem updateLink_keepsShape {tables tables' : AuthTables Key} {account code type requirement : Name}
    (updated : updateLink tables account code type requirement = .ok tables') :
    AuthTables.KeepsShape tables tables' := by
  unfold updateLink at updated
  split at updated
  · simp only [Transition.throw_bind, Transition.ite_throw_eq_ok] at updated
    cases updated.2
    exact AuthTables.KeepsShape.of_eq rfl rfl
  · exact AuthTables.createLink_keepsShape updated

/-- **`linkauth`** keeps the shape. -/
theorem applyLinkauth_keepsShape {config : AuthConfig Key} {authorization : List PermissionLevel}
    {tables tables' : AuthTables Key} {account code type requirement : Name}
    (applied : applyLinkauth config authorization tables account code type requirement =
      .ok tables') :
    AuthTables.KeepsShape tables tables' := by
  simp only [applyLinkauth, Transition.bind_eq_ok, Transition.throw_bind,
    Transition.ite_throw_eq_ok] at applied
  obtain ⟨-, _, -, -, -, updated⟩ := applied
  -- past the checks on the requirement, the links are updated
  split at updated
  · exact updateLink_keepsShape (Transition.ite_throw_eq_ok.mp updated).2
  · exact updateLink_keepsShape updated

/-- **`unlinkauth`** keeps the shape. -/
theorem applyUnlinkauth_keepsShape {authorization : List PermissionLevel}
    {tables tables' : AuthTables Key} {account code type : Name}
    (applied : applyUnlinkauth authorization tables account code type = .ok tables') :
    AuthTables.KeepsShape tables tables' := by
  simp only [applyUnlinkauth, Transition.bind_eq_ok] at applied
  obtain ⟨_, -, removed⟩ := applied
  split at removed
  · cases removed
    exact AuthTables.KeepsShape.of_eq rfl rfl
  · cases removed

/-! ### The invariant -/

/-- The shape the table keeps: the reserved permission `0`, and for each account a tree whose
root is its `owner`, with `active` under it, where each parent id is below its child's and names
a permission of the same account. -/
structure PermissionTree (accounts : List AccountObject) (nodes : List PermissionNode) : Prop where
  reservedMem : ∃ node ∈ nodes, node.id = 0
  reserved : ∀ node ∈ nodes, node.id = 0 →
    node.parent = 0 ∧ node.owner = Name.empty ∧ node.name = Name.empty
  accountNamed : ∀ account ∈ accounts, account.name ≠ Name.empty
  owned : ∀ node ∈ nodes, node.id ≠ 0 → ∃ account ∈ accounts, account.name = node.owner
  root : ∀ node ∈ nodes, node.id ≠ 0 → (node.parent = 0 ↔ node.name = ownerName)
  descending : ParentForest.Descending PermissionNode.id PermissionNode.parent nodes
  parentMem : ∀ node ∈ nodes, node.id ≠ 0 → node.parent ≠ 0 →
    ∃ upper ∈ nodes, upper.id = node.parent ∧ upper.owner = node.owner
  ownerMem : ∀ account ∈ accounts,
    ∃ node ∈ nodes, node.owner = account.name ∧ node.name = ownerName
  activeMem : ∀ account ∈ accounts, ∃ node ∈ nodes, node.owner = account.name ∧
    node.name = activeName ∧ ∃ upper ∈ nodes, upper.id = node.parent ∧ upper.name = ownerName

theorem activeName_ne_ownerName : activeName ≠ ownerName := by
  decide

namespace AuthTables

variable (tables : AuthTables Key)

theorem id_lt_of_mem_nodes {node : PermissionNode} (member : node ∈ tables.nodes) :
    node.id < tables.nextPermissionId := by
  obtain ⟨permission, permissionMember, rfl⟩ := List.mem_map.mp member
  exact tables.idsBelowNext permission permissionMember

/-- Two shapes of one id are one. -/
theorem node_eq_of_id_eq {node node' : PermissionNode} (member : node ∈ tables.nodes)
    (member' : node' ∈ tables.nodes) (sameId : node.id = node'.id) : node = node' := by
  obtain ⟨permission, permissionMember, rfl⟩ := List.mem_map.mp member
  obtain ⟨permission', permissionMember', rfl⟩ := List.mem_map.mp member'
  rw [KeyedTable.eq_of_key_eq tables.permissionsById permissionMember permissionMember' sameId]

/-- The one permission of an account with a name. -/
theorem eq_of_owner_name {permission other : PermissionObject Key}
    (member : permission ∈ tables.permissions) (otherMember : other ∈ tables.permissions)
    (sameOwner : other.owner = permission.owner) (sameName : other.name = permission.name) :
    other = permission :=
  KeyedTable.eq_of_key_eq tables.permissionsByOwner otherMember member (Prod.ext sameOwner sameName)

theorem exists_account_of_isSome {account : Name} (found : (tables.findAccount account).isSome) :
    ∃ row ∈ tables.accounts, row.name = account := by
  obtain ⟨row, rowFound⟩ := Option.isSome_iff_exists.mp found
  exact ⟨row, KeyedTable.find_eq_some rowFound⟩

end AuthTables

section Preservation

variable {tables tables' : AuthTables Key}

theorem mem_append_singleton {α : Type*} {x a : α} {l : List α} : x ∈ l ++ [a] ↔ x ∈ l ∨ x = a := by
  rw [List.mem_append, List.mem_singleton]

theorem mem_append_pair {α : Type*} {x a b : α} {l : List α} :
    x ∈ l ++ [a, b] ↔ x ∈ l ∨ x = a ∨ x = b := by
  rw [List.mem_append, List.mem_cons, List.mem_singleton]

theorem PermissionTree.nextPermissionId_ne_zero
    (tree : PermissionTree tables.accounts tables.nodes) : tables.nextPermissionId ≠ 0 := by
  obtain ⟨node, member, zero⟩ := tree.reservedMem
  have below := tables.id_lt_of_mem_nodes member
  omega

theorem PermissionTree.of_keepsShape (tree : PermissionTree tables.accounts tables.nodes)
    (keeps : AuthTables.KeepsShape tables tables') :
    PermissionTree tables'.accounts tables'.nodes := by
  rw [keeps.accounts, keeps.nodes]
  exact tree

/-- **A new account is a new tree**, of its `owner` at the root and its `active` under it. -/
theorem PermissionTree.of_addsAccount (tree : PermissionTree tables.accounts tables.nodes)
    {name : Name} (adds : AuthTables.AddsAccount tables tables' name) (named : name ≠ Name.empty) :
    PermissionTree tables'.accounts tables'.nodes := by
  obtain ⟨⟨privileged, accounts⟩, nodes⟩ := adds
  have fresh := tree.nextPermissionId_ne_zero
  rw [accounts, nodes]
  generalize tables.nextPermissionId = next at fresh
  have newAccount : ⟨name, privileged⟩ ∈ tables.accounts ++ [⟨name, privileged⟩] :=
    List.mem_append_right _ (List.mem_singleton_self _)
  have ownerMember : ⟨next, 0, name, ownerName⟩ ∈ tables.nodes ++
      [⟨next, 0, name, ownerName⟩, ⟨next + 1, next, name, activeName⟩] :=
    List.mem_append_right _ List.mem_cons_self
  have activeMember : ⟨next + 1, next, name, activeName⟩ ∈ tables.nodes ++
      [⟨next, 0, name, ownerName⟩, ⟨next + 1, next, name, activeName⟩] :=
    List.mem_append_right _ (List.mem_cons_of_mem _ List.mem_cons_self)
  constructor
  · obtain ⟨node, member, zero⟩ := tree.reservedMem
    exact ⟨node, List.mem_append_left _ member, zero⟩
  · intro node member zero
    rcases mem_append_pair.mp member with old | rfl | rfl
    · exact tree.reserved node old zero
    · exact absurd zero fresh
    · exact absurd zero (Nat.succ_ne_zero next)
  · intro account member
    rcases mem_append_singleton.mp member with old | rfl
    · exact tree.accountNamed account old
    · exact named
  · intro node member notReserved
    rcases mem_append_pair.mp member with old | rfl | rfl
    · obtain ⟨account, accountMember, owns⟩ := tree.owned node old notReserved
      exact ⟨account, List.mem_append_left _ accountMember, owns⟩
    · exact ⟨⟨name, privileged⟩, newAccount, rfl⟩
    · exact ⟨⟨name, privileged⟩, newAccount, rfl⟩
  · intro node member notReserved
    rcases mem_append_pair.mp member with old | rfl | rfl
    · exact tree.root node old notReserved
    · exact iff_of_true rfl rfl
    · exact iff_of_false fresh activeName_ne_ownerName
  · intro node member notReserved
    rcases mem_append_pair.mp member with old | rfl | rfl
    · exact tree.descending node old notReserved
    · exact Nat.pos_of_ne_zero fresh
    · exact Nat.lt_succ_self next
  · intro node member notReserved linked
    rcases mem_append_pair.mp member with old | rfl | rfl
    · obtain ⟨upper, upperMember, upperId, sameOwner⟩ := tree.parentMem node old notReserved linked
      exact ⟨upper, List.mem_append_left _ upperMember, upperId, sameOwner⟩
    · exact absurd rfl linked
    · exact ⟨_, ownerMember, rfl, rfl⟩
  · intro account member
    rcases mem_append_singleton.mp member with old | rfl
    · obtain ⟨node, nodeMember, owns, isOwner⟩ := tree.ownerMem account old
      exact ⟨node, List.mem_append_left _ nodeMember, owns, isOwner⟩
    · exact ⟨_, ownerMember, rfl, rfl⟩
  · intro account member
    rcases mem_append_singleton.mp member with old | rfl
    · obtain ⟨node, nodeMember, owns, isActive, upper, upperMember, upperId, isOwner⟩ :=
        tree.activeMem account old
      exact ⟨node, List.mem_append_left _ nodeMember, owns, isActive, upper,
        List.mem_append_left _ upperMember, upperId, isOwner⟩
    · exact ⟨_, activeMember, rfl, rfl, _, ownerMember, rfl, rfl⟩

/-- **A new permission hangs under a permission of its account.** -/
theorem PermissionTree.of_addsPermission (tree : PermissionTree tables.accounts tables.nodes)
    {account permission : Name} {parentId : Nat}
    (adds : AuthTables.AddsPermission tables tables' account permission parentId)
    (notOwner : permission ≠ ownerName) (accountMem : ∃ row ∈ tables.accounts, row.name = account)
    (upperMem : ∃ upper ∈ tables.nodes, upper.id = parentId ∧ upper.owner = account) :
    PermissionTree tables'.accounts tables'.nodes := by
  obtain ⟨accounts, nodes⟩ := adds
  obtain ⟨row, rowMember, rowName⟩ := accountMem
  obtain ⟨upper, upperMember, upperId, upperOwner⟩ := upperMem
  -- the parent belongs to a named account, so it is not the reserved permission
  have parentNotReserved : parentId ≠ 0 := by
    intro zero
    have reservedOwner := (tree.reserved upper upperMember (upperId.trans zero)).2.1
    exact tree.accountNamed row rowMember (rowName.trans (upperOwner.symm.trans reservedOwner))
  have fresh := tree.nextPermissionId_ne_zero
  have parentBelow : parentId < tables.nextPermissionId :=
    upperId ▸ tables.id_lt_of_mem_nodes upperMember
  rw [accounts, nodes]
  generalize tables.nextPermissionId = next at fresh parentBelow
  constructor
  · obtain ⟨node, member, zero⟩ := tree.reservedMem
    exact ⟨node, List.mem_append_left _ member, zero⟩
  · intro node member zero
    rcases mem_append_singleton.mp member with old | rfl
    · exact tree.reserved node old zero
    · exact absurd zero fresh
  · exact tree.accountNamed
  · intro node member notReserved
    rcases mem_append_singleton.mp member with old | rfl
    · exact tree.owned node old notReserved
    · exact ⟨row, rowMember, rowName⟩
  · intro node member notReserved
    rcases mem_append_singleton.mp member with old | rfl
    · exact tree.root node old notReserved
    · exact iff_of_false parentNotReserved notOwner
  · intro node member notReserved
    rcases mem_append_singleton.mp member with old | rfl
    · exact tree.descending node old notReserved
    · exact parentBelow
  · intro node member notReserved linked
    rcases mem_append_singleton.mp member with old | rfl
    · obtain ⟨upper, upperMember, upperId, sameOwner⟩ := tree.parentMem node old notReserved linked
      exact ⟨upper, List.mem_append_left _ upperMember, upperId, sameOwner⟩
    · exact ⟨upper, List.mem_append_left _ upperMember, upperId, upperOwner⟩
  · intro account member
    obtain ⟨node, nodeMember, owns, isOwner⟩ := tree.ownerMem account member
    exact ⟨node, List.mem_append_left _ nodeMember, owns, isOwner⟩
  · intro account member
    obtain ⟨node, nodeMember, owns, isActive, upper, upperMember, upperId, isOwner⟩ :=
      tree.activeMem account member
    exact ⟨node, List.mem_append_left _ nodeMember, owns, isActive, upper,
      List.mem_append_left _ upperMember, upperId, isOwner⟩

/-- **Removing a childless permission that is neither `owner` nor `active` leaves a forest.** -/
theorem PermissionTree.of_removesPermission (tree : PermissionTree tables.accounts tables.nodes)
    {removed : PermissionObject Key} (removes : AuthTables.RemovesPermission tables tables' removed)
    (removedMember : removed ∈ tables.permissions) (named : removed.owner ≠ Name.empty)
    (notOwner : removed.name ≠ ownerName) (notActive : removed.name ≠ activeName) :
    PermissionTree tables'.accounts tables'.nodes := by
  obtain ⟨accounts, childless, nodes⟩ := removes
  have removedNode : removed.node ∈ tables.nodes := List.mem_map_of_mem removedMember
  -- a permission of a named account is not the reserved one
  have removedNotReserved : removed.id ≠ 0 := fun zero =>
    named (tree.reserved _ removedNode zero).2.1
  -- only the removed permission has its id, and none has it as parent
  have kept : ∀ node ∈ tables.nodes, node.name ≠ removed.name → node ∈ tables'.nodes := by
    intro node member differs
    refine (nodes node).mpr ⟨member, fun sameId => differs ?_⟩
    rw [tables.node_eq_of_id_eq member removedNode sameId]
    rfl
  have notParent : ∀ node ∈ tables.nodes, node.parent ≠ removed.id := by
    intro node member
    obtain ⟨child, childMember, rfl⟩ := List.mem_map.mp member
    exact childless child childMember
  have nameDiffers : ∀ {name : Name}, removed.name ≠ name → ∀ node : PermissionNode,
      node.name = name → node.name ≠ removed.name :=
    fun differs _ named sameName => differs (sameName.symm.trans named)
  rw [accounts]
  constructor
  · obtain ⟨node, member, zero⟩ := tree.reservedMem
    exact ⟨node, (nodes node).mpr ⟨member, fun sameId => removedNotReserved (sameId ▸ zero)⟩, zero⟩
  · exact fun node member => tree.reserved node ((nodes node).mp member).1
  · exact tree.accountNamed
  · exact fun node member => tree.owned node ((nodes node).mp member).1
  · exact fun node member => tree.root node ((nodes node).mp member).1
  · exact fun node member => tree.descending node ((nodes node).mp member).1
  · intro node member notReserved linked
    have old := ((nodes node).mp member).1
    obtain ⟨upper, upperMember, upperId, sameOwner⟩ := tree.parentMem node old notReserved linked
    exact ⟨upper, (nodes upper).mpr ⟨upperMember, upperId ▸ notParent node old⟩, upperId, sameOwner⟩
  · intro account member
    obtain ⟨node, nodeMember, owns, isOwner⟩ := tree.ownerMem account member
    exact ⟨node, kept node nodeMember (nameDiffers notOwner node isOwner), owns, isOwner⟩
  · intro account member
    obtain ⟨node, nodeMember, owns, isActive, upper, upperMember, upperId, isOwner⟩ :=
      tree.activeMem account member
    exact ⟨node, kept node nodeMember (nameDiffers notActive node isActive), owns, isActive, upper,
      kept upper upperMember (nameDiffers notOwner upper isOwner), upperId, isOwner⟩

end Preservation

/-! ### Runs from genesis -/

theorem createNativeAccount_addsAccount {config : AuthConfig Key} {tables tables' : AuthTables Key}
    {name : Name} {owner active : Authority Key} {isPrivileged : Bool}
    (created : Controller.createNativeAccount config tables name owner active isPrivileged =
      .ok tables') :
    AuthTables.AddsAccount tables tables' name := by
  simp only [Controller.createNativeAccount, Transition.bind_eq_ok] at created
  obtain ⟨accountTables, accountCreated, ⟨ownerTables, ownerPermission⟩, ownerCreated,
    ⟨activeTables, activePermission⟩, activeCreated, finished⟩ := created
  cases finished
  exact addsAccount_of_created accountCreated ownerCreated activeCreated

/-- The reserved permission alone is a forest. -/
theorem PermissionTree.initial {tables : AuthTables Key}
    (initialized : AuthTables.empty.initializeDatabase = .ok tables) :
    PermissionTree tables.accounts tables.nodes := by
  unfold AuthTables.initializeDatabase at initialized
  dsimp only at initialized
  split at initialized
  · cases initialized
  · cases initialized
    have nodes : ∀ node, node ∈ ([] ++ [(⟨0, 0, Name.empty, Name.empty, ⟨0, [], [], []⟩⟩ :
        PermissionObject Key)]).map PermissionObject.node ↔ node = ⟨0, 0, Name.empty, Name.empty⟩ :=
      fun node => List.mem_singleton
    constructor
    · exact ⟨_, (nodes _).mpr rfl, rfl⟩
    · intro node member _
      rw [(nodes node).mp member]
      exact ⟨rfl, rfl, rfl⟩
    · exact fun _ member => absurd member List.not_mem_nil
    · intro node member notReserved
      rw [(nodes node).mp member] at notReserved
      exact absurd rfl notReserved
    · intro node member notReserved
      rw [(nodes node).mp member] at notReserved
      exact absurd rfl notReserved
    · intro node member notReserved
      rw [(nodes node).mp member] at notReserved
      exact absurd rfl notReserved
    · intro node member notReserved
      rw [(nodes node).mp member] at notReserved
      exact absurd rfl notReserved
    · exact fun _ member => absurd member List.not_mem_nil
    · exact fun _ member => absurd member List.not_mem_nil

/-- **Genesis builds a forest**: the reserved permission, the trees of `eosio`, `eosio.null`
and `eosio.prods`, and `prod.major` and `prod.minor` under `eosio.prods@active`. -/
theorem PermissionTree.genesis {config : AuthConfig Key} {initialKey : Key}
    {tables : AuthTables Key} (initialized : Controller.initializeDatabase config initialKey = .ok tables) :
    PermissionTree tables.accounts tables.nodes := by
  simp only [Controller.initializeDatabase, Transition.bind_eq_ok] at initialized
  obtain ⟨reservedTables, reserved, systemTables, systemCreated, nullTables, nullCreated,
    producersTables, producersCreated, active, activeGot, ⟨majorityTables, majority⟩, majorityCreated,
    ⟨minorityTables, minority⟩, minorityCreated, finished⟩ := initialized
  cases finished
  have producersAdds := createNativeAccount_addsAccount producersCreated
  have producersTree := (((PermissionTree.initial reserved).of_addsAccount
    (createNativeAccount_addsAccount systemCreated) (by decide)).of_addsAccount
    (createNativeAccount_addsAccount nullCreated) (by decide)).of_addsAccount producersAdds (by decide)
  have producersMem : ∃ row ∈ producersTables.accounts, row.name = producersAccountName := by
    obtain ⟨privileged, accounts⟩ := producersAdds.accounts
    exact ⟨_, accounts ▸ List.mem_append_right _ (List.mem_singleton_self _), rfl⟩
  -- `prod.major` under `eosio.prods@active`
  obtain ⟨-, activeMember, activeOwner, -⟩ := AuthTables.getPermission_eq_ok activeGot
  have majorityAdds := AuthTables.createPermission_addsPermission majorityCreated
  have majorityTree := producersTree.of_addsPermission majorityAdds (by decide) producersMem
    ⟨active.node, List.mem_map_of_mem activeMember, rfl, activeOwner⟩
  -- `prod.minor` under `prod.major`
  obtain ⟨-, majorityEq, -, majorityPermissions, -⟩ := AuthTables.createPermission_eq_ok majorityCreated
  have majorityMember : majority.node ∈ majorityTables.nodes := by
    rw [AuthTables.nodes, majorityPermissions]
    exact List.mem_map_of_mem (List.mem_append_right _ (List.mem_singleton_self _))
  have majorityOwner : majority.node.owner = producersAccountName := by
    rw [majorityEq]
    rfl
  exact majorityTree.of_addsPermission (AuthTables.createPermission_addsPermission minorityCreated)
    (by decide) (majorityAdds.accounts ▸ producersMem) ⟨_, majorityMember, rfl, majorityOwner⟩

section Runs

variable [LT Key] [DecidableRel (LT.lt : Key → Key → Prop)] {config : AuthConfig Key}
  {tables tables' : AuthTables Key}

/-- **Every action keeps the forest.** -/
theorem PermissionTree.step (tree : PermissionTree tables.accounts tables.nodes)
    (stepped : tables.Step config tables') : PermissionTree tables'.accounts tables'.nodes := by
  obtain ⟨authorization, action, applied⟩ := stepped
  cases action with
  | newaccount creator name owner active =>
    obtain ⟨named, adds⟩ := applyNewaccount_addsAccount applied
    exact tree.of_addsAccount adds named
  | updateauth account permission parent auth =>
    obtain ⟨accountFound, updated⟩ := applyUpdateauth_eq_ok applied
    have accountMem := tables.exists_account_of_isSome accountFound
    rcases updatePermission_eq_ok updated with keeps | ⟨missing, parentId, adds, -, underAccount⟩
    · exact tree.of_keepsShape keeps
    · -- the account has an `owner`, so the permission it adds is another
      have notOwner : permission ≠ ownerName := by
        rintro rfl
        obtain ⟨row, rowMember, rowName⟩ := accountMem
        obtain ⟨node, nodeMember, owns, isOwner⟩ := tree.ownerMem row rowMember
        obtain ⟨object, objectMember, rfl⟩ := List.mem_map.mp nodeMember
        exact KeyedTable.find_eq_none missing object objectMember (Prod.ext (owns.trans rowName) isOwner)
      obtain ⟨upper, upperMember, owns, upperId⟩ := underAccount notOwner
      exact tree.of_addsPermission adds notOwner accountMem
        ⟨upper.node, List.mem_map_of_mem upperMember, upperId, owns⟩
  | deleteauth account permission =>
    obtain ⟨removed, member, named, owns, notOwner, notActive, removes⟩ :=
      applyDeleteauth_removes applied
    exact tree.of_removesPermission removes member (owns ▸ named) notOwner notActive
  | linkauth account code type requirement =>
    exact tree.of_keepsShape (applyLinkauth_keepsShape applied)
  | unlinkauth account code type =>
    exact tree.of_keepsShape (applyUnlinkauth_keepsShape applied)

/-- **The forest holds along every run from genesis.** -/
theorem reachable_permissionTree (reachable : tables.Reachable config) :
    PermissionTree tables.accounts tables.nodes :=
  Transition.Reachable.invariant (fun tables => PermissionTree tables.accounts tables.nodes)
    (fun _ ⟨_, initialized⟩ => PermissionTree.genesis initialized)
    (fun _ _ tree stepped => tree.step stepped) reachable

end Runs

/-! ### The permissions form a forest -/

/-- **The permission table is a forest of per-account trees.** The reserved permission `0` has
an empty owner and name; every other permission belongs to an account; each account has exactly
one `owner`, at the root, and exactly one `active`, under that `owner`; every permission but
these roots has a parent of the same account; following parents from any permission reaches its
account's `owner`, and never comes back. -/
structure PermissionForest (tables : AuthTables Key) : Prop where
  reserved : ∃ reserved ∈ tables.permissions,
    reserved.id = 0 ∧ reserved.owner = Name.empty ∧ reserved.name = Name.empty
  ownedByAccount : ∀ permission ∈ tables.permissions, permission.id ≠ 0 →
    ∃ account ∈ tables.accounts, account.name = permission.owner
  ownerPermission : ∀ account ∈ tables.accounts, ∃ owner ∈ tables.permissions,
    owner.owner = account.name ∧ owner.name = ownerName ∧ owner.parent = 0 ∧
      ∀ other ∈ tables.permissions, other.owner = account.name → other.name = ownerName →
        other = owner
  activePermission : ∀ account ∈ tables.accounts, ∃ active ∈ tables.permissions,
    active.owner = account.name ∧ active.name = activeName ∧
      (∃ owner ∈ tables.permissions, owner.owner = account.name ∧ owner.name = ownerName ∧
        active.parent = owner.id) ∧
      ∀ other ∈ tables.permissions, other.owner = account.name → other.name = activeName →
        other = active
  parentExists : ∀ permission ∈ tables.permissions, permission.id ≠ 0 →
    permission.name ≠ ownerName → permission.parent ≠ 0 ∧
      ∃ parent ∈ tables.permissions, parent.id = permission.parent ∧ parent.owner = permission.owner
  reachesOwner : ∀ permission ∈ tables.permissions, permission.id ≠ 0 →
    ∃ owner ∈ tables.permissions, owner.owner = permission.owner ∧ owner.name = ownerName ∧
      owner.parent = 0 ∧ (owner = permission ∨
        ParentForest.Ancestor PermissionObject.id PermissionObject.parent tables.permissions owner
          permission)
  acyclic : ∀ permission ∈ tables.permissions,
    ¬ ParentForest.Ancestor PermissionObject.id PermissionObject.parent tables.permissions permission
      permission

namespace PermissionTree

variable {tables : AuthTables Key} (tree : PermissionTree tables.accounts tables.nodes)
include tree

/-! The invariant read on the permissions themselves. -/

theorem reserved_of_id_eq_zero {permission : PermissionObject Key}
    (member : permission ∈ tables.permissions) (reserved : permission.id = 0) :
    permission.parent = 0 ∧ permission.owner = Name.empty ∧ permission.name = Name.empty :=
  tree.reserved permission.node (List.mem_map_of_mem member) reserved

theorem exists_account {permission : PermissionObject Key}
    (member : permission ∈ tables.permissions) (notReserved : permission.id ≠ 0) :
    ∃ account ∈ tables.accounts, account.name = permission.owner :=
  tree.owned permission.node (List.mem_map_of_mem member) notReserved

/-- Only the reserved permission has the empty owner. -/
theorem id_eq_zero_of_owner {permission : PermissionObject Key}
    (member : permission ∈ tables.permissions) (emptyOwner : permission.owner = Name.empty) :
    permission.id = 0 := by
  by_contra notReserved
  obtain ⟨account, accountMember, owns⟩ := tree.exists_account member notReserved
  exact tree.accountNamed account accountMember (owns.trans emptyOwner)

theorem parent_eq_zero_iff {permission : PermissionObject Key}
    (member : permission ∈ tables.permissions) (notReserved : permission.id ≠ 0) :
    permission.parent = 0 ↔ permission.name = ownerName :=
  tree.root permission.node (List.mem_map_of_mem member) notReserved

theorem descending_permissions :
    ParentForest.Descending PermissionObject.id PermissionObject.parent tables.permissions :=
  fun permission member => tree.descending permission.node (List.mem_map_of_mem member)

theorem exists_parent {permission : PermissionObject Key}
    (member : permission ∈ tables.permissions) (notReserved : permission.id ≠ 0)
    (linked : permission.parent ≠ 0) :
    ∃ parent ∈ tables.permissions, parent.id = permission.parent ∧ parent.owner = permission.owner := by
  obtain ⟨upper, upperMember, upperId, sameOwner⟩ :=
    tree.parentMem permission.node (List.mem_map_of_mem member) notReserved linked
  obtain ⟨parent, parentMember, rfl⟩ := List.mem_map.mp upperMember
  exact ⟨parent, parentMember, upperId, sameOwner⟩

/-- Every permission but the reserved one has a parent: a permission of its account, or the
reserved one. -/
theorem exists_parentOf {permission : PermissionObject Key}
    (member : permission ∈ tables.permissions) (notReserved : permission.id ≠ 0) :
    ∃ parent, ParentForest.ParentOf PermissionObject.id PermissionObject.parent tables.permissions
      parent permission := by
  by_cases isRoot : permission.parent = 0
  · obtain ⟨node, nodeMember, zero⟩ := tree.reservedMem
    obtain ⟨reserved, reservedMember, rfl⟩ := List.mem_map.mp nodeMember
    exact ⟨reserved, reservedMember, member, notReserved, zero.trans isRoot.symm⟩
  · obtain ⟨parent, parentMember, parentId, -⟩ := tree.exists_parent member notReserved isRoot
    exact ⟨parent, parentMember, member, notReserved, parentId⟩

theorem exists_owner {account : AccountObject} (accountMember : account ∈ tables.accounts) :
    ∃ owner ∈ tables.permissions, owner.owner = account.name ∧ owner.name = ownerName ∧
      owner.parent = 0 := by
  obtain ⟨node, nodeMember, owns, isOwner⟩ := tree.ownerMem account accountMember
  obtain ⟨owner, ownerMember, rfl⟩ := List.mem_map.mp nodeMember
  have notReserved : owner.id ≠ 0 := fun reserved =>
    tree.accountNamed account accountMember
      (owns.symm.trans (tree.reserved_of_id_eq_zero ownerMember reserved).2.1)
  exact ⟨owner, ownerMember, owns, isOwner,
    (tree.parent_eq_zero_iff ownerMember notReserved).mpr isOwner⟩

/-- **The forest read on the permissions.** -/
theorem forest : PermissionForest tables := by
  constructor
  · obtain ⟨node, nodeMember, zero⟩ := tree.reservedMem
    obtain ⟨reserved, reservedMember, rfl⟩ := List.mem_map.mp nodeMember
    have empty := tree.reserved_of_id_eq_zero reservedMember zero
    exact ⟨reserved, reservedMember, zero, empty.2⟩
  · exact fun permission member => tree.exists_account member
  · intro account accountMember
    obtain ⟨owner, ownerMember, owns, isOwner, root⟩ := tree.exists_owner accountMember
    exact ⟨owner, ownerMember, owns, isOwner, root, fun other otherMember otherOwns otherIsOwner =>
      tables.eq_of_owner_name ownerMember otherMember (otherOwns.trans owns.symm)
        (otherIsOwner.trans isOwner.symm)⟩
  · intro account accountMember
    obtain ⟨node, nodeMember, owns, isActive, upper, upperMember, upperId, upperIsOwner⟩ :=
      tree.activeMem account accountMember
    obtain ⟨active, activeMember, rfl⟩ := List.mem_map.mp nodeMember
    obtain ⟨owner, ownerMember, ownerOwns, isOwner, -⟩ := tree.exists_owner accountMember
    -- the parent named `owner` of `active` is the account's `owner`
    obtain ⟨parent, parentMember, rfl⟩ := List.mem_map.mp upperMember
    have activeNotReserved : active.id ≠ 0 := fun reserved =>
      tree.accountNamed account accountMember
        (owns.symm.trans (tree.reserved_of_id_eq_zero activeMember reserved).2.1)
    have linked : active.parent ≠ 0 := fun root =>
      activeName_ne_ownerName (isActive.symm.trans ((tree.parent_eq_zero_iff activeMember
        activeNotReserved).mp root))
    obtain ⟨parent', parentMember', parentId', parentOwns'⟩ :=
      tree.exists_parent activeMember activeNotReserved linked
    have sameParent : parent' = parent :=
      KeyedTable.eq_of_key_eq tables.permissionsById parentMember' parentMember
        (parentId'.trans upperId.symm)
    rw [sameParent] at parentOwns'
    have isAccountOwner : parent = owner := tables.eq_of_owner_name ownerMember parentMember
      (parentOwns'.trans (owns.trans ownerOwns.symm)) (upperIsOwner.trans isOwner.symm)
    refine ⟨active, activeMember, owns, isActive, ⟨owner, ownerMember, ownerOwns, isOwner, ?_⟩,
      fun other otherMember otherOwns otherIsActive =>
        tables.eq_of_owner_name activeMember otherMember (otherOwns.trans owns.symm)
          (otherIsActive.trans isActive.symm)⟩
    rw [← isAccountOwner]
    exact upperId.symm
  · intro permission member notReserved notOwner
    have linked : permission.parent ≠ 0 := fun root =>
      notOwner ((tree.parent_eq_zero_iff member notReserved).mp root)
    exact ⟨linked, tree.exists_parent member notReserved linked⟩
  · intro permission member notReserved
    obtain ⟨owner, ownerMember, ownerNotReserved, root, owns, reaches⟩ :=
      ParentForest.exists_root PermissionObject.owner tree.descending_permissions
        (fun _ member notReserved linked => tree.exists_parent member notReserved linked)
        member notReserved
    exact ⟨owner, ownerMember, owns, (tree.parent_eq_zero_iff ownerMember ownerNotReserved).mp root,
      root, reaches⟩
  · exact fun permission _ => ParentForest.not_ancestor_self tree.descending_permissions permission

/-! ### `satisfies` -/

/-- **The walk of `satisfies` finds the ancestors.** From a permission whose id is below the
fuel, the loop looks up existing ids only, and answers whether `self` is above it. -/
theorem satisfiesWalk_spec {self : PermissionObject Key} (selfMember : self ∈ tables.permissions)
    (selfNotReserved : self.id ≠ 0) (fuel : Nat) {lower : PermissionObject Key}
    (lowerMember : lower ∈ tables.permissions) (below : lower.id < fuel) :
    ∃ result, self.satisfiesWalk tables.permissions fuel lower.id = some result ∧
      (result = true ↔ ParentForest.Ancestor PermissionObject.id PermissionObject.parent
        tables.permissions self lower) := by
  -- by induction on the fuel, which each pass uses up as the ids go down
  induction fuel generalizing lower with
  | zero => exact absurd below (Nat.not_lt_zero _)
  | succ fuel inductionHypothesis =>
    rw [PermissionObject.satisfiesWalk,
      KeyedTable.find_eq_some_of_mem tables.permissionsById lowerMember]
    dsimp only
    by_cases isParent : self.id = lower.parent
    · rw [if_pos isParent]
      -- the reserved permission's parent is `0`, which is not `self`'s id
      have lowerNotReserved : lower.id ≠ 0 := fun reserved =>
        selfNotReserved (isParent.trans (tree.reserved_of_id_eq_zero lowerMember reserved).1)
      exact ⟨true, rfl, iff_of_true rfl
        (Relation.TransGen.single ⟨selfMember, lowerMember, lowerNotReserved, isParent⟩)⟩
    · rw [if_neg isParent]
      by_cases isRoot : lower.parent = 0
      · rw [if_pos isRoot]
        exact ⟨false, rfl, iff_of_false Bool.false_ne_true
          (ParentForest.not_ancestor_of_parent_eq_zero tree.descending_permissions selfNotReserved isRoot)⟩
      · rw [if_neg isRoot]
        have lowerNotReserved : lower.id ≠ 0 := fun reserved =>
          isRoot (tree.reserved_of_id_eq_zero lowerMember reserved).1
        obtain ⟨upper, link⟩ := tree.exists_parentOf lowerMember lowerNotReserved
        have upperBelow : upper.id < fuel := by
          have := link.id_lt tree.descending_permissions
          omega
        obtain ⟨result, walked, correct⟩ := inductionHypothesis link.1 upperBelow
        rw [← link.2.2.2]
        refine ⟨result, walked, correct.trans ?_⟩
        rw [ParentForest.ancestor_iff_of_parentOf tables.permissionsById link]
        refine (or_iff_right fun same => isParent ?_).symm
        rw [same]
        exact link.2.2.2

/-- **`satisfies` decides the order of the forest.** With as many passes as permission ids were
handed out, it answers whether two permissions have one owner and the first is the second or
above it. -/
theorem satisfies_spec {a b : PermissionObject Key} (aMember : a ∈ tables.permissions)
    (bMember : b ∈ tables.permissions) {fuel : Nat} (enough : tables.nextPermissionId ≤ fuel) :
    ∃ result, a.satisfies b tables.permissions fuel = some result ∧
      (result = true ↔ a.owner = b.owner ∧ (a = b ∨ ParentForest.Ancestor PermissionObject.id
        PermissionObject.parent tables.permissions a b)) := by
  have bBelow : b.id < fuel := Nat.lt_of_lt_of_le (tables.idsBelowNext b bMember) enough
  unfold PermissionObject.satisfies
  by_cases differentOwners : a.owner ≠ b.owner
  · rw [if_pos differentOwners]
    exact ⟨false, rfl, iff_of_false Bool.false_ne_true fun both => differentOwners both.1⟩
  rw [if_neg differentOwners]
  have sameOwner : a.owner = b.owner := of_not_not differentOwners
  by_cases immediate : a.id = b.id ∨ a.id = b.parent
  · rw [if_pos immediate]
    refine ⟨true, rfl, iff_of_true rfl ⟨sameOwner, ?_⟩⟩
    by_cases bReserved : b.id = 0
    · -- only the reserved permission has its empty owner
      have aReserved := tree.id_eq_zero_of_owner aMember
        (sameOwner.trans (tree.reserved_of_id_eq_zero bMember bReserved).2.1)
      exact Or.inl (KeyedTable.eq_of_key_eq tables.permissionsById aMember bMember
        (aReserved.trans bReserved.symm))
    rcases immediate with sameId | isParent
    · exact Or.inl (KeyedTable.eq_of_key_eq tables.permissionsById aMember bMember sameId)
    · exact Or.inr (Relation.TransGen.single ⟨aMember, bMember, bReserved, isParent⟩)
  rw [if_neg immediate]
  obtain ⟨notSame, notParent⟩ := not_or.mp immediate
  have aNotReserved : a.id ≠ 0 := fun aReserved => notSame (aReserved.trans
    (tree.id_eq_zero_of_owner bMember (sameOwner.symm.trans
      (tree.reserved_of_id_eq_zero aMember aReserved).2.1)).symm)
  have aNeB : a ≠ b := fun same => notSame (congrArg PermissionObject.id same)
  by_cases bReserved : b.id = 0
  · -- the walk starts at the reserved permission itself
    have start : b.parent = b.id := (tree.reserved_of_id_eq_zero bMember bReserved).1.trans bReserved.symm
    obtain ⟨result, walked, correct⟩ := tree.satisfiesWalk_spec aMember aNotReserved fuel bMember bBelow
    rw [start]
    exact ⟨result, walked, correct.trans ⟨fun above => ⟨sameOwner, Or.inr above⟩,
      fun sameOwnerOrAbove => sameOwnerOrAbove.2.resolve_left aNeB⟩⟩
  · -- the walk starts at the parent of `b`
    obtain ⟨upper, link⟩ := tree.exists_parentOf bMember bReserved
    have upperBelow : upper.id < fuel := Nat.lt_trans (link.id_lt tree.descending_permissions) bBelow
    obtain ⟨result, walked, correct⟩ :=
      tree.satisfiesWalk_spec aMember aNotReserved fuel link.1 upperBelow
    rw [← link.2.2.2]
    refine ⟨result, walked, correct.trans ?_⟩
    rw [ParentForest.ancestor_iff_of_parentOf tables.permissionsById link]
    constructor
    · exact fun above => ⟨sameOwner, Or.inr (Or.inr above)⟩
    · rintro ⟨-, same | isUpper | above⟩
      · exact absurd same aNeB
      · exact absurd (isUpper ▸ link.2.2.2) notParent
      · exact above

end PermissionTree

/-- **The permission table is a forest of per-account trees.** In every state a run of
`newaccount`, `updateauth`, `deleteauth`, `linkauth` and `unlinkauth` reaches from genesis, the
table is a forest, and `satisfies`, given as many passes as permission ids were handed out, looks
up no missing id, returns, and says whether the two permissions have one owner and the first is
the second or one of its ancestors. -/
theorem reachable_permissionForest [LT Key] [DecidableRel (LT.lt : Key → Key → Prop)]
    {config : AuthConfig Key} {tables : AuthTables Key} (reachable : tables.Reachable config) :
    PermissionForest tables ∧
      ∀ a ∈ tables.permissions, ∀ b ∈ tables.permissions, ∀ fuel, tables.nextPermissionId ≤ fuel →
        ∃ result, a.satisfies b tables.permissions fuel = some result ∧
          (result = true ↔ a.owner = b.owner ∧ (a = b ∨ ParentForest.Ancestor PermissionObject.id
            PermissionObject.parent tables.permissions a b)) := by
  have tree := reachable_permissionTree reachable
  exact ⟨tree.forest, fun a aMember b bMember fuel enough =>
    tree.satisfies_spec aMember bMember enough⟩

/-- The tables of a genesis whose initial key is `7`, under a configuration that supports every
key type. -/
def genesisTables : AuthTables Nat :=
  match Controller.initializeDatabase ⟨3888000, fun _ => true, true⟩ 7 with
  | .ok tables => tables
  | .error _ => AuthTables.empty

namespace Run

/-- The names and authorities of a run: the account `alice`, its permissions `publish` and
`sub`, the action `transfer`, and authorities of the keys `7` and `8`. -/
def alice : Name := ⟨3773036822876127232⟩
def publish : Name := ⟨12578297992332705792⟩
def sub : Name := ⟨14307373066202644480⟩
def transfer : Name := ⟨14829575313431724032⟩
def config : AuthConfig Nat := ⟨3888000, fun _ => true, true⟩
def key7 : Authority Nat := ⟨1, [⟨7, 1⟩], [], []⟩
def key8 : Authority Nat := ⟨1, [⟨8, 1⟩], [], []⟩

end Run

/-- A run of every action from genesis: `eosio` creates `Run.alice`, which adds `Run.publish` under
`active` and `Run.sub` under `Run.publish`, links `eosio::Run.transfer` to `Run.sub` and then to `Run.publish`,
deletes `Run.sub`, unlinks the action and changes the authority of `Run.publish`. -/
theorem permissionRun_permissionForest :
    ∃ tables : AuthTables Nat, tables.Reachable Run.config ∧ tables.permissions.length = 12 ∧
      (tables.findPermissionByOwner Run.alice Run.sub).isNone ∧ PermissionForest tables ∧
      ∀ a ∈ tables.permissions, ∀ b ∈ tables.permissions, ∀ fuel, tables.nextPermissionId ≤ fuel →
        ∃ result, a.satisfies b tables.permissions fuel = some result ∧
          (result = true ↔ a.owner = b.owner ∧ (a = b ∨ ParentForest.Ancestor PermissionObject.id
            PermissionObject.parent tables.permissions a b)) := by
  have started : genesisTables.Reachable Run.config := Transition.Reachable.of_initial ⟨7, rfl⟩
  have created := started.step ⟨[⟨systemAccountName, activeName⟩],
    .newaccount systemAccountName Run.alice Run.key7 Run.key7, rfl⟩
  have published := created.step
    ⟨[⟨Run.alice, activeName⟩], .updateauth Run.alice Run.publish activeName Run.key7, rfl⟩
  have nested := published.step
    ⟨[⟨Run.alice, activeName⟩], .updateauth Run.alice Run.sub Run.publish Run.key8, rfl⟩
  have linked := nested.step
    ⟨[⟨Run.alice, activeName⟩], .linkauth Run.alice systemAccountName Run.transfer Run.sub, rfl⟩
  have relinked := linked.step ⟨[⟨Run.alice, activeName⟩],
    .linkauth Run.alice systemAccountName Run.transfer Run.publish, rfl⟩
  have deleted := relinked.step ⟨[⟨Run.alice, activeName⟩], .deleteauth Run.alice Run.sub, rfl⟩
  have unlinked := deleted.step
    ⟨[⟨Run.alice, activeName⟩], .unlinkauth Run.alice systemAccountName Run.transfer, rfl⟩
  have modified := unlinked.step
    ⟨[⟨Run.alice, activeName⟩], .updateauth Run.alice Run.publish activeName Run.key8, rfl⟩
  exact ⟨_, modified, rfl, rfl, reachable_permissionForest modified⟩

end Eosio.Chain
