/-
This file models the protocol feature manager of `protocol_feature_manager.cpp`: the list of
activated protocol features, in activation order with the block number of each, and a table with
one entry per builtin feature, holding the block number of its activation and the builtin
activated before it, so that the builtins activated are threaded, last first, from the head of
the builtin activation list. `activate_feature` checks and then records an activation;
`popped_blocks_to` undoes, when blocks are popped, the activations made after the new head block.

A manager holds a list of activations when its list is that one and its table and head are what
recording them one after another in an empty table leaves. Every successful activation of a
builtin not yet active extends the list held, a failing one changes nothing, and popping blocks to
`b` leaves the activations made at or before `b`: their block numbers never decrease, so those are
a bottom part of the list, and the loop that walks the builtin list from its head resets exactly
the entries of the others. A manager is determined by the list it holds, so popping blocks to `b`
gives the manager that only the activations at or before `b` would have built.

`is_builtin_activated(f, n)` compares the block number in the table with `n`. A builtin never
activated holds `not_active`, the largest `uint32_t`, so at that block number every builtin the
manager has an entry for reads as activated.
-/

import Mathlib
import EosioChain.StateExcept
import EosioChain.Transition
import EosioChain.ThreadedStack

namespace Eosio.Chain

/-- `builtin_protocol_feature_t`. -/
inductive BuiltinProtocolFeature
  | preactivateFeature
  | onlyLinkToExistingPermission
  | replaceDeferred
  | noDuplicateDeferredId
  | fixLinkauthRestriction
  | disallowEmptyProducerSchedule
  | restrictActionToSelf
  | onlyBillFirstAuthorizer
  | forwardSetcode
  | getSender
  | ramRestrictions
  | webauthnKey
  | wtmsigBlockSignatures
  | actionReturnValue
  | kvDatabase
  | configurableWasmLimits
  | blockchainParameters
  deriving DecidableEq, Repr

/-- `static_cast<uint32_t>(feature_codename)`: the place of the codename in the enumeration. -/
def BuiltinProtocolFeature.index : BuiltinProtocolFeature → UInt32
  | .preactivateFeature => 0
  | .onlyLinkToExistingPermission => 1
  | .replaceDeferred => 2
  | .noDuplicateDeferredId => 3
  | .fixLinkauthRestriction => 4
  | .disallowEmptyProducerSchedule => 5
  | .restrictActionToSelf => 6
  | .onlyBillFirstAuthorizer => 7
  | .forwardSetcode => 8
  | .getSender => 9
  | .ramRestrictions => 10
  | .webauthnKey => 11
  | .wtmsigBlockSignatures => 12
  | .actionReturnValue => 13
  | .kvDatabase => 14
  | .configurableWasmLimits => 15
  | .blockchainParameters => 16

/-- A recognized protocol feature: its digest, and its codename when it is a builtin one. -/
structure ProtocolFeature (Digest : Type) where
  featureDigest : Digest
  builtinFeature : Option BuiltinProtocolFeature

/-- `protocol_feature_set`: the recognized features, and the table of the builtin ones by
codename, of which the manager reads only the size. -/
structure ProtocolFeatureSet (Digest : Type) where
  recognizedProtocolFeatures : List (ProtocolFeature Digest)
  recognizedBuiltinProtocolFeatures : List (Option (ProtocolFeature Digest))

/-- `protocol_feature_manager::protocol_feature_entry`. -/
structure ProtocolFeatureEntry (Digest : Type) where
  iteratorToProtocolFeature : ProtocolFeature Digest
  activationBlockNum : UInt32

/-- `builtin_protocol_feature_entry::no_previous`, the largest `size_t`. -/
def noPrevious : UInt64 := 0xFFFFFFFFFFFFFFFF

/-- `builtin_protocol_feature_entry::not_active`, the largest `uint32_t`. -/
def notActive : UInt32 := 0xFFFFFFFF

/-- `protocol_feature_manager::builtin_protocol_feature_entry`. -/
structure BuiltinProtocolFeatureEntry where
  previous : UInt64 := noPrevious
  activationBlockNum : UInt32 := notActive
  deriving DecidableEq, Repr

/-- `protocol_feature_manager`. -/
structure ProtocolFeatureManager (Digest : Type) where
  protocolFeatureSet : ProtocolFeatureSet Digest
  activatedProtocolFeatures : List (ProtocolFeatureEntry Digest)
  builtinProtocolFeatures : List BuiltinProtocolFeatureEntry
  headOfBuiltinActivationList : UInt64 := noPrevious
  initialized : Bool := false

variable {Digest : Type}

section Find

variable [DecidableEq Digest]

/-- `protocol_feature_set::find`. -/
def ProtocolFeatureSet.find (set : ProtocolFeatureSet Digest) (featureDigest : Digest) :
    Option (ProtocolFeature Digest) :=
  set.recognizedProtocolFeatures.find? fun feature => feature.featureDigest = featureDigest

/-- The codename of the builtin feature a digest names, if it names one. -/
def ProtocolFeatureSet.builtinOf (set : ProtocolFeatureSet Digest) (featureDigest : Digest) :
    Option BuiltinProtocolFeature :=
  (set.find featureDigest).bind (·.builtinFeature)

end Find

namespace ProtocolFeatureManager

/-! ### The manager -/

/-- The constructor: one empty entry per recognized builtin, nothing activated. -/
def create (pfs : ProtocolFeatureSet Digest) : ProtocolFeatureManager Digest :=
  { protocolFeatureSet := pfs
    activatedProtocolFeatures := []
    builtinProtocolFeatures := List.replicate pfs.recognizedBuiltinProtocolFeatures.length {} }

section Activation

variable [DecidableEq Digest]

/-- `activate_feature(feature_digest, current_block_num)`: every check, then the four writes. -/
def activateFeature (featureDigest : Digest) (currentBlockNum : UInt32) :
    EStateM String (ProtocolFeatureManager Digest) Unit := do
  let self ← get
  unless self.initialized do throw "protocol_feature_manager is not yet initialized"
  let some itr := self.protocolFeatureSet.find featureDigest
    | throw "unrecognized protocol feature digest: ${digest}"
  if let some last := self.activatedProtocolFeatures.getLast? then
    unless last.activationBlockNum ≤ currentBlockNum do
      throw ("last protocol feature activation block num is ${last_activation_block_num} yet " ++
        "attempting to activate protocol feature with a current block num of ${current_block_num}" ++
        "protocol features is ${last_activation_block_num}")
  let some builtinFeature := itr.builtinFeature
    | throw "invariant failure: encountered non-builtin protocol feature which is not yet supported"
  let indx := builtinFeature.index
  unless indx.toNat < self.builtinProtocolFeatures.length do
    throw ("invariant failure while trying to activate feature with digest \x27${digest}\x27: " ++
      "unsupported builtin_protocol_feature_t ${codename}")
  unless (self.builtinProtocolFeatures.getD indx.toNat {}).activationBlockNum = notActive do
    throw "cannot activate already activated builtin feature with digest: ${digest}"
  modify fun s => { s with
    activatedProtocolFeatures := s.activatedProtocolFeatures ++ [⟨itr, currentBlockNum⟩] }
  modify fun s => { s with
    builtinProtocolFeatures := s.builtinProtocolFeatures.modify indx.toNat fun e =>
      { e with previous := s.headOfBuiltinActivationList } }
  modify fun s => { s with
    builtinProtocolFeatures := s.builtinProtocolFeatures.modify indx.toNat fun e =>
      { e with activationBlockNum := currentBlockNum } }
  modify fun s => { s with headOfBuiltinActivationList := indx.toUInt64 }

/-- `init(db)`: activate the features the database records as activated. A throw leaves the
manager uninitialized (`reset_initialized`), with the activations made before it. -/
def init (activated : List (Digest × UInt32)) :
    EStateM String (ProtocolFeatureManager Digest) Unit := do
  if (← get).initialized then throw "cannot initialize protocol_feature_manager twice"
  modify fun s => { s with initialized := true }
  tryCatch (activated.forM fun feature => activateFeature feature.1 feature.2) fun e => do
    modify fun s => { s with initialized := false }
    throw e

end Activation

/-- The first loop of `popped_blocks_to(block_num)`, given `fuel` passes: while the builtin at
the head of the activation list was activated after `block_num`, the head moves to the builtin
before it and its entry is reset. -/
def unlinkActivatedAfter (blockNum : UInt32) :
    Nat → ProtocolFeatureManager Digest → ProtocolFeatureManager Digest
  | 0, self => self
  | fuel + 1, self =>
    if self.headOfBuiltinActivationList = noPrevious then self
    else
      let e := self.builtinProtocolFeatures.getD self.headOfBuiltinActivationList.toNat {}
      if e.activationBlockNum ≤ blockNum then self
      else
        unlinkActivatedAfter blockNum fuel
          { self with
            headOfBuiltinActivationList := e.previous
            builtinProtocolFeatures :=
              self.builtinProtocolFeatures.modify self.headOfBuiltinActivationList.toNat fun e =>
                { e with previous := noPrevious, activationBlockNum := notActive } }

/-- The second loop of `popped_blocks_to(block_num)`: pop from the back the features activated
after `block_num`. -/
def popActivatedAfter (blockNum : UInt32) (features : List (ProtocolFeatureEntry Digest)) :
    List (ProtocolFeatureEntry Digest) :=
  (features.reverse.dropWhile fun entry => blockNum < entry.activationBlockNum).reverse

/-- `popped_blocks_to(block_num)`. In a manager built by activations the first loop makes one pass
per builtin activated after `block_num` and one more to stop, at most one more than the table has
entries; that is the fuel it is given. -/
def poppedBlocksTo (blockNum : UInt32) : EStateM String (ProtocolFeatureManager Digest) Unit := do
  let self ← get
  unless self.initialized do throw "protocol_feature_manager is not yet initialized"
  modify (unlinkActivatedAfter blockNum (self.builtinProtocolFeatures.length + 1))
  modify fun s => { s with
    activatedProtocolFeatures := popActivatedAfter blockNum s.activatedProtocolFeatures }

/-- `is_builtin_activated(feature_codename, current_block_num)`. -/
def isBuiltinActivated (self : ProtocolFeatureManager Digest)
    (featureCodename : BuiltinProtocolFeature) (currentBlockNum : UInt32) : Bool :=
  let indx := featureCodename.index
  if indx.toNat ≥ self.builtinProtocolFeatures.length then false
  else (self.builtinProtocolFeatures.getD indx.toNat {}).activationBlockNum ≤ currentBlockNum

/-- The builtins of the activated features, in activation order. -/
def activatedBuiltins (self : ProtocolFeatureManager Digest) : List BuiltinProtocolFeature :=
  self.activatedProtocolFeatures.filterMap (·.iteratorToProtocolFeature.builtinFeature)

/-! ### What a call does -/

section Calls

open StateExcept

variable [DecidableEq Digest] {featureDigest : Digest} {currentBlockNum : UInt32}
  {self next : ProtocolFeatureManager Digest}

/-- **A failing activation changes nothing**: every check comes before the first write. -/
theorem activateFeature_run_error {e : String}
    (threw : (activateFeature featureDigest currentBlockNum).run self = .error e next) :
    next = self := by
  unfold activateFeature at threw
  rw [EStateM.run_bind, EStateM.run_get] at threw
  dsimp only at threw
  repeat' split at threw
  all_goals first | (cases threw; rfl) | cases threw

/-- **What a successful activation does**: the checks it passed, and its four writes. -/
theorem activateFeature_run_ok {u : Unit}
    (ran : (activateFeature featureDigest currentBlockNum).run self = .ok u next) :
    ∃ itr builtinFeature, self.initialized = true ∧
      self.protocolFeatureSet.find featureDigest = some itr ∧
      itr.builtinFeature = some builtinFeature ∧
      (∀ last, self.activatedProtocolFeatures.getLast? = some last →
        last.activationBlockNum ≤ currentBlockNum) ∧
      builtinFeature.index.toNat < self.builtinProtocolFeatures.length ∧
      (self.builtinProtocolFeatures.getD builtinFeature.index.toNat {}).activationBlockNum =
        notActive ∧
      next = { self with
        activatedProtocolFeatures := self.activatedProtocolFeatures ++ [⟨itr, currentBlockNum⟩]
        builtinProtocolFeatures :=
          (self.builtinProtocolFeatures.modify builtinFeature.index.toNat fun e =>
            { e with previous := self.headOfBuiltinActivationList }).modify
              builtinFeature.index.toNat fun e => { e with activationBlockNum := currentBlockNum }
        headOfBuiltinActivationList := builtinFeature.index.toUInt64 } := by
  unfold activateFeature at ran
  rw [EStateM.run_bind, EStateM.run_get] at ran
  dsimp only at ran
  repeat' split at ran
  -- every branch but the two where each check passes throws
  all_goals cases ran
  · rename_i initialized _ itr found _ last isLast inOrder _ builtinFeature isBuiltin below inactive
    refine ⟨itr, builtinFeature, by simpa using initialized, found, isBuiltin, ?_, below, inactive,
      rfl⟩
    intro other isOther
    rw [isLast, Option.some.injEq] at isOther
    exact isOther ▸ inOrder
  · rename_i initialized _ itr found _ noLast _ builtinFeature isBuiltin below inactive
    exact ⟨itr, builtinFeature, by simpa using initialized, found, isBuiltin,
      fun other isOther => (noLast other isOther).elim, below, inactive, rfl⟩

end Calls

/-! ### The activations a manager holds -/

section Links

/-- The link out of a slot of the builtin activation list: the `previous` of its entry. -/
def previousOf (table : List BuiltinProtocolFeatureEntry) (slot : UInt64) : UInt64 :=
  (table.getD slot.toNat {}).previous

/-- What recording an activation writes into a builtin table and its head: the entry of its
builtin links back to the old head and holds the block number, and the builtin becomes the head. -/
def linkActivation (links : List BuiltinProtocolFeatureEntry × UInt64)
    (entry : ProtocolFeatureEntry Digest) : List BuiltinProtocolFeatureEntry × UInt64 :=
  match entry.iteratorToProtocolFeature.builtinFeature with
  | some feature =>
    (links.1.modify feature.index.toNat fun _ => ⟨links.2, entry.activationBlockNum⟩,
      feature.index.toUInt64)
  | none => links

/-- The table of `size` entries and the head that recording `activations` in turn leaves. -/
def linksOf (size : Nat) (activations : List (ProtocolFeatureEntry Digest)) :
    List BuiltinProtocolFeatureEntry × UInt64 :=
  activations.foldl linkActivation (List.replicate size {}, noPrevious)

/-- Activations a table of `size` entries can record: each of a builtin with an entry, no builtin
twice, and block numbers that never decrease. -/
structure Recordable (size : Nat) (activations : List (ProtocolFeatureEntry Digest)) : Prop where
  builtin : ∀ entry ∈ activations, ∃ feature,
    entry.iteratorToProtocolFeature.builtinFeature = some feature ∧ feature.index.toNat < size
  distinct : (activations.map (·.iteratorToProtocolFeature.builtinFeature)).Nodup
  sorted : activations.Pairwise fun a b => a.activationBlockNum ≤ b.activationBlockNum

/-- **The manager holds `activations`**: its list of activated features is that one, and its table
and head are what recording them in turn in an empty table leaves. -/
structure Holds (manager : ProtocolFeatureManager Digest)
    (activations : List (ProtocolFeatureEntry Digest)) : Prop where
  activated : manager.activatedProtocolFeatures = activations
  links : (manager.builtinProtocolFeatures, manager.headOfBuiltinActivationList) =
    linksOf manager.builtinProtocolFeatures.length activations
  recordable : Recordable manager.builtinProtocolFeatures.length activations

theorem BuiltinProtocolFeature.index_injective {a b : BuiltinProtocolFeature}
    (same : a.index.toNat = b.index.toNat) : a = b := by
  cases a <;> cases b <;> first | rfl | exact absurd same (by decide)

theorem toUInt64_index_ne_noPrevious (feature : BuiltinProtocolFeature) :
    feature.index.toUInt64 ≠ noPrevious := by
  cases feature <;> decide

theorem Recordable.sublist {size : Nat} {activations others : List (ProtocolFeatureEntry Digest)}
    (recordable : Recordable size activations) (sublist : others.Sublist activations) :
    Recordable size others :=
  ⟨fun entry member => recordable.builtin entry (sublist.subset member),
    recordable.distinct.sublist (sublist.map _), recordable.sorted.sublist sublist⟩

/-- Distinct activations are of distinct builtins. -/
theorem Recordable.index_ne {size : Nat} {activations : List (ProtocolFeatureEntry Digest)}
    {entry : ProtocolFeatureEntry Digest} {feature : BuiltinProtocolFeature}
    (recordable : Recordable size (activations ++ [entry]))
    (isBuiltin : entry.iteratorToProtocolFeature.builtinFeature = some feature) :
    ∀ other ∈ activations, ∀ otherFeature,
      other.iteratorToProtocolFeature.builtinFeature = some otherFeature →
        otherFeature.index.toNat ≠ feature.index.toNat := by
  intro other member otherFeature isOther same
  have distinct := recordable.distinct
  rw [List.map_append, List.nodup_append] at distinct
  exact distinct.2.2 _ (List.mem_map_of_mem member) _
    (List.mem_map_of_mem (List.mem_singleton_self entry))
    (by rw [isOther, isBuiltin, BuiltinProtocolFeature.index_injective same])

theorem linksOf_append_singleton (size : Nat) (activations : List (ProtocolFeatureEntry Digest))
    (entry : ProtocolFeatureEntry Digest) :
    linksOf size (activations ++ [entry]) = linkActivation (linksOf size activations) entry := by
  rw [linksOf, List.foldl_append]
  rfl

theorem length_linkActivation (links : List BuiltinProtocolFeatureEntry × UInt64)
    (entry : ProtocolFeatureEntry Digest) : (linkActivation links entry).1.length = links.1.length := by
  unfold linkActivation
  split <;> simp

theorem length_linksOf (size : Nat) (activations : List (ProtocolFeatureEntry Digest)) :
    (linksOf size activations).1.length = size := by
  induction activations using List.reverseRecOn with
  | nil => exact List.length_replicate
  | append_singleton activations entry inductionHypothesis =>
    rw [linksOf_append_singleton, length_linkActivation, inductionHypothesis]

/-- An activation leaves the entries of other builtins as they were. -/
theorem getD_linkActivation_of_ne {links : List BuiltinProtocolFeatureEntry × UInt64}
    {entry : ProtocolFeatureEntry Digest} {slot : Nat}
    (elsewhere : ∀ feature, entry.iteratorToProtocolFeature.builtinFeature = some feature →
      feature.index.toNat ≠ slot) :
    (linkActivation links entry).1.getD slot {} = links.1.getD slot {} := by
  unfold linkActivation
  split
  · rename_i feature isBuiltin
    rw [List.getD_eq_getElem?_getD, List.getD_eq_getElem?_getD,
      List.getElem?_modify_ne _ _ (elsewhere feature isBuiltin)]
  · rfl

/-- An activation writes the entry of its builtin. -/
theorem getD_linkActivation_self {links : List BuiltinProtocolFeatureEntry × UInt64}
    {entry : ProtocolFeatureEntry Digest} {feature : BuiltinProtocolFeature}
    (isBuiltin : entry.iteratorToProtocolFeature.builtinFeature = some feature)
    (below : feature.index.toNat < links.1.length) :
    (linkActivation links entry).1.getD feature.index.toNat {} =
      ⟨links.2, entry.activationBlockNum⟩ := by
  rw [linkActivation, isBuiltin]
  dsimp only
  rw [List.getD_eq_getElem?_getD, List.getElem?_modify_eq, List.getElem?_eq_getElem below]
  rfl

theorem head_linkActivation {links : List BuiltinProtocolFeatureEntry × UInt64}
    {entry : ProtocolFeatureEntry Digest} {feature : BuiltinProtocolFeature}
    (isBuiltin : entry.iteratorToProtocolFeature.builtinFeature = some feature) :
    (linkActivation links entry).2 = feature.index.toUInt64 := by
  rw [linkActivation, isBuiltin]

/-- Activations of other builtins leave an entry as it was. -/
theorem getD_foldl_linkActivation {slot : Nat} :
    ∀ (activations : List (ProtocolFeatureEntry Digest))
      (links : List BuiltinProtocolFeatureEntry × UInt64),
      (∀ entry ∈ activations, ∀ feature,
        entry.iteratorToProtocolFeature.builtinFeature = some feature →
          feature.index.toNat ≠ slot) →
      (activations.foldl linkActivation links).1.getD slot {} = links.1.getD slot {}
  | [], _, _ => rfl
  | entry :: activations, links, elsewhere => by
    rw [List.foldl_cons, getD_foldl_linkActivation activations _
      fun other member => elsewhere other (List.mem_cons_of_mem entry member)]
    exact getD_linkActivation_of_ne (elsewhere entry List.mem_cons_self)

/-- The entry of a builtin never activated is empty. -/
theorem getD_linksOf_of_not_activated {size : Nat}
    {activations : List (ProtocolFeatureEntry Digest)} {feature : BuiltinProtocolFeature}
    (notActivated : ∀ entry ∈ activations,
      entry.iteratorToProtocolFeature.builtinFeature ≠ some feature) :
    (linksOf size activations).1.getD feature.index.toNat {} = {} := by
  rw [linksOf, getD_foldl_linkActivation activations _ fun entry member other isOther same =>
    notActivated entry member (isOther.trans (congrArg some
      (BuiltinProtocolFeature.index_injective same)))]
  rw [List.getD_eq_getElem?_getD, List.getElem?_getD_replicate_default_eq]

/-- The entry of an activated builtin holds the block number of its activation. -/
theorem activationBlockNum_linksOf {size : Nat} {activations : List (ProtocolFeatureEntry Digest)}
    (recordable : Recordable size activations) {entry : ProtocolFeatureEntry Digest}
    (member : entry ∈ activations) {feature : BuiltinProtocolFeature}
    (isBuiltin : entry.iteratorToProtocolFeature.builtinFeature = some feature) :
    ((linksOf size activations).1.getD feature.index.toNat {}).activationBlockNum =
      entry.activationBlockNum := by
  obtain ⟨before, after, split⟩ := List.append_of_mem member
  subst split
  -- the activations after `entry` are of other builtins
  have later : ∀ other ∈ after, ∀ otherFeature,
      other.iteratorToProtocolFeature.builtinFeature = some otherFeature →
        otherFeature.index.toNat ≠ feature.index.toNat := by
    intro other laterMember otherFeature isOther same
    have distinct := recordable.distinct
    rw [List.map_append, List.map_cons, List.nodup_append, List.nodup_cons] at distinct
    refine distinct.2.1.1 ?_
    rw [isBuiltin, ← BuiltinProtocolFeature.index_injective same, ← isOther]
    exact List.mem_map_of_mem laterMember
  have below : feature.index.toNat < (linksOf size before).1.length := by
    obtain ⟨sameFeature, isSame, within⟩ := recordable.builtin entry (by simp)
    rw [isBuiltin, Option.some.injEq] at isSame
    rw [length_linksOf, isSame]
    exact within
  rw [linksOf, List.foldl_append, List.foldl_cons, getD_foldl_linkActivation after _ later]
  exact congrArg BuiltinProtocolFeatureEntry.activationBlockNum
    (getD_linkActivation_self isBuiltin below)

/-- **The builtin activation list.** Following `previous` from the head of the table that
`activations` leave meets their builtins, last activated first, and then `no_previous`. -/
theorem linked_linksOf {size : Nat} {activations : List (ProtocolFeatureEntry Digest)}
    (recordable : Recordable size activations) :
    ThreadedStack.Linked (previousOf (linksOf size activations).1) (· = noPrevious)
      (linksOf size activations).2
      ((activations.filterMap (·.iteratorToProtocolFeature.builtinFeature)).reverse.map
        (·.index.toUInt64)) := by
  induction activations using List.reverseRecOn with
  | nil => exact .sentinel rfl
  | append_singleton activations entry inductionHypothesis =>
    obtain ⟨feature, isBuiltin, below⟩ := recordable.builtin entry (by simp)
    have earlier := inductionHypothesis (recordable.sublist (List.sublist_append_left _ _))
    have fits : feature.index.toNat < (linksOf size activations).1.length := by
      rw [length_linksOf]
      exact below
    have builtins : (activations ++ [entry]).filterMap
        (·.iteratorToProtocolFeature.builtinFeature) =
          activations.filterMap (·.iteratorToProtocolFeature.builtinFeature) ++ [feature] := by
      simp [isBuiltin]
    rw [builtins, List.reverse_append, List.reverse_singleton, List.singleton_append, List.map_cons,
      linksOf_append_singleton, head_linkActivation isBuiltin]
    refine earlier.push (toUInt64_index_ne_noPrevious feature) ?_ ?_
    · -- the new head links back to the old one
      rw [previousOf, UInt32.toNat_toUInt64, getD_linkActivation_self isBuiltin fits]
    · -- the entries of the builtins activated before are kept
      intro slot member
      obtain ⟨otherFeature, otherMember, rfl⟩ := List.mem_map.mp member
      obtain ⟨other, activated, isOther⟩ := List.mem_filterMap.mp (List.mem_reverse.mp otherMember)
      rw [previousOf, previousOf, UInt32.toNat_toUInt64, getD_linkActivation_of_ne]
      intro sameFeature isSame
      rw [isBuiltin, Option.some.injEq] at isSame
      subst isSame
      exact (recordable.index_ne isBuiltin other activated otherFeature isOther).symm

end Links

/-! ### Popping the activations after a block -/

section Popping

/-- A manager whose table and head are `links`. -/
theorem eq_with_links {self : ProtocolFeatureManager Digest}
    {links : List BuiltinProtocolFeatureEntry × UInt64}
    (same : (self.builtinProtocolFeatures, self.headOfBuiltinActivationList) = links) :
    self = { self with builtinProtocolFeatures := links.1, headOfBuiltinActivationList := links.2 } := by
  subst same
  rfl

/-- Activations that a table can record are at most as many as it has entries. -/
theorem Recordable.length_le {size : Nat} {activations : List (ProtocolFeatureEntry Digest)}
    (recordable : Recordable size activations) : activations.length ≤ size := by
  let slot : ProtocolFeatureEntry Digest → Nat := fun entry =>
    ((entry.iteratorToProtocolFeature.builtinFeature).map (·.index.toNat)).getD size
  -- distinct activations sit in distinct slots below `size`
  have injective : ∀ a ∈ activations, ∀ b ∈ activations, slot a = slot b → a = b := by
    intro a aMember b bMember same
    obtain ⟨aFeature, isA, _⟩ := recordable.builtin a aMember
    obtain ⟨bFeature, isB, _⟩ := recordable.builtin b bMember
    simp only [slot, isA, isB, Option.map_some, Option.getD_some] at same
    refine List.inj_on_of_nodup_map recordable.distinct aMember bMember ?_
    rw [isA, isB, BuiltinProtocolFeature.index_injective same]
  have distinctSlots : (activations.map slot).Nodup :=
    (recordable.distinct.of_map _).map_on injective
  have within : activations.map slot ⊆ List.range size := by
    intro index member
    obtain ⟨entry, activated, rfl⟩ := List.mem_map.mp member
    obtain ⟨feature, isBuiltin, below⟩ := recordable.builtin entry activated
    simpa [slot, isBuiltin] using below
  simpa using distinctSlots.length_le_of_subset within

/-- **The first loop of `popped_blocks_to`.** From the table that activations leave, those after
`block_num` coming last, the loop unlinks exactly those after `block_num`, given a pass for each
and one more to stop. -/
theorem unlinkActivatedAfter_linksOf {blockNum : UInt32}
    {early : List (ProtocolFeatureEntry Digest)}
    (earlyBefore : ∀ entry ∈ early, entry.activationBlockNum ≤ blockNum) :
    ∀ (late : List (ProtocolFeatureEntry Digest)) (fuel : Nat) (self : ProtocolFeatureManager Digest),
      Recordable self.builtinProtocolFeatures.length (early ++ late) →
      (∀ entry ∈ late, blockNum < entry.activationBlockNum) → late.length < fuel →
      (self.builtinProtocolFeatures, self.headOfBuiltinActivationList) =
        linksOf self.builtinProtocolFeatures.length (early ++ late) →
      unlinkActivatedAfter blockNum fuel self =
        { self with
          builtinProtocolFeatures := (linksOf self.builtinProtocolFeatures.length early).1
          headOfBuiltinActivationList := (linksOf self.builtinProtocolFeatures.length early).2 } := by
  intro late
  induction late using List.reverseRecOn with
  | nil =>
    intro fuel self recordable _ short links
    obtain ⟨passes, rfl⟩ : ∃ passes, fuel = passes + 1 := ⟨fuel - 1, by simp at short; omega⟩
    rw [List.append_nil] at recordable links
    -- the loop stops at once: the head is the sentinel or was activated at or before `block_num`
    have stops : unlinkActivatedAfter blockNum (passes + 1) self = self := by
      rw [unlinkActivatedAfter]
      rcases List.eq_nil_or_concat early with rfl | ⟨before, last, rfl⟩
      · rw [if_pos (by rw [Prod.mk.injEq] at links; exact links.2)]
      · obtain ⟨feature, isBuiltin, below⟩ := recordable.builtin last (by simp)
        rw [List.concat_eq_append, linksOf_append_singleton, Prod.mk.injEq] at links
        have fits : feature.index.toNat < (linksOf self.builtinProtocolFeatures.length before).1.length :=
          by rw [length_linksOf]; exact below
        rw [links.2, head_linkActivation isBuiltin, if_neg (toUInt64_index_ne_noPrevious feature),
          links.1, UInt32.toNat_toUInt64, getD_linkActivation_self isBuiltin fits]
        dsimp only
        rw [if_pos (earlyBefore last (by simp))]
    rw [stops]
    exact eq_with_links links
  | append_singleton late entry inductionHypothesis =>
    intro fuel self recordable lateAfter short links
    obtain ⟨passes, rfl⟩ : ∃ passes, fuel = passes + 1 := ⟨fuel - 1, by simp at short; omega⟩
    rw [← List.append_assoc] at recordable links
    obtain ⟨feature, isBuiltin, below⟩ := recordable.builtin entry (by simp)
    set size := self.builtinProtocolFeatures.length
    set earlier := linksOf size (early ++ late)
    have fits : feature.index.toNat < earlier.1.length := by rw [length_linksOf]; exact below
    rw [linksOf_append_singleton, Prod.mk.injEq] at links
    -- the entry of `entry` was empty before it was recorded
    have wasEmpty : earlier.1.getD feature.index.toNat {} = {} :=
      getD_linksOf_of_not_activated fun other member isSame =>
        recordable.index_ne isBuiltin other member feature isSame rfl
    -- one pass unlinks `entry`
    have pass : unlinkActivatedAfter blockNum (passes + 1) self =
        unlinkActivatedAfter blockNum passes
          { self with builtinProtocolFeatures := earlier.1, headOfBuiltinActivationList := earlier.2 } := by
      rw [unlinkActivatedAfter, links.2, head_linkActivation isBuiltin,
        if_neg (toUInt64_index_ne_noPrevious feature), links.1, UInt32.toNat_toUInt64,
        getD_linkActivation_self isBuiltin fits]
      dsimp only
      rw [if_neg (UInt32.not_le.mpr (lateAfter entry (by simp)))]
      congr 2
      rw [linkActivation, isBuiltin]
      dsimp only
      rw [List.modify_modify_eq]
      exact ThreadedStack.modify_const_eq_self wasEmpty
    -- the rest of the loop runs from the table the earlier activations leave
    have sameSize : earlier.1.length = size := length_linksOf size (early ++ late)
    have earlierRecordable : Recordable earlier.1.length (early ++ late) :=
      sameSize ▸ recordable.sublist (List.sublist_append_left _ _)
    have earlierLinks : (earlier.1, earlier.2) = linksOf earlier.1.length (early ++ late) := by
      rw [sameSize]
    rw [pass, inductionHypothesis passes _ earlierRecordable
      (fun other member => lateAfter other (by simp [member])) (by simp at short; omega)
      earlierLinks]
    simp only [sameSize]

/-- With stamps that never decrease, every element above one stamped after `block_num` is too. -/
theorem lateClosed_of_sorted {α : Type} (stamp : α → UInt32) (blockNum : UInt32) {stack : List α}
    (sorted : stack.Pairwise fun a b => stamp a ≤ stamp b) :
    stack.Pairwise fun a b => decide (blockNum < stamp a) → decide (blockNum < stamp b) :=
  sorted.imp fun ordered lateA => by
    simp only [decide_eq_true_eq, UInt32.lt_iff_toNat_lt] at lateA ⊢
    rw [UInt32.le_iff_toNat_le] at ordered
    omega

theorem filter_not_lt {α : Type} (stamp : α → UInt32) (blockNum : UInt32) (stack : List α) :
    stack.filter (fun a => !decide (blockNum < stamp a)) =
      stack.filter fun a => stamp a ≤ blockNum :=
  List.filter_congr fun _ _ => by simp only [← decide_not, UInt32.not_lt]

/-- With stamps that never decrease, the elements stamped at or before `block_num` come first. -/
theorem filter_le_append_filter_lt {α : Type} (stamp : α → UInt32) (blockNum : UInt32)
    {stack : List α} (sorted : stack.Pairwise fun a b => stamp a ≤ stamp b) :
    stack.filter (fun a => stamp a ≤ blockNum) ++ stack.filter (fun a => blockNum < stamp a) =
      stack := by
  rw [← filter_not_lt]
  exact ThreadedStack.filter_append_filter_of_closed _ (lateClosed_of_sorted stamp blockNum sorted)

/-- The second loop of `popped_blocks_to` pops exactly the activations after `block_num`. -/
theorem popActivatedAfter_eq_filter {blockNum : UInt32}
    {activations : List (ProtocolFeatureEntry Digest)}
    (sorted : activations.Pairwise fun a b => a.activationBlockNum ≤ b.activationBlockNum) :
    popActivatedAfter blockNum activations =
      activations.filter fun entry => entry.activationBlockNum ≤ blockNum := by
  rw [popActivatedAfter, ThreadedStack.reverse_dropWhile_reverse_of_closed _
    (lateClosed_of_sorted _ blockNum sorted), filter_not_lt]

end Popping

/-! ### Each call keeps the manager holding its activations -/

section Holding

/-- Two managers over the same feature set, both initialized or both not, with tables of one
size: what no call of the manager changes. -/
structure Alike (other manager : ProtocolFeatureManager Digest) : Prop where
  sameSet : other.protocolFeatureSet = manager.protocolFeatureSet
  sameInitialized : other.initialized = manager.initialized
  sameSize : other.builtinProtocolFeatures.length = manager.builtinProtocolFeatures.length

theorem Alike.trans {last next self : ProtocolFeatureManager Digest} (later : Alike last next)
    (earlier : Alike next self) : Alike last self :=
  ⟨later.sameSet.trans earlier.sameSet, later.sameInitialized.trans earlier.sameInitialized,
    later.sameSize.trans earlier.sameSize⟩

theorem Alike.symm {other self : ProtocolFeatureManager Digest} (alike : Alike other self) :
    Alike self other :=
  ⟨alike.sameSet.symm, alike.sameInitialized.symm, alike.sameSize.symm⟩

/-- **A manager is determined by the activations it holds**, given what no call changes. -/
theorem Holds.eq {self next : ProtocolFeatureManager Digest}
    {activations : List (ProtocolFeatureEntry Digest)} (holds : Holds self activations)
    (nextHolds : Holds next activations) (alike : Alike next self) : next = self := by
  obtain ⟨set, activated, table, head, initialized⟩ := self
  obtain ⟨nextSet, nextActivated, nextTable, nextHead, nextInitialized⟩ := next
  obtain ⟨sameSet, sameInitialized, sameSize⟩ := alike
  have links := holds.links
  have nextLinks := nextHolds.links
  dsimp only at sameSet sameInitialized sameSize links nextLinks
  rw [sameSize, ← links, Prod.mk.injEq] at nextLinks
  obtain ⟨rfl, rfl⟩ := nextLinks
  have sameActivated : nextActivated = activated := nextHolds.activated.trans holds.activated.symm
  subst sameSet sameInitialized sameActivated
  rfl

/-- Every activation held lies below the last one. -/
theorem le_of_getLast? {activations : List (ProtocolFeatureEntry Digest)}
    (sorted : activations.Pairwise fun a b => a.activationBlockNum ≤ b.activationBlockNum)
    {last : ProtocolFeatureEntry Digest} (isLast : activations.getLast? = some last) :
    ∀ entry ∈ activations, entry.activationBlockNum ≤ last.activationBlockNum := by
  have split := List.dropLast_append_getLast? last isLast
  intro entry member
  rw [← split] at sorted member
  rcases List.mem_append.mp member with before | isLastEntry
  · exact (List.pairwise_append.mp sorted).2.2 entry before last (List.mem_singleton_self last)
  · rw [List.mem_singleton.mp isLastEntry]
    exact UInt32.le_refl _

/-- **Popping blocks to `block_num` keeps the activations at or before it.** -/
theorem Holds.popBlocks {self : ProtocolFeatureManager Digest}
    {activations : List (ProtocolFeatureEntry Digest)} (holds : Holds self activations)
    (initialized : self.initialized = true) (blockNum : UInt32) :
    ∃ next, (poppedBlocksTo blockNum).run self = .ok () next ∧
      Holds next (activations.filter fun entry => entry.activationBlockNum ≤ blockNum) ∧
      Alike next self := by
  set size := self.builtinProtocolFeatures.length
  set early := activations.filter fun entry => entry.activationBlockNum ≤ blockNum
  set late := activations.filter fun entry => blockNum < entry.activationBlockNum
  have recordable := holds.recordable
  -- the activations after `block_num` come last
  have split : early ++ late = activations :=
    filter_le_append_filter_lt ProtocolFeatureEntry.activationBlockNum blockNum recordable.sorted
  have earlyBefore : ∀ entry ∈ early, entry.activationBlockNum ≤ blockNum := fun entry member =>
    by simpa using (List.mem_filter.mp member).2
  have lateAfter : ∀ entry ∈ late, blockNum < entry.activationBlockNum := fun entry member =>
    by simpa using (List.mem_filter.mp member).2
  have enoughPasses : late.length < size + 1 :=
    Nat.lt_succ_of_le ((List.filter_sublist.length_le).trans recordable.length_le)
  rw [← split] at recordable
  have unlinked := unlinkActivatedAfter_linksOf earlyBefore late (size + 1) self recordable
    lateAfter enoughPasses (split ▸ holds.links)
  have popped : popActivatedAfter blockNum self.activatedProtocolFeatures = early := by
    rw [holds.activated]
    exact popActivatedAfter_eq_filter holds.recordable.sorted
  refine ⟨{ self with
      activatedProtocolFeatures := early
      builtinProtocolFeatures := (linksOf size early).1
      headOfBuiltinActivationList := (linksOf size early).2 }, ?_,
    ⟨rfl, ?_, ?_⟩, ⟨rfl, rfl, length_linksOf size early⟩⟩
  · rw [ProtocolFeatureManager.poppedBlocksTo, EStateM.run_bind, EStateM.run_get]
    dsimp only
    rw [if_pos initialized]
    simp only [EStateM.run_bind, EStateM.run_modify]
    rw [unlinked]
    dsimp only
    rw [popped]
  · dsimp only
    rw [length_linksOf]
  · dsimp only
    rw [length_linksOf]
    exact holds.recordable.sublist List.filter_sublist

/-- **The builtin activation list of a manager** threads the builtins it holds, last activated
first. -/
theorem Holds.linked {self : ProtocolFeatureManager Digest}
    {activations : List (ProtocolFeatureEntry Digest)} (holds : Holds self activations) :
    ThreadedStack.Linked (previousOf self.builtinProtocolFeatures) (· = noPrevious)
      self.headOfBuiltinActivationList (self.activatedBuiltins.reverse.map (·.index.toUInt64)) := by
  have table := congrArg Prod.fst holds.links
  have head := congrArg Prod.snd holds.links
  dsimp only at table head
  rw [activatedBuiltins, holds.activated, head, table, length_linksOf]
  exact linked_linksOf holds.recordable

theorem le_notActive (blockNum : UInt32) : blockNum ≤ notActive := by
  rw [UInt32.le_iff_toNat_le]
  have := blockNum.toNat_lt
  simp only [notActive, UInt32.toNat_ofNat] at *
  omega

theorem eq_notActive_of_le {blockNum : UInt32} (atLeast : notActive ≤ blockNum) :
    blockNum = notActive := by
  rw [UInt32.le_iff_toNat_le] at atLeast
  have := blockNum.toNat_lt
  apply UInt32.toNat_inj.mp
  simp only [notActive, UInt32.toNat_ofNat] at *
  omega

/-- **What `is_builtin_activated` answers** in a manager holding its activations: whether the
builtin was activated at or before the block, save at the block number `not_active`, at which
every builtin with an entry reads as activated. -/
theorem Holds.isBuiltinActivated_iff {self : ProtocolFeatureManager Digest}
    {activations : List (ProtocolFeatureEntry Digest)} (holds : Holds self activations)
    (feature : BuiltinProtocolFeature) (blockNum : UInt32) :
    self.isBuiltinActivated feature blockNum = true ↔
      (∃ entry ∈ self.activatedProtocolFeatures,
        entry.iteratorToProtocolFeature.builtinFeature = some feature ∧
          entry.activationBlockNum ≤ blockNum) ∨
      (blockNum = notActive ∧ feature.index.toNat < self.builtinProtocolFeatures.length) := by
  have table : self.builtinProtocolFeatures =
      (linksOf self.builtinProtocolFeatures.length activations).1 :=
    (Prod.mk.injEq _ _ _ _).mp holds.links |>.1
  have recordable := holds.recordable
  rw [holds.activated]
  unfold isBuiltinActivated
  dsimp only
  by_cases outside : feature.index.toNat ≥ self.builtinProtocolFeatures.length
  · -- no activation is of a builtin without an entry
    rw [if_pos outside]
    simp only [Bool.false_eq_true, false_iff, not_or, not_exists, not_and]
    refine ⟨fun entry member isBuiltin _ => ?_, fun _ below => by omega⟩
    obtain ⟨other, isOther, below⟩ := recordable.builtin entry member
    rw [isBuiltin, Option.some.injEq] at isOther
    rw [← isOther] at below
    omega
  · rw [if_neg outside, decide_eq_true_iff]
    by_cases activated : ∃ entry ∈ activations,
        entry.iteratorToProtocolFeature.builtinFeature = some feature
    · -- the entry holds the block number of the one activation of the builtin
      obtain ⟨entry, member, isBuiltin⟩ := activated
      rw [table, activationBlockNum_linksOf recordable member isBuiltin]
      refine ⟨fun before => .inl ⟨entry, member, isBuiltin, before⟩, ?_⟩
      rintro (⟨other, otherMember, isOther, before⟩ | ⟨rfl, _⟩)
      · have same : other = entry := List.inj_on_of_nodup_map recordable.distinct otherMember
          member (isOther.trans isBuiltin.symm)
        exact same ▸ before
      · exact le_notActive _
    · -- the entry of a builtin never activated holds `not_active`
      rw [table, getD_linksOf_of_not_activated fun entry member isBuiltin =>
        activated ⟨entry, member, isBuiltin⟩, length_linksOf]
      refine ⟨fun atLeast => .inr ⟨eq_notActive_of_le atLeast, by omega⟩, ?_⟩
      rintro (⟨entry, member, isBuiltin, _⟩ | ⟨rfl, _⟩)
      · exact absurd ⟨entry, member, isBuiltin⟩ activated
      · exact UInt32.le_refl _

end Holding

section Activating

variable [DecidableEq Digest]

/-- **An activation of a builtin not yet active extends the activations held.** -/
theorem Holds.activate {self next : ProtocolFeatureManager Digest}
    {activations : List (ProtocolFeatureEntry Digest)} (holds : Holds self activations)
    {featureDigest : Digest} {currentBlockNum : UInt32}
    (fresh : ∀ feature, self.protocolFeatureSet.builtinOf featureDigest = some feature →
      ∀ entry ∈ activations, entry.iteratorToProtocolFeature.builtinFeature ≠ some feature)
    {u : Unit} (ran : (activateFeature featureDigest currentBlockNum).run self = .ok u next) :
    ∃ itr, self.protocolFeatureSet.find featureDigest = some itr ∧
      Holds next (activations ++ [⟨itr, currentBlockNum⟩]) ∧ Alike next self := by
  obtain ⟨itr, feature, _, found, isBuiltin, inOrder, below, _, rfl⟩ := activateFeature_run_ok ran
  have recordable := holds.recordable
  have isFresh := fresh feature (by rw [ProtocolFeatureSet.builtinOf, found, Option.bind_some,
    isBuiltin])
  refine ⟨itr, found, ⟨?_, ?_, ⟨?_, ?_, ?_⟩⟩, ⟨rfl, rfl, List.length_modify _ _ _ |>.trans
    (List.length_modify _ _ _)⟩⟩
  · dsimp only
    rw [holds.activated]
  · -- the two writes to the entry of the builtin are one recording
    dsimp only
    rw [List.length_modify, List.length_modify, linksOf_append_singleton, ← holds.links,
      List.modify_modify_eq, linkActivation]
    dsimp only
    rw [isBuiltin]
    rfl
  · intro entry member
    rw [List.length_modify, List.length_modify]
    rcases List.mem_append.mp member with old | new
    · exact recordable.builtin entry old
    · rw [List.mem_singleton.mp new]
      exact ⟨feature, isBuiltin, below⟩
  · rw [List.map_append, List.nodup_append]
    refine ⟨recordable.distinct, List.nodup_singleton _, ?_⟩
    intro other otherMember newOne newMember same
    rw [List.mem_singleton.mp newMember] at same
    obtain ⟨entry, activated, rfl⟩ := List.mem_map.mp otherMember
    exact isFresh entry activated (same.trans isBuiltin)
  · -- the block number is at or after the last activation's, hence after every earlier one's
    refine List.pairwise_append.mpr ⟨recordable.sorted, List.pairwise_singleton _ _, ?_⟩
    intro entry member newOne newMember
    rw [List.mem_singleton.mp newMember]
    cases isLast : activations.getLast? with
    | none => exact absurd member (by simp [List.getLast?_eq_none_iff.mp isLast])
    | some last =>
      have atMost := le_of_getLast? recordable.sorted isLast entry member
      have lastBefore := inOrder last (holds.activated ▸ isLast)
      exact UInt32.le_trans atMost lastBefore

/-- The activations that a run of `activate_feature` calls makes, with the feature each digest
names. -/
def activationsOf (set : ProtocolFeatureSet Digest) (calls : List (Digest × UInt32)) :
    List (ProtocolFeatureEntry Digest) :=
  calls.filterMap fun call => (set.find call.1).map fun itr => ⟨itr, call.2⟩

/-- Keeping the calls at or before a block keeps the activations at or before it. -/
theorem activationsOf_filter (set : ProtocolFeatureSet Digest) (blockNum : UInt32) :
    ∀ calls : List (Digest × UInt32),
      activationsOf set (calls.filter fun call => call.2 ≤ blockNum) =
        (activationsOf set calls).filter fun entry => entry.activationBlockNum ≤ blockNum
  | [] => rfl
  | call :: calls => by
    have rest := activationsOf_filter set blockNum calls
    unfold activationsOf at rest ⊢
    by_cases early : call.2 ≤ blockNum <;> cases found : set.find call.1 <;> simp [early, found, rest]

/-- **A run of activations of builtins not yet active extends the activations held** by those
the calls make, one per call, with the calls' block numbers. -/
theorem Holds.forM : ∀ (calls : List (Digest × UInt32)) (self : ProtocolFeatureManager Digest)
    (activations : List (ProtocolFeatureEntry Digest)) {next : ProtocolFeatureManager Digest},
    Holds self activations →
    (activations.map (·.iteratorToProtocolFeature.builtinFeature) ++
      calls.map fun call => self.protocolFeatureSet.builtinOf call.1).Nodup →
    (calls.forM fun call => activateFeature call.1 call.2).run self = .ok () next →
    Holds next (activations ++ activationsOf self.protocolFeatureSet calls) ∧ Alike next self ∧
      (activationsOf self.protocolFeatureSet calls).map (·.activationBlockNum) =
        calls.map (·.2)
  | [], self, activations, next, holds, _, ran => by
    rw [List.forM_eq_forM, List.forM_nil, EStateM.run_pure, EStateM.Result.ok.injEq] at ran
    obtain ⟨_, rfl⟩ := ran
    exact ⟨by simpa [activationsOf] using holds, ⟨rfl, rfl, rfl⟩, rfl⟩
  | call :: calls, self, activations, next, holds, fresh, ran => by
    rw [List.forM_eq_forM, List.forM_cons, EStateM.run_bind] at ran
    cases first : (activateFeature call.1 call.2).run self with
    | error e middle => rw [first] at ran; cases ran
    | ok u middle =>
      rw [first] at ran
      -- the builtin of the first call is not among those held
      have freshFirst : ∀ feature, self.protocolFeatureSet.builtinOf call.1 = some feature →
          ∀ entry ∈ activations, entry.iteratorToProtocolFeature.builtinFeature ≠ some feature := by
        intro feature isFeature entry member same
        rw [List.map_cons, List.nodup_append] at fresh
        exact fresh.2.2 _ (List.mem_map_of_mem member) _ List.mem_cons_self
          (same.trans isFeature.symm)
      obtain ⟨itr, found, middleHolds, middleAlike⟩ := holds.activate freshFirst first
      have sameSet := middleAlike.sameSet
      have builtinFirst : self.protocolFeatureSet.builtinOf call.1 = itr.builtinFeature := by
        rw [ProtocolFeatureSet.builtinOf, found, Option.bind_some]
      -- the other calls run from a manager holding one activation more
      have restFresh : ((activations ++ [(⟨itr, call.2⟩ : ProtocolFeatureEntry Digest)]).map
          (·.iteratorToProtocolFeature.builtinFeature) ++
            calls.map fun call => middle.protocolFeatureSet.builtinOf call.1).Nodup := by
        rw [sameSet, List.map_append, List.map_singleton, List.append_assoc,
          List.singleton_append]
        simpa only [List.map_cons, builtinFirst] using fresh
      obtain ⟨restHolds, restAlike, restBlocks⟩ :=
        Holds.forM calls middle _ middleHolds restFresh ran
      have madeFirst : activationsOf self.protocolFeatureSet (call :: calls) =
          ⟨itr, call.2⟩ :: activationsOf self.protocolFeatureSet calls := by
        simp [activationsOf, found]
      rw [sameSet] at restHolds restBlocks
      refine ⟨?_, restAlike.trans middleAlike, ?_⟩
      · rw [madeFirst, ← List.singleton_append, ← List.append_assoc]
        exact restHolds
      · rw [madeFirst, List.map_cons, restBlocks, List.map_cons]

/-- `init` runs its activations on the manager marked initialized, and only on one that was not. -/
theorem init_run_ok {activated : List (Digest × UInt32)} {self next : ProtocolFeatureManager Digest}
    {u : Unit} (ran : (init activated).run self = .ok u next) :
    self.initialized = false ∧
      (activated.forM fun feature => activateFeature feature.1 feature.2).run
        { self with initialized := true } = .ok () next := by
  unfold init at ran
  rw [EStateM.run_bind, EStateM.run_get] at ran
  dsimp only at ran
  split at ran
  · cases ran
  · rename_i notInitialized
    rw [EStateM.run_bind, EStateM.run_modify] at ran
    dsimp only at ran
    rw [StateExcept.run_tryCatch] at ran
    refine ⟨by simpa using notInitialized, ?_⟩
    split at ran
    · rename_i returned
      cases ran
      exact returned
    · rw [EStateM.run_bind, EStateM.run_modify] at ran
      cases ran

end Activating

/-! ### Runs of the manager -/

section Runs

/-- The manager the constructor builds, marked initialized, holds no activation. -/
theorem holds_create (pfs : ProtocolFeatureSet Digest) :
    Holds { create pfs with initialized := true } [] :=
  ⟨rfl, by simp [create, linksOf], ⟨by simp, List.nodup_nil, List.Pairwise.nil⟩⟩

/-- `popped_blocks_to` of a manager not initialized throws and changes nothing. -/
theorem poppedBlocksTo_run_of_not_initialized {self : ProtocolFeatureManager Digest}
    (notInitialized : self.initialized = false) (blockNum : UInt32) :
    (poppedBlocksTo blockNum).run self =
      .error "protocol_feature_manager is not yet initialized" self := by
  rw [poppedBlocksTo, EStateM.run_bind, EStateM.run_get]
  dsimp only
  rw [if_neg (by simp [notInitialized])]
  rfl

variable [DecidableEq Digest]

/-- One call on the manager: `activate_feature` of a digest whose builtin is not active, whether
it returns or throws, any `activate_feature` that throws, or `popped_blocks_to`. -/
inductive Step : ProtocolFeatureManager Digest → ProtocolFeatureManager Digest → Prop
  | activate {self : ProtocolFeatureManager Digest} (featureDigest : Digest)
      (currentBlockNum : UInt32)
      (fresh : ∀ feature, self.protocolFeatureSet.builtinOf featureDigest = some feature →
        feature ∉ self.activatedBuiltins) :
      Step self (StateExcept.finalState ((activateFeature featureDigest currentBlockNum).run self))
  | rejected {self next : ProtocolFeatureManager Digest} (featureDigest : Digest)
      (currentBlockNum : UInt32) {e : String}
      (threw : (activateFeature featureDigest currentBlockNum).run self = .error e next) :
      Step self next
  | popped {self : ProtocolFeatureManager Digest} (blockNum : UInt32) :
      Step self (StateExcept.finalState ((poppedBlocksTo blockNum).run self))

/-- The manager the controller starts from: built over a feature set and initialized from the
activations its database records, no builtin twice. -/
def Initial (self : ProtocolFeatureManager Digest) : Prop :=
  ∃ (pfs : ProtocolFeatureSet Digest) (activated : List (Digest × UInt32)),
    (activated.map fun feature => pfs.builtinOf feature.1).Nodup ∧
      (init activated).run (create pfs) = .ok () self

/-- **Every reachable manager holds a list of activations.** -/
theorem holds_of_reachable {self : ProtocolFeatureManager Digest}
    (reachable : Transition.Reachable Initial Step self) : ∃ activations, Holds self activations := by
  refine reachable.invariant (fun self => ∃ activations, Holds self activations) ?_ ?_
  · -- `init` is a run of activations of distinct builtins
    rintro self ⟨pfs, activated, distinct, ran⟩
    obtain ⟨_, activations⟩ := init_run_ok ran
    exact ⟨_, (Holds.forM activated _ [] (holds_create pfs) distinct activations).1⟩
  · rintro self next ⟨activations, holds⟩ step
    cases step with
    | activate featureDigest currentBlockNum fresh =>
      cases ran : (activateFeature featureDigest currentBlockNum).run self with
      | ok u after =>
        have freshHeld : ∀ feature, self.protocolFeatureSet.builtinOf featureDigest = some feature →
            ∀ entry ∈ activations, entry.iteratorToProtocolFeature.builtinFeature ≠ some feature :=
          fun feature isFeature entry member isEntry => fresh feature isFeature
            (List.mem_filterMap.mpr ⟨entry, holds.activated ▸ member, isEntry⟩)
        obtain ⟨_, _, afterHolds, _⟩ := holds.activate freshHeld ran
        exact ⟨_, afterHolds⟩
      | error e after =>
        rw [StateExcept.finalState_error, activateFeature_run_error ran]
        exact ⟨activations, holds⟩
    | rejected featureDigest currentBlockNum threw =>
      rw [activateFeature_run_error threw]
      exact ⟨activations, holds⟩
    | popped blockNum =>
      cases initialized : self.initialized with
      | true =>
        obtain ⟨after, ran, afterHolds, _⟩ := holds.popBlocks initialized blockNum
        rw [ran, StateExcept.finalState_ok]
        exact ⟨_, afterHolds⟩
      | false =>
        rw [poppedBlocksTo_run_of_not_initialized initialized, StateExcept.finalState_error]
        exact ⟨activations, holds⟩

/-- **Popping blocks after a run of activations** from the manager that `init` starts gives the
manager that the calls at or before the block build. -/
theorem poppedBlocksTo_after_activations {pfs : ProtocolFeatureSet Digest}
    {start activated : ProtocolFeatureManager Digest}
    (started : (init []).run (create pfs) = .ok () start) {calls : List (Digest × UInt32)}
    (distinct : (calls.map fun call => pfs.builtinOf call.1).Nodup)
    (ran : (calls.forM fun call => activateFeature call.1 call.2).run start = .ok () activated)
    (blockNum : UInt32) :
    ∃ popped, (poppedBlocksTo blockNum).run activated = .ok () popped ∧
      ((calls.filter fun call => call.2 ≤ blockNum).forM fun call =>
        activateFeature call.1 call.2).run start = .ok () popped := by
  obtain ⟨_, begun⟩ := init_run_ok started
  rw [List.forM_eq_forM, List.forM_nil, EStateM.run_pure, EStateM.Result.ok.injEq] at begun
  obtain ⟨_, rfl⟩ := begun
  obtain ⟨activatedHolds, activatedAlike, blocks⟩ :=
    Holds.forM calls _ [] (holds_create pfs) distinct ran
  -- the calls came in order of block number
  have sortedCalls : calls.Pairwise fun a b => a.2 ≤ b.2 := by
    have sorted := activatedHolds.recordable.sorted
    rw [List.nil_append] at sorted
    have mapped := List.pairwise_map.mpr sorted
    rw [blocks] at mapped
    exact List.pairwise_map.mp mapped
  -- the calls at or before `block_num` ran first
  rw [← filter_le_append_filter_lt Prod.snd blockNum sortedCalls, List.forM_eq_forM,
    List.forM_append, EStateM.run_bind] at ran
  split at ran
  · rename_i middle earlyRan
    obtain ⟨earlyHolds, earlyAlike, _⟩ := Holds.forM _ _ [] (holds_create pfs)
      (distinct.sublist (List.filter_sublist.map _)) earlyRan
    obtain ⟨popped, poppedRan, poppedHolds, poppedAlike⟩ :=
      activatedHolds.popBlocks activatedAlike.sameInitialized blockNum
    rw [List.nil_append, activationsOf_filter] at earlyHolds
    rw [List.nil_append] at poppedHolds
    have same : middle = popped :=
      Holds.eq poppedHolds earlyHolds (earlyAlike.trans (poppedAlike.trans activatedAlike).symm)
    exact ⟨popped, poppedRan, same ▸ earlyRan⟩
  · cases ran

end Runs

/-! ### Activations undone by popping blocks -/

/-- A feature set recognizing one builtin feature, `preactivate_feature`, of digest `0`. -/
def preactivateOnly : ProtocolFeatureSet Nat :=
  ⟨[⟨0, some .preactivateFeature⟩], [some ⟨0, some .preactivateFeature⟩]⟩

/-- The manager that `init` starts over `preactivateOnly`, with nothing activated. -/
def preactivateOnlyManager : ProtocolFeatureManager Nat :=
  { create preactivateOnly with initialized := true }

theorem reachable_preactivateOnlyManager :
    Transition.Reachable Initial Step preactivateOnlyManager :=
  Transition.Reachable.of_initial ⟨preactivateOnly, [], List.nodup_nil, rfl⟩

/-- **Popping blocks undoes exactly the later activations.** From the manager that `init` starts,
a run of successful activations of distinct builtins followed by `popped_blocks_to(b)` leaves the
manager that only the calls at or before `b` build. Every reachable manager keeps its activations
in order of block number, threads its builtins, last activated first, from the head of the builtin
activation list, and answers `is_builtin_activated(f, n)` by whether `f` was activated at or before
`n`, save at `n = not_active`, where every builtin with an entry reads as activated. A failing
`activate_feature` changes nothing. -/
theorem poppedBlocksTo_undoes_later_activations {Digest : Type} [DecidableEq Digest] :
    (∀ (pfs : ProtocolFeatureSet Digest) (start : ProtocolFeatureManager Digest),
      (init []).run (create pfs) = .ok () start →
      ∀ (calls : List (Digest × UInt32)) (activated : ProtocolFeatureManager Digest),
        (calls.map fun call => pfs.builtinOf call.1).Nodup →
        (calls.forM fun call => activateFeature call.1 call.2).run start = .ok () activated →
        ∀ blockNum : UInt32, ∃ popped,
          (poppedBlocksTo blockNum).run activated = .ok () popped ∧
          ((calls.filter fun call => call.2 ≤ blockNum).forM fun call =>
            activateFeature call.1 call.2).run start = .ok () popped) ∧
    (∀ self : ProtocolFeatureManager Digest, Transition.Reachable Initial Step self →
      (self.activatedProtocolFeatures.Pairwise fun a b =>
        a.activationBlockNum ≤ b.activationBlockNum) ∧
      ThreadedStack.Linked (previousOf self.builtinProtocolFeatures) (· = noPrevious)
        self.headOfBuiltinActivationList (self.activatedBuiltins.reverse.map (·.index.toUInt64)) ∧
      ∀ (feature : BuiltinProtocolFeature) (blockNum : UInt32),
        self.isBuiltinActivated feature blockNum = true ↔
          (∃ entry ∈ self.activatedProtocolFeatures,
            entry.iteratorToProtocolFeature.builtinFeature = some feature ∧
              entry.activationBlockNum ≤ blockNum) ∨
          (blockNum = notActive ∧ feature.index.toNat < self.builtinProtocolFeatures.length)) ∧
    (∀ (self next : ProtocolFeatureManager Digest) (featureDigest : Digest)
      (currentBlockNum : UInt32) (e : String),
      (activateFeature featureDigest currentBlockNum).run self = .error e next → next = self) := by
  refine ⟨fun pfs start started calls activated distinct ran blockNum =>
      poppedBlocksTo_after_activations started distinct ran blockNum,
    fun self reachable => ?_, fun _ _ _ _ _ threw => activateFeature_run_error threw⟩
  obtain ⟨activations, holds⟩ := holds_of_reachable reachable
  exact ⟨holds.activated ▸ holds.recordable.sorted, holds.linked, holds.isBuiltinActivated_iff⟩

/-- A set of three builtins, `preactivate_feature`, `only_link_to_existing_permission` and
`replace_deferred`, of digests `1`, `2` and `3`. -/
def threeFeatures : ProtocolFeatureSet Nat :=
  ⟨[⟨1, some .preactivateFeature⟩, ⟨2, some .onlyLinkToExistingPermission⟩,
      ⟨3, some .replaceDeferred⟩],
    [some ⟨1, some .preactivateFeature⟩, some ⟨2, some .onlyLinkToExistingPermission⟩,
      some ⟨3, some .replaceDeferred⟩]⟩

/-- Two activations in block 5 and one in block 8. -/
def threeActivations : List (Nat × UInt32) := [(1, 5), (2, 5), (3, 8)]

/-- The manager `init` starts over `threeFeatures`, and the manager the three activations
leave. -/
def threeStarted : ProtocolFeatureManager Nat := { create threeFeatures with initialized := true }
def threeActivated : ProtocolFeatureManager Nat :=
  StateExcept.finalState ((threeActivations.forM fun call => activateFeature call.1 call.2).run
    threeStarted)

/-- The three activations, taken as steps of the manager. -/
theorem reachable_threeActivated : Transition.Reachable Initial Step threeActivated := by
  have initial : Transition.Reachable Initial Step threeStarted :=
    Transition.Reachable.of_initial ⟨threeFeatures, [], List.nodup_nil, rfl⟩
  have first := initial.step (Step.activate 1 5 (by rintro feature ⟨⟩; decide))
  have second := first.step (Step.activate 2 5 (by rintro feature ⟨⟩; decide))
  exact second.step (Step.activate 3 8 (by rintro feature ⟨⟩; decide))

/-- Popping to block 6 after activations in blocks 5, 5 and 8 leaves the manager that the two
activations of block 5 build, which is reached by the steps of the run; there the invariant holds,
and activating `preactivate_feature` again throws and changes nothing. -/
theorem poppedBlocksTo_undoes_later_activations_threeFeatures :
    ∃ popped : ProtocolFeatureManager Nat,
      (init []).run (create threeFeatures) = .ok () threeStarted ∧
      (threeActivations.forM fun call => activateFeature call.1 call.2).run threeStarted =
        .ok () threeActivated ∧
      (poppedBlocksTo 6).run threeActivated = .ok () popped ∧
      ((threeActivations.filter fun call => call.2 ≤ 6).forM fun call =>
        activateFeature call.1 call.2).run threeStarted = .ok () popped ∧
      popped.activatedProtocolFeatures.length = 2 ∧ Transition.Reachable Initial Step popped ∧
      ((popped.activatedProtocolFeatures.Pairwise fun a b =>
          a.activationBlockNum ≤ b.activationBlockNum) ∧
        ThreadedStack.Linked (previousOf popped.builtinProtocolFeatures) (· = noPrevious)
          popped.headOfBuiltinActivationList
          (popped.activatedBuiltins.reverse.map (·.index.toUInt64)) ∧
        ∀ (feature : BuiltinProtocolFeature) (blockNum : UInt32),
          popped.isBuiltinActivated feature blockNum = true ↔
            (∃ entry ∈ popped.activatedProtocolFeatures,
              entry.iteratorToProtocolFeature.builtinFeature = some feature ∧
                entry.activationBlockNum ≤ blockNum) ∨
            (blockNum = notActive ∧ feature.index.toNat < popped.builtinProtocolFeatures.length)) ∧
      ∀ next e, (activateFeature 1 6).run popped = .error e next → next = popped := by
  have started : (init []).run (create threeFeatures) = .ok () threeStarted := rfl
  have ran : (threeActivations.forM fun call => activateFeature call.1 call.2).run threeStarted =
      .ok () threeActivated := rfl
  obtain ⟨popped, poppedRun, rebuilt⟩ := poppedBlocksTo_undoes_later_activations.1 threeFeatures _
    started threeActivations _ (by decide) ran 6
  have reached := reachable_threeActivated.step (Step.popped 6)
  rw [poppedRun, StateExcept.finalState_ok] at reached
  have rebuiltConcrete : ((threeActivations.filter fun call => call.2 ≤ 6).forM fun call =>
      activateFeature call.1 call.2).run threeStarted = .ok () _ := rfl
  have samePopped := congrArg StateExcept.finalState (rebuiltConcrete.symm.trans rebuilt)
  rw [StateExcept.finalState_ok, StateExcept.finalState_ok] at samePopped
  refine ⟨popped, started, ran, poppedRun, rebuilt, by rw [← samePopped]; rfl, reached,
    poppedBlocksTo_undoes_later_activations.2.1 popped reached,
    fun next e => poppedBlocksTo_undoes_later_activations.2.2 popped next 1 6 e⟩

/-- **A builtin never activated reads as activated at block number `not_active`.** In the manager
that `init` starts over `preactivateOnly`, nothing is activated, yet
`is_builtin_activated(preactivate_feature, 0xFFFFFFFF)` holds: the empty entry holds `not_active`,
the largest `uint32_t`. So it does after activations: once the three activations are popped back
to block 6, `replace_deferred` is no longer among the activated features, and it reads as
activated at `0xFFFFFFFF`. -/
theorem isBuiltinActivated_at_notActive_without_activation :
    (Transition.Reachable Initial Step preactivateOnlyManager ∧
      preactivateOnlyManager.activatedProtocolFeatures = [] ∧
      preactivateOnlyManager.isBuiltinActivated .preactivateFeature 0xFFFFFFFF = true) ∧
    ∃ popped, (poppedBlocksTo 6).run threeActivated = .ok () popped ∧
      Transition.Reachable Initial Step popped ∧
      (∀ entry ∈ popped.activatedProtocolFeatures,
        entry.iteratorToProtocolFeature.builtinFeature ≠ some .replaceDeferred) ∧
      popped.isBuiltinActivated .replaceDeferred 0xFFFFFFFF = true := by
  have reached := reachable_threeActivated.step (Step.popped 6)
  refine ⟨⟨reachable_preactivateOnlyManager, rfl, by decide⟩, _, rfl, reached, by decide, by decide⟩

end ProtocolFeatureManager

end Eosio.Chain
