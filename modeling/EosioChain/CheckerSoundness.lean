/-
This file connects `authority_checker` to `Authorizes`. For stored authorities, those that pass
`validate` and name no empty permission, and for a level whose references all end within the
recursion depth limit, the checker answers exactly whether the level is satisfied within the
limit; what it caches stays in agreement with `Authorizes` along the whole call, and a level found
`being_evaluated` would be a level that reaches itself. Monotonicity in the evidence then follows
from that of `Authorizes`.

Past the limit the cache breaks this: a level first met one step above the limit is cached
unsatisfied, whatever its authority, and the verdict is reused where the level could have been
opened. Which level is met first depends on the early exits, so adding a key can turn a satisfied
permission into an unsatisfied one. Apart from the verdicts, the marks of used keys are restored
under an authority that fails while the statuses cached there stay; `used_keys()` can then miss
the key a cached level relied on.
-/

import EosioChain.AuthorityChecker
import EosioChain.AuthoritySemantics

namespace Eosio.Chain

variable {Key : Type}

/-! ### The sorted entries -/

theorem foldl_emplacePermission_perm (permissions entries : List (MetaPermission Key)) :
    (entries.foldl emplacePermission permissions).Perm (permissions ++ entries) := by
  induction entries generalizing permissions with
  | nil => rw [List.foldl_nil, List.append_nil]
  | cons entry rest inductionHypothesis =>
    rw [List.foldl_cons]
    refine (inductionHypothesis _).trans ?_
    have inserted : (emplacePermission permissions entry ++ rest).Perm ((entry :: permissions) ++ rest) :=
      (List.perm_orderedInsert _ _ _).append_right rest
    exact inserted.trans List.perm_middle.symm

/-- The checker visits each entry of the authority once. -/
theorem metaPermissions_perm (authority : Authority Key) :
    (metaPermissions authority).Perm (authority.accounts.map MetaPermission.account ++
      authority.keys.map MetaPermission.key ++ authority.waits.map MetaPermission.wait) := by
  have sorted := foldl_emplacePermission_perm [] (authority.accounts.map MetaPermission.account ++
    authority.keys.map MetaPermission.key ++ authority.waits.map MetaPermission.wait)
  rwa [List.nil_append] at sorted

theorem length_metaPermissions (authority : Authority Key) :
    (metaPermissions authority).length = authority.size := by
  rw [(metaPermissions_perm authority).length_eq, List.length_append, List.length_append,
    List.length_map, List.length_map, List.length_map, Authority.size]
  omega

open Classical in
/-- What one entry adds to `collected`. -/
noncomputable def entryWeight (evidence : Evidence Key) (satisfiedLevels : Set PermissionLevel) :
    MetaPermission Key → Nat
  | .account a => if a.permission ∈ satisfiedLevels then a.weight.toNat else 0
  | .key k => if k.key ∈ evidence.keys then k.weight.toNat else 0
  | .wait w => if w.waitSec.toNat * 1000000 ≤ evidence.delay then w.weight.toNat else 0

theorem sum_entryWeight_metaPermissions (evidence : Evidence Key)
    (satisfiedLevels : Set PermissionLevel) (authority : Authority Key) :
    ((metaPermissions authority).map (entryWeight evidence satisfiedLevels)).sum =
      collected evidence satisfiedLevels authority := by
  rw [((metaPermissions_perm authority).map _).sum_eq, List.map_append, List.map_append,
    List.sum_append, List.sum_append, List.map_map, List.map_map, List.map_map]
  rfl

theorem entryWeight_le (evidence : Evidence Key) (satisfiedLevels : Set PermissionLevel) :
    ∀ entry : MetaPermission Key, entryWeight evidence satisfiedLevels entry ≤ entry.weight.toNat
  | .account a => by
    dsimp only [entryWeight, MetaPermission.weight]
    split
    · exact le_rfl
    · exact Nat.zero_le _
  | .key k => by
    dsimp only [entryWeight, MetaPermission.weight]
    split
    · exact le_rfl
    · exact Nat.zero_le _
  | .wait w => by
    dsimp only [entryWeight, MetaPermission.weight]
    split
    · exact le_rfl
    · exact Nat.zero_le _

theorem entryWeight_account_of_mem {evidence : Evidence Key} {satisfiedLevels : Set PermissionLevel}
    {permission : PermissionLevelWeight} (satisfied : permission.permission ∈ satisfiedLevels) :
    entryWeight evidence satisfiedLevels (.account permission) = permission.weight.toNat :=
  if_pos satisfied

theorem entryWeight_account_of_not_mem {evidence : Evidence Key} {satisfiedLevels : Set PermissionLevel}
    {permission : PermissionLevelWeight} (unsatisfied : permission.permission ∉ satisfiedLevels) :
    entryWeight evidence satisfiedLevels (.account permission) = 0 :=
  if_neg unsatisfied

/-- With at most `2^16` entries of `uint16_t` weight, the total cannot wrap around. -/
theorem sum_entryWeight_lt (evidence : Evidence Key) (satisfiedLevels : Set PermissionLevel)
    {authority : Authority Key} (bounded : authority.size ≤ 2 ^ 16) :
    ((metaPermissions authority).map (entryWeight evidence satisfiedLevels)).sum < 2 ^ 32 := by
  have each : ∀ weight ∈ (metaPermissions authority).map (entryWeight evidence satisfiedLevels),
      weight ≤ 2 ^ 16 - 1 := by
    intro weight member
    obtain ⟨entry, _, rfl⟩ := List.mem_map.mp member
    have := (entryWeight_le evidence satisfiedLevels entry).trans
      (Nat.le_pred_of_lt entry.weight.toNat_lt)
    exact this
  have summed := List.sum_le_card_nsmul _ _ each
  rw [List.length_map, length_metaPermissions, Nat.nsmul_eq_mul] at summed
  calc _ ≤ authority.size * (2 ^ 16 - 1) := summed
    _ ≤ 2 ^ 16 * (2 ^ 16 - 1) := Nat.mul_le_mul_right _ bounded
    _ < 2 ^ 32 := by decide

theorem toNat_add_toUInt32 {total : UInt32} {weight : UInt16}
    (fits : total.toNat + weight.toNat < 2 ^ 32) :
    (total + weight.toUInt32).toNat = total.toNat + weight.toNat := by
  rw [UInt32.toNat_add, UInt16.toNat_toUInt32, Nat.mod_eq_of_lt fits]

/-! ### Stored authorities -/

section Stored

variable [LT Key] [DecidableRel (LT.lt : Key → Key → Prop)]

/-- What `newaccount` and `updateauth` make sure of for every authority they store: it passes
`validate`, and names no empty permission, which `get_permission` refuses. -/
structure StoredAuthority (authority : Authority Key) : Prop where
  valid : authority.validate = true
  namesPermissions : ∀ entry ∈ authority.accounts, entry.permission.permission ≠ Name.empty

theorem StoredAuthority.size_le {authority : Authority Key} (stored : StoredAuthority authority) :
    authority.size ≤ 2 ^ 16 := by
  have valid := stored.valid
  simp only [Authority.validate, Bool.and_eq_true, decide_eq_true_eq] at valid
  exact valid.1.1.1.1.1.1

theorem StoredAuthority.threshold_pos {authority : Authority Key} (stored : StoredAuthority authority) :
    0 < authority.threshold.toNat := by
  have valid := stored.valid
  simp only [Authority.validate, Bool.and_eq_true, bne_iff_ne] at valid
  have nonzero : authority.threshold ≠ 0 := valid.1.1.1.1.1.2
  exact Nat.pos_of_ne_zero fun zero => nonzero (UInt32.toNat_inj.mp (zero.trans UInt32.toNat_zero.symm))

end Stored

/-! ### The cache agrees with `Authorizes` -/

namespace AuthorityChecker

variable (checker : AuthorityChecker Key)

/-- The evidence of a checker: its provided keys, permissions and delay. -/
def evidence : Evidence Key :=
  ⟨{k | k ∈ checker.providedKeys}, {level | level ∈ checker.providedPermissions}, checker.providedDelay⟩

/-- The levels the checker's evidence satisfies within `depth` nested levels. -/
def satisfiedLevels (depth : Nat) : Set PermissionLevel :=
  Authorizes checker.permissionToAuthority checker.evidence depth

/-- What a cached status says of its level: a level being evaluated is on the stack of levels
under evaluation, and a verdict agrees with `Authorizes` at every depth the level's references
end within. -/
def StatusSound (stack : List PermissionLevel) (level : PermissionLevel) :
    PermissionCacheStatus → Prop
  | .beingEvaluated => level ∈ stack
  | .permissionUnsatisfied => ∀ depth,
      referencesWithin checker.permissionToAuthority depth level = true →
        level ∉ checker.satisfiedLevels depth
  | .permissionSatisfied => ∀ depth,
      referencesWithin checker.permissionToAuthority depth level = true →
        level ∈ checker.satisfiedLevels depth

/-- The invariant of the cache along a call: every status is sound, the provided permissions are
satisfied, and the only statuses under an empty permission name are provided ones. -/
structure CacheSound (stack : List PermissionLevel)
    (cache : PermissionLevel → Option PermissionCacheStatus) : Prop where
  sound : ∀ level status, cache level = some status → checker.StatusSound stack level status
  provided : ∀ level ∈ checker.providedPermissions, cache level = some .permissionSatisfied
  wildcard : ∀ actor status, cache ⟨actor, Name.empty⟩ = some status →
    (⟨actor, Name.empty⟩ : PermissionLevel) ∈ checker.providedPermissions

/-- The invariant the tally of an authority keeps, for a stack of levels under evaluation. -/
def Sound (stack : List PermissionLevel) (state : CheckState) : Prop :=
  checker.CacheSound stack state.cachedPermissions

variable {checker}

theorem provided_mem_satisfiedLevels {level : PermissionLevel}
    (provided : level ∈ checker.evidence.providedLevels) (depth : Nat) :
    level ∈ checker.satisfiedLevels depth :=
  providedLevels_subset_authorizes checker.evidence depth provided

theorem CacheSound.wildcard_satisfied {stack : List PermissionLevel}
    {cache : PermissionLevel → Option PermissionCacheStatus} (cacheSound : checker.CacheSound stack cache)
    {actor : Name} {status : PermissionCacheStatus} (cached : cache ⟨actor, Name.empty⟩ = some status) :
    status = .permissionSatisfied := by
  have provided := cacheSound.provided _ (cacheSound.wildcard actor status cached)
  rw [cached] at provided
  exact Option.some.inj provided

/-- **What the cache lookup tells of a level.** -/
theorem CacheSound.statusSound {stack : List PermissionLevel}
    {cache : PermissionLevel → Option PermissionCacheStatus} (cacheSound : checker.CacheSound stack cache)
    {level : PermissionLevel} {status : PermissionCacheStatus}
    (found : permissionStatusInCache cache level = some status) :
    checker.StatusSound stack level status := by
  unfold permissionStatusInCache at found
  split at found
  · rename_i cached
    cases found
    exact cacheSound.sound level _ cached
  · obtain rfl := cacheSound.wildcard_satisfied found
    exact fun depth _ => provided_mem_satisfiedLevels
      (Or.inr (cacheSound.wildcard level.actor _ found)) depth

theorem CacheSound.not_provided_of_status_none {stack : List PermissionLevel}
    {cache : PermissionLevel → Option PermissionCacheStatus} (cacheSound : checker.CacheSound stack cache)
    {level : PermissionLevel} (found : permissionStatusInCache cache level = none) :
    level ∉ checker.evidence.providedLevels := by
  unfold permissionStatusInCache at found
  split at found
  · cases found
  · rename_i uncached
    rintro (provided | provided)
    · rw [cacheSound.provided level provided] at uncached
      cases uncached
    · rw [cacheSound.provided _ provided] at found
      cases found

/-- Setting the status of a level that is neither provided nor an empty permission name keeps the
cache sound, with the stack of levels under evaluation changed around that level only. -/
theorem CacheSound.setStatus {stack stack' : List PermissionLevel} {state : CheckState}
    (cacheSound : checker.CacheSound stack state.cachedPermissions) {level : PermissionLevel}
    (notProvided : level ∉ checker.providedPermissions) (named : level.permission ≠ Name.empty)
    {status : PermissionCacheStatus} (statusSound : checker.StatusSound stack' level status)
    (stackKept : ∀ other ∈ stack, other ≠ level → other ∈ stack') :
    checker.CacheSound stack' (state.setStatus level status).cachedPermissions := by
  refine ⟨fun other otherStatus cached => ?_, fun other provided => ?_, fun actor otherStatus cached => ?_⟩
  · dsimp only [CheckState.setStatus] at cached
    split at cached
    · rename_i same
      cases cached
      rw [same]
      exact statusSound
    · rename_i different
      have kept := cacheSound.sound other otherStatus cached
      cases otherStatus with
      | beingEvaluated => exact stackKept other kept different
      | permissionUnsatisfied => exact kept
      | permissionSatisfied => exact kept
  · have different : other ≠ level := fun same => notProvided (same ▸ provided)
    dsimp only [CheckState.setStatus]
    rw [if_neg different]
    exact cacheSound.provided other provided
  · have different : (⟨actor, Name.empty⟩ : PermissionLevel) ≠ level :=
      fun same => named (same ▸ rfl)
    dsimp only [CheckState.setStatus] at cached
    rw [if_neg different] at cached
    exact cacheSound.wildcard actor otherStatus cached

theorem CacheSound.initial : checker.CacheSound [] checker.initializePermissionCache := by
  refine ⟨fun level status cached => ?_, fun level provided => ?_, fun actor status cached => ?_⟩
  · unfold initializePermissionCache at cached
    split at cached
    · rename_i provided
      cases cached
      exact fun depth _ => provided_mem_satisfiedLevels (Or.inl provided) depth
    · cases cached
  · unfold initializePermissionCache
    rw [if_pos provided]
  · unfold initializePermissionCache at cached
    split at cached
    · assumption
    · cases cached

/-- An unsatisfied verdict or a satisfied one, as the visitor records it. -/
theorem statusSound_verdict {stack : List PermissionLevel} {level : PermissionLevel} {depth : Nat}
    (within : referencesWithin checker.permissionToAuthority depth level = true) (verdict : Bool)
    (correct : verdict = true ↔ level ∈ checker.satisfiedLevels depth) :
    checker.StatusSound stack level
      (if verdict then .permissionSatisfied else .permissionUnsatisfied) := by
  have agree : ∀ depth', referencesWithin checker.permissionToAuthority depth' level = true →
      (level ∈ checker.satisfiedLevels depth' ↔ level ∈ checker.satisfiedLevels depth) :=
    fun _ within' => mem_authorizes_iff_of_referencesWithin checker.evidence within within'
  cases verdict with
  | true => exact fun depth' within' => (agree depth' within').mpr (correct.mp rfl)
  | false =>
    exact fun depth' within' => mt (agree depth' within').mp fun satisfied =>
      Bool.false_ne_true (correct.mpr satisfied)

/-! ### One visit -/

variable [DecidableEq Key]

theorem tallyKey_adds (evaluate : Option (Authority Key → CheckState → Bool × CheckState))
    (stack : List PermissionLevel) (satisfiedLevels : Set PermissionLevel) (permission : KeyWeight Key) :
    ThresholdScan.Adds (checker.tally evaluate) (checker.Sound stack)
      (entryWeight checker.evidence satisfiedLevels) (.key permission) := by
  intro state total sound fits
  dsimp only [tally, tallyKey]
  split
  · rename_i index found
    have provided : permission.key ∈ checker.providedKeys := by
      obtain ⟨inBounds, atIndex, -⟩ := List.idxOf?_eq_some_iff.mp found
      exact atIndex ▸ List.getElem_mem inBounds
    have weight : entryWeight checker.evidence satisfiedLevels (.key permission) =
        permission.weight.toNat := if_pos provided
    rw [weight] at fits ⊢
    exact ⟨sound, toNat_add_toUInt32 fits⟩
  · rename_i missing
    have weight : entryWeight checker.evidence satisfiedLevels (.key permission) = 0 :=
      if_neg (List.idxOf?_eq_none_iff.mp missing)
    rw [weight, Nat.add_zero]
    exact ⟨sound, rfl⟩

theorem tallyWait_adds (evaluate : Option (Authority Key → CheckState → Bool × CheckState))
    (stack : List PermissionLevel) (satisfiedLevels : Set PermissionLevel) (permission : WaitWeight) :
    ThresholdScan.Adds (checker.tally evaluate) (checker.Sound stack)
      (entryWeight checker.evidence satisfiedLevels) (.wait permission) := by
  intro state total sound fits
  dsimp only [tally, tallyWait]
  split
  · rename_i within
    have weight : entryWeight checker.evidence satisfiedLevels (.wait permission) =
        permission.weight.toNat := if_pos within
    rw [weight] at fits ⊢
    exact ⟨sound, toNat_add_toUInt32 fits⟩
  · rename_i beyond
    have weight : entryWeight checker.evidence satisfiedLevels (.wait permission) = 0 :=
      if_neg beyond
    rw [weight, Nat.add_zero]
    exact ⟨sound, rfl⟩

section Depth

variable [LT Key] [DecidableRel (LT.lt : Key → Key → Prop)]

variable (checker) in
/-- What checking an authority with `depth` levels left does from a sound cache: it answers
whether the authority collects its threshold from the levels satisfied within `depth`, and leaves
the cache sound. -/
def ChecksAt (evaluate : Authority Key → CheckState → Bool × CheckState) (depth : Nat) : Prop :=
  ∀ (stack : List PermissionLevel) (authority : Authority Key) (state : CheckState),
    StoredAuthority authority →
    (∀ entry ∈ authority.accounts,
      referencesWithin checker.permissionToAuthority depth entry.permission = true) →
    (∀ level ∈ stack, ∀ entry ∈ authority.accounts,
      Relation.TransGen (Refers checker.permissionToAuthority) level entry.permission) →
    checker.Sound stack state →
    (evaluate authority state).1 =
        decide (authority.threshold.toNat ≤
          collected checker.evidence (checker.satisfiedLevels depth) authority) ∧
      checker.Sound stack (evaluate authority state).2

variable (checker) in
/-- The recursion a visitor at `depth` levels below the limit may open: none at the limit, and one
level deeper otherwise. -/
def Opens : Option (Authority Key → CheckState → Bool × CheckState) → Nat → Prop
  | none, 0 => True
  | some evaluate, depth + 1 => checker.ChecksAt evaluate depth
  | _, _ => False

/-- Every authority the checker can look up is stored. -/
def StoredAuthorities (permissionToAuthority : PermissionLevel → Option (Authority Key)) : Prop :=
  ∀ level authority, permissionToAuthority level = some authority → StoredAuthority authority

/-- **A visit of a permission level adds the level's weight exactly when `Authorizes` satisfies
it.** A cached verdict is sound; a level under evaluation cannot be met again, since it would reach
itself; a level the cache knows nothing of is opened one level deeper and its verdict recorded. -/
theorem tallyLevel_adds (stored : StoredAuthorities checker.permissionToAuthority)
    {evaluate : Option (Authority Key → CheckState → Bool × CheckState)} {depth : Nat}
    (opens : checker.Opens evaluate depth) (stack : List PermissionLevel) (permission : PermissionLevelWeight)
    (within : referencesWithin checker.permissionToAuthority depth permission.permission = true)
    (named : permission.permission.permission ≠ Name.empty)
    (reaches : ∀ level ∈ stack,
      Relation.TransGen (Refers checker.permissionToAuthority) level permission.permission) :
    ThresholdScan.Adds (checker.tally evaluate) (checker.Sound stack)
      (entryWeight checker.evidence (checker.satisfiedLevels depth)) (.account permission) := by
  intro state total sound fits
  dsimp only [tally, tallyLevel]
  cases found : permissionStatusInCache state.cachedPermissions permission.permission with
  | some status =>
    have statusSound := sound.statusSound found
    cases status with
    | beingEvaluated =>
      exact absurd (reaches _ statusSound) (not_transGen_self_of_referencesWithin within)
    | permissionUnsatisfied =>
      rw [entryWeight_account_of_not_mem (statusSound depth within), Nat.add_zero]
      exact ⟨sound, rfl⟩
    | permissionSatisfied =>
      rw [entryWeight_account_of_mem (statusSound depth within)] at fits ⊢
      exact ⟨sound, toNat_add_toUInt32 fits⟩
  | none =>
    have notProvided := sound.not_provided_of_status_none found
    obtain ⟨depth, rfl⟩ : ∃ depth', depth = depth' + 1 :=
      ⟨depth - 1, by have := referencesWithin_pos within; omega⟩
    cases evaluate with
    | none => exact opens.elim
    | some evaluate =>
    cases authFound : checker.permissionToAuthority permission.permission with
    | none =>
      -- a level that does not exist is satisfied only when provided
      have unsatisfied : permission.permission ∉ checker.satisfiedLevels (depth + 1) := by
        rintro (provided | ⟨authority, found', -⟩)
        · exact notProvided provided
        · rw [authFound] at found'
          cases found'
      rw [entryWeight_account_of_not_mem unsatisfied, Nat.add_zero]
      exact ⟨sound, rfl⟩
    | some authority =>
      have storedAuthority := stored _ _ authFound
      have notPermitted : permission.permission ∉ checker.providedPermissions :=
        fun provided => notProvided (Or.inl provided)
      have pushed : checker.Sound (permission.permission :: stack)
          (state.setStatus permission.permission .beingEvaluated) :=
        sound.setStatus notPermitted named List.mem_cons_self
          fun other member _ => List.mem_cons_of_mem _ member
      obtain ⟨verdict, evaluatedSound⟩ := opens (permission.permission :: stack) authority
        (state.setStatus permission.permission .beingEvaluated) storedAuthority
        (referencesWithin_succ within authFound)
        (fun level member entry entryMember => by
          have refers : Refers checker.permissionToAuthority permission.permission entry.permission :=
            ⟨authority, authFound, entry, entryMember, rfl⟩
          rcases List.mem_cons.mp member with rfl | below
          · exact Relation.TransGen.single refers
          · exact (reaches level below).tail refers)
        pushed
      dsimp only
      rcases evaluated : evaluate authority (state.setStatus permission.permission .beingEvaluated) with
        ⟨r, evaluatedState⟩
      rw [evaluated] at verdict evaluatedSound
      dsimp only at verdict evaluatedSound ⊢
      -- the level is satisfied exactly when its authority collects its threshold
      have correct : r = true ↔ permission.permission ∈ checker.satisfiedLevels (depth + 1) := by
        rw [verdict, decide_eq_true_iff]
        refine ⟨fun reached => Or.inr ⟨authority, authFound, reached⟩, ?_⟩
        rintro (provided | ⟨authority', found', reached⟩)
        · exact absurd provided notProvided
        · rw [authFound] at found'
          cases found'
          exact reached
      have settled := evaluatedSound.setStatus notPermitted named
        (statusSound_verdict within r correct)
        fun other member different => (List.mem_cons.mp member).resolve_left different
      cases r with
      | true =>
        rw [if_pos rfl] at settled ⊢
        rw [entryWeight_account_of_mem (correct.mp rfl)] at fits ⊢
        exact ⟨settled, toNat_add_toUInt32 fits⟩
      | false =>
        rw [if_neg Bool.false_ne_true] at settled ⊢
        rw [entryWeight_account_of_not_mem fun satisfied => Bool.false_ne_true (correct.mpr satisfied),
          Nat.add_zero]
        exact ⟨settled, rfl⟩

/-- Checking an authority with the recursion of `depth` checks it at `depth`. -/
theorem checksAt_checkAuthority (stored : StoredAuthorities checker.permissionToAuthority)
    {evaluate : Option (Authority Key → CheckState → Bool × CheckState)} {depth : Nat}
    (opens : checker.Opens evaluate depth) : checker.ChecksAt (checker.checkAuthority evaluate) depth := by
  intro stack authority state storedAuthority within reaches sound
  have adds : ∀ entry ∈ metaPermissions authority, ThresholdScan.Adds (checker.tally evaluate)
      (checker.Sound stack) (entryWeight checker.evidence (checker.satisfiedLevels depth)) entry := by
    intro entry member
    rw [(metaPermissions_perm authority).mem_iff, List.mem_append, List.mem_append] at member
    rcases member with (account | key) | wait
    · obtain ⟨permission, permissionMember, rfl⟩ := List.mem_map.mp account
      exact tallyLevel_adds stored opens stack permission (within permission permissionMember)
        (storedAuthority.namesPermissions permission permissionMember)
        fun level below => reaches level below permission permissionMember
    · obtain ⟨permission, -, rfl⟩ := List.mem_map.mp key
      exact tallyKey_adds evaluate stack _ permission
    · obtain ⟨permission, -, rfl⟩ := List.mem_map.mp wait
      exact tallyWait_adds evaluate stack _ permission
  have scanned := ThresholdScan.run_spec authority.threshold (metaPermissions authority) adds sound
    (by rw [UInt32.toNat_zero]; exact storedAuthority.threshold_pos)
    (by rw [UInt32.toNat_zero, Nat.zero_add]
        exact sum_entryWeight_lt _ _ storedAuthority.size_le)
  rw [UInt32.toNat_zero, Nat.zero_add, sum_entryWeight_metaPermissions] at scanned
  unfold checkAuthority
  rcases ran : ThresholdScan.run (checker.tally evaluate) authority.threshold
      (metaPermissions authority) (state, 0) with ⟨reached, final⟩
  rw [ran] at scanned
  cases reached with
  | true => exact scanned
  | false => exact scanned

/-- **Every depth of the checker checks authorities as `Authorizes` says.** -/
theorem checksAt_satisfiedAuthority (stored : StoredAuthorities checker.permissionToAuthority) :
    ∀ depth, checker.ChecksAt (checker.satisfiedAuthority depth) depth
  | 0 => checksAt_checkAuthority stored trivial
  | depth + 1 => checksAt_checkAuthority stored (checksAt_satisfiedAuthority stored depth)

theorem opens_deeperCheck (stored : StoredAuthorities checker.permissionToAuthority) :
    ∀ depth, checker.Opens (checker.deeperCheck depth) depth
  | 0 => trivial
  | depth + 1 => checksAt_satisfiedAuthority stored depth

/-- **The checker answers `Authorizes` within its limit.** For stored authorities and a level of
non-empty name whose references end within `recursion_depth_limit`, `satisfied` returns `true`
exactly when the checker's evidence satisfies the level within the limit. -/
theorem satisfied_iff_mem_satisfiedLevels (stored : StoredAuthorities checker.permissionToAuthority)
    {level : PermissionLevel} (named : level.permission ≠ Name.empty)
    (within : referencesWithin checker.permissionToAuthority checker.recursionDepthLimit.toNat level = true)
    (usedKeys : List Bool) :
    (checker.satisfied level usedKeys).1 = true ↔
      level ∈ checker.satisfiedLevels checker.recursionDepthLimit.toNat := by
  have tallied := tallyLevel_adds stored (opens_deeperCheck stored _) [] ⟨level, 1⟩ within named
    (fun _ member => absurd member List.not_mem_nil) ⟨usedKeys, checker.initializePermissionCache⟩ 0
    CacheSound.initial (by
      rw [UInt32.toNat_zero, Nat.zero_add]
      exact (entryWeight_le _ _ _).trans_lt (Nat.lt_of_lt_of_le (UInt16.toNat_lt _) (by decide)))
  dsimp only [tally] at tallied
  unfold satisfied
  rcases visited : checker.tallyLevel (checker.deeperCheck checker.recursionDepthLimit.toNat)
    ⟨level, 1⟩ (⟨usedKeys, checker.initializePermissionCache⟩, 0) with ⟨final, total⟩
  rw [visited, UInt32.toNat_zero, Nat.zero_add] at tallied
  dsimp only
  -- the level's weight of `1` is counted exactly when it is satisfied
  rw [decide_eq_true_iff, GT.gt, UInt32.lt_iff_toNat_lt, UInt32.toNat_zero, tallied.2]
  by_cases satisfiedLevel : level ∈ checker.satisfiedLevels checker.recursionDepthLimit.toNat
  · rw [entryWeight_account_of_mem satisfiedLevel]
    exact iff_of_true Nat.one_pos satisfiedLevel
  · rw [entryWeight_account_of_not_mem satisfiedLevel]
    exact iff_of_false (Nat.lt_irrefl 0) satisfiedLevel

/-- **Within the limit, more evidence keeps a permission satisfied.** Two checkers over the same
stored authorities and the same depth limit, the second with more keys, more permissions and a
longer delay: a level of non-empty name whose references end within the limit and that the first
satisfies is satisfied by the second. -/
theorem satisfied_mono_of_referencesWithin {checker checker' : AuthorityChecker Key}
    (sameAuthorities : checker'.permissionToAuthority = checker.permissionToAuthority)
    (sameLimit : checker'.recursionDepthLimit = checker.recursionDepthLimit)
    (stored : StoredAuthorities checker.permissionToAuthority) {level : PermissionLevel}
    (named : level.permission ≠ Name.empty)
    (within : referencesWithin checker.permissionToAuthority checker.recursionDepthLimit.toNat level = true)
    (moreKeys : checker.providedKeys ⊆ checker'.providedKeys)
    (morePermissions : checker.providedPermissions ⊆ checker'.providedPermissions)
    (longerDelay : checker.providedDelay ≤ checker'.providedDelay) (usedKeys usedKeys' : List Bool)
    (holds : (checker.satisfied level usedKeys).1 = true) :
    (checker'.satisfied level usedKeys').1 = true := by
  have more : checker.evidence.Le checker'.evidence :=
    ⟨fun _ member => moreKeys member, fun _ member => morePermissions member, longerDelay⟩
  have before := (satisfied_iff_mem_satisfiedLevels stored named within usedKeys).mp holds
  have stored' : StoredAuthorities checker'.permissionToAuthority := by
    rw [sameAuthorities]
    exact stored
  have within' : referencesWithin checker'.permissionToAuthority checker'.recursionDepthLimit.toNat
      level = true := by
    rw [sameAuthorities, sameLimit]
    exact within
  refine (satisfied_iff_mem_satisfiedLevels stored' named within' usedKeys').mpr ?_
  unfold satisfiedLevels at before ⊢
  rw [sameAuthorities, sameLimit]
  exact authorizes_mono more _ before

end Depth

end AuthorityChecker

/-! ### At the depth limit -/

/-- The permission named `1` of the account named `actor`. -/
def permissionOf (actor : UInt64) : PermissionLevel :=
  ⟨⟨actor⟩, ⟨1⟩⟩

/-- Six stored authorities over keys `10` and `20`. The level of account `1` needs those of `2`
and `3`; `2` is held by key `10` or by `5`, `3` by `4`, `4` by `5`, `5` by `6`, and `6` by key
`20`. Every chain of references from `1` ends within five levels, and one reaches the fifth. -/
def cachedAtLimitGraph (level : PermissionLevel) : Option (Authority Nat) :=
  if level = permissionOf 1 then some ⟨2, [], [⟨permissionOf 2, 1⟩, ⟨permissionOf 3, 1⟩], []⟩
  else if level = permissionOf 2 then some ⟨1, [⟨10, 1⟩], [⟨permissionOf 5, 1⟩], []⟩
  else if level = permissionOf 3 then some ⟨1, [], [⟨permissionOf 4, 1⟩], []⟩
  else if level = permissionOf 4 then some ⟨1, [], [⟨permissionOf 5, 1⟩], []⟩
  else if level = permissionOf 5 then some ⟨1, [], [⟨permissionOf 6, 1⟩], []⟩
  else if level = permissionOf 6 then some ⟨1, [⟨20, 1⟩], [], []⟩
  else none

theorem storedAuthorities_cachedAtLimitGraph :
    AuthorityChecker.StoredAuthorities cachedAtLimitGraph := by
  intro level authority found
  unfold cachedAtLimitGraph at found
  split_ifs at found <;> cases found <;> exact ⟨by decide, by decide⟩

/-- With a limit of five levels, the checker of key `20` alone satisfies the level of account `1`,
and so does the one of keys `10` and `20`. -/
theorem cachedAtLimitGraph_satisfied_mono :
    (AuthorityChecker.satisfied ⟨cachedAtLimitGraph, 5, [10, 20], [], 0⟩ (permissionOf 1)
      [false, false]).1 = true :=
  AuthorityChecker.satisfied_mono_of_referencesWithin rfl rfl storedAuthorities_cachedAtLimitGraph
    (by decide) (by decide) (by decide) (by decide) (Int.le_refl 0) [false] [false, false]
    (show (AuthorityChecker.satisfied ⟨cachedAtLimitGraph, 5, [20], [], 0⟩ (permissionOf 1)
      [false]).1 = true by decide)

/-- With a limit of four levels, key `20` alone satisfies the level of account `1`, and keys `10`
and `20` do not. With key `10`, account `2` is satisfied at once and never opens `5`; account `5`
is first met under `3` and `4`, one level above the limit, where it cannot open `6` and is cached
unsatisfied. Without key `10`, `5` is first opened under `2`, satisfied, and the cached verdict
serves `4`. -/
theorem satisfied_not_monotone_at_limit :
    [20] ⊆ [10, 20] ∧
      (AuthorityChecker.satisfied ⟨cachedAtLimitGraph, 4, [20], [], 0⟩ (permissionOf 1)
        [false]).1 = true ∧
      (AuthorityChecker.satisfied ⟨cachedAtLimitGraph, 4, [10, 20], [], 0⟩ (permissionOf 1)
        [false, false]).1 = false := by
  decide

/-! ### The keys reported as used -/

/-- Three stored authorities over keys `7` and `8`. The level of account `1` is held by `2` or by
`3`; `2` needs both key `8` and `3`; `3` is held by key `7`. -/
def sharedPermissionGraph (level : PermissionLevel) : Option (Authority Nat) :=
  if level = permissionOf 1 then some ⟨1, [], [⟨permissionOf 2, 1⟩, ⟨permissionOf 3, 1⟩], []⟩
  else if level = permissionOf 2 then some ⟨2, [⟨8, 1⟩], [⟨permissionOf 3, 1⟩], []⟩
  else if level = permissionOf 3 then some ⟨1, [⟨7, 1⟩], [], []⟩
  else none

/-- The checker of key `7`, with the default depth limit of six levels. -/
def sharedPermissionChecker : AuthorityChecker Nat :=
  ⟨sharedPermissionGraph, 6, [7], [], 0⟩

/-- Key `7` satisfies the level of account `1`, yet `used_keys()` reports no key, a checker of the
reported keys does not satisfy the level, `get_required_keys` returns no key, and
`check_authorization` refuses key `7` as an irrelevant signature. Account `2` is tallied first: it
opens `3`, which key `7` satisfies and the cache records; `2` still lacks key `8`, and its
`KeyReverter` unmarks key `7`. Account `3` is then taken from the cache, without marking the key
again. -/
theorem usedKeys_miss_cached_permission :
    (sharedPermissionChecker.satisfied (permissionOf 1) sharedPermissionChecker.initialUsedKeys).1 =
        true ∧
      sharedPermissionChecker.usedKeysOf
          (sharedPermissionChecker.satisfied (permissionOf 1)
            sharedPermissionChecker.initialUsedKeys).2 = [] ∧
      ({ sharedPermissionChecker with providedKeys := [] } : AuthorityChecker Nat).satisfied
          (permissionOf 1) [] = (false, []) ∧
      getRequiredKeys sharedPermissionGraph 6 [permissionOf 1] [7] 0 = .ok [] ∧
      checkAuthorization sharedPermissionGraph 6 3888000 (permissionOf 1) [7] [] 0 false =
        .error .txIrrelevantSig :=
  ⟨by decide, by decide, by decide, rfl, rfl⟩

end Eosio.Chain
