/-
This file says what an authority check is for. Evidence is a set of keys, a set of permission
levels and a delay. A level is satisfied by the evidence when it is provided, or when its
authority collects its threshold from the provided keys, the waits within the delay and the levels
it names that are satisfied in turn. The satisfied levels are defined by the number of nested
levels one may open; they grow with the evidence, and for a level whose references all end within
that number they no longer depend on it.
-/

import Mathlib
import EosioChain.Authority

namespace Eosio.Chain

variable {Key : Type}

/-- What an authority is checked against: keys, permission levels and a delay in
microseconds. -/
structure Evidence (Key : Type) where
  keys : Set Key
  permissions : Set PermissionLevel
  delay : Int

/-- More keys, more permissions and a longer delay. -/
structure Evidence.Le (evidence evidence' : Evidence Key) : Prop where
  keys : evidence.keys ⊆ evidence'.keys
  permissions : evidence.permissions ⊆ evidence'.permissions
  delay : evidence.delay ≤ evidence'.delay

/-- The levels provided outright: the level itself, or every permission of its actor through the
empty permission name. -/
def Evidence.providedLevels (evidence : Evidence Key) : Set PermissionLevel :=
  {level | level ∈ evidence.permissions ∨ ⟨level.actor, Name.empty⟩ ∈ evidence.permissions}

open Classical in
/-- The weight an authority collects: that of its keys in the evidence, of its levels in
`satisfiedLevels`, and of its waits within the delay. -/
noncomputable def collected (evidence : Evidence Key) (satisfiedLevels : Set PermissionLevel)
    (auth : Authority Key) : Nat :=
  (auth.accounts.map fun a => if a.permission ∈ satisfiedLevels then a.weight.toNat else 0).sum +
    (auth.keys.map fun k => if k.key ∈ evidence.keys then k.weight.toNat else 0).sum +
    (auth.waits.map fun w =>
      if w.waitSec.toNat * 1000000 ≤ evidence.delay then w.weight.toNat else 0).sum

variable (permissionToAuthority : PermissionLevel → Option (Authority Key))

/-- The levels the evidence satisfies when at most `depth` nested levels may be opened. -/
def Authorizes (evidence : Evidence Key) : Nat → Set PermissionLevel
  | 0 => evidence.providedLevels
  | depth + 1 => evidence.providedLevels ∪
      {level | ∃ auth, permissionToAuthority level = some auth ∧
        auth.threshold.toNat ≤ collected evidence (Authorizes evidence depth) auth}

/-- Every chain of references from the level, through the permissions that exist, ends within
`depth` levels. -/
def referencesWithin : Nat → PermissionLevel → Bool
  | 0, _ => false
  | depth + 1, level =>
    match permissionToAuthority level with
    | none => true
    | some auth => auth.accounts.all fun entry => referencesWithin depth entry.permission

/-- One level names another in its authority. -/
def Refers (level level' : PermissionLevel) : Prop :=
  ∃ auth, permissionToAuthority level = some auth ∧ ∃ entry ∈ auth.accounts, entry.permission = level'

variable {permissionToAuthority}

/-! ### Collected weight -/

theorem collected_mono {evidence evidence' : Evidence Key} (le : evidence.Le evidence')
    {satisfiedLevels satisfiedLevels' : Set PermissionLevel} (subset : satisfiedLevels ⊆ satisfiedLevels')
    (auth : Authority Key) :
    collected evidence satisfiedLevels auth ≤ collected evidence' satisfiedLevels' auth := by
  unfold collected
  refine Nat.add_le_add (Nat.add_le_add ?_ ?_) ?_ <;>
    refine List.sum_le_sum fun entry _ => ?_
  · by_cases satisfied : entry.permission ∈ satisfiedLevels
    · rw [if_pos satisfied, if_pos (subset satisfied)]
    · rw [if_neg satisfied]
      exact Nat.zero_le _
  · by_cases provided : entry.key ∈ evidence.keys
    · rw [if_pos provided, if_pos (le.keys provided)]
    · rw [if_neg provided]
      exact Nat.zero_le _
  · by_cases within : entry.waitSec.toNat * 1000000 ≤ evidence.delay
    · rw [if_pos within, if_pos (within.trans le.delay)]
    · rw [if_neg within]
      exact Nat.zero_le _

open Classical in
/-- Only the levels the authority names matter to what it collects. -/
theorem collected_congr (evidence : Evidence Key) {satisfiedLevels satisfiedLevels' : Set PermissionLevel}
    {auth : Authority Key}
    (agree : ∀ entry ∈ auth.accounts, entry.permission ∈ satisfiedLevels ↔ entry.permission ∈ satisfiedLevels') :
    collected evidence satisfiedLevels auth = collected evidence satisfiedLevels' auth := by
  have sameWeights :
      (auth.accounts.map fun a => if a.permission ∈ satisfiedLevels then a.weight.toNat else 0) =
        auth.accounts.map fun a => if a.permission ∈ satisfiedLevels' then a.weight.toNat else 0 := by
    refine List.map_congr_left fun entry member => ?_
    by_cases satisfied : entry.permission ∈ satisfiedLevels
    · rw [if_pos satisfied, if_pos ((agree entry member).mp satisfied)]
    · rw [if_neg satisfied, if_neg (mt (agree entry member).mpr satisfied)]
  unfold collected
  rw [sameWeights]

/-! ### Satisfied levels -/

theorem providedLevels_mono {evidence evidence' : Evidence Key} (le : evidence.Le evidence') :
    evidence.providedLevels ⊆ evidence'.providedLevels := fun _ provided =>
  provided.imp (fun member => le.permissions member) fun member => le.permissions member

theorem providedLevels_subset_authorizes (evidence : Evidence Key) :
    ∀ depth, evidence.providedLevels ⊆ Authorizes permissionToAuthority evidence depth
  | 0 => fun _ provided => provided
  | _ + 1 => fun _ provided => Or.inl provided

theorem mem_authorizes_succ {evidence : Evidence Key} {depth : Nat} {level : PermissionLevel} :
    level ∈ Authorizes permissionToAuthority evidence (depth + 1) ↔
      level ∈ evidence.providedLevels ∨ ∃ auth, permissionToAuthority level = some auth ∧
        auth.threshold.toNat ≤ collected evidence (Authorizes permissionToAuthority evidence depth) auth :=
  Iff.rfl

/-- **Satisfaction grows with the evidence.** -/
theorem authorizes_mono {evidence evidence' : Evidence Key} (le : evidence.Le evidence') :
    ∀ depth, Authorizes permissionToAuthority evidence depth ⊆
      Authorizes permissionToAuthority evidence' depth
  | 0 => providedLevels_mono le
  | depth + 1 => by
    rintro level (provided | ⟨auth, found, reached⟩)
    · exact Or.inl (providedLevels_mono le provided)
    · exact Or.inr ⟨auth, found,
        reached.trans (collected_mono le (authorizes_mono le depth) auth)⟩

/-! ### Levels whose references end -/

theorem referencesWithin_succ {depth : Nat} {level : PermissionLevel} {auth : Authority Key}
    (within : referencesWithin permissionToAuthority (depth + 1) level = true)
    (found : permissionToAuthority level = some auth) :
    ∀ entry ∈ auth.accounts, referencesWithin permissionToAuthority depth entry.permission = true := by
  unfold referencesWithin at within
  rw [found] at within
  exact List.all_eq_true.mp within

theorem referencesWithin_pos {depth : Nat} {level : PermissionLevel}
    (within : referencesWithin permissionToAuthority depth level = true) : 0 < depth := by
  cases depth with
  | zero => cases within
  | succ depth => exact Nat.succ_pos depth

/-- **Within its depth, a level's satisfaction no longer depends on the depth.** -/
theorem mem_authorizes_of_referencesWithin (evidence : Evidence Key) {depth : Nat}
    {level : PermissionLevel} (within : referencesWithin permissionToAuthority depth level = true)
    {depth' : Nat} (le : depth ≤ depth') :
    level ∈ Authorizes permissionToAuthority evidence depth' ↔
      level ∈ Authorizes permissionToAuthority evidence depth := by
  induction depth generalizing level depth' with
  | zero => cases within
  | succ depth inductionHypothesis =>
    obtain ⟨depth', rfl⟩ : ∃ depth'', depth' = depth'' + 1 := ⟨depth' - 1, by omega⟩
    rw [mem_authorizes_succ, mem_authorizes_succ]
    refine or_congr Iff.rfl (exists_congr fun auth => and_congr_right fun found => ?_)
    rw [collected_congr evidence fun entry member =>
      inductionHypothesis (referencesWithin_succ within found entry member) (by omega)]

/-- Two depths within which a level's references end agree on it. -/
theorem mem_authorizes_iff_of_referencesWithin (evidence : Evidence Key) {depth depth' : Nat}
    {level : PermissionLevel} (within : referencesWithin permissionToAuthority depth level = true)
    (within' : referencesWithin permissionToAuthority depth' level = true) :
    level ∈ Authorizes permissionToAuthority evidence depth' ↔
      level ∈ Authorizes permissionToAuthority evidence depth := by
  rcases Nat.le_total depth depth' with le | le
  · exact mem_authorizes_of_referencesWithin evidence within le
  · exact (mem_authorizes_of_referencesWithin evidence within' le).symm

/-- Following a reference uses up a level. -/
theorem referencesWithin_of_transGen {depth : Nat} {level level' : PermissionLevel}
    (within : referencesWithin permissionToAuthority depth level = true)
    (reaches : Relation.TransGen (Refers permissionToAuthority) level level') :
    ∃ depth' < depth, referencesWithin permissionToAuthority depth' level' = true := by
  induction reaches with
  | single refers =>
    obtain ⟨auth, found, entry, member, rfl⟩ := refers
    obtain ⟨depth, rfl⟩ : ∃ depth'', depth = depth'' + 1 :=
      ⟨depth - 1, by have := referencesWithin_pos within; omega⟩
    exact ⟨depth, Nat.lt_succ_self depth, referencesWithin_succ within found entry member⟩
  | tail _ refers inductionHypothesis =>
    obtain ⟨depth', shorter, within'⟩ := inductionHypothesis
    obtain ⟨auth, found, entry, member, rfl⟩ := refers
    obtain ⟨depth', rfl⟩ : ∃ depth'', depth' = depth'' + 1 :=
      ⟨depth' - 1, by have := referencesWithin_pos within'; omega⟩
    exact ⟨depth', by omega, referencesWithin_succ within' found entry member⟩

/-- A level whose references end does not reach itself. -/
theorem not_transGen_self_of_referencesWithin {depth : Nat} {level : PermissionLevel}
    (within : referencesWithin permissionToAuthority depth level = true) :
    ¬ Relation.TransGen (Refers permissionToAuthority) level level := by
  induction depth using Nat.strong_induction_on with
  | _ depth inductionHypothesis =>
    intro cycle
    obtain ⟨depth', shorter, within'⟩ := referencesWithin_of_transGen within cycle
    exact inductionHypothesis depth' shorter within' cycle

end Eosio.Chain
