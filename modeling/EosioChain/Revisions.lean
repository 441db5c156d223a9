/-
This file says what an undo stack is for, whatever it stores: the current contents, the contents
saved when each open revision was pushed, bottom first, and the revision number. A push saves the
current contents; an update changes them; an undo puts back the contents saved by the top revision
and forgets it; a squash forgets the top revision, so that an undo of the revision below goes back
further; a commit up to a revision forgets the oldest saved contents and can no longer be undone.

An undo stack that keeps a log instead of copies restores contents by replaying undo records, each
putting one key back to its old value; the second part of the file is about such replays of a
content given as a function from keys to optional values.
-/

import Mathlib

/-- The contents of a store with an undo history. -/
structure Revisions (Content : Type*) where
  current : Content
  saved : List Content
  revision : Int

namespace Revisions

variable {Content : Type*}

/-- Open a revision: save the current contents. -/
def push (revisions : Revisions Content) : Revisions Content :=
  ⟨revisions.current, revisions.saved ++ [revisions.current], revisions.revision + 1⟩

/-- Change the current contents. -/
def update (revisions : Revisions Content) (change : Content → Content) : Revisions Content :=
  { revisions with current := change revisions.current }

/-- Merge the top revision into the one below: its saved contents are forgotten. -/
def squash (revisions : Revisions Content) : Revisions Content :=
  if revisions.saved = [] then revisions
  else ⟨revisions.current, revisions.saved.dropLast, revisions.revision - 1⟩

/-- Go back to the contents saved by the top revision, if there is one. -/
def undo (revisions : Revisions Content) : Option (Revisions Content) :=
  revisions.saved.getLast?.map fun top => ⟨top, revisions.saved.dropLast, revisions.revision - 1⟩

/-- The number of oldest revisions a commit up to `revision` makes permanent. -/
def committedCount (revisions : Revisions Content) (revision : Int) : Int :=
  min revision revisions.revision - (revisions.revision - revisions.saved.length)

/-- Make every revision up to `revision` permanent: their saved contents are forgotten. -/
def commit (revisions : Revisions Content) (revision : Int) : Revisions Content :=
  if 0 < revisions.committedCount revision then
    { revisions with saved := revisions.saved.drop (revisions.committedCount revision).toNat }
  else revisions

theorem undo_eq_some_iff {revisions next : Revisions Content} :
    revisions.undo = some next ↔ ∃ top, revisions.saved.getLast? = some top ∧
      next = ⟨top, revisions.saved.dropLast, revisions.revision - 1⟩ := by
  unfold undo
  rw [Option.map_eq_some_iff]
  constructor
  · rintro ⟨top, last, rfl⟩
    exact ⟨top, last, rfl⟩
  · rintro ⟨top, last, rfl⟩
    exact ⟨top, last, rfl⟩

/-- An undo right after a push gives back what was pushed. -/
theorem undo_push (revisions : Revisions Content) : revisions.push.undo = some revisions := by
  simp [push, undo]

/-! ### Replaying undo records -/

section Replay

variable {Key Value : Type*} [DecidableEq Key]

/-- Replay undo records in order: each puts its key back to its old value. -/
def replay (records : List (Key × Option Value)) (content : Key → Option Value) :
    Key → Option Value :=
  records.foldl (fun content record => Function.update content record.1 record.2) content

@[simp]
theorem replay_nil (content : Key → Option Value) : replay [] content = content :=
  rfl

theorem replay_append (first second : List (Key × Option Value)) (content : Key → Option Value) :
    replay (first ++ second) content = replay second (replay first content) :=
  List.foldl_append

/-- A key no record names keeps its value. -/
theorem replay_of_not_mem {records : List (Key × Option Value)} {content : Key → Option Value}
    {key : Key} (untouched : ∀ record ∈ records, record.1 ≠ key) :
    replay records content key = content key := by
  induction records generalizing content with
  | nil => rfl
  | cons record records inductionHypothesis =>
    rw [replay, List.foldl_cons, ← replay,
      inductionHypothesis fun other member => untouched other (List.mem_cons_of_mem _ member),
      Function.update_of_ne (untouched record List.mem_cons_self).symm]

/-- The value a replay leaves at a key depends only on the value the key had. -/
theorem replay_congr {records : List (Key × Option Value)} {content other : Key → Option Value}
    {key : Key} (same : content key = other key) :
    replay records content key = replay records other key := by
  induction records generalizing content other with
  | nil => exact same
  | cons record records inductionHypothesis =>
    show replay records (Function.update content record.1 record.2) key =
      replay records (Function.update other record.1 record.2) key
    apply inductionHypothesis
    rw [Function.update_apply, Function.update_apply, same]

/-- A key some record names takes the old value of the last record naming it. -/
theorem replay_of_mem {records : List (Key × Option Value)} {content : Key → Option Value}
    {key : Key} {value : Option Value} (named : (key, value) ∈ records)
    (agreeing : ∀ record ∈ records, record.1 = key → record.2 = value) :
    replay records content key = value := by
  induction records generalizing content with
  | nil => cases named
  | cons record records inductionHypothesis =>
    have restAgreeing : ∀ other ∈ records, other.1 = key → other.2 = value :=
      fun other member => agreeing other (List.mem_cons_of_mem _ member)
    rw [replay, List.foldl_cons, ← replay]
    by_cases later : ∃ other ∈ records, other.1 = key
    · obtain ⟨other, member, same⟩ := later
      exact inductionHypothesis (same ▸ restAgreeing other member same ▸ member) restAgreeing
    · simp only [not_exists, not_and] at later
      rw [replay_of_not_mem later]
      rcases List.mem_cons.mp named with first | inRest
      · rw [← first, Function.update_self]
      · exact absurd rfl (later _ inRest)

/-- **Replaying records that hold the old values of every changed key restores the contents.** -/
theorem replay_restores {records : List (Key × Option Value)}
    {original changed : Key → Option Value}
    (holdsOld : ∀ record ∈ records, record.2 = original record.1)
    (covers : ∀ key, changed key ≠ original key → ∃ record ∈ records, record.1 = key) :
    replay records changed = original := by
  funext key
  by_cases named : ∃ record ∈ records, record.1 = key
  · obtain ⟨record, member, same⟩ := named
    have agreeing : ∀ other ∈ records, other.1 = key → other.2 = original key := by
      intro other otherMember otherSame
      rw [holdsOld other otherMember, otherSame]
    refine replay_of_mem ?_ agreeing
    rw [← same, ← holdsOld record member]
    exact member
  · simp only [not_exists, not_and] at named
    rw [replay_of_not_mem named]
    by_contra different
    obtain ⟨record, member, same⟩ := covers key different
    exact named record member same

end Replay

end Revisions
