/-
This file proves what the undo stack of `chain_kv.hpp` restores. Its abstract model is a stack of
saved contents (`Revisions`) over the contents of the database outside the undo prefix; the undo
stack is related to it by an invariant that every push, write of a change list, squash, undo and
commit keeps: the open revisions' segments are the numbered keys under the segment prefix, each
holding packed undo records, and replaying the records of the segments from the newest down to
the first of a revision gives the contents that revision saved.

The invariant needs three things of a run. The sentinel `0xff` must stay in the database: `undo`
finds the segments by seeking to the next prefix and stepping back, and with no key at or above
the next prefix it finds none. The keys a change list writes must lie outside the undo prefix, so
that no write lands among the segments. And the segment numbers must stay below `2 ^ 64`, the
range of the big-endian segment keys. A change list that erases the sentinel makes the following
`undo` restore nothing; `undo_restores_nothing_after_sentinel_erased` runs that case.
-/

import EosioChain.ChainKvWriteChanges
import EosioChain.HostWords
import EosioChain.Leb128

namespace B1.ChainKv

open ByteKeys SortedMap Revisions UndoStack

/-! ### The invariant -/

/-- The sentinel lies outside the undo prefix, so it keeps its value when the contents outside
the prefix do. -/
theorem get_sentinel_eq_of_outside {undoPrefix : Bytes} (notInside : ¬ undoPrefix <+: [0xff])
    {db other : Database} (same : outside undoPrefix other = outside undoPrefix db) :
    other.get [0xff] = db.get [0xff] := by
  rw [← outside_eq_get other notInside, same, outside_eq_get db notInside]

/-- **The invariant of the refinement.** The undo stack stands for the abstract store: its prefix
is valid, the revision numbers agree, the contents outside the undo prefix are the current
contents, the sentinel is in place, and the segments of the log replay to the contents every open
revision saved. -/
structure Invariant (raw : FcRaw) (stack : UndoStack) (revisions : Revisions (Bytes → Option Bytes)) :
    Prop where
  valid : ValidPrefix stack.undoPrefix
  revision_eq : stack.state.revision = revisions.revision
  current_eq : outside stack.undoPrefix stack.db = revisions.current
  sentinel : stack.db.get [0xff] ≠ none
  logged : ∃ log, Logged raw stack log ∧
    revisions.saved = savedContents stack.state.undoStack log revisions.current

section Steps

variable {raw : FcRaw} {stack : UndoStack} {revisions : Revisions (Bytes → Option Bytes)}

/-- **`push` keeps the invariant**: the new revision saves the current contents, and its log of
segments is empty. -/
theorem Invariant.push (invariant : Invariant raw stack revisions) (writeNow : Bool) :
    Invariant raw (stack.push raw writeNow) revisions.push := by
  obtain ⟨log, logged, saved_eq⟩ := invariant.logged
  -- the push writes at most the state
  have outsideAfter : outside stack.undoPrefix (stack.push raw writeNow).db =
      outside stack.undoPrefix stack.db := by
    unfold UndoStack.push
    dsimp only
    split
    · exact stack.outside_write_writeState raw _ stack.db
    · rfl
  have segmentsAfter : ∀ key, stack.segmentPrefix <+: key →
      (stack.push raw writeNow).db.get key = stack.db.get key := by
    intro key isSegment
    unfold UndoStack.push
    dsimp only
    split
    · exact stack.get_write_writeState_of_segment isSegment stack.db
    · rfl
  refine ⟨invariant.valid, ?_, ?_, ?_, log, ?_, ?_⟩
  · show stack.state.revision + 1 = revisions.revision + 1
    rw [invariant.revision_eq]
  · show outside stack.undoPrefix (stack.push raw writeNow).db = revisions.current
    rw [outsideAfter, invariant.current_eq]
  · rw [get_sentinel_eq_of_outside (stack.not_undoPrefix_prefix_sentinel invariant.valid)
      outsideAfter]
    exact invariant.sentinel
  · exact logged.congr rfl (by rw [List.sum_append, List.sum_singleton, Nat.add_zero]) segmentsAfter
  · show revisions.saved ++ [revisions.current] =
      savedContents (stack.state.undoStack ++ [0]) log revisions.current
    rw [savedContents_append, ← logged.length_eq, List.drop_length, undoLog_nil, replay_nil,
      ← saved_eq]

/-- **`squash` keeps the invariant**: the segments of the top revision count for the revision
below, whose saved contents stay; squashing the last revision deletes every segment. -/
theorem Invariant.squash (invariant : Invariant raw stack revisions) (writeNow : Bool) :
    Invariant raw (stack.squash raw writeNow) revisions.squash := by
  obtain ⟨log, logged, saved_eq⟩ := invariant.logged
  have notInside := stack.not_undoPrefix_prefix_sentinel invariant.valid
  unfold UndoStack.squash
  split
  · -- no revision open: nothing changes
    next noRevision =>
    have noSaved : revisions.saved = [] := by rw [saved_eq, noRevision]; rfl
    rw [Revisions.squash, if_pos noSaved]
    exact invariant
  · -- the last revision: every segment is deleted
    next count only =>
    have savedOne : revisions.saved = [replay (undoLog log) revisions.current] := by
      rw [saved_eq, only]
      rfl
    rw [Revisions.squash, if_neg (by rw [savedOne]; exact List.cons_ne_nil _ _)]
    have outsideAfter := stack.outside_write_deleteRange raw
      { stack.state with undoStack := [], revision := stack.state.revision - 1 } 0
      stack.state.nextUndoSegment stack.db
    have bounds := logged.length_le
    have emptied : Logged raw { stack with
        state := { stack.state with undoStack := [], revision := stack.state.revision - 1 }
        db := write stack.db [.deleteRange (stack.createSegmentKey 0)
          (stack.createSegmentKey stack.state.nextUndoSegment), stack.writeState raw
          { stack.state with undoStack := [], revision := stack.state.revision - 1 }] }
        (log.drop log.length) :=
      logged.deleteBelow (Nat.le_refl log.length) (by rfl)
        (by rw [List.sum_nil, ← logged.length_eq, Nat.sub_self]) (by omega)
    rw [List.drop_length] at emptied
    refine ⟨invariant.valid, ?_, ?_, ?_, [], emptied, ?_⟩
    · show stack.state.revision - 1 = revisions.revision - 1
      rw [invariant.revision_eq]
    · rw [← invariant.current_eq]
      exact outsideAfter
    · rw [get_sentinel_eq_of_outside notInside outsideAfter]
      exact invariant.sentinel
    · rw [savedOne]
      rfl
  · -- the top revision's segments now count for the revision below
    next _ first second rest several =>
    dsimp only
    have last : (first :: second :: rest).getLast? = some (first :: second :: rest).getLast! := by
      rw [List.getLast?_cons, List.getLast!_cons_eq_getLastD, List.getLastD_eq_getLast?]
    have twoOrMore : 2 ≤ (first :: second :: rest).length := by simp
    have savedMany : revisions.saved ≠ [] := by
      rw [saved_eq, several, savedContents]
      exact List.cons_ne_nil _ _
    rw [Revisions.squash, if_neg savedMany]
    have outsideAfter : outside stack.undoPrefix (if writeNow then write stack.db
        [stack.writeState raw { stack.state with
          undoStack := addToBack (first :: second :: rest).dropLast
            (first :: second :: rest).getLast!
          revision := stack.state.revision - 1 }] else stack.db) =
        outside stack.undoPrefix stack.db := by
      split
      · exact stack.outside_write_writeState raw _ stack.db
      · rfl
    refine ⟨invariant.valid, ?_, ?_, ?_, log, ?_, ?_⟩
    · show stack.state.revision - 1 = revisions.revision - 1
      rw [invariant.revision_eq]
    · rw [← invariant.current_eq]
      exact outsideAfter
    · rw [get_sentinel_eq_of_outside notInside outsideAfter]
      exact invariant.sentinel
    · refine logged.congr rfl ?_ fun key isSegment => ?_
      · rw [several]
        exact addToBack_dropLast_sum twoOrMore last
      · split
        · exact stack.get_write_writeState_of_segment isSegment stack.db
        · rfl
    · show revisions.saved.dropLast = savedContents (addToBack (first :: second :: rest).dropLast
        (first :: second :: rest).getLast!) log revisions.current
      rw [savedContents_addToBack, savedContents_dropLast, saved_eq, several]

/-- **`commit` keeps the invariant**: the revisions it makes permanent forget their saved
contents, and their segments are deleted. -/
theorem Invariant.commit (invariant : Invariant raw stack revisions) (revision : Int) :
    Invariant raw (stack.commit raw revision) (revisions.commit revision) := by
  obtain ⟨log, logged, saved_eq⟩ := invariant.logged
  have notInside := stack.not_undoPrefix_prefix_sentinel invariant.valid
  have lengthSame : revisions.saved.length = stack.state.undoStack.length := by
    rw [saved_eq, length_savedContents]
  have countSame : revisions.committedCount revision = min revision stack.state.revision -
      (stack.state.revision - stack.state.undoStack.length) := by
    rw [Revisions.committedCount, invariant.revision_eq, lengthSame]
  unfold UndoStack.commit Revisions.commit
  dsimp only
  split
  · next committing =>
    rw [if_pos (by rw [countSame]; omega), countSame]
    -- the oldest `committed` revisions are made permanent
    obtain ⟨committed, committed_eq⟩ : ∃ committed, committed = (min revision stack.state.revision -
        (stack.state.revision - stack.state.undoStack.length)).toNat := ⟨_, rfl⟩
    rw [← committed_eq]
    have splitSum := congrArg List.sum (List.take_append_drop committed stack.state.undoStack)
    rw [List.sum_append] at splitSum
    have bounds := logged.length_le
    have lengthSum := logged.length_eq
    have outsideAfter := stack.outside_write_deleteRange raw
      { stack.state with undoStack := stack.state.undoStack.drop committed } 0
      (stack.state.nextUndoSegment - (stack.state.undoStack.drop committed).sum) stack.db
    have kept : Logged raw { stack with
        state := { stack.state with undoStack := stack.state.undoStack.drop committed }
        db := write stack.db [.deleteRange (stack.createSegmentKey 0) (stack.createSegmentKey
          (stack.state.nextUndoSegment - (stack.state.undoStack.drop committed).sum)),
          stack.writeState raw { stack.state with undoStack := stack.state.undoStack.drop committed }] }
        (log.drop (stack.state.undoStack.take committed).sum) :=
      logged.deleteBelow (by omega) (by rfl) (by dsimp only; omega) (by omega)
    refine ⟨invariant.valid, invariant.revision_eq, ?_, ?_, _, kept, ?_⟩
    · rw [← invariant.current_eq]
      exact outsideAfter
    · rw [get_sentinel_eq_of_outside notInside outsideAfter]
      exact invariant.sentinel
    · show revisions.saved.drop committed = savedContents (stack.state.undoStack.drop committed)
        (log.drop (stack.state.undoStack.take committed).sum) revisions.current
      rw [savedContents_drop, saved_eq]
  · next notCommitting =>
    rw [if_neg (by rw [countSame]; omega)]
    exact invariant

/-- **`undo` keeps the invariant**: with a revision open it succeeds, together with the abstract
undo, and the contents outside the prefix become those the top revision saved. -/
theorem Invariant.undo (laws : raw.RoundTrips) (invariant : Invariant raw stack revisions)
    {top : Nat} (last : stack.state.undoStack.getLast? = some top) (writeNow : Bool) :
    ∃ undone undoneRevisions, stack.undo raw writeNow = .ok undone ∧
      revisions.undo = some undoneRevisions ∧ undone.state.revision = stack.state.revision - 1 ∧
      Invariant raw undone undoneRevisions := by
  obtain ⟨log, logged, saved_eq⟩ := invariant.logged
  obtain ⟨undone, undo_eq, samePrefix, state_eq, undoneLogged, outsideAfter, sentinelAfter⟩ :=
    logged.undo_eq_ok laws invariant.valid invariant.sentinel last writeNow
  have topFits : top ≤ log.length := logged.length_eq ▸ le_sum_of_getLast? last
  have belowSum : stack.state.undoStack.dropLast.sum = log.length - top := by
    rw [sum_dropLast_of_getLast? last, logged.length_eq]
  -- the top revision saved the replay of its own segments
  have savedLast : revisions.saved.getLast? =
      some (replay (undoLog (log.drop (log.length - top))) revisions.current) := by
    obtain ⟨below, split⟩ := List.getLast?_eq_some_iff.mp last
    rw [saved_eq, split, savedContents_append, List.getLast?_concat, ← belowSum, split,
      List.dropLast_concat]
  refine ⟨undone, _, undo_eq, Revisions.undo_eq_some_iff.mpr ⟨_, savedLast, rfl⟩,
    by rw [state_eq], samePrefix ▸ invariant.valid, ?_, ?_, ?_, _, undoneLogged, ?_⟩
  · rw [state_eq, invariant.revision_eq]
  · rw [outsideAfter, invariant.current_eq]
  · rw [sentinelAfter]
    exact invariant.sentinel
  · -- the revisions below replay their segments after those of the top revision
    rw [state_eq]
    show revisions.saved.dropLast = savedContents stack.state.undoStack.dropLast
      (log.take (log.length - top)) (replay (undoLog (log.drop (log.length - top))) revisions.current)
    rw [← savedContents_append_log (by rw [belowSum, List.length_take]; omega),
      List.take_append_drop, savedContents_dropLast, saved_eq]

/-- **The records of a change list undo it.** Replaying the key and read value of every changed
entry, in any order, after a change list whose read values were the contents gives the contents
back. -/
theorem replay_applyChanges {changeList : List ChangeEntry} {content : Bytes → Option Bytes}
    (read : ∀ entry ∈ changeList, entry.origValue = content entry.key)
    {records : List (Bytes × Option Bytes)}
    (members : ∀ restore, restore ∈ records ↔
      ∃ entry ∈ changeList, entry.changed ∧ (entry.key, entry.origValue) = restore) :
    replay records (applyChanges changeList content) = content := by
  refine replay_restores (fun restore member => ?_) fun key changed => ?_
  · obtain ⟨entry, inChanges, _, rfl⟩ := (members restore).mp member
    exact read entry inChanges
  · by_contra unrecorded
    refine changed (applyChanges_of_unchanged (fun entry inChanges isChanged same => ?_) content)
    exact unrecorded ⟨_, (members _).mpr ⟨entry, inChanges, isChanged, rfl⟩, same⟩

/-- The change lists of the refinement: their keys lie outside the undo prefix and are not the
sentinel, and the segment numbers stay below `2 ^ 64`. -/
def Admissible (stack : UndoStack) (changeList : List ChangeEntry) (written : UndoStack) : Prop :=
  (∀ entry ∈ changeList, ¬ stack.undoPrefix <+: entry.key ∧ entry.key ≠ [0xff]) ∧
    written.state.nextUndoSegment < 2 ^ 64

/-- **`write_changes` keeps the invariant**: a change list read from the database changes the
current contents as it says, and its records, while a revision is open, give them back. -/
theorem Invariant.writeChanges (laws : raw.RoundTrips) (invariant : Invariant raw stack revisions)
    {changeList : List ChangeEntry}
    (read : ∀ entry ∈ changeList, entry.origValue = stack.db.get entry.key) {written : UndoStack}
    (succeeded : stack.writeChanges raw changeList = .ok written)
    (admissible : Admissible stack changeList written) :
    Invariant raw written (revisions.update (applyChanges changeList)) := by
  obtain ⟨log, logged, saved_eq⟩ := invariant.logged
  obtain ⟨closed, writtenLogged, samePrefix, state_eq, outsideAfter, sentinelAfter, records_eq⟩ :=
    logged.writeChanges laws invariant.valid admissible.1 succeeded admissible.2
  refine ⟨samePrefix ▸ invariant.valid, by rw [state_eq, invariant.revision_eq]; rfl, ?_, ?_, _,
    writtenLogged, ?_⟩
  · rw [outsideAfter, invariant.current_eq]
    rfl
  · rw [sentinelAfter]
    exact invariant.sentinel
  · show revisions.saved = savedContents written.state.undoStack (log ++ closed)
      (applyChanges changeList revisions.current)
    rw [state_eq]
    dsimp only
    rw [savedContents_addToBack, savedContents_append_log (Nat.le_of_eq logged.length_eq.symm)]
    by_cases noRevision : stack.state.undoStack = []
    · rw [saved_eq, noRevision]
      rfl
    · -- the records of the closed segments are those of the changed entries
      have restored : replay (undoLog closed) (applyChanges changeList revisions.current) =
          revisions.current := by
        refine replay_applyChanges (fun entry member => ?_) fun restore => ?_
        · rw [read entry member, ← invariant.current_eq,
            outside_eq_get _ (admissible.1 entry member).1]
        · rw [mem_undoLog, records_eq, if_neg noRevision]
          simp only [List.mem_map, List.mem_filter]
          constructor
          · rintro ⟨_, ⟨entry, ⟨inChanges, isChanged⟩, rfl⟩, same⟩
            exact ⟨entry, inChanges, isChanged, same⟩
          · rintro ⟨entry, inChanges, isChanged, same⟩
            exact ⟨_, ⟨entry, ⟨inChanges, isChanged⟩, rfl⟩, same⟩
      rw [restored, saved_eq]

end Steps

/-! ### Runs -/

/-- The sentinels are the only keys of one byte that opening a database writes. -/
theorem get_writeSentinels_of_long (db : Database) {key : Bytes} (long : 2 ≤ key.length) :
    (writeSentinels db).get key = db.get key := by
  refine get_write_of_untouched fun op member => ?_
  obtain ⟨sentinel, inSentinels, rfl⟩ := List.mem_map.mp member
  have short : sentinel.length = 1 := by
    have listed := (List.mem_filter.mp inSentinels).1
    simp only [List.mem_cons, List.not_mem_nil, or_false] at listed
    rcases listed with rfl | rfl <;> rfl
  have different : key ≠ sentinel := fun same => by rw [same] at long; omega
  simp [BatchOp.touches, different]

/-- Opening a database puts the sentinel `0xff` in place. -/
theorem get_writeSentinels_sentinel (db : Database) : (writeSentinels db).get [0xff] ≠ none := by
  unfold writeSentinels
  by_cases missing : db.get [0xff] = none
  · by_cases low : db.get [0x00] = none
    · simp [missing, low, write, BatchOp.apply, get_insert]
    · simp [missing, low, write, BatchOp.apply, get_insert]
  · by_cases low : db.get [0x00] = none
    · simp [missing, low, write, BatchOp.apply, get_insert]
    · simp [missing, low, write]

/-- An undo stack created on a database opened with nothing under the undo prefix starts with
the initial state. -/
theorem create_fresh {raw : FcRaw} {db : Database} {undoPrefix : Bytes} {targetSegmentSize : Nat}
    (fresh : ∀ key, undoPrefix <+: key → db.get key = none) {stack : UndoStack}
    (created : UndoStack.create raw (writeSentinels db) undoPrefix targetSegmentSize = .ok stack) :
    ValidPrefix undoPrefix ∧
      stack = ⟨writeSentinels db, undoPrefix, targetSegmentSize, UndoState.initial⟩ := by
  unfold UndoStack.create at created
  cases undoPrefix with
  | nil => cases created
  | cons first rest =>
    dsimp only at created
    split at created
    · cases created
    · next notSentinel =>
      have noState : (writeSentinels db).get (first :: rest ++ [0x00]) = none := by
        rw [get_writeSentinels_of_long _ (by simp)]
        exact fresh _ (List.prefix_append _ _)
      rw [noState] at created
      cases created
      exact ⟨⟨first, rest, rfl, (not_or.mp notSentinel).1, (not_or.mp notSentinel).2⟩, rfl⟩

/-- **A freshly created undo stack satisfies the invariant**, with no revision open. -/
theorem invariant_create {raw : FcRaw} {db : Database} {undoPrefix : Bytes}
    {targetSegmentSize : Nat} (fresh : ∀ key, undoPrefix <+: key → db.get key = none)
    {stack : UndoStack}
    (created : UndoStack.create raw (writeSentinels db) undoPrefix targetSegmentSize = .ok stack) :
    Invariant raw stack ⟨outside undoPrefix stack.db, [], 0⟩ := by
  obtain ⟨valid, rfl⟩ := create_fresh fresh created
  refine ⟨valid, rfl, rfl, get_writeSentinels_sentinel db, [],
    logged_nil rfl (by show (0 : Nat) < 2 ^ 64; decide) ?_, rfl⟩
  intro key isSegment
  obtain ⟨first, rest, rfl, _⟩ := valid
  have long : 2 ≤ key.length := by
    have := isSegment.length_le
    simp only [segmentPrefix, List.length_append, List.length_cons] at this
    omega
  rw [get_writeSentinels_of_long db long]
  exact fresh key ((List.prefix_append _ _).trans isSegment)

/-- The first states of a run: an undo stack created on a database opened with nothing under the
undo prefix, and the abstract store of its contents with no revision open. -/
def Initial (raw : FcRaw) (pair : UndoStack × Revisions (Bytes → Option Bytes)) : Prop :=
  ∃ db undoPrefix targetSegmentSize, (∀ key, undoPrefix <+: key → db.get key = none) ∧
    UndoStack.create raw (writeSentinels db) undoPrefix targetSegmentSize = .ok pair.1 ∧
    pair.2 = ⟨outside undoPrefix pair.1.db, [], 0⟩

/-- One operation on the undo stack and on the abstract store, in lockstep. A change list is
written when the values it read are those of the database and `admissible` lets it through. -/
inductive Step (raw : FcRaw) (admissible : UndoStack → List ChangeEntry → UndoStack → Prop) :
    UndoStack × Revisions (Bytes → Option Bytes) → UndoStack × Revisions (Bytes → Option Bytes) →
      Prop
  | push (stack : UndoStack) (revisions : Revisions (Bytes → Option Bytes)) (writeNow : Bool) :
      Step raw admissible (stack, revisions) (stack.push raw writeNow, revisions.push)
  | writeChanges (stack : UndoStack) (revisions : Revisions (Bytes → Option Bytes))
      (changeList : List ChangeEntry) (written : UndoStack) :
      (∀ entry ∈ changeList, entry.origValue = stack.db.get entry.key) →
      stack.writeChanges raw changeList = .ok written → admissible stack changeList written →
      Step raw admissible (stack, revisions) (written, revisions.update (applyChanges changeList))
  | squash (stack : UndoStack) (revisions : Revisions (Bytes → Option Bytes)) (writeNow : Bool) :
      Step raw admissible (stack, revisions) (stack.squash raw writeNow, revisions.squash)
  | undo (stack : UndoStack) (revisions : Revisions (Bytes → Option Bytes)) (writeNow : Bool)
      (undone : UndoStack) (undoneRevisions : Revisions (Bytes → Option Bytes)) :
      stack.undo raw writeNow = .ok undone → revisions.undo = some undoneRevisions →
      Step raw admissible (stack, revisions) (undone, undoneRevisions)
  | commit (stack : UndoStack) (revisions : Revisions (Bytes → Option Bytes)) (revision : Int) :
      Step raw admissible (stack, revisions) (stack.commit raw revision, revisions.commit revision)

/-- An `undo` fails with no revision open. -/
theorem undo_opened {raw : FcRaw} {stack undone : UndoStack} {writeNow : Bool}
    (succeeded : stack.undo raw writeNow = .ok undone) : ∃ top, stack.state.undoStack.getLast? = some top := by
  unfold UndoStack.undo at succeeded
  cases last : stack.state.undoStack.getLast? with
  | none =>
    rw [last] at succeeded
    cases succeeded
  | some top => exact ⟨top, rfl⟩

/-- **The invariant holds along every run** of admissible change lists. -/
theorem invariant_of_reachable {raw : FcRaw} (laws : raw.RoundTrips)
    {pair : UndoStack × Revisions (Bytes → Option Bytes)}
    (reachable : Transition.Reachable (Initial raw) (Step raw Admissible) pair) :
    Invariant raw pair.1 pair.2 := by
  refine reachable.invariant (fun pair => Invariant raw pair.1 pair.2) ?_ ?_
  · rintro ⟨stack, revisions⟩ ⟨db, undoPrefix, targetSegmentSize, fresh, created, abstract⟩
    dsimp only at created abstract ⊢
    rw [abstract]
    exact invariant_create fresh created
  · rintro ⟨stack, revisions⟩ _ invariant stepped
    cases stepped with
    | push _ _ writeNow => exact invariant.push writeNow
    | writeChanges _ _ changeList written read succeeded admissible =>
      exact invariant.writeChanges laws read succeeded admissible
    | squash _ _ writeNow => exact invariant.squash writeNow
    | undo _ _ writeNow undone undoneRevisions succeeded abstractUndo =>
      obtain ⟨top, last⟩ := undo_opened succeeded
      obtain ⟨undone', undoneRevisions', succeeded', abstractUndo', _, invariant'⟩ :=
        invariant.undo laws last writeNow
      rw [succeeded, Except.ok.injEq] at succeeded'
      rw [abstractUndo, Option.some.injEq] at abstractUndo'
      rw [succeeded', abstractUndo']
      exact invariant'
    | commit _ _ revision => exact invariant.commit revision

/-- `MAX_ARRAY_ALLOC_SIZE` of `fc`: the most bytes the reader of a vector allocates. -/
def maxArrayAllocSize : Nat := 1024 * 1024 * 10

/-- `fc::raw::pack` of an `undo_state`, its fields in the order of its `FC_REFLECT`, each
little-endian: the format version in one byte, the revision as an eight-byte two's complement, the
undo stack as an `unsigned_int` count and eight bytes a count, and the next segment in eight
bytes. -/
def packUndoStateRaw (state : UndoState) : Bytes :=
  HostWords.store 1 state.formatVersion.toNat ++ HostWords.store 8 (state.revision % 2 ^ 64).toNat ++
    Leb128.pack state.undoStack.length ++ (state.undoStack.map (HostWords.store 8)).flatten ++
    HostWords.store 8 state.nextUndoSegment

/-- `fc::raw::unpack` of an `undo_state`: the fields in the same order, the revision read back as a
two's complement, and a count of segments that would allocate more than `MAX_ARRAY_ALLOC_SIZE`
refused. What follows the state is left unread. -/
def unpackUndoStateRaw (stored : Bytes) : Option UndoState := do
  let (version, rest) ← HostWords.read 1 stored
  let (storedRevision, rest) ← HostWords.read 8 rest
  let (count, rest) ← Leb128.unpack rest
  unless count * 8 ≤ maxArrayAllocSize do failure
  let (counts, rest) ← HostWords.readWords 8 count rest
  let (nextSegment, _) ← HostWords.read 8 rest
  pure ⟨UInt8.ofNat version,
    if storedRevision < 2 ^ 63 then (storedRevision : Int) else (storedRevision : Int) - 2 ^ 64,
    counts, nextSegment⟩

example : unpackUndoStateRaw (packUndoStateRaw ⟨0, -3, [2, 5], 9⟩) = some ⟨0, -3, [2, 5], 9⟩ := by
  decide

/-- `fc::raw` as the undo stack uses it: an `unsigned_int` as a LEB128 varint, a `bool` as one
byte, which the reader requires to be `0` or `1`, and an `undo_state` field by field. -/
def fcRaw : FcRaw where
  packUnsignedInt := Leb128.pack
  unpackUnsignedInt := Leb128.unpack
  packBool flag := [if flag then 1 else 0]
  unpackBool
    | byte :: rest => if byte.toNat ≤ 1 then some (byte == 1, rest) else none
    | [] => none
  packUndoState := packUndoStateRaw
  unpackUndoState := unpackUndoStateRaw

theorem fcRaw_roundTrips : fcRaw.RoundTrips where
  unsignedInt n rest fits := Leb128.unpack_pack fits rest
  bool flag rest := by cases flag <;> rfl

/-- **`undo` restores the contents the popped revision saved.** In every run from a freshly
created undo stack of pushes, writes of change lists read from the database (of keys outside the
undo prefix other than the sentinel, with segment numbers below `2 ^ 64`), squashes, undos and
commits, an `undo` with a revision open succeeds; the contents of the database outside the undo
prefix are then those saved when the popped revision was pushed, and the revision goes down by
one. -/
theorem undo_restores_pushed_contents {raw : FcRaw} (laws : raw.RoundTrips) {stack : UndoStack}
    {revisions : Revisions (Bytes → Option Bytes)}
    (reachable : Transition.Reachable (Initial raw) (Step raw Admissible) (stack, revisions))
    (opened : stack.state.undoStack ≠ []) (writeNow : Bool) :
    ∃ undone top, stack.undo raw writeNow = .ok undone ∧ revisions.saved.getLast? = some top ∧
      outside undone.undoPrefix undone.db = top ∧ undone.revision = stack.revision - 1 := by
  have invariant := invariant_of_reachable laws reachable
  obtain ⟨top, last⟩ : ∃ top, stack.state.undoStack.getLast? = some top :=
    Option.ne_none_iff_exists'.mp (by rwa [Ne, List.getLast?_eq_none_iff])
  obtain ⟨undone, undoneRevisions, succeeded, abstractUndo, revision_eq, undoneInvariant⟩ :=
    invariant.undo laws last writeNow
  obtain ⟨saved, savedLast, rfl⟩ := Revisions.undo_eq_some_iff.mp abstractUndo
  exact ⟨undone, saved, succeeded, savedLast, undoneInvariant.current_eq, revision_eq⟩

/-- A run on a fresh database under the prefix `0x01`: a push that writes the packed state, a
change list that puts `0x07` at the key `0x02`, and one that overwrites it with `0x08` and puts
`0x09` at `0x03`. -/
theorem undo_restores_pushed_contents_after_two_writes :
    ∃ stack revisions, Transition.Reachable (Initial fcRaw) (Step fcRaw Admissible)
      (stack, revisions) ∧ stack.state.undoStack ≠ [] ∧
      ∃ undone top, stack.undo fcRaw true = .ok undone ∧ revisions.saved.getLast? = some top ∧
        outside undone.undoPrefix undone.db = top ∧ undone.revision = stack.revision - 1 := by
  let created : UndoStack := ⟨writeSentinels SortedMap.empty, [1], 64, UndoState.initial⟩
  let pushed := created.push fcRaw true
  let firstList : List ChangeEntry := [⟨[2], none, some [7]⟩]
  let first := ((pushed.writeChanges fcRaw firstList).toOption).getD pushed
  let secondList : List ChangeEntry := [⟨[2], some [7], some [8]⟩, ⟨[3], none, some [9]⟩]
  let second := ((first.writeChanges fcRaw secondList).toOption).getD first
  let revisions : Revisions (Bytes → Option Bytes) :=
    ((Revisions.push ⟨outside [1] created.db, [], 0⟩).update (applyChanges firstList)).update
      (applyChanges secondList)
  have run : Transition.Reachable (Initial fcRaw) (Step fcRaw Admissible) (second, revisions) :=
    ⟨(created, ⟨outside [1] created.db, [], 0⟩),
      ⟨SortedMap.empty, [1], 64, fun key _ => SortedMap.get_empty key, rfl, rfl⟩,
      ((Relation.ReflTransGen.single (Step.push _ _ true)).tail
        (Step.writeChanges _ _ firstList first (by decide) rfl ⟨by decide, by decide⟩)).tail
        (Step.writeChanges _ _ secondList second (by decide) rfl ⟨by decide, by decide⟩)⟩
  have opened : second.state.undoStack ≠ [] := by decide
  exact ⟨second, revisions, run, opened,
    undo_restores_pushed_contents fcRaw_roundTrips run opened true⟩

/-- **A change list that erases the sentinel makes `undo` restore nothing.** On a fresh database
under the prefix `0x01`, a push and a change list that erases the sentinel `0xff`, whose value it
read, leave no key at or above the segments' next prefix: the following `undo` visits no segment,
and the sentinel stays erased although the popped revision saved it. -/
theorem undo_restores_nothing_after_sentinel_erased :
    ∃ stack revisions undone top,
      Transition.Reachable (Initial fcRaw) (Step fcRaw fun _ _ _ => True) (stack, revisions) ∧
      stack.undo fcRaw false = .ok undone ∧ revisions.saved.getLast? = some top ∧
      outside undone.undoPrefix undone.db [0xff] = none ∧ top [0xff] = some [] := by
  let created : UndoStack := ⟨writeSentinels SortedMap.empty, [1], 64, UndoState.initial⟩
  let pushed := created.push fcRaw false
  let changeList : List ChangeEntry := [⟨[0xff], some [], none⟩]
  let written := ((pushed.writeChanges fcRaw changeList).toOption).getD pushed
  let undone := ((written.undo fcRaw false).toOption).getD written
  refine ⟨written, (Revisions.push ⟨outside [1] created.db, [], 0⟩).update
    (applyChanges changeList), undone, outside [1] created.db, ⟨(created, ⟨outside [1] created.db, [], 0⟩),
      ⟨SortedMap.empty, [1], 64, fun key _ => SortedMap.get_empty key, rfl, rfl⟩,
      (Relation.ReflTransGen.single (Step.push _ _ false)).tail
        (Step.writeChanges _ _ changeList written (by decide) rfl trivial)⟩, rfl, rfl, rfl, rfl⟩

end B1.ChainKv
