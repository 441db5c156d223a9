/-
This file describes the history the undo stack of `chain_kv.hpp` keeps in its database as a log
of segments: the segments of the open revisions, oldest first, each with the bytes stored under
its key and the undo records those bytes pack. Replaying the records of the log from the newest
segment down to the first segment of a revision gives the contents that revision saved
(`savedContents`); `Logged` says that the database holds exactly the segments of the log, under
consecutive numbers that end at the next segment, and that the state counts them. The lemmas of
the file say how each operation of the undo stack changes the log.
-/

import EosioChain.ChainKvBatches
import EosioChain.Revisions

namespace B1.ChainKv

open ByteKeys SortedMap Revisions UndoStack

/-! ### Change lists -/

namespace UndoStack.ChangeEntry

/-- Whether `write_changes` writes an entry: its value differs from the value it read. -/
def changed (entry : ChangeEntry) : Bool := decide (entry.origValue ≠ entry.currentValue)

/-- The write of a changed entry: a put of its value, or a delete of an erased one. -/
def op (entry : ChangeEntry) : BatchOp :=
  match entry.currentValue with
  | some value => .put entry.key value
  | none => .delete entry.key

/-- The undo record `write_changes` packs for a changed entry. -/
def record (entry : ChangeEntry) : UndoRecord := ⟨entry.key, entry.origValue, entry.currentValue⟩

theorem get_apply_op (db : Database) (entry : ChangeEntry) :
    (entry.op.apply db).get = Function.update db.get entry.key entry.currentValue := by
  funext key
  unfold op
  cases entry.currentValue with
  | some value => rw [BatchOp.apply, get_insert, Function.update_apply]
  | none => rw [BatchOp.apply, get_erase, Function.update_apply]

end UndoStack.ChangeEntry

/-- What a change list does to the contents: each changed entry sets its key to its current
value, in order. -/
def applyChanges (changeList : List ChangeEntry) (content : Bytes → Option Bytes) :
    Bytes → Option Bytes :=
  changeList.foldl (fun content entry =>
    if entry.changed then Function.update content entry.key entry.currentValue else content) content

/-- **The writes of a change list change the database as the change list says.** -/
theorem get_write_changes (db : Database) (changeList : List ChangeEntry) :
    (write db ((changeList.filter (·.changed)).map (·.op))).get = applyChanges changeList db.get := by
  induction changeList generalizing db with
  | nil => rfl
  | cons entry changeList inductionHypothesis =>
    unfold applyChanges
    rw [List.foldl_cons]
    by_cases changed : entry.changed
    · rw [List.filter_cons_of_pos changed, List.map_cons, write, List.foldl_cons, ← write,
        inductionHypothesis, ChangeEntry.get_apply_op, if_pos changed]
      rfl
    · rw [List.filter_cons_of_neg changed, inductionHypothesis, if_neg changed]
      rfl

/-- A key no changed entry names keeps its value. -/
theorem applyChanges_of_unchanged {changeList : List ChangeEntry} {key : Bytes}
    (untouched : ∀ entry ∈ changeList, entry.changed → entry.key ≠ key)
    (content : Bytes → Option Bytes) : applyChanges changeList content key = content key := by
  induction changeList generalizing content with
  | nil => rfl
  | cons entry changeList inductionHypothesis =>
    unfold applyChanges
    rw [List.foldl_cons, ← applyChanges,
      inductionHypothesis fun other member => untouched other (List.mem_cons_of_mem _ member)]
    split
    · next changed => exact Function.update_of_ne (untouched entry List.mem_cons_self changed).symm _ _
    · rfl

/-- The value a change list leaves at a key depends only on the value the key had. -/
theorem applyChanges_congr {changeList : List ChangeEntry} {key : Bytes}
    {content other : Bytes → Option Bytes} (same : content key = other key) :
    applyChanges changeList content key = applyChanges changeList other key := by
  induction changeList generalizing content other with
  | nil => exact same
  | cons entry changeList inductionHypothesis =>
    unfold applyChanges
    rw [List.foldl_cons, List.foldl_cons, ← applyChanges, ← applyChanges]
    apply inductionHypothesis
    split
    · rw [Function.update_apply, Function.update_apply, same]
    · exact same

/-! ### Replaying undo records -/

/-- The key and old value of each record, as a replay puts them back. -/
def restores (records : List UndoRecord) : List (Bytes × Option Bytes) :=
  records.map fun record => (record.key, record.oldValue)

/-- **Restoring records one after the other replays them.** -/
theorem get_write_restores (db : Database) (records : List UndoRecord) :
    (write db (records.map UndoRecord.restore)).get = replay (restores records) db.get := by
  induction records generalizing db with
  | nil => rfl
  | cons record records inductionHypothesis =>
    rw [List.map_cons, write, List.foldl_cons, ← write, inductionHypothesis, get_apply_restore]
    rfl

/-- The replay `undo` makes of a run of segments given oldest first: the newest segment first,
the records of each segment in order. -/
def undoLog (segments : List (Bytes × List UndoRecord)) : List (Bytes × Option Bytes) :=
  restores (segments.reverse.flatMap Prod.snd)

@[simp]
theorem undoLog_nil : undoLog [] = [] :=
  rfl

theorem undoLog_append (older newer : List (Bytes × List UndoRecord)) :
    undoLog (older ++ newer) = undoLog newer ++ undoLog older := by
  rw [undoLog, undoLog, undoLog, List.reverse_append, List.flatMap_append, restores, restores,
    restores, List.map_append]

theorem mem_undoLog {segments : List (Bytes × List UndoRecord)} {restore : Bytes × Option Bytes} :
    restore ∈ undoLog segments ↔ ∃ record ∈ segments.flatMap Prod.snd,
      (record.key, record.oldValue) = restore := by
  simp only [undoLog, restores, List.mem_map, List.mem_flatMap, List.mem_reverse]

/-! ### The contents the open revisions saved -/

/-- The contents saved by the open revisions, bottom first, from the number of segments of each
and the log of their segments, oldest first: a revision saved what replaying its segments and
every later one gives back. -/
def savedContents : List Nat → List (Bytes × List UndoRecord) → (Bytes → Option Bytes) →
    List (Bytes → Option Bytes)
  | [], _, _ => []
  | count :: counts, log, current =>
    replay (undoLog log) current :: savedContents counts (log.drop count) current

theorem length_savedContents (counts : List Nat) (log : List (Bytes × List UndoRecord))
    (current : Bytes → Option Bytes) : (savedContents counts log current).length = counts.length := by
  induction counts generalizing log with
  | nil => rfl
  | cons count counts inductionHypothesis =>
    rw [savedContents, List.length_cons, inductionHypothesis, List.length_cons]

/-- The revision on top saved what replaying its own segments gives back. -/
theorem savedContents_append (counts : List Nat) (count : Nat)
    (log : List (Bytes × List UndoRecord)) (current : Bytes → Option Bytes) :
    savedContents (counts ++ [count]) log current =
      savedContents counts log current ++ [replay (undoLog (log.drop counts.sum)) current] := by
  induction counts generalizing log with
  | nil => rfl
  | cons first counts inductionHypothesis =>
    rw [List.cons_append, savedContents, savedContents, inductionHypothesis, List.drop_drop,
      List.sum_cons, List.cons_append]

/-- Dropping the top revision drops its saved contents. -/
theorem savedContents_dropLast (counts : List Nat) (log : List (Bytes × List UndoRecord))
    (current : Bytes → Option Bytes) :
    savedContents counts.dropLast log current = (savedContents counts log current).dropLast := by
  cases last : counts.getLast? with
  | none =>
    rw [List.getLast?_eq_none_iff] at last
    rw [last]
    rfl
  | some top =>
    obtain ⟨below, rfl⟩ := List.getLast?_eq_some_iff.mp last
    rw [List.dropLast_concat, savedContents_append, List.dropLast_concat]

/-- Newer segments under the open revisions move the contents the replay starts from. -/
theorem savedContents_append_log {counts : List Nat} {log : List (Bytes × List UndoRecord)}
    (covered : counts.sum ≤ log.length) (newer : List (Bytes × List UndoRecord))
    (current : Bytes → Option Bytes) :
    savedContents counts (log ++ newer) current =
      savedContents counts log (replay (undoLog newer) current) := by
  induction counts generalizing log with
  | nil => rfl
  | cons count counts inductionHypothesis =>
    rw [List.sum_cons] at covered
    have restCovered : counts.sum ≤ (log.drop count).length := by
      rw [List.length_drop]
      omega
    rw [savedContents, savedContents, undoLog_append, replay_append,
      List.drop_append_of_le_length (by omega), inductionHypothesis restCovered]

/-- Forgetting the oldest revisions forgets their saved contents and their segments. -/
theorem savedContents_drop (dropped : Nat) (counts : List Nat)
    (log : List (Bytes × List UndoRecord)) (current : Bytes → Option Bytes) :
    savedContents (counts.drop dropped) (log.drop (counts.take dropped).sum) current =
      (savedContents counts log current).drop dropped := by
  induction dropped generalizing counts log with
  | zero => rfl
  | succ dropped inductionHypothesis =>
    cases counts with
    | nil => rfl
    | cons count counts =>
      rw [List.drop_succ_cons, List.take_succ_cons, List.sum_cons, savedContents,
        List.drop_succ_cons, ← inductionHypothesis, List.drop_drop]

/-! ### Counting the segments of the top revision -/

@[simp]
theorem addToBack_nil (added : Nat) : addToBack [] added = [] :=
  rfl

@[simp]
theorem addToBack_singleton (count added : Nat) : addToBack [count] added = [count + added] :=
  rfl

@[simp]
theorem addToBack_cons_cons (count next : Nat) (rest : List Nat) (added : Nat) :
    addToBack (count :: next :: rest) added = count :: addToBack (next :: rest) added :=
  rfl

theorem length_addToBack (counts : List Nat) (added : Nat) :
    (addToBack counts added).length = counts.length := by
  induction counts, added using addToBack.induct with
  | case1 => rw [addToBack_nil]
  | case2 count added => rw [addToBack_singleton, List.length_singleton, List.length_singleton]
  | case3 count added next rest inductionHypothesis =>
    rw [addToBack_cons_cons, List.length_cons, inductionHypothesis]
    rfl

theorem addToBack_eq_nil_iff {counts : List Nat} {added : Nat} :
    addToBack counts added = [] ↔ counts = [] := by
  rw [← List.length_eq_zero_iff, length_addToBack, List.length_eq_zero_iff]

theorem sum_addToBack {counts : List Nat} (opened : counts ≠ []) (added : Nat) :
    (addToBack counts added).sum = counts.sum + added := by
  induction counts, added using addToBack.induct with
  | case1 => exact absurd rfl opened
  | case2 count added => rw [addToBack_singleton, List.sum_singleton, List.sum_singleton]
  | case3 count added next rest inductionHypothesis =>
    have rest := inductionHypothesis (List.cons_ne_nil _ _)
    simp only [addToBack_cons_cons, List.sum_cons] at rest ⊢
    omega

theorem addToBack_addToBack (counts : List Nat) (first second : Nat) :
    addToBack (addToBack counts first) second = addToBack counts (first + second) := by
  induction counts, first using addToBack.induct with
  | case1 => rw [addToBack_nil, addToBack_nil, addToBack_nil]
  | case2 count first => rw [addToBack_singleton, addToBack_singleton, addToBack_singleton,
      Nat.add_assoc]
  | case3 count first next rest inductionHypothesis =>
    rw [addToBack_cons_cons, addToBack_cons_cons, ← inductionHypothesis]
    cases after : addToBack (next :: rest) first with
    | nil => exact absurd after (by rw [addToBack_eq_nil_iff]; exact List.cons_ne_nil _ _)
    | cons head tail => rw [addToBack_cons_cons]

theorem addToBack_zero (counts : List Nat) : addToBack counts 0 = counts := by
  induction counts with
  | nil => rw [addToBack_nil]
  | cons count counts inductionHypothesis =>
    cases counts with
    | nil => rw [addToBack_singleton, Nat.add_zero]
    | cons next rest => rw [addToBack_cons_cons, inductionHypothesis]

/-- Segments added to the top revision change no revision's saved contents. -/
theorem savedContents_addToBack (counts : List Nat) (added : Nat)
    (log : List (Bytes × List UndoRecord)) (current : Bytes → Option Bytes) :
    savedContents (addToBack counts added) log current = savedContents counts log current := by
  induction counts, added using addToBack.induct generalizing log with
  | case1 => rw [addToBack_nil]
  | case2 count added =>
    rw [addToBack_singleton]
    rfl
  | case3 count added next rest inductionHypothesis =>
    rw [addToBack_cons_cons, savedContents, savedContents, inductionHypothesis]

/-- `squash` moves the segments of the top revision to the one below. -/
theorem addToBack_dropLast_sum {counts : List Nat} {top : Nat}
    (several : 2 ≤ counts.length) (last : counts.getLast? = some top) :
    (addToBack counts.dropLast top).sum = counts.sum := by
  obtain ⟨below, rfl⟩ := List.getLast?_eq_some_iff.mp last
  have opened : below ≠ [] := by
    rintro rfl
    simp at several
  rw [List.dropLast_concat, sum_addToBack opened, List.sum_append, List.sum_singleton]

theorem sum_dropLast_of_getLast? {counts : List Nat} {top : Nat}
    (last : counts.getLast? = some top) : counts.dropLast.sum = counts.sum - top := by
  obtain ⟨below, rfl⟩ := List.getLast?_eq_some_iff.mp last
  rw [List.dropLast_concat, List.sum_append, List.sum_singleton]
  omega

theorem le_sum_of_getLast? {counts : List Nat} {top : Nat} (last : counts.getLast? = some top) :
    top ≤ counts.sum := by
  obtain ⟨below, rfl⟩ := List.getLast?_eq_some_iff.mp last
  rw [List.sum_append, List.sum_singleton]
  omega

/-! ### Numbered segments -/

namespace UndoStack

variable (stack : UndoStack)

/-- The segments of a run, given oldest first, under their keys from segment `first` on. -/
def numberSegments : Nat → List (Bytes × List UndoRecord) → List (Bytes × Bytes × List UndoRecord)
  | _, [] => []
  | first, segment :: segments =>
    (stack.createSegmentKey first, segment) :: numberSegments (first + 1) segments

theorem numberSegments_append (first : Nat) (older newer : List (Bytes × List UndoRecord)) :
    stack.numberSegments first (older ++ newer) =
      stack.numberSegments first older ++ stack.numberSegments (first + older.length) newer := by
  induction older generalizing first with
  | nil => rfl
  | cons segment older inductionHypothesis =>
    have shifted : first + 1 + older.length = first + (segment :: older).length := by
      rw [List.length_cons]
      omega
    rw [List.cons_append, numberSegments, numberSegments, inductionHypothesis, shifted,
      List.cons_append]

/-- The numbered segments depend on the undo stack only through its prefix. -/
theorem numberSegments_eq_of_undoPrefix {other : UndoStack}
    (samePrefix : other.undoPrefix = stack.undoPrefix) :
    other.numberSegments = stack.numberSegments := by
  funext first segments
  induction segments generalizing first with
  | nil => rfl
  | cons segment segments inductionHypothesis =>
    rw [numberSegments, numberSegments, inductionHypothesis, createSegmentKey, createSegmentKey,
      segmentPrefix, segmentPrefix, samePrefix]

theorem map_snd_numberSegments (first : Nat) (segments : List (Bytes × List UndoRecord)) :
    (stack.numberSegments first segments).map Prod.snd = segments := by
  induction segments generalizing first with
  | nil => rfl
  | cons segment segments inductionHypothesis =>
    rw [numberSegments, List.map_cons, inductionHypothesis]

theorem mem_numberSegments {first : Nat} {segments : List (Bytes × List UndoRecord)}
    {entry : Bytes × Bytes × List UndoRecord} :
    entry ∈ stack.numberSegments first segments ↔
      ∃ index, segments[index]? = some entry.2 ∧ entry.1 = stack.createSegmentKey (first + index) := by
  induction segments generalizing first with
  | nil => simp [numberSegments]
  | cons segment segments inductionHypothesis =>
    rw [numberSegments, List.mem_cons, inductionHypothesis]
    constructor
    · rintro (rfl | ⟨index, found, key⟩)
      · exact ⟨0, rfl, rfl⟩
      · exact ⟨index + 1, found, by rw [key, Nat.add_right_comm, Nat.add_assoc]⟩
    · rintro ⟨index, found, key⟩
      cases index with
      | zero =>
        left
        rw [List.getElem?_cons_zero, Option.some.injEq] at found
        rw [Prod.ext_iff, key, found]
        exact ⟨rfl, rfl⟩
      | succ index =>
        right
        exact ⟨index, found, by rw [key, Nat.add_right_comm, Nat.add_assoc]⟩

/-- The last `top` segments of a log, the segments of the top revision, under their keys. -/
def topSegments (log : List (Bytes × List UndoRecord)) (top : Nat) :
    List (Bytes × Bytes × List UndoRecord) :=
  stack.numberSegments (stack.state.nextUndoSegment - top) (log.drop (log.length - top))

/-- The keys of the numbered segments, below `2 ^ 64`, increase. -/
theorem sorted_numberSegments {first : Nat} {segments : List (Bytes × List UndoRecord)}
    (fits : first + segments.length ≤ 2 ^ 64) :
    (stack.numberSegments first segments).Pairwise fun earlier later => earlier.1 < later.1 := by
  induction segments generalizing first with
  | nil => exact List.Pairwise.nil
  | cons segment segments inductionHypothesis =>
    rw [List.length_cons] at fits
    rw [numberSegments, List.pairwise_cons]
    refine ⟨fun later member => ?_, inductionHypothesis (by omega)⟩
    obtain ⟨index, found, key⟩ := (stack.mem_numberSegments).mp member
    have inside : index < segments.length := (List.getElem?_eq_some_iff.mp found).1
    rw [key, stack.createSegmentKey_lt_iff (by omega) (by omega)]
    omega

end UndoStack

/-! ### The log of segments -/

/-- **The segments of the undo stack.** The database holds, under the segment prefix, exactly the
segments of `log` (oldest first), numbered so that the last is just below the next segment; each
packs its undo records, which are of keys outside the undo prefix other than the sentinel; and the
state counts the segments. -/
structure Logged (raw : FcRaw) (stack : UndoStack) (log : List (Bytes × List UndoRecord)) :
    Prop where
  length_eq : log.length = stack.state.undoStack.sum
  length_le : log.length ≤ stack.state.nextUndoSegment
  numbered : stack.state.nextUndoSegment < 2 ^ 64
  stored : ∀ entry ∈ stack.numberSegments (stack.state.nextUndoSegment - log.length) log,
    stack.db.get entry.1 = some entry.2.1
  onlySegments : ∀ key value, stack.segmentPrefix <+: key → stack.db.get key = some value →
    ∃ entry ∈ stack.numberSegments (stack.state.nextUndoSegment - log.length) log, entry.1 = key
  encoded : ∀ segment ∈ log, Encodes raw segment.1 segment.2
  recordKeys : ∀ segment ∈ log, ∀ record ∈ segment.2,
    ¬ stack.undoPrefix <+: record.key ∧ record.key ≠ [0xff]

/-- An empty log: no segment under the segment prefix and no revision with segments. -/
theorem logged_nil {raw : FcRaw} {stack : UndoStack} (none : stack.state.undoStack.sum = 0)
    (numbered : stack.state.nextUndoSegment < 2 ^ 64)
    (noSegments : ∀ key, stack.segmentPrefix <+: key → stack.db.get key = Option.none) :
    Logged raw stack [] where
  length_eq := none.symm
  length_le := Nat.zero_le _
  numbered := numbered
  stored := fun _ member => nomatch member
  onlySegments := fun key value isSegment stored => by
    rw [noSegments key isSegment] at stored
    cases stored
  encoded := fun _ member => nomatch member
  recordKeys := fun _ member => nomatch member

namespace UndoStack

variable (stack : UndoStack)

theorem touches_writeState {raw : FcRaw} {state : UndoState} {key : Bytes}
    (touched : (stack.writeState raw state).touches key = true) : key = stack.statePrefix := by
  simpa [writeState, BatchOp.touches] using touched

theorem not_segmentPrefix_prefix_statePrefix : ¬ stack.segmentPrefix <+: stack.statePrefix := by
  rw [segmentPrefix, statePrefix, List.prefix_append_right_inj]
  decide

/-- Writing the state leaves every segment as it is. -/
theorem get_write_writeState_of_segment {raw : FcRaw} {state : UndoState} {key : Bytes}
    (isSegment : stack.segmentPrefix <+: key) (db : Database) :
    (write db [stack.writeState raw state]).get key = db.get key := by
  refine get_write_of_untouched fun op member => ?_
  rw [List.mem_singleton] at member
  subst member
  by_contra touched
  have same := stack.touches_writeState (eq_true_of_ne_false touched)
  exact stack.not_segmentPrefix_prefix_statePrefix (same ▸ isSegment)

theorem underPrefix_writeState (raw : FcRaw) (state : UndoState) :
    (stack.writeState raw state).underPrefix stack.undoPrefix = true := by
  rw [writeState, BatchOp.underPrefix, List.isPrefixOf_iff_prefix]
  exact stack.undoPrefix_prefix_statePrefix

/-- Writing the state leaves the contents outside the undo prefix as they are. -/
theorem outside_write_writeState (raw : FcRaw) (state : UndoState) (db : Database) :
    outside stack.undoPrefix (write db [stack.writeState raw state]) = outside stack.undoPrefix db := by
  refine outside_write_of_inside fun op member key touched => ?_
  rw [List.mem_singleton] at member
  subst member
  rw [stack.touches_writeState touched]
  exact stack.undoPrefix_prefix_statePrefix

theorem numberSegments_take_drop (first count : Nat) {segments : List (Bytes × List UndoRecord)}
    (fewer : count ≤ segments.length) :
    stack.numberSegments first segments = stack.numberSegments first (segments.take count) ++
      stack.numberSegments (first + count) (segments.drop count) := by
  conv => lhs; rw [← List.take_append_drop count segments]
  rw [numberSegments_append, List.length_take, Nat.min_eq_left fewer]

/-- A segment key lies in the range from segment 0 to segment `keep` exactly when its number is
below `keep`. -/
theorem inRange_createSegmentKey_zero_iff {keep segment : Nat} (keepFits : keep < 2 ^ 64)
    (segmentFits : segment < 2 ^ 64) :
    InRange (stack.createSegmentKey 0) (stack.createSegmentKey keep)
      (stack.createSegmentKey segment) ↔ segment < keep := by
  unfold InRange
  rw [stack.createSegmentKey_lt_iff segmentFits (by omega),
    stack.createSegmentKey_lt_iff segmentFits keepFits]
  omega

/-- The segment keys after a range delete and the write of the state. -/
theorem get_write_deleteRange_of_segment {raw : FcRaw} {state : UndoState} {first last key : Bytes}
    (isSegment : stack.segmentPrefix <+: key) (db : Database) :
    (write db [.deleteRange first last, stack.writeState raw state]).get key =
      if InRange first last key then none else db.get key := by
  rw [write, List.foldl_cons, ← write, stack.get_write_writeState_of_segment isSegment,
    BatchOp.apply, get_eraseRange]

/-- A range delete of segments keeps the contents outside the undo prefix. -/
theorem outside_write_deleteRange (raw : FcRaw) (state : UndoState) (first last : Nat)
    (db : Database) :
    outside stack.undoPrefix (write db [.deleteRange (stack.createSegmentKey first)
      (stack.createSegmentKey last), stack.writeState raw state]) = outside stack.undoPrefix db := by
  refine outside_write_of_inside fun op member key touched => ?_
  rcases List.mem_pair.mp member with rfl | rfl
  · simp only [BatchOp.touches, decide_eq_true_eq] at touched
    exact stack.undoPrefix_prefix_of_inRange_createSegmentKey touched
  · rw [stack.touches_writeState touched]
    exact stack.undoPrefix_prefix_statePrefix

end UndoStack

section Logged

variable {raw : FcRaw} {stack : UndoStack} {log : List (Bytes × List UndoRecord)}

theorem segmentPrefix_prefix_of_mem_numberSegments {entry : Bytes × Bytes × List UndoRecord} {first : Nat}
    {segments : List (Bytes × List UndoRecord)} (member : entry ∈ stack.numberSegments first segments) :
    stack.segmentPrefix <+: entry.1 := by
  obtain ⟨index, _, key⟩ := (stack.mem_numberSegments).mp member
  rw [key, createSegmentKey]
  exact List.prefix_append _ _

/-- A step that keeps the segments and the count of segments keeps the log. -/
theorem Logged.congr (logged : Logged raw stack log) {db : Database} {state : UndoState}
    (sameNext : state.nextUndoSegment = stack.state.nextUndoSegment)
    (sameSum : state.undoStack.sum = stack.state.undoStack.sum)
    (sameSegments : ∀ key, stack.segmentPrefix <+: key → db.get key = stack.db.get key) :
    Logged raw { stack with db, state } log :=
  have sameNumbers : ({ stack with db, state } : UndoStack).numberSegments = stack.numberSegments :=
    stack.numberSegments_eq_of_undoPrefix rfl
  { length_eq := by dsimp only; rw [sameSum]; exact logged.length_eq
    length_le := by dsimp only; rw [sameNext]; exact logged.length_le
    numbered := by dsimp only; rw [sameNext]; exact logged.numbered
    stored := by
      intro entry member
      dsimp only at member ⊢
      rw [sameNumbers, sameNext] at member
      rw [sameSegments _ (segmentPrefix_prefix_of_mem_numberSegments member)]
      exact logged.stored entry member
    onlySegments := by
      intro key value isSegment stored
      dsimp only at stored ⊢
      rw [sameSegments key isSegment] at stored
      rw [sameNumbers, sameNext]
      exact logged.onlySegments key value isSegment stored
    encoded := logged.encoded
    recordKeys := logged.recordKeys }

/-- **Range deletes of the oldest segments.** Deleting the segments below the first one kept and
writing the state forgets the oldest `dropped` segments of the log. -/
theorem Logged.deleteBelow (logged : Logged raw stack log) {dropped : Nat}
    (fewer : dropped ≤ log.length) {state : UndoState}
    (sameNext : state.nextUndoSegment = stack.state.nextUndoSegment)
    (remaining : state.undoStack.sum = stack.state.undoStack.sum - dropped) {keep : Nat}
    (keep_eq : keep = stack.state.nextUndoSegment - (log.length - dropped)) :
    Logged raw { stack with
      state
      db := write stack.db [.deleteRange (stack.createSegmentKey 0) (stack.createSegmentKey keep),
        stack.writeState raw state] } (log.drop dropped) := by
  have sameNumbers : ({ stack with state, db := write stack.db [.deleteRange
      (stack.createSegmentKey 0) (stack.createSegmentKey keep), stack.writeState raw state] } :
      UndoStack).numberSegments = stack.numberSegments :=
    stack.numberSegments_eq_of_undoPrefix rfl
  have bounds := logged.length_le
  have fits := logged.numbered
  -- the segments kept are the later part of the numbered log
  have split := stack.numberSegments_take_drop (stack.state.nextUndoSegment - log.length) dropped
    fewer
  have firstKept : stack.state.nextUndoSegment - log.length + dropped = keep := by omega
  rw [firstKept] at split
  have kept : ∀ entry ∈ stack.numberSegments keep (log.drop dropped),
      ¬ InRange (stack.createSegmentKey 0) (stack.createSegmentKey keep) entry.1 := by
    intro entry member
    obtain ⟨index, found, key⟩ := (stack.mem_numberSegments).mp member
    have inside : index < (log.drop dropped).length := (List.getElem?_eq_some_iff.mp found).1
    rw [List.length_drop] at inside
    rw [key, stack.inRange_createSegmentKey_zero_iff (by omega) (by omega)]
    omega
  constructor
  · rw [List.length_drop, logged.length_eq]
    exact remaining.symm
  · rw [List.length_drop, sameNext]
    omega
  · rw [sameNext]
    exact fits
  · intro entry member
    dsimp only at member ⊢
    rw [sameNumbers, List.length_drop, sameNext, ← keep_eq] at member
    rw [stack.get_write_deleteRange_of_segment (segmentPrefix_prefix_of_mem_numberSegments member),
      if_neg (kept entry member)]
    exact logged.stored entry (split ▸ List.mem_append_right _ member)
  · intro key value isSegment stored
    dsimp only at stored ⊢
    rw [stack.get_write_deleteRange_of_segment isSegment] at stored
    split at stored
    · cases stored
    · next notDeleted =>
      rw [sameNumbers, List.length_drop, sameNext, ← keep_eq]
      obtain ⟨entry, member, rfl⟩ := logged.onlySegments _ value isSegment stored
      rw [split, List.mem_append] at member
      rcases member with older | newer
      · -- a segment older than the ones kept was deleted
        obtain ⟨index, found, key⟩ := (stack.mem_numberSegments).mp older
        have inside : index < (log.take dropped).length := (List.getElem?_eq_some_iff.mp found).1
        rw [List.length_take] at inside
        rw [key, stack.inRange_createSegmentKey_zero_iff (by omega) (by omega)] at notDeleted
        omega
      · exact ⟨entry, newer, rfl⟩
  · exact fun segment member => logged.encoded segment (List.mem_of_mem_drop member)
  · exact fun segment member => logged.recordKeys segment (List.mem_of_mem_drop member)

end Logged

/-! ### Undo -/

/-- The batch the loop of `undo` builds from segments read back, newest first: for each, the
restores of its records and the delete of its key. -/
def undoOps (entries : List (Bytes × Bytes × List UndoRecord)) : List BatchOp :=
  entries.flatMap fun entry => entry.2.2.map UndoRecord.restore ++ [.delete entry.1]

/-- The loop of `undo` reads back every segment it visits. -/
theorem undoBatch_eq_ok {raw : FcRaw} (laws : raw.RoundTrips)
    {entries : List (Bytes × Bytes × List UndoRecord)}
    (encoded : ∀ entry ∈ entries, Encodes raw entry.2.1 entry.2.2) :
    undoBatch raw (entries.map fun entry => (entry.1, entry.2.1)) = .ok (undoOps entries) := by
  induction entries with
  | nil => rfl
  | cons entry entries inductionHypothesis =>
    rw [List.map_cons, undoBatch,
      readUndoRecords_of_encodes laws (encoded entry List.mem_cons_self) (Nat.le_refl _),
      inductionHypothesis fun other member => encoded other (List.mem_cons_of_mem _ member)]
    rfl

theorem underPrefix_restore (undoPrefix : Bytes) (record : UndoRecord) :
    record.restore.underPrefix undoPrefix = undoPrefix.isPrefixOf record.key := by
  unfold UndoRecord.restore
  cases record.oldValue <;> rfl

section UndoOps

variable {undoPrefix : Bytes} {entries : List (Bytes × Bytes × List UndoRecord)}

theorem not_deleteRange_of_mem_undoOps {op : BatchOp} (member : op ∈ undoOps entries)
    (first last : Bytes) : op ≠ .deleteRange first last := by
  obtain ⟨entry, _, inEntry⟩ := List.mem_flatMap.mp member
  rcases List.mem_append.mp inEntry with restore | delete
  · obtain ⟨record, _, rfl⟩ := List.mem_map.mp restore
    unfold UndoRecord.restore
    cases record.oldValue <;> exact fun same => nomatch same
  · rw [List.mem_singleton] at delete
    exact delete ▸ fun same => nomatch same

/-- Outside the undo prefix, the batch of `undo` is the restores of the records. -/
theorem filter_undoOps_outside (segmentKeys : ∀ entry ∈ entries, undoPrefix <+: entry.1)
    (recordKeys : ∀ entry ∈ entries, ∀ record ∈ entry.2.2, ¬ undoPrefix <+: record.key) :
    (undoOps entries).filter (fun op => !op.underPrefix undoPrefix) =
      (entries.flatMap fun entry => entry.2.2).map UndoRecord.restore := by
  rw [undoOps, List.filter_flatMap, List.map_flatMap]
  refine List.flatMap_congr fun entry member => ?_
  rw [List.filter_append, List.filter_eq_self.mpr, List.filter_singleton]
  · have isPrefix : undoPrefix.isPrefixOf entry.1 = true :=
      List.isPrefixOf_iff_prefix.mpr (segmentKeys entry member)
    simp [BatchOp.underPrefix, isPrefix]
  · intro op inRestores
    obtain ⟨record, inRecords, rfl⟩ := List.mem_map.mp inRestores
    rw [underPrefix_restore, Bool.not_eq_true', ← Bool.not_eq_true, List.isPrefixOf_iff_prefix]
    exact recordKeys entry member record inRecords

/-- Under the undo prefix, the batch of `undo` is the deletes of the segments. -/
theorem filter_undoOps_inside (segmentKeys : ∀ entry ∈ entries, undoPrefix <+: entry.1)
    (recordKeys : ∀ entry ∈ entries, ∀ record ∈ entry.2.2, ¬ undoPrefix <+: record.key) :
    (undoOps entries).filter (·.underPrefix undoPrefix) =
      (entries.map fun entry => entry.1).map .delete := by
  rw [undoOps, List.filter_flatMap, List.map_map, List.map_eq_flatMap]
  refine List.flatMap_congr fun entry member => ?_
  rw [List.filter_append, List.filter_eq_nil_iff.mpr, List.filter_singleton, List.nil_append]
  · have isPrefix : undoPrefix.isPrefixOf entry.1 = true :=
      List.isPrefixOf_iff_prefix.mpr (segmentKeys entry member)
    simp [BatchOp.underPrefix, isPrefix]
  · intro op inRestores
    obtain ⟨record, inRecords, rfl⟩ := List.mem_map.mp inRestores
    rw [underPrefix_restore, Bool.not_eq_true, ← Bool.not_eq_true, List.isPrefixOf_iff_prefix]
    exact recordKeys entry member record inRecords

end UndoOps

/-- Restores of keys outside the undo prefix replay their records on the contents outside it. -/
theorem outside_write_restores {undoPrefix : Bytes} {records : List UndoRecord}
    (recordKeys : ∀ record ∈ records, ¬ undoPrefix <+: record.key) (db : Database) :
    outside undoPrefix (write db (records.map UndoRecord.restore)) =
      replay (restores records) (outside undoPrefix db) := by
  funext key
  by_cases insideKey : undoPrefix <+: key
  · rw [outside_eq_none _ insideKey, replay_of_not_mem, outside_eq_none _ insideKey]
    intro restore member same
    obtain ⟨record, inRecords, rfl⟩ := List.mem_map.mp member
    have named : record.key = key := same
    exact recordKeys record inRecords (named ▸ insideKey)
  · rw [outside_eq_get _ insideKey, get_write_restores]
    exact replay_congr (outside_eq_get _ insideKey).symm


section UndoEffects

variable {raw : FcRaw} (stack : UndoStack) {entries : List (Bytes × Bytes × List UndoRecord)}

/-- Under the segment prefix, the batch of `undo` deletes the segments it visited. -/
theorem get_write_undoOps_of_segment {state : UndoState}
    (segmentKeys : ∀ entry ∈ entries, stack.undoPrefix <+: entry.1)
    (recordKeys : ∀ entry ∈ entries, ∀ record ∈ entry.2.2, ¬ stack.undoPrefix <+: record.key)
    {key : Bytes} (isSegment : stack.segmentPrefix <+: key) (db : Database) :
    (write db (undoOps entries ++ [stack.writeState raw state])).get key =
      if key ∈ entries.map Prod.fst then none else db.get key := by
  have noRanges : ∀ op ∈ undoOps entries ++ [stack.writeState raw state],
      ∀ first last, op ≠ .deleteRange first last := by
    intro op member first last
    rcases List.mem_append.mp member with batch | state
    · exact not_deleteRange_of_mem_undoOps batch first last
    · rw [List.mem_singleton] at state
      exact state ▸ fun same => nomatch same
  rw [← get_write_filter_underPrefix ((List.prefix_append _ _).trans isSegment) noRanges,
    List.filter_append, filter_undoOps_inside segmentKeys recordKeys, List.filter_singleton,
    stack.underPrefix_writeState, cond_true, write_append,
    stack.get_write_writeState_of_segment isSegment, get_write_deletes]

/-- Outside the undo prefix, the batch of `undo` replays the records it read. -/
theorem outside_write_undoOps {state : UndoState}
    (segmentKeys : ∀ entry ∈ entries, stack.undoPrefix <+: entry.1)
    (recordKeys : ∀ entry ∈ entries, ∀ record ∈ entry.2.2, ¬ stack.undoPrefix <+: record.key)
    (db : Database) :
    outside stack.undoPrefix (write db (undoOps entries ++ [stack.writeState raw state])) =
      replay (restores (entries.flatMap fun entry => entry.2.2)) (outside stack.undoPrefix db) := by
  have allRecordKeys : ∀ record ∈ entries.flatMap (fun entry => entry.2.2),
      ¬ stack.undoPrefix <+: record.key := by
    intro record member
    obtain ⟨entry, inEntries, inRecords⟩ := List.mem_flatMap.mp member
    exact recordKeys entry inEntries record inRecords
  rw [← outside_write_filter, List.filter_append, filter_undoOps_outside segmentKeys recordKeys,
    List.filter_singleton, stack.underPrefix_writeState, Bool.not_true, cond_false,
    List.append_nil, outside_write_restores allRecordKeys]

end UndoEffects

section Logged

variable {raw : FcRaw} {stack : UndoStack} {log : List (Bytes × List UndoRecord)}

/-- The log splits into the segments below the top revision and those of the top revision. -/
theorem Logged.numberSegments_eq_top (logged : Logged raw stack log) {top : Nat}
    (topFits : top ≤ log.length) :
    stack.numberSegments (stack.state.nextUndoSegment - log.length) log =
      stack.numberSegments (stack.state.nextUndoSegment - log.length) (log.take (log.length - top)) ++
        stack.topSegments log top := by
  have bounds := logged.length_le
  rw [stack.numberSegments_take_drop _ (log.length - top) (Nat.sub_le _ _), topSegments]
  congr 2
  omega

theorem key_of_mem_topSegments {top : Nat}
    {entry : Bytes × Bytes × List UndoRecord} (member : entry ∈ stack.topSegments log top) :
    ∃ index < top, entry.1 = stack.createSegmentKey (stack.state.nextUndoSegment - top + index) := by
  obtain ⟨index, found, key⟩ := (stack.mem_numberSegments).mp member
  have inside : index < (log.drop (log.length - top)).length :=
    (List.getElem?_eq_some_iff.mp found).1
  rw [List.length_drop] at inside
  exact ⟨index, by omega, key⟩

/-- **What `undo` visits.** With the sentinel in place, the iterator of `undo` visits the segments
of the top revision, newest first, and nothing else. -/
theorem Logged.undoSegments_eq (logged : Logged raw stack log) (valid : ValidPrefix stack.undoPrefix)
    (sentinel : stack.db.get [0xff] ≠ none) {top : Nat} (topFits : top ≤ log.length) :
    stack.undoSegments (stack.createSegmentKey (stack.state.nextUndoSegment - top)) =
      ((stack.topSegments log top).map fun entry => (entry.1, entry.2.1)).reverse := by
  have hasKey : stack.db.hasKeyFrom stack.segmentNextPrefix = true := by
    obtain ⟨value, stored⟩ := Option.ne_none_iff_exists'.mp sentinel
    exact hasKeyFrom_of_get stored (stack.not_sentinel_lt_segmentNextPrefix valid)
  have bounds := logged.length_le
  have fits := logged.numbered
  have split := logged.numberSegments_eq_top topFits
  rw [undoSegments, if_pos hasKey]
  congr 1
  refine eq_of_mem_iff (sorted_between _ _ _) ?_ fun entry => ?_
  · rw [List.pairwise_map]
    exact stack.sorted_numberSegments (by rw [List.length_drop]; omega)
  rw [mem_between, List.mem_map]
  constructor
  · rintro ⟨stored, inside⟩
    obtain ⟨found, member, same⟩ := logged.onlySegments entry.1 entry.2
      (stack.segmentPrefix_prefix_of_inRange inside) stored
    rw [split, List.mem_append] at member
    rcases member with older | newer
    · -- a segment below the top revision lies before the range `undo` visits
      obtain ⟨index, inLog, key⟩ := (stack.mem_numberSegments).mp older
      have below : index < (log.take (log.length - top)).length :=
        (List.getElem?_eq_some_iff.mp inLog).1
      rw [List.length_take] at below
      rw [← same, key, stack.inRange_createSegmentKey_iff (by omega) (by omega)] at inside
      omega
    · have storedFound := logged.stored found (split ▸ List.mem_append_right _ newer)
      rw [same, stored, Option.some.injEq] at storedFound
      exact ⟨found, newer, Prod.ext same storedFound.symm⟩
  · rintro ⟨found, member, rfl⟩
    refine ⟨logged.stored found (split ▸ List.mem_append_right _ member), ?_⟩
    obtain ⟨index, below, key⟩ := key_of_mem_topSegments member
    dsimp only
    rw [key, stack.inRange_createSegmentKey_iff (by omega) (by omega)]
    omega

/-- **Undo of the top revision's segments.** A database that lost exactly the segments of the
top revision, with a state that counts them off, holds the rest of the log. -/
theorem Logged.removeTop (logged : Logged raw stack log) {top : Nat} (topFits : top ≤ log.length)
    {db : Database} {state : UndoState}
    (next_eq : state.nextUndoSegment = stack.state.nextUndoSegment - top)
    (sum_eq : state.undoStack.sum = stack.state.undoStack.sum - top)
    (segmentsAfter : ∀ key, stack.segmentPrefix <+: key →
      db.get key = if key ∈ (stack.topSegments log top).map Prod.fst then none else stack.db.get key) :
    Logged raw { stack with db, state } (log.take (log.length - top)) := by
  have sameNumbers : ({ stack with db, state } : UndoStack).numberSegments = stack.numberSegments :=
    stack.numberSegments_eq_of_undoPrefix rfl
  have bounds := logged.length_le
  have fits := logged.numbered
  have split := logged.numberSegments_eq_top topFits
  have sameFirst : state.nextUndoSegment - (log.take (log.length - top)).length =
      stack.state.nextUndoSegment - log.length := by
    rw [List.length_take, next_eq]
    omega
  -- a segment below the top revision is not one of the top revision
  have notTop : ∀ entry ∈ stack.numberSegments (stack.state.nextUndoSegment - log.length)
      (log.take (log.length - top)), entry.1 ∉ (stack.topSegments log top).map Prod.fst := by
    intro entry member inTop
    obtain ⟨index, inLog, key⟩ := (stack.mem_numberSegments).mp member
    have below : index < (log.take (log.length - top)).length :=
      (List.getElem?_eq_some_iff.mp inLog).1
    rw [List.length_take] at below
    obtain ⟨other, otherMember, same⟩ := List.mem_map.mp inTop
    obtain ⟨otherIndex, otherBelow, otherKey⟩ := key_of_mem_topSegments otherMember
    rw [otherKey, key] at same
    have := stack.createSegmentKey_injective (by omega) (by omega) same
    omega
  constructor
  · dsimp only
    rw [List.length_take, sum_eq, ← logged.length_eq]
    omega
  · dsimp only
    rw [List.length_take, next_eq]
    omega
  · dsimp only
    rw [next_eq]
    omega
  · intro entry member
    dsimp only at member ⊢
    rw [sameNumbers, sameFirst] at member
    rw [segmentsAfter _ (segmentPrefix_prefix_of_mem_numberSegments member),
      if_neg (notTop entry member)]
    exact logged.stored entry (split ▸ List.mem_append_left _ member)
  · intro key value isSegment stored
    dsimp only at stored ⊢
    rw [segmentsAfter key isSegment] at stored
    split at stored
    · cases stored
    · next notInTop =>
      rw [sameNumbers, sameFirst]
      obtain ⟨entry, member, rfl⟩ := logged.onlySegments _ value isSegment stored
      rw [split, List.mem_append] at member
      rcases member with older | newer
      · exact ⟨entry, older, rfl⟩
      · exact absurd (List.mem_map_of_mem newer) notInTop
  · exact fun segment member => logged.encoded segment (List.mem_of_mem_take member)
  · exact fun segment member => logged.recordKeys segment (List.mem_of_mem_take member)

/-- **`undo` under the log.** With readers that read back what the writers wrote, the sentinel
in place and a revision open, `undo` succeeds: it counts off the segments of the top revision,
drops them from the log, replays their records on the contents outside the prefix, and keeps the
sentinel. -/
theorem Logged.undo_eq_ok (laws : raw.RoundTrips) (logged : Logged raw stack log)
    (valid : ValidPrefix stack.undoPrefix) (sentinel : stack.db.get [0xff] ≠ none) {top : Nat}
    (last : stack.state.undoStack.getLast? = some top) (writeNow : Bool) :
    ∃ undone, stack.undo raw writeNow = .ok undone ∧ undone.undoPrefix = stack.undoPrefix ∧
      undone.state = { stack.state with
        nextUndoSegment := stack.state.nextUndoSegment - top
        undoStack := stack.state.undoStack.dropLast
        revision := stack.state.revision - 1 } ∧
      Logged raw undone (log.take (log.length - top)) ∧
      outside undone.undoPrefix undone.db =
        replay (undoLog (log.drop (log.length - top))) (outside stack.undoPrefix stack.db) ∧
      undone.db.get [0xff] = stack.db.get [0xff] := by
  have topFits : top ≤ log.length := logged.length_eq ▸ le_sum_of_getLast? last
  obtain ⟨entries, entries_eq⟩ : ∃ entries, entries = (stack.topSegments log top).reverse :=
    ⟨_, rfl⟩
  have inLog : ∀ entry ∈ entries, entry.2 ∈ log := by
    intro entry member
    rw [entries_eq, List.mem_reverse] at member
    obtain ⟨index, found, _⟩ := (stack.mem_numberSegments).mp member
    exact List.mem_of_mem_drop (List.mem_of_getElem? found)
  have segmentKeys : ∀ entry ∈ entries, stack.undoPrefix <+: entry.1 := by
    intro entry member
    rw [entries_eq, List.mem_reverse] at member
    exact (List.prefix_append _ _).trans (segmentPrefix_prefix_of_mem_numberSegments member)
  have recordKeys : ∀ entry ∈ entries, ∀ record ∈ entry.2.2, ¬ stack.undoPrefix <+: record.key :=
    fun entry member record inRecords => (logged.recordKeys _ (inLog entry member) record inRecords).1
  have replayed : undoLog (log.drop (log.length - top)) =
      restores (entries.flatMap fun entry => entry.2.2) := by
    rw [undoLog, entries_eq, ← List.flatMap_map Prod.snd Prod.snd, List.map_reverse, topSegments,
      map_snd_numberSegments]
  have computed : stack.undo raw writeNow = .ok { stack with
      state := { stack.state with
        nextUndoSegment := stack.state.nextUndoSegment - top
        undoStack := stack.state.undoStack.dropLast
        revision := stack.state.revision - 1 }
      db := if writeNow || !(entries.map fun entry => (entry.1, entry.2.1)).isEmpty then
          write stack.db (undoOps entries ++ [stack.writeState raw { stack.state with
            nextUndoSegment := stack.state.nextUndoSegment - top
            undoStack := stack.state.undoStack.dropLast
            revision := stack.state.revision - 1 }])
        else stack.db } := by
    unfold UndoStack.undo
    rw [last]
    dsimp only
    rw [logged.undoSegments_eq valid sentinel topFits, ← List.map_reverse, ← entries_eq,
      undoBatch_eq_ok laws fun entry member => logged.encoded _ (inLog entry member)]
    rfl
  refine ⟨_, computed, rfl, rfl, ?_⟩
  have sumDropped := sum_dropLast_of_getLast? last
  split
  · -- the batch is written: the segments of the top revision are deleted, their records replayed
    refine ⟨logged.removeTop topFits rfl sumDropped fun key isSegment => ?_, ?_, ?_⟩
    · rw [get_write_undoOps_of_segment stack segmentKeys recordKeys isSegment, entries_eq,
        List.map_reverse]
      simp only [List.mem_reverse]
    · rw [replayed]
      exact outside_write_undoOps stack segmentKeys recordKeys stack.db
    · have notInside := stack.not_undoPrefix_prefix_sentinel valid
      rw [← outside_eq_get _ notInside, ← outside_eq_get _ notInside]
      dsimp only
      rw [outside_write_undoOps stack segmentKeys recordKeys, replay_of_not_mem]
      intro restore member same
      obtain ⟨record, inRecords, rfl⟩ := List.mem_map.mp member
      obtain ⟨entry, inEntries, inEntry⟩ := List.mem_flatMap.mp inRecords
      exact (logged.recordKeys _ (inLog entry inEntries) record inEntry).2 same
  · -- nothing is visited and nothing is written
    next unwritten =>
    have noEntries : entries = [] := by
      simp only [Bool.or_eq_true, Bool.not_eq_true', not_or, List.isEmpty_map,
        Bool.not_eq_false, List.isEmpty_iff] at unwritten
      exact unwritten.2
    have noTop : (stack.topSegments log top).map Prod.fst = [] := by
      rw [List.map_eq_nil_iff, ← List.reverse_eq_nil_iff, ← entries_eq, noEntries]
    refine ⟨logged.removeTop topFits rfl sumDropped fun key _ => ?_, ?_, rfl⟩
    · rw [noTop, if_neg List.not_mem_nil]
    · rw [replayed, noEntries]
      rfl

end Logged

end B1.ChainKv
