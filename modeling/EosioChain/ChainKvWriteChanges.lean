/-
This file proves what `write_changes` of `chain_kv.hpp` writes. Its loop goes through the change
list once: every changed entry becomes a put or a delete in the batch, and while a revision is
open, its undo record goes into the segment being filled, which is closed into the batch, under
the next segment number, when the next record would take it past the target size. The invariant
of the loop, `Filled`, says what the batch holds once the loop has passed some entries: outside
the undo prefix the writes of the changed entries, under it the puts of the closed segments; and
that the closed segments and the one being filled pack the records of the changed entries. From
it, a successful `write_changes` extends the log of segments by the closed segments, whose
records put every changed key back to the value it had.
-/

import EosioChain.ChainKvUndoLog
import EosioChain.Transition

namespace B1.ChainKv

open ByteKeys SortedMap Revisions UndoStack

namespace UndoStack.ChangeEntry

theorem underPrefix_op (undoPrefix : Bytes) (entry : ChangeEntry) :
    entry.op.underPrefix undoPrefix = undoPrefix.isPrefixOf entry.key := by
  unfold op
  cases entry.currentValue <;> rfl

end UndoStack.ChangeEntry

/-! ### One pass of the loop -/

namespace UndoStack

variable (stack : UndoStack) {raw : FcRaw}

/-- **The cases of one pass.** An unchanged entry is skipped; a changed one is written, and with a
revision open its packed record goes into the segment. -/
theorem writeChange_eq_ok {buffers next : WriteBuffers} {entry : ChangeEntry}
    (passed : stack.writeChange raw buffers entry = .ok next) :
    (entry.changed = false ∧ next = buffers) ∨
      (entry.changed = true ∧ buffers.state.undoStack = [] ∧
        next = { buffers with batch := buffers.batch ++ [entry.op] }) ∨
      (entry.changed = true ∧ buffers.state.undoStack ≠ [] ∧ ∃ packed,
        packUndoSegment raw entry.key entry.origValue entry.currentValue = .ok packed ∧
        next = stack.appendSegment { buffers with batch := buffers.batch ++ [entry.op] } packed) := by
  unfold writeChange at passed
  by_cases same : entry.origValue = entry.currentValue
  · rw [if_pos same] at passed
    exact Or.inl ⟨by simp [ChangeEntry.changed, same], (Except.ok.inj passed).symm⟩
  · rw [if_neg same] at passed
    have changed : entry.changed = true := by simp [ChangeEntry.changed, same]
    dsimp only at passed
    by_cases empty : buffers.state.undoStack = []
    · rw [if_pos (by rw [empty]; rfl)] at passed
      exact Or.inr (Or.inl ⟨changed, empty, (Except.ok.inj passed).symm⟩)
    · rw [if_neg (by rwa [List.isEmpty_iff])] at passed
      obtain ⟨packed, packs, appended⟩ := Transition.bind_eq_ok.mp passed
      exact Or.inr (Or.inr ⟨changed, empty, packed, packs, (Except.ok.inj appended).symm⟩)

end UndoStack

/-! ### The invariant of the loop -/

/-- **What the loop of `write_changes` has built.** After writing the entries `written` and
recording the entries `recorded`, the batch holds outside the undo prefix the writes of the
changed entries written, and under it the puts of the segments `closed`, numbered from the next
segment; the state counts the closed segments; the closed segments and the segment being filled
pack the records of the changed entries recorded, while a revision is open, and nothing while
none is. -/
structure Filled (raw : FcRaw) (stack : UndoStack) (written recorded : List ChangeEntry)
    (buffers : WriteBuffers) (closed : List (Bytes × List UndoRecord)) (records : List UndoRecord) :
    Prop where
  state_eq : buffers.state = { stack.state with
    nextUndoSegment := stack.state.nextUndoSegment + closed.length
    undoStack := addToBack stack.state.undoStack closed.length }
  writes : buffers.batch.filter (fun op => !op.underPrefix stack.undoPrefix) =
    (written.filter (·.changed)).map (·.op)
  segmentPuts : buffers.batch.filter (·.underPrefix stack.undoPrefix) =
    (stack.numberSegments stack.state.nextUndoSegment closed).map fun entry => .put entry.1 entry.2.1
  encoded : ∀ segment ∈ closed, Encodes raw segment.1 segment.2
  filling : Encodes raw buffers.segment records
  recordsOf : closed.flatMap Prod.snd ++ records =
    if stack.state.undoStack = [] then [] else (recorded.filter (·.changed)).map (·.record)
  noRevision : stack.state.undoStack = [] → closed = [] ∧ buffers.segment = []

section Filled

variable {raw : FcRaw} {stack : UndoStack} {written recorded : List ChangeEntry}
  {buffers : WriteBuffers} {closed : List (Bytes × List UndoRecord)} {records : List UndoRecord}

theorem filled_start (raw : FcRaw) (stack : UndoStack) :
    Filled raw stack [] [] ⟨[], [], stack.state⟩ [] [] where
  state_eq := by rw [List.length_nil, Nat.add_zero, addToBack_zero]
  writes := rfl
  segmentPuts := rfl
  encoded := fun _ member => nomatch member
  filling := encodes_nil raw
  recordsOf := by split <;> rfl
  noRevision := fun _ => ⟨rfl, rfl⟩

/-- An unchanged entry is neither written nor recorded. -/
theorem Filled.skip (filled : Filled raw stack written recorded buffers closed records)
    {entry : ChangeEntry} (unchanged : entry.changed = false) :
    Filled raw stack (written ++ [entry]) (recorded ++ [entry]) buffers closed records := by
  have dropped : ∀ entries : List ChangeEntry,
      (entries ++ [entry]).filter (·.changed) = entries.filter (·.changed) := by
    intro entries
    rw [List.filter_append, List.filter_singleton, unchanged, cond_false, List.append_nil]
  exact { filled with
    writes := by rw [dropped]; exact filled.writes
    recordsOf := by rw [dropped]; exact filled.recordsOf }

/-- A changed entry outside the undo prefix is written to the batch. -/
theorem Filled.write (filled : Filled raw stack written recorded buffers closed records)
    {entry : ChangeEntry} (changed : entry.changed = true)
    (outsideKey : ¬ stack.undoPrefix <+: entry.key) :
    Filled raw stack (written ++ [entry]) recorded
      { buffers with batch := buffers.batch ++ [entry.op] } closed records := by
  have notUnder : entry.op.underPrefix stack.undoPrefix = false := by
    rw [ChangeEntry.underPrefix_op, ← Bool.not_eq_true, List.isPrefixOf_iff_prefix]
    exact outsideKey
  exact { filled with
    writes := by
      rw [List.filter_append, filled.writes, List.filter_singleton, notUnder, Bool.not_false,
        cond_true, List.filter_append, List.filter_singleton, changed, cond_true, List.map_append,
        List.map_singleton]
    segmentPuts := by
      rw [List.filter_append, filled.segmentPuts, List.filter_singleton, notUnder, cond_false,
        List.append_nil] }

/-- With no revision open, an entry leaves no record. -/
theorem Filled.unrecorded (filled : Filled raw stack written recorded buffers closed records)
    (noRevision : stack.state.undoStack = []) (entry : ChangeEntry) :
    Filled raw stack written (recorded ++ [entry]) buffers closed records :=
  { filled with recordsOf := by rw [if_pos noRevision]; simpa [noRevision] using filled.recordsOf }

/-- With a revision open, the record of a changed entry goes into the segment being filled. -/
theorem Filled.record (filled : Filled raw stack written recorded buffers closed records)
    (opened : stack.state.undoStack ≠ []) {entry : ChangeEntry} (changed : entry.changed = true)
    {packed : Bytes}
    (packs : packUndoSegment raw entry.key entry.origValue entry.currentValue = .ok packed) :
    Filled raw stack written (recorded ++ [entry])
      { buffers with segment := buffers.segment ++ packed } closed (records ++ [entry.record]) :=
  { filled with
    filling := filled.filling.append packs
    recordsOf := by
      rw [← List.append_assoc, filled.recordsOf, if_neg opened, if_neg opened, List.filter_append,
        List.filter_singleton, changed, cond_true, List.map_append, List.map_singleton]
    noRevision := fun noRevision => absurd noRevision opened }

/-- **Closing the segment.** `write_segment` puts a non-empty segment under the next segment
number and counts it in the top revision; the records it held move to the closed segments. -/
theorem Filled.writeSegment (laws : raw.RoundTrips)
    (filled : Filled raw stack written recorded buffers closed records) :
    ∃ closed', Filled raw stack written recorded (stack.writeSegment buffers) closed' [] := by
  unfold UndoStack.writeSegment
  split
  · next empty =>
    rw [List.isEmpty_iff] at empty
    have noRecords : records = [] := (empty ▸ filled.filling).eq_nil laws
    exact ⟨closed, noRecords ▸ filled⟩
  · next nonEmpty =>
    have opened : stack.state.undoStack ≠ [] := fun noRevision =>
      nonEmpty (by rw [(filled.noRevision noRevision).2]; rfl)
    have numbered : buffers.state.nextUndoSegment = stack.state.nextUndoSegment + closed.length := by
      rw [filled.state_eq]
    have isUnder : (BatchOp.put (stack.createSegmentKey buffers.state.nextUndoSegment)
        buffers.segment).underPrefix stack.undoPrefix = true :=
      List.isPrefixOf_iff_prefix.mpr (stack.undoPrefix_prefix_createSegmentKey _)
    refine ⟨closed ++ [(buffers.segment, records)], ?_, ?_, ?_, ?_, encodes_nil raw, ?_,
      fun noRevision => absurd noRevision opened⟩
    · rw [filled.state_eq]
      dsimp only
      rw [addToBack_addToBack, List.length_append, List.length_singleton, Nat.add_assoc]
    · rw [List.filter_append, filled.writes, List.filter_singleton, isUnder, Bool.not_true,
        cond_false, List.append_nil]
    · rw [List.filter_append, filled.segmentPuts, List.filter_singleton, isUnder, cond_true,
        numberSegments_append, List.map_append, numbered]
      rfl
    · intro segment member
      rcases List.mem_append.mp member with old | new
      · exact filled.encoded segment old
      · rw [List.mem_singleton] at new
        exact new ▸ filled.filling
    · rw [List.flatMap_append, List.flatMap_singleton, List.append_nil]
      exact filled.recordsOf
/-- **One pass keeps the invariant.** -/
theorem Filled.writeChange (laws : raw.RoundTrips) {done : List ChangeEntry}
    (filled : Filled raw stack done done buffers closed records) {entry : ChangeEntry}
    (outsideKey : ¬ stack.undoPrefix <+: entry.key) {next : WriteBuffers}
    (passed : stack.writeChange raw buffers entry = .ok next) :
    ∃ closed' records', Filled raw stack (done ++ [entry]) (done ++ [entry]) next closed' records' := by
  have revisionOpen : buffers.state.undoStack = [] ↔ stack.state.undoStack = [] := by
    rw [filled.state_eq]
    exact addToBack_eq_nil_iff
  rcases stack.writeChange_eq_ok passed with
    ⟨unchanged, rfl⟩ | ⟨changed, noRevision, rfl⟩ | ⟨changed, opened, packed, packs, rfl⟩
  · exact ⟨closed, records, filled.skip unchanged⟩
  · exact ⟨closed, records,
      (filled.write changed outsideKey).unrecorded (revisionOpen.mp noRevision) entry⟩
  · -- the record goes into the segment, after the segment is closed if it would grow too big
    have stackOpened : stack.state.undoStack ≠ [] := fun noRevision =>
      opened (revisionOpen.mpr noRevision)
    have writtenFilled := filled.write changed outsideKey
    unfold UndoStack.appendSegment
    dsimp only
    split
    · obtain ⟨closed', closedFilled⟩ := writtenFilled.writeSegment laws
      exact ⟨closed', [] ++ [entry.record], closedFilled.record stackOpened changed packs⟩
    · exact ⟨closed, records ++ [entry.record], writtenFilled.record stackOpened changed packs⟩

/-- **The loop keeps the invariant**, over the entries left to pass. -/
theorem Filled.foldlM (laws : raw.RoundTrips) :
    ∀ {rest done : List ChangeEntry} {buffers result : WriteBuffers}
      {closed : List (Bytes × List UndoRecord)} {records : List UndoRecord},
      Filled raw stack done done buffers closed records →
      (∀ entry ∈ rest, ¬ stack.undoPrefix <+: entry.key) →
      rest.foldlM (stack.writeChange raw) buffers = .ok result →
      ∃ closed' records', Filled raw stack (done ++ rest) (done ++ rest) result closed' records'
  | [], done, buffers, result, closed, records, filled, _, looped => by
    rw [List.foldlM_nil] at looped
    cases looped
    exact ⟨closed, records, by rw [List.append_nil]; exact filled⟩
  | entry :: rest, done, buffers, result, closed, records, filled, outsideKeys, looped => by
    rw [List.foldlM_cons] at looped
    obtain ⟨next, passed, remaining⟩ := Transition.bind_eq_ok.mp looped
    obtain ⟨closed', records', nextFilled⟩ :=
      filled.writeChange laws (outsideKeys entry List.mem_cons_self) passed
    have restOutside : ∀ other ∈ rest, ¬ stack.undoPrefix <+: other.key :=
      fun other member => outsideKeys other (List.mem_cons_of_mem _ member)
    rw [← List.singleton_append, ← List.append_assoc]
    exact Filled.foldlM laws nextFilled restOutside remaining

end Filled

/-! ### What `write_changes` writes -/

section WriteChanges

variable {raw : FcRaw} (stack : UndoStack)

/-- **The result of a successful `write_changes`**: the batch and the state of the loop, with the
last segment closed, and the segments it closed. -/
theorem writeChanges_eq_ok (laws : raw.RoundTrips) {changeList : List ChangeEntry}
    (outsideKeys : ∀ entry ∈ changeList, ¬ stack.undoPrefix <+: entry.key) {written : UndoStack}
    (succeeded : stack.writeChanges raw changeList = .ok written) :
    ∃ buffers closed, Filled raw stack changeList changeList buffers closed [] ∧
      written = { stack with
        state := buffers.state
        db := write stack.db (buffers.batch ++ [stack.writeState raw buffers.state]) } := by
  unfold UndoStack.writeChanges at succeeded
  obtain ⟨buffers, looped, closing⟩ := Transition.bind_eq_ok.mp succeeded
  obtain ⟨closed, records, filled⟩ := Filled.foldlM laws (filled_start raw stack) outsideKeys looped
  rw [List.nil_append] at filled
  obtain ⟨closed', closedFilled⟩ := filled.writeSegment laws
  exact ⟨_, closed', closedFilled, (Except.ok.inj closing).symm⟩

/-- The writes of a change list outside the undo prefix change the contents outside it as the
change list says. -/
theorem outside_write_changes {undoPrefix : Bytes} {changeList : List ChangeEntry}
    (outsideKeys : ∀ entry ∈ changeList, ¬ undoPrefix <+: entry.key) (db : Database) :
    outside undoPrefix (write db ((changeList.filter (·.changed)).map (·.op))) =
      applyChanges changeList (outside undoPrefix db) := by
  funext key
  by_cases insideKey : undoPrefix <+: key
  · rw [outside_eq_none _ insideKey, applyChanges_of_unchanged, outside_eq_none _ insideKey]
    intro entry member _ same
    exact outsideKeys entry member (same ▸ insideKey)
  · rw [outside_eq_get _ insideKey, get_write_changes]
    exact applyChanges_congr (outside_eq_get _ insideKey).symm

end WriteChanges

/-! ### The log after `write_changes` -/

section Logged

variable {raw : FcRaw} {stack : UndoStack} {log : List (Bytes × List UndoRecord)}

/-- The batch of the loop holds only puts and deletes. -/
theorem Filled.not_deleteRange {written recorded : List ChangeEntry} {buffers : WriteBuffers}
    {closed : List (Bytes × List UndoRecord)} {records : List UndoRecord}
    (filled : Filled raw stack written recorded buffers closed records) {op : BatchOp}
    (member : op ∈ buffers.batch) (first last : Bytes) : op ≠ .deleteRange first last := by
  by_cases under : op.underPrefix stack.undoPrefix = true
  · have inPuts := filled.segmentPuts ▸ List.mem_filter.mpr ⟨member, under⟩
    obtain ⟨entry, _, rfl⟩ := List.mem_map.mp inPuts
    exact fun same => nomatch same
  · have inWrites := filled.writes ▸ List.mem_filter.mpr ⟨member, by simpa using under⟩
    obtain ⟨entry, _, rfl⟩ := List.mem_map.mp inWrites
    unfold ChangeEntry.op
    cases entry.currentValue <;> exact fun same => nomatch same

/-- **`write_changes` under the log.** A successful `write_changes` of keys outside the undo prefix
other than the sentinel, whose segment numbers stay below `2 ^ 64`, adds the segments it closed
to the log; their records are those of the changed entries while a revision is open. It changes
the contents outside the prefix as the change list says and keeps the sentinel. -/
theorem Logged.writeChanges (laws : raw.RoundTrips) (logged : Logged raw stack log)
    (valid : ValidPrefix stack.undoPrefix) {changeList : List ChangeEntry}
    (keys : ∀ entry ∈ changeList, ¬ stack.undoPrefix <+: entry.key ∧ entry.key ≠ [0xff])
    {written : UndoStack} (succeeded : stack.writeChanges raw changeList = .ok written)
    (fits : written.state.nextUndoSegment < 2 ^ 64) :
    ∃ closed, Logged raw written (log ++ closed) ∧ written.undoPrefix = stack.undoPrefix ∧
      written.state = { stack.state with
        nextUndoSegment := stack.state.nextUndoSegment + closed.length
        undoStack := addToBack stack.state.undoStack closed.length } ∧
      outside written.undoPrefix written.db = applyChanges changeList (outside stack.undoPrefix stack.db) ∧
      written.db.get [0xff] = stack.db.get [0xff] ∧
      closed.flatMap Prod.snd =
        if stack.state.undoStack = [] then [] else (changeList.filter (·.changed)).map (·.record) := by
  obtain ⟨buffers, closed, filled, rfl⟩ :=
    writeChanges_eq_ok stack laws (fun entry member => (keys entry member).1) succeeded
  have recordsOf := filled.recordsOf
  rw [List.append_nil] at recordsOf
  dsimp only at fits
  -- outside the prefix only the writes of the changed entries count
  have outsideAfter : outside stack.undoPrefix
      (write stack.db (buffers.batch ++ [stack.writeState raw buffers.state])) =
        applyChanges changeList (outside stack.undoPrefix stack.db) := by
    rw [← outside_write_filter, List.filter_append, filled.writes, List.filter_singleton,
      stack.underPrefix_writeState, Bool.not_true, cond_false, List.append_nil,
      outside_write_changes fun entry member => (keys entry member).1]
  refine ⟨closed, ?_, rfl, filled.state_eq, outsideAfter, ?_, recordsOf⟩
  swap
  · -- the sentinel is not a key of the change list
    have notInside := stack.not_undoPrefix_prefix_sentinel valid
    rw [← outside_eq_get _ notInside, ← outside_eq_get _ notInside]
    dsimp only
    rw [outsideAfter, applyChanges_of_unchanged]
    exact fun entry member _ => (keys entry member).2
  have sameNumbers : ({ stack with
      state := buffers.state
      db := write stack.db (buffers.batch ++ [stack.writeState raw buffers.state]) } :
      UndoStack).numberSegments = stack.numberSegments :=
    stack.numberSegments_eq_of_undoPrefix rfl
  have nextAfter : buffers.state.nextUndoSegment = stack.state.nextUndoSegment + closed.length := by
    rw [filled.state_eq]
  have bounds := logged.length_le
  have lengthAfter : (log ++ closed).length = buffers.state.undoStack.sum := by
    rw [List.length_append, filled.state_eq, logged.length_eq]
    by_cases noRevision : stack.state.undoStack = []
    · rw [(filled.noRevision noRevision).1, noRevision]
      dsimp only
      rw [addToBack_nil]
      rfl
    · exact (sum_addToBack noRevision _).symm
  have sameFirst : buffers.state.nextUndoSegment - (log ++ closed).length =
      stack.state.nextUndoSegment - log.length := by
    rw [nextAfter, List.length_append]
    omega
  have split : stack.numberSegments (stack.state.nextUndoSegment - log.length) (log ++ closed) =
      stack.numberSegments (stack.state.nextUndoSegment - log.length) log ++
        stack.numberSegments stack.state.nextUndoSegment closed := by
    rw [numberSegments_append]
    congr 2
    omega
  -- under the segment prefix only the puts of the closed segments count
  obtain ⟨puts, puts_eq⟩ : ∃ puts : List (Bytes × Bytes), puts =
      (stack.numberSegments stack.state.nextUndoSegment closed).map fun entry => (entry.1, entry.2.1) :=
    ⟨_, rfl⟩
  have segmentsAfter : ∀ key, stack.segmentPrefix <+: key →
      (write stack.db (buffers.batch ++ [stack.writeState raw buffers.state])).get key =
        (write stack.db (puts.map fun put => .put put.1 put.2)).get key := by
    intro key isSegment
    have noRanges : ∀ op ∈ buffers.batch ++ [stack.writeState raw buffers.state],
        ∀ first last, op ≠ .deleteRange first last := by
      intro op member first last
      rcases List.mem_append.mp member with batch | state
      · exact filled.not_deleteRange batch first last
      · rw [List.mem_singleton] at state
        exact state ▸ fun same => nomatch same
    rw [← get_write_filter_underPrefix ((List.prefix_append _ _).trans isSegment) noRanges,
      List.filter_append, filled.segmentPuts, List.filter_singleton, stack.underPrefix_writeState,
      cond_true, write_append, stack.get_write_writeState_of_segment isSegment, puts_eq,
      List.map_map]
    rfl
  have distinct : (puts.map Prod.fst).Nodup := by
    rw [puts_eq, List.map_map, List.Nodup, List.pairwise_map]
    exact (stack.sorted_numberSegments (by rw [← nextAfter]; omega)).imp ne_of_irrefl
  have newKey : ∀ key, key ∈ puts.map Prod.fst →
      ∃ entry ∈ stack.numberSegments stack.state.nextUndoSegment closed, entry.1 = key := by
    intro key member
    rw [puts_eq, List.map_map] at member
    obtain ⟨entry, inClosed, same⟩ := List.mem_map.mp member
    exact ⟨entry, inClosed, same⟩
  -- an old segment is not one of the new ones
  have oldNotNew : ∀ entry ∈ stack.numberSegments (stack.state.nextUndoSegment - log.length) log,
      entry.1 ∉ puts.map Prod.fst := by
    intro entry member inNew
    obtain ⟨other, otherMember, same⟩ := newKey _ inNew
    obtain ⟨index, inLog, key⟩ := (stack.mem_numberSegments).mp member
    obtain ⟨otherIndex, inClosed, otherKey⟩ := (stack.mem_numberSegments).mp otherMember
    have below : index < log.length := (List.getElem?_eq_some_iff.mp inLog).1
    have otherBelow : otherIndex < closed.length := (List.getElem?_eq_some_iff.mp inClosed).1
    rw [key, otherKey] at same
    have := stack.createSegmentKey_injective (by omega) (by omega) same
    omega
  have untouchedByPuts : ∀ key, key ∉ puts.map Prod.fst →
      (write stack.db (puts.map fun put => .put put.1 put.2)).get key = stack.db.get key := by
    intro key notNew
    refine get_write_of_untouched fun op member => ?_
    obtain ⟨put, inPuts, rfl⟩ := List.mem_map.mp member
    have different : key ≠ put.1 := fun same => notNew (same ▸ List.mem_map_of_mem inPuts)
    simp [BatchOp.touches, different]
  constructor
  · exact lengthAfter
  · rw [List.length_append, nextAfter]
    omega
  · exact fits
  · intro entry member
    dsimp only at member ⊢
    rw [sameNumbers, sameFirst, split, List.mem_append] at member
    rw [segmentsAfter _ (segmentPrefix_prefix_of_mem_numberSegments
      (split ▸ (List.mem_append.mpr member)))]
    rcases member with old | new
    · rw [untouchedByPuts _ (oldNotNew entry old)]
      exact logged.stored entry old
    · have inPuts : (entry.1, entry.2.1) ∈ puts := puts_eq ▸ List.mem_map_of_mem new
      exact get_write_puts_of_mem distinct inPuts stack.db
  · intro key value isSegment stored
    dsimp only at stored ⊢
    rw [segmentsAfter key isSegment] at stored
    rw [sameNumbers, sameFirst, split]
    by_cases isNew : key ∈ puts.map Prod.fst
    · obtain ⟨entry, member, same⟩ := newKey key isNew
      exact ⟨entry, List.mem_append_right _ member, same⟩
    · rw [untouchedByPuts key isNew] at stored
      obtain ⟨entry, member, same⟩ := logged.onlySegments key value isSegment stored
      exact ⟨entry, List.mem_append_left _ member, same⟩
  · intro segment member
    rcases List.mem_append.mp member with old | new
    · exact logged.encoded segment old
    · exact filled.encoded segment new
  · intro segment member record inRecords
    rcases List.mem_append.mp member with old | new
    · exact logged.recordKeys segment old record inRecords
    · -- a new record is the record of a changed entry
      have inAll : record ∈ closed.flatMap Prod.snd := List.mem_flatMap.mpr ⟨segment, new, inRecords⟩
      rw [recordsOf] at inAll
      split at inAll
      · cases inAll
      · obtain ⟨entry, inChanges, rfl⟩ := List.mem_map.mp inAll
        exact keys entry (List.mem_of_mem_filter inChanges)

end Logged

end B1.ChainKv
