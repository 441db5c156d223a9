/-
This file models the undo stack of `chain_kv.hpp` over its RocksDB database. The database is a
finite map from byte strings to byte strings, iterated in byte-wise key order, and a
`rocksdb::WriteBatch` is the list of its puts, deletes and range deletes, applied in order by
`database::write`.

The undo stack keeps its history in the database itself, under its own prefix: the packed
`undo_state` under the prefix followed by `0x00`, and the undo segments under the prefix followed
by `0x80` and the big-endian number of the segment. A segment is a run of undo records, each the
packed key, old value and new value of one changed key; `write_changes` fills segments up to the
target size while it writes a change list, and `undo` replays the segments of the top revision,
newest first, from the last key below the segments' next prefix down to the first segment of the
revision.

The `fc::raw` encodings of lengths, flags and of `undo_state` live outside this repository and are
parameters. The segment counters, `uint64_t` in the source, are natural numbers here.
-/

import EosioChain.SortedMap
import EosioChain.ByteKeys

namespace B1.ChainKv

/-- `bytes`. -/
abbrev Bytes := List UInt8

/-- The RocksDB database: a finite map from keys to values, kept in byte-wise key order. -/
abbrev Database := SortedMap Bytes Bytes

/-- An operation of a `rocksdb::WriteBatch`. -/
inductive BatchOp
  | put (key value : Bytes)
  | delete (key : Bytes)
  | deleteRange (first last : Bytes)
deriving DecidableEq, Repr

/-- One operation of a batch applied to the database. -/
def BatchOp.apply : BatchOp → Database → Database
  | .put key value, db => db.insert key value
  | .delete key, db => db.erase key
  | .deleteRange first last, db => db.eraseRange first last

/-- `database::write`: the operations of a batch, applied in order. -/
def write (db : Database) (batch : List BatchOp) : Database :=
  batch.foldl (fun db op => op.apply db) db

/-- The sentinels `database::database` stores when they are missing: the keys `0x00` and `0xff`
with empty values, so that iterators do not run off either end. -/
def writeSentinels (db : Database) : Database :=
  write db (([[0x00], [0xff]].filter fun key => db.get key = none).map fun key => .put key [])

/-- `get_next_prefix`: the least key above every key that starts with `keyPrefix`. The last byte
is incremented; a byte that wraps to zero is dropped and the carry goes to the byte before. -/
def getNextPrefix (keyPrefix : Bytes) : Bytes :=
  (incrementLast keyPrefix.reverse).reverse
where
  /-- The carry loop, on the bytes from the last one back. -/
  incrementLast : Bytes → Bytes
    | [] => []
    | byte :: before => if byte + 1 ≠ 0 then (byte + 1) :: before else incrementLast before

/-! ### The stored state and the `fc::raw` encodings -/

/-- `undo_state`: the revision, for each open revision the number of its undo segments, and the
number of the next segment. -/
structure UndoState where
  formatVersion : UInt8
  revision : Int
  undoStack : List Nat
  nextUndoSegment : Nat
deriving DecidableEq, Repr

/-- `undo_stack.back() += n`: the count of the top revision grows by `n`. -/
def addToBack : List Nat → Nat → List Nat
  | [], _ => []
  | count :: rest, n =>
    match rest with
    | [] => [count + n]
    | _ :: _ => count :: addToBack rest n

/-- The state of an undo stack that finds none stored. -/
def UndoState.initial : UndoState := ⟨0, 0, [], 0⟩

/-- The `fc::raw` encodings the undo stack uses: of an `unsigned_int` length, of a `bool` flag,
and of `undo_state`, with their readers. -/
structure FcRaw where
  packUnsignedInt : Nat → Bytes
  unpackUnsignedInt : Bytes → Option (Nat × Bytes)
  packBool : Bool → Bytes
  unpackBool : Bytes → Option (Bool × Bytes)
  packUndoState : UndoState → Bytes
  unpackUndoState : Bytes → Option UndoState

variable (raw : FcRaw)

/-- `pack_bytes`: the length as an `unsigned_int`, then the bytes; a length that does not fit in
32 bits is refused. -/
def packBytes (bytes : Bytes) : Except String Bytes :=
  if bytes.length < 2 ^ 32 then pure (raw.packUnsignedInt bytes.length ++ bytes)
  else throw "bytes is too big"

/-- `pack_optional_bytes`: a presence flag, then the bytes if present. -/
def packOptionalBytes : Option Bytes → Except String Bytes
  | none => pure (raw.packBool false)
  | some bytes => do pure (raw.packBool true ++ (← packBytes raw bytes))

/-- `pack_undo_segment`: one undo record, the key with its old and new values. -/
def packUndoSegment (key : Bytes) (oldValue newValue : Option Bytes) : Except String Bytes := do
  pure ((← packBytes raw key) ++ (← packOptionalBytes raw oldValue) ++
    (← packOptionalBytes raw newValue))

/-- `get_bytes`: a length, then as many bytes, which the stream must hold. -/
def getBytes (stream : Bytes) : Except String (Bytes × Bytes) :=
  match raw.unpackUnsignedInt stream with
  | none => throw "unpack unsigned_int"
  | some (size, rest) =>
    if size > rest.length then throw "bad size for bytes" else pure (rest.take size, rest.drop size)

/-- `get_optional_bytes`: a presence flag, then the bytes if present. -/
def getOptionalBytes (stream : Bytes) : Except String (Option Bytes × Bytes) :=
  match raw.unpackBool stream with
  | none => throw "unpack bool"
  | some (false, rest) => pure (none, rest)
  | some (true, rest) => do
    let (bytes, rest) ← getBytes raw rest
    pure (some bytes, rest)

/-- An undo record as `undo` reads it back. -/
structure UndoRecord where
  key : Bytes
  oldValue : Option Bytes
  newValue : Option Bytes
deriving DecidableEq, Repr

/-- The `while (ds.remaining())` loop of `undo` over one segment: the records it holds, one after
the other. Every record takes at least one byte, so the length of the segment is fuel enough. -/
def readUndoRecords : (fuel : Nat) → Bytes → Except String (List UndoRecord)
  | _, [] => pure []
  | 0, _ :: _ => throw "undo segment not consumed"
  | fuel + 1, stream@(_ :: _) => do
    let (key, stream) ← getBytes raw stream
    let (oldValue, stream) ← getOptionalBytes raw stream
    let (newValue, stream) ← getOptionalBytes raw stream
    let records ← readUndoRecords fuel stream
    pure (⟨key, oldValue, newValue⟩ :: records)

/-- The batch operation that puts a key back to its old value. -/
def UndoRecord.restore (record : UndoRecord) : BatchOp :=
  match record.oldValue with
  | some value => .put record.key value
  | none => .delete record.key

/-! ### The undo stack -/

/-- `undo_stack`: the database, the prefix of the undo stack's own keys, the target size of a
segment and the state. -/
structure UndoStack where
  db : Database
  undoPrefix : Bytes
  targetSegmentSize : Nat
  state : UndoState

namespace UndoStack

variable (stack : UndoStack)

/-- The key of the stored state. -/
def statePrefix : Bytes := stack.undoPrefix ++ [0x00]

/-- The prefix of the segment keys. -/
def segmentPrefix : Bytes := stack.undoPrefix ++ [0x80]

/-- The least key above every segment key. -/
def segmentNextPrefix : Bytes := getNextPrefix stack.segmentPrefix

/-- `create_segment_key`: the segment prefix and the big-endian number of the segment. -/
def createSegmentKey (segment : Nat) : Bytes := stack.segmentPrefix ++ ByteKeys.bigEndian 8 segment

/-- `write_state(batch)`: the put of the packed state. -/
def writeState (state : UndoState) : BatchOp := .put stack.statePrefix (raw.packUndoState state)

/-- `revision()`. -/
def revision : Int := stack.state.revision

end UndoStack

/-- The `undo_stack` constructor: the prefix must be non-empty and may not start with a sentinel
byte; a stored state is read back, and must be of format 0. -/
def UndoStack.create (db : Database) (undoPrefix : Bytes) (targetSegmentSize : Nat) :
    Except String UndoStack :=
  match undoPrefix with
  | [] => throw "undo_prefix is empty"
  | first :: _ =>
    if first = 0x00 ∨ first = 0xff then
      throw "undo_stack may not have a prefix which begins with 0x00 or 0xff"
    else
      match db.get (undoPrefix ++ [0x00]) with
      | none => pure ⟨db, undoPrefix, targetSegmentSize, UndoState.initial⟩
      | some stored =>
        match raw.unpackUndoState stored with
        | none => throw "unpack undo_state"
        | some state =>
          if state.formatVersion ≠ 0 then throw "invalid undo format"
          else pure ⟨db, undoPrefix, targetSegmentSize, state⟩

namespace UndoStack

variable (stack : UndoStack)

/-- `push`: open a revision with no segments. -/
def push (writeNow : Bool) : UndoStack :=
  let state := { stack.state with
    undoStack := stack.state.undoStack ++ [0], revision := stack.state.revision + 1 }
  { stack with state, db := if writeNow then write stack.db [stack.writeState raw state] else stack.db }

/-- `squash`: merge the top revision into the one below; the last revision is dropped with all
segments. -/
def squash (writeNow : Bool) : UndoStack :=
  match stack.state.undoStack with
  | [] => stack
  | [_] =>
    let state := { stack.state with undoStack := [], revision := stack.state.revision - 1 }
    { stack with
      state
      db := write stack.db
        [.deleteRange (stack.createSegmentKey 0) (stack.createSegmentKey stack.state.nextUndoSegment),
          stack.writeState raw state] }
  | undoStack@(_ :: _ :: _) =>
    let n := undoStack.getLast!
    let state := { stack.state with
      undoStack := addToBack undoStack.dropLast n, revision := stack.state.revision - 1 }
    { stack with state, db := if writeNow then write stack.db [stack.writeState raw state] else stack.db }

/-- The segments `undo` visits, newest first: after `Seek` to the next prefix and one `Prev`, the
keys down to `first`. With no key at or above the next prefix the iterator is not valid and the
loop visits nothing. -/
def undoSegments (first : Bytes) : List (Bytes × Bytes) :=
  if stack.db.hasKeyFrom stack.segmentNextPrefix then
    (stack.db.between first stack.segmentNextPrefix).reverse
  else []

/-- The batch of the loop of `undo`: for each visited segment, the restores of its records and the
delete of the segment. -/
def undoBatch : List (Bytes × Bytes) → Except String (List BatchOp)
  | [] => pure []
  | (segmentKey, segment) :: segments => do
    let records ← readUndoRecords raw segment.length segment
    let rest ← undoBatch segments
    pure (records.map UndoRecord.restore ++ [.delete segmentKey] ++ rest)

/-- `undo`: put the database back as it was when the top revision was pushed. -/
def undo (writeNow : Bool) : Except String UndoStack :=
  match stack.state.undoStack.getLast? with
  | none => throw "nothing to undo"
  | some back => do
    let segments := stack.undoSegments (stack.createSegmentKey (stack.state.nextUndoSegment - back))
    let batch ← undoBatch raw segments
    let state := { stack.state with
      nextUndoSegment := stack.state.nextUndoSegment - back
      undoStack := stack.state.undoStack.dropLast
      revision := stack.state.revision - 1 }
    pure { stack with
      state
      db := if writeNow || !segments.isEmpty then write stack.db (batch ++ [stack.writeState raw state])
        else stack.db }

/-- `commit`: forget the history of the revisions up to `revision`. -/
def commit (revision : Int) : UndoStack :=
  let revision := min revision stack.state.revision
  let firstRevision := stack.state.revision - stack.state.undoStack.length
  if firstRevision < revision then
    let undoStack := stack.state.undoStack.drop (revision - firstRevision).toNat
    let keepUndoSegment := stack.state.nextUndoSegment - undoStack.sum
    let state := { stack.state with undoStack }
    { stack with
      state
      db := write stack.db
        [.deleteRange (stack.createSegmentKey 0) (stack.createSegmentKey keepUndoSegment),
          stack.writeState raw state] }
  else stack

/-! ### `write_changes` -/

/-- An entry of the change list of a `cache_map`: the key, its value when it was read from the
database, and its value now; `none` is an erased value. -/
structure ChangeEntry where
  key : Bytes
  origValue : Option Bytes
  currentValue : Option Bytes
deriving DecidableEq, Repr

/-- The locals of `write_changes`: the batch, the segment being filled, and the state. -/
structure WriteBuffers where
  batch : List BatchOp
  segment : Bytes
  state : UndoState

/-- The `write_segment` lambda: a non-empty segment becomes the next segment of the top revision. -/
def writeSegment (buffers : WriteBuffers) : WriteBuffers :=
  if buffers.segment.isEmpty then buffers
  else
    { batch := buffers.batch ++ [.put (stack.createSegmentKey buffers.state.nextUndoSegment)
        buffers.segment]
      segment := []
      state := { buffers.state with
        nextUndoSegment := buffers.state.nextUndoSegment + 1
        undoStack := addToBack buffers.state.undoStack 1 } }

/-- The `append_segment` lambda: a record that would take the segment past the target size first
closes the segment. -/
def appendSegment (buffers : WriteBuffers) (record : Bytes) : WriteBuffers :=
  let buffers := if buffers.segment.length + record.length > stack.targetSegmentSize then
    stack.writeSegment buffers else buffers
  { buffers with segment := buffers.segment ++ record }

/-- One pass of the loop of `write_changes`: a changed entry is written, and recorded in the
current segment while a revision is open. -/
def writeChange (buffers : WriteBuffers) (entry : ChangeEntry) : Except String WriteBuffers :=
  if entry.origValue = entry.currentValue then pure buffers
  else do
    let op := match entry.currentValue with
      | some value => BatchOp.put entry.key value
      | none => BatchOp.delete entry.key
    let buffers := { buffers with batch := buffers.batch ++ [op] }
    if buffers.state.undoStack.isEmpty then pure buffers
    else do
      let record ← packUndoSegment raw entry.key entry.origValue entry.currentValue
      pure (stack.appendSegment buffers record)

/-- `write_changes`: write a change list and its undo records in one batch. -/
def writeChanges (changeList : List ChangeEntry) : Except String UndoStack := do
  let buffers ← changeList.foldlM (stack.writeChange raw) ⟨[], [], stack.state⟩
  let buffers := stack.writeSegment buffers
  pure { stack with
    state := buffers.state
    db := write stack.db (buffers.batch ++ [stack.writeState raw buffers.state]) }

end UndoStack

end B1.ChainKv
