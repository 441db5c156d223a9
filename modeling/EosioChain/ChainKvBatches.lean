/-
This file collects what the proofs about the undo stack of `chain_kv.hpp` need of its database
and of its encodings: where the undo stack's keys lie in the byte-wise order (its state key, its
segment keys, the next prefix of the segments and the sentinel `0xff`), what a write batch does
to the value of one key (the operations that touch it, in order), the contents of the database
outside the undo prefix, and that the loop of `undo` reads back the records `write_changes`
packed into a segment, given `fc::raw` readers that read back what its writers wrote.
-/

import EosioChain.ChainKvUndo
import Mathlib

namespace B1.ChainKv

open ByteKeys SortedMap

/-! ### Keys -/

/-- `get_next_prefix` of a prefix that ends below `0xff` increments its last byte. -/
theorem getNextPrefix_append (keyPrefix : Bytes) {last : UInt8} (below : last + 1 ≠ 0) :
    getNextPrefix (keyPrefix ++ [last]) = keyPrefix ++ [last + 1] := by
  rw [getNextPrefix, List.reverse_append, List.reverse_singleton, List.singleton_append,
    getNextPrefix.incrementLast, if_pos below, List.reverse_cons, List.reverse_reverse]

namespace UndoStack

variable (stack : UndoStack)

theorem segmentNextPrefix_eq : stack.segmentNextPrefix = stack.undoPrefix ++ [0x81] :=
  getNextPrefix_append stack.undoPrefix (by decide)

theorem createSegmentKey_eq (segment : Nat) :
    stack.createSegmentKey segment = stack.undoPrefix ++ 0x80 :: bigEndian 8 segment := by
  rw [createSegmentKey, segmentPrefix, List.append_assoc, List.singleton_append]

theorem undoPrefix_prefix_createSegmentKey (segment : Nat) :
    stack.undoPrefix <+: stack.createSegmentKey segment := by
  rw [createSegmentKey_eq]
  exact List.prefix_append _ _

theorem undoPrefix_prefix_statePrefix : stack.undoPrefix <+: stack.statePrefix :=
  List.prefix_append _ _

/-- Segment keys are ordered as their numbers, below `2 ^ 64`. -/
theorem createSegmentKey_lt_iff {segment other : Nat} (segmentFits : segment < 2 ^ 64)
    (otherFits : other < 2 ^ 64) :
    stack.createSegmentKey segment < stack.createSegmentKey other ↔ segment < other := by
  rw [createSegmentKey, createSegmentKey, append_lt_append_iff_left]
  have fits : (2 : Nat) ^ 64 = 256 ^ 8 := by decide
  constructor
  · intro below
    rcases Nat.lt_trichotomy segment other with less | same | more
    · exact less
    · exact absurd (same ▸ below) (irrefl _)
    · exact absurd (trans_of (· < ·) below (bigEndian_lt_bigEndian more (fits ▸ segmentFits)))
        (irrefl _)
  · exact fun below => bigEndian_lt_bigEndian below (fits ▸ otherFits)

theorem createSegmentKey_lt_segmentNextPrefix (segment : Nat) :
    stack.createSegmentKey segment < stack.segmentNextPrefix := by
  rw [createSegmentKey_eq, segmentNextPrefix_eq, append_lt_append_iff_left, List.cons_lt_cons_iff]
  exact Or.inl (by decide)

/-- A key from a segment key up to the next prefix is under the segment prefix. -/
theorem segmentPrefix_prefix_of_inRange {segment : Nat} {key : Bytes}
    (inside : InRange (stack.createSegmentKey segment) stack.segmentNextPrefix key) :
    stack.segmentPrefix <+: key := by
  have segmentAbove : stack.segmentPrefix < stack.createSegmentKey segment := by
    rw [createSegmentKey, ← List.append_nil stack.segmentPrefix, List.append_assoc,
      append_lt_append_iff_left, List.nil_append, bigEndian]
    exact List.nil_lt_cons _ _
  refine @prefix_of_between stack.undoPrefix 0x80 0x81 (by decide) key ?_ ?_
  · exact fun below => inside.1 (trans_of (· < ·) below segmentAbove)
  · rw [← segmentNextPrefix_eq]
    exact inside.2

/-- The keys of the segments of the ranges the undo stack deletes and reads are under its
prefix. -/
theorem undoPrefix_prefix_of_inRange {segment : Nat} {key : Bytes}
    (inside : InRange (stack.createSegmentKey segment) stack.segmentNextPrefix key) :
    stack.undoPrefix <+: key :=
  (List.prefix_append _ _).trans (stack.segmentPrefix_prefix_of_inRange inside)

theorem undoPrefix_prefix_of_inRange_createSegmentKey {first last : Nat} {key : Bytes}
    (inside : InRange (stack.createSegmentKey first) (stack.createSegmentKey last) key) :
    stack.undoPrefix <+: key :=
  stack.undoPrefix_prefix_of_inRange
    ⟨inside.1, trans_of (· < ·) inside.2 (stack.createSegmentKey_lt_segmentNextPrefix last)⟩

/-- A segment key is in the range from segment `first` up to the next prefix exactly when its
number is at least `first`. -/
theorem inRange_createSegmentKey_iff {first segment : Nat} (firstFits : first < 2 ^ 64)
    (segmentFits : segment < 2 ^ 64) :
    InRange (stack.createSegmentKey first) stack.segmentNextPrefix
      (stack.createSegmentKey segment) ↔ first ≤ segment := by
  unfold InRange
  rw [stack.createSegmentKey_lt_iff segmentFits firstFits]
  exact ⟨fun inside => Nat.le_of_not_lt inside.1,
    fun atLeast => ⟨Nat.not_lt_of_le atLeast, stack.createSegmentKey_lt_segmentNextPrefix _⟩⟩

theorem createSegmentKey_injective {segment other : Nat} (segmentFits : segment < 2 ^ 64)
    (otherFits : other < 2 ^ 64)
    (same : stack.createSegmentKey segment = stack.createSegmentKey other) : segment = other := by
  rcases Nat.lt_trichotomy segment other with less | equal | more
  · exact absurd (same ▸ (stack.createSegmentKey_lt_iff segmentFits otherFits).mpr less)
      (irrefl _)
  · exact equal
  · exact absurd (same ▸ (stack.createSegmentKey_lt_iff otherFits segmentFits).mpr more)
      (irrefl _)

/-- A prefix whose first byte is neither sentinel. -/
def ValidPrefix (undoPrefix : Bytes) : Prop :=
  ∃ first rest, undoPrefix = first :: rest ∧ first ≠ 0x00 ∧ first ≠ 0xff

/-- The sentinel `0xff` is above every key of the undo stack. -/
theorem not_sentinel_lt_segmentNextPrefix (valid : ValidPrefix stack.undoPrefix) :
    ¬ [0xff] < stack.segmentNextPrefix := by
  obtain ⟨first, rest, isPrefix, _, notTop⟩ := valid
  rw [segmentNextPrefix_eq, isPrefix, List.cons_append, List.cons_lt_cons_iff, not_or]
  have below : first < 0xff := by
    rw [UInt8.lt_iff_toNat_lt]
    have := UInt8.toNat_lt first
    have : first.toNat ≠ 255 := fun same => notTop (UInt8.toNat_inj.mp same)
    change first.toNat < 255
    omega
  exact ⟨asymm below, fun ⟨same, _⟩ => absurd (same ▸ below) (irrefl _)⟩

theorem not_undoPrefix_prefix_sentinel (valid : ValidPrefix stack.undoPrefix) :
    ¬ stack.undoPrefix <+: [0xff] := by
  obtain ⟨first, rest, isPrefix, _, notTop⟩ := valid
  rw [isPrefix]
  exact fun starts => notTop (List.cons_prefix_cons.mp starts).1

end UndoStack

/-! ### Batches, one key at a time -/

/-- What one batch operation does to the value of `key`. -/
def BatchOp.onKey (key : Bytes) : BatchOp → Option Bytes → Option Bytes
  | .put target value, old => if key = target then some value else old
  | .delete target, old => if key = target then none else old
  | .deleteRange first last, old => if InRange first last key then none else old

/-- Whether one batch operation may change the value of `key`. -/
def BatchOp.touches (key : Bytes) : BatchOp → Bool
  | .put target _ => decide (key = target)
  | .delete target => decide (key = target)
  | .deleteRange first last => decide (InRange first last key)

theorem BatchOp.onKey_of_not_touches {key : Bytes} {op : BatchOp} (untouched : op.touches key = false)
    (old : Option Bytes) : op.onKey key old = old := by
  cases op <;> simp_all [BatchOp.onKey, BatchOp.touches]

theorem get_apply (op : BatchOp) (db : Database) (key : Bytes) :
    (op.apply db).get key = op.onKey key (db.get key) := by
  cases op with
  | put target value => rw [BatchOp.apply, get_insert]; rfl
  | delete target => rw [BatchOp.apply, get_erase]; rfl
  | deleteRange first last => rw [BatchOp.apply, get_eraseRange]; rfl

/-- **A batch changes the value of a key by the operations on it, in order.** -/
theorem get_write (db : Database) (batch : List BatchOp) (key : Bytes) :
    (write db batch).get key = batch.foldl (fun value op => op.onKey key value) (db.get key) := by
  induction batch generalizing db with
  | nil => rfl
  | cons op batch inductionHypothesis =>
    rw [write, List.foldl_cons, ← write, inductionHypothesis, get_apply, List.foldl_cons]

theorem foldl_onKey_filter {batch : List BatchOp} (key : Bytes) {keep : BatchOp → Bool}
    (kept : ∀ op ∈ batch, op.touches key = true → keep op = true) (old : Option Bytes) :
    (batch.filter keep).foldl (fun value op => op.onKey key value) old =
      batch.foldl (fun value op => op.onKey key value) old := by
  induction batch generalizing old with
  | nil => rfl
  | cons op batch inductionHypothesis =>
    have restKept : ∀ other ∈ batch, other.touches key = true → keep other = true :=
      fun other member => kept other (List.mem_cons_of_mem _ member)
    by_cases keptOp : keep op = true
    · rw [List.filter_cons_of_pos keptOp, List.foldl_cons, List.foldl_cons,
        inductionHypothesis restKept]
    · have untouched : op.touches key = false := by
        by_contra touched
        exact keptOp (kept op List.mem_cons_self (eq_true_of_ne_false touched))
      rw [List.filter_cons_of_neg keptOp, List.foldl_cons, BatchOp.onKey_of_not_touches untouched,
        inductionHypothesis restKept]

theorem write_append (db : Database) (first second : List BatchOp) :
    write db (first ++ second) = write (write db first) second :=
  List.foldl_append

/-- A key that no operation of the batch touches keeps its value. -/
theorem get_write_of_untouched {db : Database} {batch : List BatchOp} {key : Bytes}
    (untouched : ∀ op ∈ batch, op.touches key = false) : (write db batch).get key = db.get key := by
  have dropped := @foldl_onKey_filter batch key (fun _ => false)
    (fun op member touched => by rw [untouched op member] at touched; exact touched) (db.get key)
  rw [get_write, ← dropped, List.filter_false]
  rfl

/-- The value of a key after a batch depends only on the operations that may touch it. -/
theorem get_write_filter {db : Database} {batch : List BatchOp} {key : Bytes}
    {keep : BatchOp → Bool} (kept : ∀ op ∈ batch, op.touches key = true → keep op = true) :
    (write db (batch.filter keep)).get key = (write db batch).get key := by
  rw [get_write, get_write, foldl_onKey_filter key kept]

/-! ### The contents outside the undo prefix -/

/-- The contents of the database outside the undo prefix, where the undo stack keeps nothing. -/
def outside (undoPrefix : Bytes) (db : Database) : Bytes → Option Bytes :=
  fun key => if undoPrefix.isPrefixOf key then none else db.get key

theorem outside_eq_get {undoPrefix key : Bytes} (db : Database)
    (outsideKey : ¬ undoPrefix <+: key) : outside undoPrefix db key = db.get key := by
  rw [outside, if_neg (by rwa [List.isPrefixOf_iff_prefix])]

theorem outside_eq_none {undoPrefix key : Bytes} (db : Database) (insideKey : undoPrefix <+: key) :
    outside undoPrefix db key = none := by
  rw [outside, if_pos (List.isPrefixOf_iff_prefix.mpr insideKey)]

/-- A batch that touches no key outside the prefix keeps the contents outside it. -/
theorem outside_write_of_inside {undoPrefix : Bytes} {db : Database} {batch : List BatchOp}
    (inside : ∀ op ∈ batch, ∀ key, op.touches key = true → undoPrefix <+: key) :
    outside undoPrefix (write db batch) = outside undoPrefix db := by
  funext key
  by_cases insideKey : undoPrefix <+: key
  · rw [outside_eq_none _ insideKey, outside_eq_none _ insideKey]
  · rw [outside_eq_get _ insideKey, outside_eq_get _ insideKey,
      get_write_of_untouched]
    intro op member
    by_contra touched
    exact insideKey (inside op member key (eq_true_of_ne_false touched))

/-! ### Reading back what was packed -/

/-- The `fc::raw` readers read back what the writers wrote, for lengths that fit in 32 bits. -/
structure FcRaw.RoundTrips (raw : FcRaw) : Prop where
  unsignedInt : ∀ n rest, n < 2 ^ 32 →
    raw.unpackUnsignedInt (raw.packUnsignedInt n ++ rest) = some (n, rest)
  bool : ∀ flag rest, raw.unpackBool (raw.packBool flag ++ rest) = some (flag, rest)

theorem packBytes_eq_ok {raw : FcRaw} {bytes packed : Bytes} :
    packBytes raw bytes = .ok packed ↔
      bytes.length < 2 ^ 32 ∧ packed = raw.packUnsignedInt bytes.length ++ bytes := by
  unfold packBytes
  split
  · next fits =>
    exact ⟨fun packs => ⟨fits, (Except.ok.inj packs).symm⟩, fun ⟨_, same⟩ => same ▸ rfl⟩
  · next tooBig =>
    exact ⟨fun packs => (nomatch packs), fun ⟨fits, _⟩ => absurd fits tooBig⟩

theorem packOptionalBytes_eq_ok {raw : FcRaw} {value : Option Bytes} {packed : Bytes} :
    packOptionalBytes raw value = .ok packed ↔
      (value = none ∧ packed = raw.packBool false) ∨
        ∃ bytes packedBytes, value = some bytes ∧ packBytes raw bytes = .ok packedBytes ∧
          packed = raw.packBool true ++ packedBytes := by
  cases value with
  | none =>
    simp only [packOptionalBytes, true_and, reduceCtorEq, false_and, exists_false, or_false]
    exact ⟨fun packs => (Except.ok.inj packs).symm, fun same => same ▸ rfl⟩
  | some bytes =>
    simp only [packOptionalBytes, reduceCtorEq, false_and, Option.some.injEq, exists_and_left,
      exists_eq_left', false_or]
    cases inner : packBytes raw bytes with
    | error failure =>
      exact ⟨fun packs => (nomatch packs), fun ⟨_, impossible, _⟩ => (nomatch impossible)⟩
    | ok packedBytes =>
      constructor
      · intro packs
        exact ⟨packedBytes, rfl, (Except.ok.inj packs).symm⟩
      · rintro ⟨_, same, rfl⟩
        cases same
        rfl

section Codec

variable {raw : FcRaw} (laws : raw.RoundTrips)
include laws

/-- A flag takes at least one byte: the reader tells `true` from `false` by what it reads. -/
theorem packBool_ne_nil (flag : Bool) : raw.packBool flag ≠ [] := by
  intro empty
  have both := laws.bool flag (raw.packBool (!flag))
  have other := laws.bool (!flag) []
  rw [List.append_nil] at other
  rw [empty, List.nil_append, other, Option.some.injEq, Prod.mk.injEq] at both
  cases flag <;> simp at both

theorem getBytes_append {bytes packed : Bytes} (packs : packBytes raw bytes = .ok packed)
    (rest : Bytes) : getBytes raw (packed ++ rest) = .ok (bytes, rest) := by
  obtain ⟨fits, rfl⟩ := packBytes_eq_ok.mp packs
  rw [getBytes, List.append_assoc, laws.unsignedInt _ _ fits]
  dsimp only
  rw [if_neg (by rw [List.length_append]; omega), List.take_left, List.drop_left]
  rfl

theorem getOptionalBytes_append {value : Option Bytes} {packed : Bytes}
    (packs : packOptionalBytes raw value = .ok packed) (rest : Bytes) :
    getOptionalBytes raw (packed ++ rest) = .ok (value, rest) := by
  rcases packOptionalBytes_eq_ok.mp packs with ⟨rfl, rfl⟩ | ⟨bytes, packedBytes, rfl, inner, rfl⟩
  · rw [getOptionalBytes, laws.bool]
    rfl
  · rw [getOptionalBytes, List.append_assoc, laws.bool]
    dsimp only
    rw [getBytes_append laws inner rest]
    rfl

/-- Packing a value takes at least the byte of its flag. -/
theorem packOptionalBytes_ne_nil {value : Option Bytes} {packed : Bytes}
    (packs : packOptionalBytes raw value = .ok packed) : packed ≠ [] := by
  rcases packOptionalBytes_eq_ok.mp packs with ⟨_, rfl⟩ | ⟨_, _, _, _, rfl⟩
  · exact packBool_ne_nil laws false
  · exact List.append_ne_nil_of_left_ne_nil (packBool_ne_nil laws true) _

end Codec

theorem packUndoSegment_eq_ok {raw : FcRaw} {key : Bytes} {oldValue newValue : Option Bytes}
    {packed : Bytes} (packs : packUndoSegment raw key oldValue newValue = .ok packed) :
    ∃ packedKey packedOld packedNew, packBytes raw key = .ok packedKey ∧
      packOptionalBytes raw oldValue = .ok packedOld ∧
      packOptionalBytes raw newValue = .ok packedNew ∧ packed = packedKey ++ packedOld ++ packedNew := by
  unfold packUndoSegment at packs
  cases first : packBytes raw key with
  | error failure => rw [first] at packs; cases packs
  | ok packedKey =>
    cases second : packOptionalBytes raw oldValue with
    | error failure => rw [first, second] at packs; cases packs
    | ok packedOld =>
      cases third : packOptionalBytes raw newValue with
      | error failure => rw [first, second, third] at packs; cases packs
      | ok packedNew =>
        rw [first, second, third] at packs
        cases packs
        exact ⟨packedKey, packedOld, packedNew, rfl, rfl, rfl, rfl⟩

/-- `segment` is the packing of `records`, one `pack_undo_segment` after the other. -/
def Encodes (raw : FcRaw) (segment : Bytes) (records : List UndoRecord) : Prop :=
  ∃ packs : List Bytes, List.Forall₂ (fun (record : UndoRecord) packed =>
      packUndoSegment raw record.key record.oldValue record.newValue = .ok packed) records packs ∧
    segment = packs.flatten

theorem encodes_nil (raw : FcRaw) : Encodes raw [] [] :=
  ⟨[], List.Forall₂.nil, rfl⟩

theorem Encodes.append {raw : FcRaw} {segment : Bytes} {records : List UndoRecord}
    (encodes : Encodes raw segment records) {record : UndoRecord} {packed : Bytes}
    (packs : packUndoSegment raw record.key record.oldValue record.newValue = .ok packed) :
    Encodes raw (segment ++ packed) (records ++ [record]) := by
  obtain ⟨packings, forall₂, rfl⟩ := encodes
  refine ⟨packings ++ [packed], List.rel_append forall₂ (List.Forall₂.cons packs .nil), ?_⟩
  rw [List.flatten_append, List.flatten_singleton]

section Codec

variable {raw : FcRaw} (laws : raw.RoundTrips)
include laws

/-- **The loop of `undo` reads back the records of a packed segment**, given fuel at least its
length. -/
theorem readUndoRecords_of_encodes {segment : Bytes} {records : List UndoRecord}
    (encodes : Encodes raw segment records) {fuel : Nat} (enough : segment.length ≤ fuel) :
    readUndoRecords raw fuel segment = .ok records := by
  obtain ⟨packs, forall₂, rfl⟩ := encodes
  induction forall₂ generalizing fuel with
  | nil => cases fuel <;> rfl
  | @cons record packed records packs packs₁ _ inductionHypothesis =>
    obtain ⟨packedKey, packedOld, packedNew, keyPacks, oldPacks, newPacks, rfl⟩ :=
      packUndoSegment_eq_ok packs₁
    -- the record takes at least the flag of its old value, so the fuel is not yet spent
    have flagged : 0 < packedOld.length :=
      List.length_pos_iff.mpr (packOptionalBytes_ne_nil laws oldPacks)
    rw [List.flatten_cons, List.length_append] at enough
    obtain ⟨fuel, rfl⟩ : ∃ rest, fuel = rest + 1 :=
      ⟨fuel - 1, by simp only [List.length_append] at enough; omega⟩
    obtain ⟨first, stream, stream_eq⟩ : ∃ first stream,
        packedKey ++ packedOld ++ packedNew ++ packs.flatten = first :: stream := by
      cases whole : packedKey ++ packedOld ++ packedNew ++ packs.flatten with
      | nil => simp_all
      | cons first stream => exact ⟨first, stream, rfl⟩
    rw [List.flatten_cons, stream_eq, readUndoRecords, ← stream_eq, List.append_assoc,
      List.append_assoc]
    simp only [getBytes_append laws keyPacks, bind, Except.bind]
    rw [getOptionalBytes_append laws oldPacks]
    simp only
    rw [getOptionalBytes_append laws newPacks]
    simp only
    rw [inductionHypothesis (by simp only [List.length_append] at enough; omega)]
    rfl

end Codec

section Codec

variable {raw : FcRaw} (laws : raw.RoundTrips)
include laws

/-- A packed undo record takes at least the flag of its old value. -/
theorem packUndoSegment_ne_nil {key : Bytes} {oldValue newValue : Option Bytes} {packed : Bytes}
    (packs : packUndoSegment raw key oldValue newValue = .ok packed) : packed ≠ [] := by
  obtain ⟨packedKey, packedOld, packedNew, _, oldPacks, _, rfl⟩ := packUndoSegment_eq_ok packs
  rw [List.append_assoc]
  exact List.append_ne_nil_of_right_ne_nil _
    (List.append_ne_nil_of_left_ne_nil (packOptionalBytes_ne_nil laws oldPacks) _)

/-- An empty segment packs no record. -/
theorem Encodes.eq_nil {records : List UndoRecord} (encodes : Encodes raw [] records) :
    records = [] := by
  obtain ⟨packs, forall₂, empty⟩ := encodes
  cases forall₂ with
  | nil => rfl
  | cons packs₁ _ =>
    rw [List.flatten_cons] at empty
    exact absurd (List.append_eq_nil_iff.mp empty.symm).1 (packUndoSegment_ne_nil laws packs₁)

end Codec

/-! ### Puts, deletes and restores -/

theorem get_apply_restore (db : Database) (record : UndoRecord) :
    (record.restore.apply db).get = Function.update db.get record.key record.oldValue := by
  funext key
  unfold UndoRecord.restore
  cases record.oldValue with
  | some value => rw [BatchOp.apply, get_insert, Function.update_apply]
  | none => rw [BatchOp.apply, get_erase, Function.update_apply]

/-- A batch of deletes leaves no value at the keys it deletes and every other key as it was. -/
theorem get_write_deletes (db : Database) (keys : List Bytes) (key : Bytes) :
    (write db (keys.map .delete)).get key = if key ∈ keys then none else db.get key := by
  induction keys generalizing db with
  | nil => rfl
  | cons deleted keys inductionHypothesis =>
    rw [List.map_cons, write, List.foldl_cons, ← write, inductionHypothesis, BatchOp.apply,
      get_erase]
    by_cases same : key = deleted
    · simp [same]
    · simp [same]

/-- A batch of puts of distinct keys leaves each key with the value put there. -/
theorem get_write_puts_of_mem {entries : List (Bytes × Bytes)}
    (distinct : (entries.map Prod.fst).Nodup) {entry : Bytes × Bytes} (member : entry ∈ entries)
    (db : Database) :
    (write db (entries.map fun entry => .put entry.1 entry.2)).get entry.1 = some entry.2 := by
  induction entries generalizing db with
  | nil => cases member
  | cons first entries inductionHypothesis =>
    rw [List.map_cons, List.nodup_cons] at distinct
    rw [List.map_cons, write, List.foldl_cons, ← write]
    rcases List.mem_cons.mp member with rfl | later
    · -- no later put is of the same key
      rw [get_write_of_untouched, BatchOp.apply, get_insert, if_pos rfl]
      intro op opMember
      obtain ⟨other, otherMember, rfl⟩ := List.mem_map.mp opMember
      have different : entry.1 ≠ other.1 :=
        fun same => distinct.1 (same ▸ List.mem_map_of_mem otherMember)
      simp [BatchOp.touches, different]
    · exact inductionHypothesis distinct.2 later _

/-! ### Operations under the undo prefix -/

/-- Whether an operation is a put or a delete of a key under the undo prefix. -/
def BatchOp.underPrefix (undoPrefix : Bytes) : BatchOp → Bool
  | .put key _ => undoPrefix.isPrefixOf key
  | .delete key => undoPrefix.isPrefixOf key
  | .deleteRange _ _ => false

/-- The contents outside the undo prefix after a batch depend only on its operations that are
not under the prefix. -/
theorem outside_write_filter (undoPrefix : Bytes) (db : Database) (batch : List BatchOp) :
    outside undoPrefix (write db (batch.filter fun op => !op.underPrefix undoPrefix)) =
      outside undoPrefix (write db batch) := by
  funext key
  by_cases insideKey : undoPrefix <+: key
  · rw [outside_eq_none _ insideKey, outside_eq_none _ insideKey]
  · rw [outside_eq_get _ insideKey, outside_eq_get _ insideKey]
    refine get_write_filter fun op _ touched => ?_
    have notPrefix : undoPrefix.isPrefixOf key = false := by
      rwa [← Bool.not_eq_true, List.isPrefixOf_iff_prefix]
    cases op with
    | put target value =>
      simp only [BatchOp.touches, decide_eq_true_eq] at touched
      simp [BatchOp.underPrefix, ← touched, notPrefix]
    | delete target =>
      simp only [BatchOp.touches, decide_eq_true_eq] at touched
      simp [BatchOp.underPrefix, ← touched, notPrefix]
    | deleteRange first last => rfl

/-- The value of a key under the undo prefix after a batch with no range deletes depends only on
its operations under the prefix. -/
theorem get_write_filter_underPrefix {undoPrefix key : Bytes} (insideKey : undoPrefix <+: key)
    {db : Database} {batch : List BatchOp}
    (noRanges : ∀ op ∈ batch, ∀ first last, op ≠ .deleteRange first last) :
    (write db (batch.filter (·.underPrefix undoPrefix))).get key = (write db batch).get key := by
  refine get_write_filter fun op member touched => ?_
  have isPrefix : undoPrefix.isPrefixOf key = true := List.isPrefixOf_iff_prefix.mpr insideKey
  cases op with
  | put target value =>
    simp only [BatchOp.touches, decide_eq_true_eq] at touched
    simp [BatchOp.underPrefix, ← touched, isPrefix]
  | delete target =>
    simp only [BatchOp.touches, decide_eq_true_eq] at touched
    simp [BatchOp.underPrefix, ← touched, isPrefix]
  | deleteRange first last => exact absurd rfl (noRanges _ member first last)

end B1.ChainKv
