/-
This file models how the block log rebuilds its index: `block_log_data::construct_index` walks
the trailing start positions of the entries of `blocks.log` backwards, from the last entry to the
first, and `index_writer` fills the new index from its last slot down. It models the writers as
well: `block_log_impl::reset` writes the preamble, and each `append` writes the packed block and
then its own start position to the log, and the same position to the index.

An entry ends with the position it starts at, so the eight bytes before an entry's start are the
end of the entry before it: from the end of the file the walk reads the start of the last entry,
steps to the eight bytes before it, and so on, until it reaches the eight bytes before the first
block, where the preamble ends. Each step writes one slot of the index from the top, so the walk
writes the positions in the order the appends wrote them. The number of blocks it walks is read
from the header of the last block, which the appends numbered consecutively from the first block
number of the preamble.
-/

import EosioChain.HostWords

namespace Eosio.Chain.BlockLog

/-! ### The model -/

/-- `block_log::npos`, the largest `uint64_t`. -/
def npos : UInt64 := 0xFFFFFFFFFFFFFFFF

/-- `pruned_transaction_version`, from which on an entry starts with its size and compression. -/
def prunedTransactionVersion : UInt32 := 4

/-- The eight bytes a little-endian host writes for a `uint64_t`. -/
def storeUint64 (value : UInt64) : List UInt8 :=
  HostWords.store 8 value.toNat

/-- `read_buffer<uint64_t>(data + position)`. -/
def readUint64 (data : List UInt8) (position : UInt64) : UInt64 :=
  (HostWords.load 8 ((data.drop position.toNat).take 8)).toUInt64

/-- `fc::endian_reverse_u32(read_buffer<uint32_t>(data + position))`: four bytes read big-endian. -/
def readBigEndianUint32 (data : List UInt8) (position : Nat) : UInt32 :=
  (HostWords.load 4 ((data.drop position).take 4).reverse).toUInt32

/-- `offset_to_block_start(version)`: the size and the compression in front of the block in an
entry of version 4 or later. -/
def offsetToBlockStart (version : UInt32) : Nat :=
  if version ≥ prunedTransactionVersion then 4 + 1 else 0

/-- `block_log_data`, the mapped log file, with what `open` read from its preamble: the version,
the first block number, and the position where the preamble ends and the first block starts. -/
structure BlockLogData where
  data : List UInt8
  version : UInt32
  firstBlockNum : UInt32
  firstBlockPos : UInt64

namespace BlockLogData

/-- The size of the mapped file. -/
def size (log : BlockLogData) : UInt64 :=
  log.data.length.toUInt64

/-- `block_num_at(position)`: one more than the previous block's number, which a block header
holds big-endian fourteen bytes into the block. -/
def blockNumAt (log : BlockLogData) (position : UInt64) : Except String UInt32 :=
  if position ≤ log.size then
    pure (readBigEndianUint32 log.data (position.toNat + (14 + offsetToBlockStart log.version)) + 1)
  else throw "Invalid block position ${position}"

/-- `last_block_position()`: the last eight bytes of the file. -/
def lastBlockPosition (log : BlockLogData) : UInt64 :=
  readUint64 log.data (log.size - 8)

/-- `last_block_num()`. -/
def lastBlockNum (log : BlockLogData) : Except String UInt32 :=
  log.blockNumAt log.lastBlockPosition

/-- `num_blocks()`: none when the first block would start at the end of the file, otherwise the
distance from the first block number to the last, counted in `uint32_t`. -/
def numBlocks (log : BlockLogData) : Except String UInt32 :=
  if log.firstBlockPos = log.size then pure 0
  else do
    let last ← log.lastBlockNum
    pure (last - log.firstBlockNum + 1)

end BlockLogData

/-- `reverse_block_position_iterator`: the position of the trailing start position being read, and
the position, eight bytes before the first block, where the walk ends. -/
structure ReverseBlockPositionIterator where
  beginPosition : UInt64
  currentPosition : UInt64
deriving DecidableEq, Repr

namespace ReverseBlockPositionIterator

/-- `make_reverse_block_position_iterator(log)`: at the last eight bytes of the file. -/
def make (log : BlockLogData) : ReverseBlockPositionIterator :=
  ⟨log.firstBlockPos - 8, log.size - 8⟩

/-- `get_value()`: the position stored at the current position, `npos` once the walk has passed
the first block. -/
def getValue (iter : ReverseBlockPositionIterator) (data : List UInt8) : UInt64 :=
  if iter.currentPosition ≤ iter.beginPosition then npos else readUint64 data iter.currentPosition

/-- `operator++`: to the eight bytes before the start the current position holds. -/
def next (iter : ReverseBlockPositionIterator) (data : List UInt8) :
    Except String ReverseBlockPositionIterator :=
  if iter.beginPosition < iter.currentPosition ∧ iter.currentPosition < data.length.toUInt64 then
    pure { iter with currentPosition := readUint64 data iter.currentPosition - 8 }
  else
    throw ("Block log file formatting is incorrect, it contains a block position value: ${pos}, " ++
      "which is not in the range of (${begin_pos},${last_pos})")

end ReverseBlockPositionIterator

/-- `index_writer`: the mapped index file and the offset below which it is still to be filled. -/
structure IndexWriter where
  currentOffset : Nat
  index : List UInt8

namespace IndexWriter

/-- `index_writer(path, blocks_expected)`: a new file of one zeroed slot per block, filled from the
top. -/
def create (blocksExpected : UInt32) : IndexWriter :=
  ⟨blocksExpected.toNat * 8, List.replicate (blocksExpected.toNat * 8) 0⟩

/-- `write(pos)`: the slot below the current offset. -/
def write (writer : IndexWriter) (pos : UInt64) : IndexWriter :=
  let currentOffset := writer.currentOffset - 8
  ⟨currentOffset,
    writer.index.take currentOffset ++ storeUint64 pos ++ writer.index.drop (currentOffset + 8)⟩

end IndexWriter

/-- The loop of `construct_index`: while the iterator has a value and fewer than `numBlocks`
blocks are found, write the value and step back; the iterator, the index and the blocks found
when it stops. -/
def walk (data : List UInt8) (iter : ReverseBlockPositionIterator) (index : IndexWriter)
    (blocksFound numBlocks : Nat) :
    Except String (ReverseBlockPositionIterator × IndexWriter × Nat) :=
  if iter.getValue data ≠ npos ∧ blocksFound < numBlocks then do
    let index := index.write (iter.getValue data)
    let iter ← iter.next data
    walk data iter index (blocksFound + 1) numBlocks
  else pure (iter, index, blocksFound)
termination_by numBlocks - blocksFound

/-- `block_log_data::construct_index(index_file_path)`: the index file it writes, and none when
the log holds no block. -/
def constructIndex (log : BlockLogData) : Except String (Option (List UInt8)) := do
  let numBlocks ← log.numBlocks
  if numBlocks = 0 then return none
  let (_, index, blocksFound) ← walk log.data (ReverseBlockPositionIterator.make log)
    (IndexWriter.create numBlocks) 0 numBlocks.toNat
  unless blocksFound = numBlocks.toNat do
    throw ("Block log file at '${blocks_log}' formatting indicated last block: ${last_block_num}, " ++
      "first block: ${first_block_num}, but found ${num} blocks")
  return some index.index

/-- A block as `create_block_buffer` packs it for an entry of `version`, with its block number: the
header puts the previous block's number big-endian fourteen bytes into the block, which starts
`offset_to_block_start(version)` bytes into the entry. -/
structure PackedBlock (version : UInt32) where
  bytes : List UInt8
  blockNum : UInt32
  previousNum :
    (bytes.drop (14 + offsetToBlockStart version)).take 4 = ByteKeys.bigEndian 4 (blockNum - 1).toNat

/-- What `block_log_impl` keeps of the active log: the two files and the preamble's first block
number. -/
structure BlockLogFiles where
  blockFile : List UInt8
  indexFile : List UInt8
  firstBlockNum : UInt32

/-- `block_log_impl::reset(first_bnum, chain_context)`: both files truncated and the preamble, of
bytes `preamble`, written to the log. -/
def reset (preamble : List UInt8) (firstBlockNum : UInt32) : BlockLogFiles :=
  ⟨preamble, [], firstBlockNum⟩

/-- `block_log_impl::write_log_entry(block_buffer)`: the block and then its start position
appended to the log, the position appended to the index; the position. -/
def writeLogEntry (files : BlockLogFiles) (blockBuffer : List UInt8) : BlockLogFiles × UInt64 :=
  let pos := files.blockFile.length.toUInt64
  ({ files with
      blockFile := files.blockFile ++ blockBuffer ++ storeUint64 pos
      indexFile := files.indexFile ++ storeUint64 pos }, pos)

/-- `block_log_impl::append(b, ...)`: the index must be at the slot of the block's number. -/
def append {version : UInt32} (files : BlockLogFiles) (block : PackedBlock version) :
    Except String (BlockLogFiles × UInt64) :=
  if files.indexFile.length = 8 * (block.blockNum - files.firstBlockNum).toNat then
    pure (writeLogEntry files block.bytes)
  else throw "Append to index file occuring at wrong position."

/-- Appending blocks one after the other: the files, and the position of each block. -/
def appendAll {version : UInt32} (files : BlockLogFiles) :
    List (PackedBlock version) → Except String (BlockLogFiles × List UInt64)
  | [] => pure (files, [])
  | block :: blocks => do
    let (files, pos) ← append files block
    let (files, positions) ← appendAll files blocks
    pure (files, pos :: positions)

/-! ### Reading back what was written -/

theorem length_storeUint64 (value : UInt64) : (storeUint64 value).length = 8 :=
  HostWords.length_store 8 value.toNat

theorem toNat_length_toUInt64 {l : List UInt8} (fits : l.length < 2 ^ 64) :
    l.length.toUInt64.toNat = l.length := by
  simp only [Nat.toUInt64_eq, UInt64.toNat_ofNat']
  omega

/-- A position written after `front` reads back from there. -/
theorem readUint64_append (front more : List UInt8) (value : UInt64)
    (fits : front.length < 2 ^ 64) :
    readUint64 (front ++ storeUint64 value ++ more) front.length.toUInt64 = value := by
  have loaded : HostWords.load 8 (storeUint64 value) = value.toNat := by
    rw [storeUint64, HostWords.load_store]
    exact Nat.mod_eq_of_lt value.toNat_lt
  rw [readUint64, toNat_length_toUInt64 fits, List.append_assoc, List.drop_left' rfl,
    List.take_left' (length_storeUint64 value), loaded, Nat.toUInt64_eq, UInt64.ofNat_toNat]

theorem toUInt64_sub_eight {n : Nat} (atLeast : 8 ≤ n) (fits : n < 2 ^ 64) :
    n.toUInt64 - 8 = (n - 8).toUInt64 := by
  have eight : (8 : UInt64) ≤ n.toUInt64 := by
    rw [UInt64.le_iff_toNat_le]
    simp only [Nat.toUInt64_eq, UInt64.toNat_ofNat', UInt64.reduceToNat]
    omega
  apply UInt64.toNat_inj.mp
  rw [UInt64.toNat_sub_of_le _ _ eight]
  simp only [Nat.toUInt64_eq, UInt64.toNat_ofNat', UInt64.reduceToNat]
  omega

theorem toUInt64_sub_eight_lt {m n : Nat} (atLeast : 8 ≤ m) (le : m ≤ n) (fits : n < 2 ^ 64) :
    m.toUInt64 - 8 < n.toUInt64 := by
  rw [toUInt64_sub_eight atLeast (by omega), UInt64.lt_iff_toNat_lt]
  simp only [Nat.toUInt64_eq, UInt64.toNat_ofNat']
  omega

/-- Eight bytes before the end of an entry is where its trailing position starts. -/
theorem length_entry_sub_eight (front : List UInt8) (pos : UInt64)
    (fits : front.length + 8 < 2 ^ 64) :
    (front ++ storeUint64 pos).length.toUInt64 - 8 = front.length.toUInt64 := by
  rw [List.length_append, length_storeUint64, toUInt64_sub_eight (by omega) fits, Nat.add_sub_cancel]

/-- Past the walk's end, the iterator reads the position stored where it stands. -/
theorem getValue_entry (front more : List UInt8) (pos : UInt64) {beginPosition : UInt64}
    (past : beginPosition < front.length.toUInt64) (fits : front.length < 2 ^ 64) :
    (⟨beginPosition, front.length.toUInt64⟩ : ReverseBlockPositionIterator).getValue
      (front ++ storeUint64 pos ++ more) = pos := by
  dsimp only [ReverseBlockPositionIterator.getValue]
  rw [if_neg (UInt64.not_le.mpr past), readUint64_append _ _ _ fits]

/-- Past the walk's end and inside the file, the iterator steps to the eight bytes before the
position stored where it stands. -/
theorem next_entry (front more : List UInt8) (pos : UInt64) {beginPosition : UInt64}
    (past : beginPosition < front.length.toUInt64)
    (fits : (front ++ storeUint64 pos ++ more).length < 2 ^ 64) :
    (⟨beginPosition, front.length.toUInt64⟩ : ReverseBlockPositionIterator).next
      (front ++ storeUint64 pos ++ more) = pure ⟨beginPosition, pos - 8⟩ := by
  have frontFits : front.length < 2 ^ 64 := by
    simp only [List.length_append, length_storeUint64] at fits
    omega
  have inside : front.length.toUInt64 < (front ++ storeUint64 pos ++ more).length.toUInt64 := by
    rw [UInt64.lt_iff_toNat_lt, toNat_length_toUInt64 frontFits, toNat_length_toUInt64 fits]
    simp only [List.length_append, length_storeUint64]
    omega
  dsimp only [ReverseBlockPositionIterator.next]
  rw [if_pos ⟨past, inside⟩, readUint64_append _ _ _ frontFits]

/-- The slot below the offset of a writer whose unfilled slots are `zeros`. -/
theorem write_zeros {zeros : List UInt8} {count : Nat} (filled : zeros.length = 8 * (count + 1))
    (rest : List UInt8) (pos : UInt64) :
    IndexWriter.write ⟨8 * (count + 1), zeros ++ rest⟩ pos =
      ⟨8 * count, zeros.take (8 * count) ++ (storeUint64 pos ++ rest)⟩ := by
  have below : 8 * count ≤ zeros.length := by omega
  simp only [IndexWriter.write, show 8 * (count + 1) - 8 = 8 * count by omega,
    List.take_append_of_le_length below, List.drop_left' (show zeros.length = 8 * count + 8 by omega),
    List.append_assoc]

theorem walk_of_stop {data : List UInt8} {iter : ReverseBlockPositionIterator} {index : IndexWriter}
    {blocksFound numBlocks : Nat}
    (stops : ¬ (iter.getValue data ≠ npos ∧ blocksFound < numBlocks)) :
    walk data iter index blocksFound numBlocks = pure (iter, index, blocksFound) := by
  rw [walk, if_neg stops]

theorem walk_of_next {data : List UInt8} {iter iter' : ReverseBlockPositionIterator}
    {index : IndexWriter} {blocksFound numBlocks : Nat}
    (goesOn : iter.getValue data ≠ npos ∧ blocksFound < numBlocks)
    (steps : iter.next data = pure iter') :
    walk data iter index blocksFound numBlocks =
      walk data iter' (index.write (iter.getValue data)) (blocksFound + 1) numBlocks := by
  rw [walk, if_pos goesOn, steps, pure_bind]

/-- A count of at most `2 ^ 32` that is no zero `uint32_t` is below `2 ^ 32`, and the `uint32_t`
holds it exactly. -/
theorem toNat_toUInt32_of_ne_zero {n : Nat} (atMost : n ≤ 2 ^ 32) (nonzero : n.toUInt32 ≠ 0) :
    n.toUInt32.toNat = n := by
  have below : n < 2 ^ 32 := by
    rcases Nat.lt_or_ge n (2 ^ 32) with below | atLeast
    · exact below
    · exact absurd (by rw [show n = 2 ^ 32 by omega]; rfl) nonzero
  simp only [Nat.toUInt32_eq, UInt32.toNat_ofNat']
  omega

/-- The block number `block_num_at` reads from the header of an entry's block. -/
theorem PackedBlock.blockNum_read {version : UInt32} (block : PackedBlock version)
    (front more : List UInt8) :
    readBigEndianUint32 (front ++ block.bytes ++ more)
        (front.length + (14 + offsetToBlockStart version)) + 1 = block.blockNum := by
  have header := block.previousNum
  have long : 4 ≤ (block.bytes.drop (14 + offsetToBlockStart version)).length := by
    have headerLength := congrArg List.length header
    rw [List.length_take, ByteKeys.length_bigEndian] at headerLength
    omega
  -- the header holds the previous number big-endian, which the host reads reversed
  have reversed : (ByteKeys.bigEndian 4 (block.blockNum - 1).toNat).reverse =
      HostWords.store 4 (block.blockNum - 1).toNat := by
    rw [← HostWords.reverse_store, List.reverse_reverse]
  have fits : (block.blockNum - 1).toNat < 256 ^ 4 := by
    simpa using (block.blockNum - 1).toNat_lt
  rw [readBigEndianUint32, List.append_assoc, List.drop_length_add_append,
    List.drop_append_of_le_length (by rw [List.length_drop] at long; omega),
    List.take_append_of_le_length long, header, reversed, HostWords.load_store, Nat.mod_eq_of_lt fits,
    Nat.toUInt32_eq, UInt32.ofNat_toNat, UInt32.sub_add_cancel]

theorem length_flatten_storeUint64 (positions : List UInt64) :
    ((positions.map storeUint64).flatten).length = 8 * positions.length := by
  induction positions with
  | nil => rfl
  | cons pos positions inductionHypothesis =>
    rw [List.map_cons, List.flatten_cons, List.length_append, length_storeUint64, inductionHypothesis,
      List.length_cons]
    omega

/-! ### Written logs -/

/-- The log files that `reset` and successful appends leave: the preamble, then each packed block
followed by its start position, with the positions in the order of the appends; each block is
numbered by how many came before it, counted from `first`. -/
inductive Written (preamble : List UInt8) (version first : UInt32) : List UInt8 → List UInt64 → Prop
  | reset : Written preamble version first preamble []
  | append {file : List UInt8} {positions : List UInt64} (block : PackedBlock version)
      (numbered : (block.blockNum - first).toNat = positions.length) :
      Written preamble version first file positions →
      Written preamble version first (file ++ block.bytes ++ storeUint64 file.length.toUInt64)
        (positions ++ [file.length.toUInt64])

section Written

variable {preamble file : List UInt8} {version first : UInt32} {positions : List UInt64}

theorem Written.preamble_le (written : Written preamble version first file positions) :
    preamble.length ≤ file.length := by
  induction written with
  | reset => exact Nat.le_refl _
  | append block _ _ atLeast =>
    simp only [List.length_append]
    omega

/-- A written log has at most one block per `uint32_t` block number. -/
theorem Written.length_le (written : Written preamble version first file positions) :
    positions.length ≤ 2 ^ 32 := by
  cases written with
  | reset => simp
  | append block numbered _ =>
    have := (block.blockNum - first).toNat_lt
    rw [List.length_append, List.length_singleton]
    omega

/-- **A written log counts its appends**: `num_blocks` is their number as a `uint32_t`, read from
the number of the last block, which the appends numbered consecutively from the first. -/
theorem numBlocks_written (written : Written preamble version first file positions)
    (fits : file.length < 2 ^ 64) :
    (⟨file, version, first, preamble.length.toUInt64⟩ : BlockLogData).numBlocks =
      pure positions.length.toUInt32 := by
  cases written with
  | reset => simp [BlockLogData.numBlocks, BlockLogData.size]
  | @append file positions block numbered written =>
    have atLeast := written.preamble_le
    simp only [List.length_append, length_storeUint64] at fits
    -- a block follows the preamble, so the log is not empty
    have notEmpty : preamble.length.toUInt64 ≠
        (file ++ block.bytes ++ storeUint64 file.length.toUInt64).length.toUInt64 := by
      intro same
      have lengths := congrArg UInt64.toNat same
      simp only [Nat.toUInt64_eq, UInt64.toNat_ofNat', List.length_append,
        length_storeUint64] at lengths
      omega
    have lastPosition : readUint64 (file ++ block.bytes ++ storeUint64 file.length.toUInt64)
        ((file ++ block.bytes ++ storeUint64 file.length.toUInt64).length.toUInt64 - 8) =
          file.length.toUInt64 := by
      have read := readUint64_append (file ++ block.bytes) [] file.length.toUInt64 (by simp; omega)
      rw [List.append_nil] at read
      rw [length_entry_sub_eight _ _ (by simp; omega), read]
    have inFile : file.length.toUInt64 ≤
        (file ++ block.bytes ++ storeUint64 file.length.toUInt64).length.toUInt64 := by
      rw [UInt64.le_iff_toNat_le, toNat_length_toUInt64 (by omega),
        toNat_length_toUInt64 (by simp [length_storeUint64]; omega)]
      simp
    have lastNum := block.blockNum_read file (storeUint64 file.length.toUInt64)
    have difference : block.blockNum - first = positions.length.toUInt32 := by
      rw [← numbered, Nat.toUInt32_eq, UInt32.ofNat_toNat]
    simp only [BlockLogData.numBlocks, BlockLogData.lastBlockNum, BlockLogData.lastBlockPosition,
      BlockLogData.blockNumAt, BlockLogData.size]
    simp only [notEmpty, if_false, lastPosition, inFile, if_true]
    rw [toNat_length_toUInt64 (by omega), lastNum, pure_bind, difference, List.length_append,
      List.length_singleton, Nat.toUInt32_eq,
      Nat.toUInt32_eq, UInt32.ofNat_add]
    rfl

end Written

/-- **Appends keep the files written**: after the appends the log is the preamble followed by one
entry per block, the index holds the entries' start positions in order, and each block is
numbered by its place from the first block number. The induction is on the blocks, from files
already written; `append`'s check that the index is at the block's slot is what numbers them. -/
theorem appendAll_written {preamble : List UInt8} {version : UInt32} :
    ∀ (blocks : List (PackedBlock version)) {files files' : BlockLogFiles}
      {positions positions' : List UInt64},
      Written preamble version files.firstBlockNum files.blockFile positions →
      files.indexFile = (positions.map storeUint64).flatten →
      appendAll files blocks = .ok (files', positions') →
        files'.firstBlockNum = files.firstBlockNum ∧
        Written preamble version files.firstBlockNum files'.blockFile (positions ++ positions') ∧
        files'.indexFile = ((positions ++ positions').map storeUint64).flatten ∧
        positions'.length = blocks.length ∧
        ∀ i (inRange : i < blocks.length),
          (blocks.get ⟨i, inRange⟩).blockNum = files.firstBlockNum + (positions.length + i).toUInt32
  | [], files, files', positions, positions', written, indexed, appended => by
    cases appended
    simpa using ⟨written, indexed⟩
  | block :: blocks, files, files', positions, positions', written, indexed, appended => by
    have slot : files.indexFile.length = 8 * (block.blockNum - files.firstBlockNum).toNat := by
      by_contra wrong
      rw [appendAll, append, if_neg wrong] at appended
      cases appended
    have numbered : (block.blockNum - files.firstBlockNum).toNat = positions.length := by
      rw [indexed, length_flatten_storeUint64] at slot
      omega
    rw [appendAll, append, if_pos slot] at appended
    generalize step : writeLogEntry files block.bytes = entry at appended
    obtain ⟨next, pos⟩ := entry
    rw [pure_bind] at appended
    dsimp only at appended
    cases rest : appendAll next blocks with
    | error message =>
      rw [rest] at appended
      cases appended
    | ok result =>
      obtain ⟨last, positionsAfter⟩ := result
      rw [rest] at appended
      cases appended
      simp only [writeLogEntry, Prod.mk.injEq] at step
      obtain ⟨rfl, rfl⟩ := step
      obtain ⟨sameFirst, writtenAfter, indexedAfter, countAfter, numberedAfter⟩ :=
        appendAll_written blocks (Written.append block numbered written)
          (by simp [indexed]) rest
      refine ⟨sameFirst, ?_, ?_, by simp [countAfter], ?_⟩
      · simpa using writtenAfter
      · simpa using indexedAfter
      · intro i inRange
        cases i with
        | zero =>
          show block.blockNum = files.firstBlockNum + (positions.length + 0).toUInt32
          rw [← numbered, Nat.add_zero, Nat.toUInt32_eq, UInt32.ofNat_toNat,
            UInt32.add_comm, UInt32.sub_add_cancel]
        | succ i =>
          rw [List.get_cons_succ, numberedAfter i (by simpa using inRange)]
          simp [Nat.add_assoc, Nat.add_comm 1 i]

/-! ### The rebuilt index -/

section Walk

variable {preamble : List UInt8} {version first : UInt32} (longPreamble : 8 ≤ preamble.length)
include longPreamble

/-- **The walk reads back the positions of a written log**, filling the slots below the writer's
offset from the top, and stops eight bytes before the first block. The induction is on the
appends: the last entry's trailing position is read first, and the step to the eight bytes before
it leaves the walk on the log as it was before that append. -/
theorem walk_written {file : List UInt8} {positions : List UInt64}
    (written : Written preamble version first file positions) :
    ∀ (more zeros rest : List UInt8) (found : Nat), (file ++ more).length < 2 ^ 64 →
      zeros.length = 8 * positions.length →
      walk (file ++ more) ⟨preamble.length.toUInt64 - 8, file.length.toUInt64 - 8⟩
          ⟨8 * positions.length, zeros ++ rest⟩ found (found + positions.length) =
        .ok (⟨preamble.length.toUInt64 - 8, preamble.length.toUInt64 - 8⟩,
          ⟨0, (positions.map storeUint64).flatten ++ rest⟩, found + positions.length) := by
  induction written with
  | reset =>
    intro more zeros rest found _ noZeros
    rw [List.length_nil, Nat.mul_zero, List.length_eq_zero_iff] at noZeros
    subst noZeros
    -- at the first block the iterator has no value
    have stops : ¬ ((⟨preamble.length.toUInt64 - 8, preamble.length.toUInt64 - 8⟩ :
        ReverseBlockPositionIterator).getValue (preamble ++ more) ≠ npos ∧ found < found + 0) := by
      simp [ReverseBlockPositionIterator.getValue]
    rw [List.length_nil, Nat.mul_zero, walk_of_stop stops]
    rfl
  | @append file positions block numbered written inductionHypothesis =>
    intro more zeros rest found fits filled
    have atLeast := written.preamble_le
    simp only [List.length_append, length_storeUint64] at fits
    have past : preamble.length.toUInt64 - 8 < (file ++ block.bytes).length.toUInt64 :=
      toUInt64_sub_eight_lt longPreamble (by simp; omega) (by simp; omega)
    have notNpos : file.length.toUInt64 ≠ npos := by
      intro same
      have := congrArg UInt64.toNat same
      rw [toNat_length_toUInt64 (by omega)] at this
      simp [npos] at this
      omega
    have count : (positions ++ [file.length.toUInt64]).length = positions.length + 1 := by simp
    rw [count] at filled
    -- the last entry's start is read and written to the top slot, and the walk steps below it
    have value := getValue_entry (file ++ block.bytes) more file.length.toUInt64 past (by simp; omega)
    rw [length_entry_sub_eight _ _ (by simp; omega), count,
      walk_of_next ⟨by rw [value]; exact notNpos, by omega⟩
        (next_entry _ _ _ past (by simp [length_storeUint64]; omega)),
      value, write_zeros filled,
      show found + (positions.length + 1) = found + 1 + positions.length by omega]
    have shifted := inductionHypothesis (block.bytes ++ storeUint64 file.length.toUInt64 ++ more)
      (zeros.take (8 * positions.length)) (storeUint64 file.length.toUInt64 ++ rest) (found + 1)
      (by simp only [List.length_append, length_storeUint64]; omega)
      (by simp only [List.length_take]; omega)
    simp only [List.append_assoc] at shifted ⊢
    rw [shifted, List.map_append, List.flatten_append, List.map_singleton, List.flatten_singleton,
      List.append_assoc]

end Walk

/-- **Rebuilding the index agrees with the index the appends wrote.** For the log that `reset` and
a run of successful appends leave, with the first block starting where the preamble ends: the
appends numbered the blocks consecutively from the first block number and wrote their start
positions to the index in order; `num_blocks` is their number; when that is not zero, the walk
of `construct_index` visits exactly that many entries, ends at the begin position eight bytes
before the first block and fills every slot; and the index it writes is the one the appends
wrote. The log's size must fit its `uint64_t`, and the preamble holds at least its eight-byte
totem. -/
theorem constructIndex_agrees {preamble : List UInt8} {version first : UInt32}
    {blocks : List (PackedBlock version)} {files : BlockLogFiles} {positions : List UInt64}
    (longPreamble : 8 ≤ preamble.length)
    (appended : appendAll (reset preamble first) blocks = .ok (files, positions))
    (fits : files.blockFile.length < 2 ^ 64) :
    (∀ i (inRange : i < blocks.length), (blocks.get ⟨i, inRange⟩).blockNum = first + i.toUInt32) ∧
      positions.length = blocks.length ∧
      files.indexFile = (positions.map storeUint64).flatten ∧
      (⟨files.blockFile, version, first, preamble.length.toUInt64⟩ : BlockLogData).numBlocks =
        .ok blocks.length.toUInt32 ∧
      (blocks.length.toUInt32 ≠ 0 →
        walk files.blockFile
            (ReverseBlockPositionIterator.make
              ⟨files.blockFile, version, first, preamble.length.toUInt64⟩)
            (IndexWriter.create blocks.length.toUInt32) 0 blocks.length.toUInt32.toNat =
          .ok (⟨preamble.length.toUInt64 - 8, preamble.length.toUInt64 - 8⟩, ⟨0, files.indexFile⟩,
            blocks.length)) ∧
      constructIndex ⟨files.blockFile, version, first, preamble.length.toUInt64⟩ =
        .ok (if blocks.length.toUInt32 = 0 then none else some files.indexFile) := by
  obtain ⟨-, written, indexed, count, numbered⟩ :=
    @appendAll_written _ _ blocks _ _ [] _ Written.reset rfl appended
  rw [List.nil_append] at written indexed
  dsimp only [reset] at written
  simp only [reset, List.length_nil, Nat.zero_add] at numbered
  have counted := numBlocks_written written fits
  rw [count] at counted
  -- with a block count that is no zero `uint32_t`, the count is the number of blocks
  have walked : blocks.length.toUInt32 ≠ 0 →
      walk files.blockFile
          (ReverseBlockPositionIterator.make
            ⟨files.blockFile, version, first, preamble.length.toUInt64⟩)
          (IndexWriter.create blocks.length.toUInt32) 0 blocks.length.toUInt32.toNat =
        .ok (⟨preamble.length.toUInt64 - 8, preamble.length.toUInt64 - 8⟩, ⟨0, files.indexFile⟩,
          blocks.length) := by
    intro nonzero
    have toNatEq := toNat_toUInt32_of_ne_zero (count ▸ written.length_le) nonzero
    have run := walk_written longPreamble written [] (List.replicate (8 * blocks.length) 0) [] 0
      (by simpa using fits) (by simp [count])
    simp only [List.append_nil, Nat.zero_add, count, ← indexed] at run
    rw [ReverseBlockPositionIterator.make, IndexWriter.create, toNatEq, Nat.mul_comm]
    exact run
  refine ⟨numbered, count, indexed, counted, walked, ?_⟩
  rw [constructIndex, counted, pure_bind]
  by_cases empty : blocks.length.toUInt32 = 0
  · simp only [empty, if_true]
    rfl
  · simp only [empty, if_false]
    rw [walked empty]
    dsimp only [bind, Except.bind]
    rw [if_pos (toNat_toUInt32_of_ne_zero (count ▸ written.length_le) empty).symm]
    rfl

/-- Blocks of version 4 numbered 2, 3 and 4: their size and compression, fourteen header bytes,
then the previous block's number big-endian. -/
def blockTwo : PackedBlock 4 := ⟨List.replicate 19 0 ++ [0, 0, 0, 1], 2, by decide⟩
def blockThree : PackedBlock 4 := ⟨List.replicate 19 0 ++ [0, 0, 0, 2], 3, by decide⟩
def blockFour : PackedBlock 4 := ⟨List.replicate 19 0 ++ [0, 0, 0, 3], 4, by decide⟩

/-- Three blocks appended after an eight-byte preamble: the walk of `construct_index` visits the
three trailing positions from the end and stops eight bytes before the first block, and the
index it writes is the one the appends wrote. -/
theorem constructIndex_agrees_threeBlocks :
    ∃ files : BlockLogFiles,
      appendAll (reset (List.replicate 8 0) 2) [blockTwo, blockThree, blockFour] =
        .ok (files, [8, 39, 70]) ∧
      files.indexFile = ([8, 39, 70].map storeUint64).flatten ∧
      walk files.blockFile
          (ReverseBlockPositionIterator.make ⟨files.blockFile, 4, 2, (8 : Nat).toUInt64⟩)
          (IndexWriter.create 3) 0 3 = .ok (⟨0, 0⟩, ⟨0, files.indexFile⟩, 3) ∧
      constructIndex ⟨files.blockFile, 4, 2, (8 : Nat).toUInt64⟩ = .ok (some files.indexFile) := by
  have appended : appendAll (reset (List.replicate 8 0) 2) [blockTwo, blockThree, blockFour] =
      .ok (_, [8, 39, 70]) := rfl
  have agrees := constructIndex_agrees (by decide) appended (by decide)
  exact ⟨_, appended, agrees.2.2.1, agrees.2.2.2.2.1 (by decide), agrees.2.2.2.2.2⟩

end Eosio.Chain.BlockLog
