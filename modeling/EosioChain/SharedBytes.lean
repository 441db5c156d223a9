/-
This file models how `eosio::session::shared_bytes` compares byte strings: `details::aligned_size`,
`details::aligned_compare`, which reads both buffers eight bytes at a time as big-endian words, and
the comparison operators over the zero-padded buffers the constructors allocate; and
`chain_kv::compare_blob`, the `memcmp` comparison of the RocksDB side of the store. On such
buffers the word-wise comparison has the sign of the byte-wise lexicographic order, as
`compare_blob` does, and `operator==` is equality of the bytes.

Words of eight bytes compare as their bytes do, so the word loop is the lexicographic comparison
of the buffers cut to the shorter aligned size. A difference inside the shorter string decides
both comparisons alike; when one string is a prefix of the other, the zeros that pad it are not
above the other's bytes, so either a word or the difference of the sizes gives the sign.
-/

import Mathlib
import EosioChain.ByteKeys
import EosioChain.ChainKvUndo
import EosioChain.MixedRadix

namespace B1.ChainKv

/-- `memcmp(a, b, n)` over unsigned bytes: the difference of the first pair among the first `n`
that differs, and zero when they all agree. -/
def memcmp : List UInt8 → List UInt8 → Nat → Int
  | x :: a, y :: b, n + 1 => if x = y then memcmp a b n else (x.toNat : Int) - y.toNat
  | _, _, _ => 0

/-- `compare_blob(a, b)`: `memcmp` over the shorter length, then the lengths. -/
def compareBlob (a b : List UInt8) : Int :=
  let r := memcmp a b (min a.length b.length)
  if r ≠ 0 then r
  else if a.length < b.length then -1
  else if a.length > b.length then 1
  else 0

end B1.ChainKv

namespace Eosio.Session

open MixedRadix ListLex

/-! ### The model -/

/-- `details::aligned_size(size)`: the size rounded up to a multiple of eight bytes. -/
def alignedSize (size : Nat) : Nat :=
  (size + 7) / 8 * 8

/-- The word `aligned_compare` reads at `offset`: eight bytes copied into a `uint64_t` on a
little-endian host and byte-swapped, so that the first byte is the most significant. -/
def wordAt (buffer : List UInt8) (offset : Nat) : Nat :=
  value (List.replicate 8 256) (((buffer.drop offset).take 8).map UInt8.toNat).reverse

/-- The loop of `aligned_compare` from word `i`, with `remaining` words left: equal words go on
to the next, the first unequal pair decides, and after the last word the sizes do. -/
def compareWordsFrom (left right : List UInt8) (leftSize rightSize : Int) (i : Nat) : Nat → Int
  | 0 => leftSize - rightSize
  | remaining + 1 =>
    if wordAt left (i * 8) = wordAt right (i * 8) then
      compareWordsFrom left right leftSize rightSize (i + 1) remaining
    else if wordAt left (i * 8) < wordAt right (i * 8) then -1 else 1

/-- `details::aligned_compare(left, left_size, right, right_size)`: the words of the shorter
aligned size, then the difference of the sizes. -/
def alignedCompare (left : List UInt8) (leftSize : Nat) (right : List UInt8) (rightSize : Nat) :
    Int :=
  compareWordsFrom left right leftSize rightSize 0
    (min (alignedSize leftSize) (alignedSize rightSize) / 8)

/-- A `shared_bytes`, by the bytes it holds. -/
structure SharedBytes where
  bytes : List UInt8

namespace SharedBytes

/-- `shared_bytes::size()`. -/
def size (s : SharedBytes) : Nat :=
  s.bytes.length

/-- The buffer every constructor allocates: the bytes, then `m_offset` zeros up to the aligned
size. -/
def buffer (s : SharedBytes) : List UInt8 :=
  s.bytes ++ List.replicate (alignedSize s.size - s.size) 0

/-- `shared_bytes::operator==`, after its first test: two handles on one buffer are equal at once,
and they hold the same bytes. -/
def eq (a b : SharedBytes) : Bool :=
  if a.size ≠ b.size then false else alignedCompare a.buffer a.size b.buffer b.size = 0

/-- `shared_bytes::operator<`, after the same first test. -/
def lt (a b : SharedBytes) : Bool :=
  alignedCompare a.buffer a.size b.buffer b.size < 0

/-- `next()`: the carry loop of `get_next_prefix` on a copy of the bytes, which must leave some. -/
def next (s : SharedBytes) : Except String SharedBytes :=
  let buffer := (B1.ChainKv.getNextPrefix.incrementLast s.bytes.reverse).reverse
  if buffer.isEmpty then throw "shared_bytes::next() result buffer is empty" else pure ⟨buffer⟩

end SharedBytes

/-! ### Words -/

theorem fits_chunk {chunk : List UInt8} (length : chunk.length = 8) :
    Fits (List.replicate 8 256) (chunk.map UInt8.toNat).reverse :=
  fits_replicate (by simp [length]) (by simpa using fun byte _ => UInt8.toNat_lt byte)

theorem map_toNat_lt_map_toNat_iff {l₁ l₂ : List UInt8} :
    l₁.map UInt8.toNat < l₂.map UInt8.toNat ↔ l₁ < l₂ :=
  map_lt_map_iff_of_lt_iff (fun _ _ same => UInt8.toNat_inj.mp same)
    fun _ _ => UInt8.lt_iff_toNat_lt.symm

section Words

variable {left right : List UInt8} {offset : Nat}
  (leftLength : 8 ≤ (left.drop offset).length) (rightLength : 8 ≤ (right.drop offset).length)

include leftLength rightLength

/-- **Words compare as their eight bytes do.** -/
theorem wordAt_lt_wordAt_iff :
    wordAt left offset < wordAt right offset ↔
      (left.drop offset).take 8 < (right.drop offset).take 8 := by
  rw [wordAt, wordAt, value_lt_value_iff (fits_chunk (by simpa using leftLength))
    (fits_chunk (by simpa using rightLength)), List.reverse_reverse, List.reverse_reverse,
    map_toNat_lt_map_toNat_iff]

theorem wordAt_eq_wordAt_iff :
    wordAt left offset = wordAt right offset ↔
      (left.drop offset).take 8 = (right.drop offset).take 8 := by
  constructor
  · intro same
    have digits := value_injective (fits_chunk (by simpa using leftLength))
      (fits_chunk (by simpa using rightLength)) same
    exact List.map_injective_iff.mpr (fun _ _ same => UInt8.toNat_inj.mp same)
      (List.reverse_injective digits)
  · intro same
    rw [wordAt, wordAt, same]

end Words

/-! ### The word loop -/

/-- The bytes of `remaining + 1` words from word `i`: the word at `i`, then `remaining` words
from the next. -/
theorem take_words (buffer : List UInt8) (i remaining : Nat) :
    (buffer.drop (i * 8)).take ((remaining + 1) * 8) =
      (buffer.drop (i * 8)).take 8 ++ (buffer.drop ((i + 1) * 8)).take (remaining * 8) := by
  rw [show (remaining + 1) * 8 = 8 + remaining * 8 by ring, List.take_add, List.drop_drop,
    show i * 8 + 8 = (i + 1) * 8 by ring]

/-- **The word loop compares the bytes of its words lexicographically**, and leaves equal bytes
to the sizes. -/
theorem compareWordsFrom_eq {left right : List UInt8} {leftSize rightSize : Int} :
    ∀ remaining i : Nat, (i + remaining) * 8 ≤ left.length → (i + remaining) * 8 ≤ right.length →
      compareWordsFrom left right leftSize rightSize i remaining =
        compareThen ((left.drop (i * 8)).take (remaining * 8))
          ((right.drop (i * 8)).take (remaining * 8)) (leftSize - rightSize)
  | 0, i, _, _ => by simp [compareWordsFrom, compareThen]
  | remaining + 1, i, leftLength, rightLength => by
    have leftWord : 8 ≤ (left.drop (i * 8)).length := by
      rw [List.length_drop]
      omega
    have rightWord : 8 ≤ (right.drop (i * 8)).length := by
      rw [List.length_drop]
      omega
    have sameLength : ((left.drop (i * 8)).take 8).length = ((right.drop (i * 8)).take 8).length := by
      simp only [List.length_take]
      omega
    rw [compareWordsFrom, take_words, take_words]
    by_cases same : wordAt left (i * 8) = wordAt right (i * 8)
    · -- an equal word: the loop goes on, and the common bytes leave the comparison to the rest
      rw [if_pos same, (wordAt_eq_wordAt_iff leftWord rightWord).mp same, compareThen_append_left,
        compareWordsFrom_eq remaining (i + 1) (by omega) (by omega)]
    · -- the first unequal word decides, as its first unequal byte does
      have differ := mt (wordAt_eq_wordAt_iff leftWord rightWord).mpr same
      rw [if_neg same, compareThen_append_of_ne sameLength differ _ _ _ 0, compareThen,
        if_neg differ]
      simp only [wordAt_lt_wordAt_iff leftWord rightWord]

/-- **`aligned_compare` compares the buffers cut to the shorter aligned size**, and leaves equal
bytes to the sizes. -/
theorem alignedCompare_eq {left right : List UInt8} {leftSize rightSize : Nat}
    (leftLength : alignedSize leftSize ≤ left.length)
    (rightLength : alignedSize rightSize ≤ right.length) :
    alignedCompare left leftSize right rightSize =
      compareThen (left.take (min (alignedSize leftSize) (alignedSize rightSize)))
        (right.take (min (alignedSize leftSize) (alignedSize rightSize)))
        ((leftSize : Int) - rightSize) := by
  -- both aligned sizes are whole words, so the loop reads exactly the shorter one
  have wholeWords : min (alignedSize leftSize) (alignedSize rightSize) / 8 * 8 =
      min (alignedSize leftSize) (alignedSize rightSize) := by
    unfold alignedSize
    omega
  unfold alignedCompare
  rw [compareWordsFrom_eq _ 0 (by omega) (by omega), Nat.zero_mul, List.drop_zero, List.drop_zero,
    wholeWords]

/-! ### Padding -/

theorem le_alignedSize (size : Nat) : size ≤ alignedSize size := by
  unfold alignedSize
  omega

theorem SharedBytes.length_buffer (s : SharedBytes) : s.buffer.length = alignedSize s.size := by
  have atLeast := le_alignedSize s.size
  rw [SharedBytes.buffer, List.length_append, List.length_replicate]
  unfold SharedBytes.size at *
  omega

/-- Nothing of a given length lies below that many zero bytes. -/
theorem not_lt_replicate_zero : ∀ l : List UInt8, ¬ l < List.replicate l.length 0
  | [] => List.lt_irrefl []
  | _ :: l => by
    rw [List.length_cons, List.replicate_succ, List.cons_lt_cons_iff, not_or, not_and]
    exact ⟨UInt8.not_lt_zero, fun _ => not_lt_replicate_zero l⟩

/-- Zero bytes against a string of their length: never above it, so a negative tie keeps the
comparison negative. -/
theorem compareThen_replicate_zero_neg {l : List UInt8} {tie : Int} (negative : tie < 0) :
    compareThen (List.replicate l.length 0) l tie < 0 := by
  have split : List.replicate l.length 0 < l ∨ List.replicate l.length 0 = l ∨
      l < List.replicate l.length 0 :=
    trichotomous_of (· < ·) _ _
  unfold compareThen
  split_ifs with same below
  · exact negative
  · decide
  · exact absurd ((split.resolve_left below).resolve_left same) (not_lt_replicate_zero l)

/-- A string against itself extended, both padded with zeros and cut to one length: the zeros are
not above the extension, and the sizes differ by its length. -/
theorem sign_compareThen_prefix (a c : List UInt8) {k p q : Nat} (withinLeft : k ≤ p)
    (withinRight : k ≤ c.length + q) :
    (compareThen (a ++ (List.replicate p 0).take k) (a ++ (c ++ List.replicate q 0).take k)
      (-(c.length : Int))).sign = lexSign a (a ++ c) := by
  rw [compareThen_append_left, List.take_replicate, min_eq_left withinLeft]
  cases c with
  | nil =>
    -- no extension: the same zeros on both sides, and equal sizes
    have zeros : (([] : List UInt8) ++ List.replicate q 0).take k = List.replicate k 0 := by
      rw [List.nil_append, List.take_replicate, min_eq_left (by simpa using withinRight)]
    rw [zeros, List.append_nil]
    simp [compareThen, lexSign]
  | cons x c =>
    -- a proper extension is above, and the zeros are not above what extends it
    have grows : a ++ [] < a ++ x :: c :=
      (ByteKeys.append_lt_append_iff_left a).mpr (List.nil_lt_cons x c)
    rw [List.append_nil] at grows
    have restLength : ((x :: c ++ List.replicate q 0).take k).length = k := by
      simp only [List.length_take, List.length_append, List.length_replicate]
      omega
    have negative : compareThen (List.replicate k 0) ((x :: c ++ List.replicate q 0).take k)
        (-((x :: c).length : Int)) < 0 := by
      have zeros := compareThen_replicate_zero_neg
        (l := (x :: c ++ List.replicate q 0).take k) (show -((x :: c).length : Int) < 0 by simp; omega)
      rwa [restLength] at zeros
    rw [lexSign_eq_neg_one_iff.mpr grows, Int.sign_eq_neg_one_iff_neg]
    exact negative

/-- The case where the shorter string is a prefix of the longer. -/
theorem sign_compareThen_take_padded_of_prefix {a b : List UInt8} {p q m : Nat}
    (agree : b.take a.length = a) (covers : a.length ≤ m) (leftWithin : m ≤ a.length + p)
    (rightWithin : m ≤ b.length + q) :
    (compareThen ((a ++ List.replicate p 0).take m) ((b ++ List.replicate q 0).take m)
      ((a.length : Int) - b.length)).sign = lexSign a b := by
  obtain ⟨c, rfl⟩ : ∃ c, b = a ++ c := by
    refine ⟨b.drop a.length, ?_⟩
    nth_rewrite 1 [← List.take_append_drop a.length b]
    rw [agree]
  have leftCut : (a ++ List.replicate p 0).take m =
      a ++ (List.replicate p 0).take (m - a.length) := by
    rw [List.take_append, List.take_of_length_le covers]
  have rightCut : (a ++ c ++ List.replicate q 0).take m =
      a ++ (c ++ List.replicate q 0).take (m - a.length) := by
    rw [List.append_assoc, List.take_append, List.take_of_length_le covers]
  have tie : (a.length : Int) - (a ++ c).length = -(c.length : Int) := by
    rw [List.length_append]
    push_cast
    ring
  rw [List.length_append] at rightWithin
  rw [leftCut, rightCut, tie]
  exact sign_compareThen_prefix a c (by omega) (by omega)

/-- A cut of a padded string at `m` starts with the string's first `n` bytes, for `n` up to the
string's length and to `m`. -/
theorem take_padded (a pad : List UInt8) {n m : Nat} (withinString : n ≤ a.length) (upTo : n ≤ m) :
    (a ++ pad).take m = a.take n ++ ((a ++ pad).drop n).take (m - n) := by
  obtain ⟨k, rfl⟩ : ∃ k, m = n + k := ⟨m - n, by omega⟩
  rw [List.take_add, List.take_append_of_le_length withinString, Nat.add_sub_cancel_left]

/-- The case where the strings differ within the shorter length. -/
theorem sign_compareThen_take_padded_of_ne {a b : List UInt8} {m : Nat}
    (differ : a.take (min a.length b.length) ≠ b.take (min a.length b.length))
    (covers : min a.length b.length ≤ m) (p q : Nat) :
    (compareThen ((a ++ List.replicate p 0).take m) ((b ++ List.replicate q 0).take m)
      ((a.length : Int) - b.length)).sign = lexSign a b := by
  have sameLength : (a.take (min a.length b.length)).length =
      (b.take (min a.length b.length)).length := by
    simp only [List.length_take]
    omega
  -- the first difference decides both the strings and their cuts
  have whole := compareThen_append_of_ne sameLength differ (a.drop (min a.length b.length))
    (b.drop (min a.length b.length)) 0 0
  rw [List.take_append_drop, List.take_append_drop] at whole
  rw [take_padded a _ (min_le_left _ _) covers, take_padded b _ (min_le_right _ _) covers,
    compareThen_append_of_ne sameLength differ _ _ _ 0, lexSign, whole, ← lexSign, sign_lexSign]

/-- **Zero-padded strings cut to a length that covers the shorter compare as the strings do**,
with the difference of the lengths as the tie. -/
theorem sign_compareThen_take_padded {a b : List UInt8} {p q m : Nat}
    (covers : min a.length b.length ≤ m) (leftWithin : m ≤ a.length + p)
    (rightWithin : m ≤ b.length + q) :
    (compareThen ((a ++ List.replicate p 0).take m) ((b ++ List.replicate q 0).take m)
      ((a.length : Int) - b.length)).sign = lexSign a b := by
  by_cases agree : a.take (min a.length b.length) = b.take (min a.length b.length)
  · rcases le_total a.length b.length with shorter | longer
    · rw [min_eq_left shorter, List.take_length] at agree
      exact sign_compareThen_take_padded_of_prefix agree.symm (by omega) leftWithin rightWithin
    · -- the mirror image, with the strings swapped
      rw [min_eq_right longer, List.take_length] at agree
      apply sign_compareThen_of_swap
      rw [neg_sub]
      exact sign_compareThen_take_padded_of_prefix agree (by omega) rightWithin leftWithin
  · exact sign_compareThen_take_padded_of_ne agree covers p q

end Eosio.Session

namespace B1.ChainKv

open ListLex

/-- **`compare_blob` has the sign of the lexicographic order of the bytes.** -/
theorem compareBlob_sign : ∀ a b : List UInt8, (compareBlob a b).sign = lexSign a b
  | [], [] => by decide
  | [], y :: b => by simp [compareBlob, memcmp, lexSign, compareThen]
  | x :: a, [] => by simp [compareBlob, memcmp, lexSign, compareThen]
  | x :: a, y :: b => by
    by_cases same : x = y
    · -- an equal first byte: both comparisons go on with the rest
      subst same
      have shift : compareBlob (x :: a) (x :: b) = compareBlob a b := by
        simp [compareBlob, memcmp, Nat.add_min_add_right]
      rw [shift, compareBlob_sign a b]
      exact (compareThen_append_left [x] 0).symm
    · -- the first bytes differ, and their difference is what `memcmp` returns
      have differ : [x] ≠ [y] := fun equal => same (List.singleton_inj.mp equal)
      have toNatDiffer : x.toNat ≠ y.toNat := mt UInt8.toNat_inj.mp same
      have first : compareBlob (x :: a) (y :: b) = (x.toNat : Int) - y.toNat := by
        simp only [compareBlob, List.length_cons, Nat.add_min_add_right, memcmp, if_neg same]
        rw [if_pos (by omega)]
      show (compareBlob (x :: a) (y :: b)).sign = compareThen ([x] ++ a) ([y] ++ b) 0
      have singleLength : [x].length = [y].length := rfl
      rw [first, compareThen_append_of_ne singleLength differ _ _ _ 0, compareThen, if_neg differ]
      by_cases below : x < y
      · have singleton : [x] < [y] := List.cons_lt_cons_iff.mpr (Or.inl below)
        rw [if_pos singleton, Int.sign_eq_neg_one_iff_neg]
        have := UInt8.lt_iff_toNat_lt.mp below
        omega
      · have singleton : ¬ [x] < [y] := by
          simp [List.cons_lt_cons_iff, below, List.not_lt_nil]
        rw [if_neg singleton, Int.sign_eq_one_iff_pos]
        have := mt UInt8.lt_iff_toNat_lt.mpr below
        omega

end B1.ChainKv

namespace Eosio.Session

open ListLex

namespace SharedBytes

/-- The word-wise comparison of two buffers has the sign of the lexicographic order of the bytes. -/
theorem alignedCompare_sign (a b : SharedBytes) :
    (alignedCompare a.buffer a.size b.buffer b.size).sign = lexSign a.bytes b.bytes := by
  have leftPadded := le_alignedSize a.size
  have rightPadded := le_alignedSize b.size
  rw [alignedCompare_eq (length_buffer a).ge (length_buffer b).ge]
  unfold buffer size at *
  exact sign_compareThen_take_padded (by omega) (by omega) (by omega)

/-- `operator==` holds exactly for equal bytes. -/
theorem eq_iff (a b : SharedBytes) : a.eq b = true ↔ a.bytes = b.bytes := by
  unfold eq
  by_cases sameSize : a.size = b.size
  · rw [if_neg (not_not.mpr sameSize), decide_eq_true_iff, ← Int.sign_eq_zero_iff_zero,
      alignedCompare_sign, lexSign_eq_zero_iff]
  · rw [if_pos sameSize]
    simp only [Bool.false_eq_true, false_iff]
    exact fun same => sameSize (by rw [size, size, same])

/-- `operator<` is the lexicographic order of the bytes. -/
theorem lt_iff (a b : SharedBytes) : a.lt b = true ↔ a.bytes < b.bytes := by
  rw [lt, decide_eq_true_iff, ← Int.sign_eq_neg_one_iff_neg, alignedCompare_sign,
    lexSign_eq_neg_one_iff]

/-- A string is below itself extended by a zero byte: the padded buffers agree word for word,
and the sizes decide. -/
example : lt ⟨[1, 2]⟩ ⟨[1, 2, 0]⟩ = true := by decide

/-- **`shared_bytes` compares as its bytes do.** The word-wise `aligned_compare` of two padded
buffers has the sign of the lexicographic order of the bytes, the sign `compare_blob` gives, and
`operator==` holds exactly for equal bytes. -/
theorem compare_agrees_bytewise (a b : SharedBytes) :
    (alignedCompare a.buffer a.size b.buffer b.size).sign = lexSign a.bytes b.bytes ∧
      (B1.ChainKv.compareBlob a.bytes b.bytes).sign = lexSign a.bytes b.bytes ∧
      (a.eq b = true ↔ a.bytes = b.bytes) :=
  ⟨alignedCompare_sign a b, B1.ChainKv.compareBlob_sign a.bytes b.bytes, eq_iff a b⟩

end SharedBytes

end Eosio.Session

/-! ### Prefix successors

Read from the back, a string that is not all `0xff` is a run of `0xff` bytes, a byte below the
top and a front; the carry loop drops the run and raises the byte. Forwards, the string is
`front ++ byte :: 0xff…` and its successor `front ++ [byte + 1]`, the bound
`ByteKeys.prefix_iff_between` puts on the keys that extend it. -/

namespace B1.ChainKv

theorem incrementLast_replicate_append (count : Nat) {byte : UInt8} (belowTop : byte ≠ 0xFF)
    (front : List UInt8) :
    getNextPrefix.incrementLast (List.replicate count 0xFF ++ byte :: front) =
      (byte + 1) :: front := by
  induction count with
  | zero =>
    have raised : byte + 1 ≠ 0 := fun wraps => belowTop (by
      have sum := congrArg UInt8.toNat wraps
      simp only [UInt8.toNat_add, UInt8.reduceToNat] at sum
      have := byte.toNat_lt
      exact UInt8.toNat_inj.mp (by simp only [UInt8.reduceToNat]; omega))
    rw [List.replicate_zero, List.nil_append, getNextPrefix.incrementLast, if_pos raised]
  | succ count inductionHypothesis =>
    rw [List.replicate_succ, List.cons_append, getNextPrefix.incrementLast, if_neg (by decide),
      inductionHypothesis]

theorem incrementLast_replicate :
    ∀ count : Nat, getNextPrefix.incrementLast (List.replicate count 0xFF) = []
  | 0 => rfl
  | count + 1 => by
    rw [List.replicate_succ, getNextPrefix.incrementLast, if_neg (by decide),
      incrementLast_replicate count]

/-- A string with a byte below the top is a run of top bytes, that byte and the rest. -/
theorem eq_replicate_append_of_ne : ∀ bytes : List UInt8, (∃ byte ∈ bytes, byte ≠ 0xFF) →
    ∃ count byte front, byte ≠ 0xFF ∧ bytes = List.replicate count 0xFF ++ byte :: front
  | [], ⟨_, absent, _⟩ => absurd absent List.not_mem_nil
  | first :: rest, belowTop => by
    by_cases top : first = 0xFF
    · obtain ⟨byte, member, below⟩ := belowTop
      rcases List.mem_cons.mp member with rfl | inRest
      · exact absurd top below
      obtain ⟨count, byte, front, below, rfl⟩ :=
        eq_replicate_append_of_ne rest ⟨byte, inRest, below⟩
      exact ⟨count + 1, byte, front, below, by rw [top, List.replicate_succ, List.cons_append]⟩
    · exact ⟨0, first, rest, top, rfl⟩

/-- Forwards: a string with a byte below the top is a front, that byte and a run of top bytes. -/
theorem eq_append_replicate_of_ne {bytes : List UInt8} (belowTop : ∃ byte ∈ bytes, byte ≠ 0xFF) :
    ∃ front byte count, byte ≠ 0xFF ∧ bytes = front ++ byte :: List.replicate count 0xFF := by
  obtain ⟨count, byte, front, below, reversed⟩ :=
    eq_replicate_append_of_ne bytes.reverse (by simpa only [List.mem_reverse] using belowTop)
  refine ⟨front.reverse, byte, count, below, ?_⟩
  rw [← List.reverse_reverse bytes, reversed, List.reverse_append, List.reverse_cons,
    List.reverse_replicate, List.append_assoc, List.singleton_append]

/-- **The successor of `front ++ byte :: 0xff…`** raises the byte and drops the top bytes. -/
theorem getNextPrefix_append_replicate (front : List UInt8) {byte : UInt8}
    (belowTop : byte ≠ 0xFF) (count : Nat) :
    getNextPrefix (front ++ byte :: List.replicate count 0xFF) = front ++ [byte + 1] := by
  rw [getNextPrefix, List.reverse_append, List.reverse_cons, List.reverse_replicate,
    List.append_assoc, List.singleton_append, incrementLast_replicate_append count belowTop,
    List.reverse_cons, List.reverse_reverse]

theorem getNextPrefix_replicate (count : Nat) : getNextPrefix (List.replicate count 0xFF) = [] := by
  rw [getNextPrefix, List.reverse_replicate, incrementLast_replicate, List.reverse_nil]

end B1.ChainKv

namespace Eosio.Session.SharedBytes

open B1.ChainKv

/-- `next()` is `get_next_prefix` on the bytes, and throws where that leaves none. -/
theorem next_eq (s : SharedBytes) :
    s.next = if (getNextPrefix s.bytes).isEmpty then
      .error "shared_bytes::next() result buffer is empty" else .ok ⟨getNextPrefix s.bytes⟩ :=
  rfl

/-- **The prefix successor is exact.** For a string with a byte below `0xff`, the keys it is a
prefix of are those from it up to `get_next_prefix` of it, in the byte-wise order, and
`shared_bytes::next()` gives the same bound under `operator<`; for a string of `0xff` bytes alone,
`get_next_prefix` is empty and `next()` throws. -/
theorem next_prefix_exact (p : List UInt8) :
    ((∃ byte ∈ p, byte ≠ 0xFF) →
      (∀ key : List UInt8, p <+: key ↔ p ≤ key ∧ key < getNextPrefix p) ∧
      ∃ n, next ⟨p⟩ = .ok n ∧ n.bytes = getNextPrefix p ∧
        ∀ key : SharedBytes, p <+: key.bytes ↔ key.lt ⟨p⟩ = false ∧ key.lt n = true) ∧
    ((∀ byte ∈ p, byte = 0xFF) →
      getNextPrefix p = [] ∧ next ⟨p⟩ = .error "shared_bytes::next() result buffer is empty") := by
  constructor
  · intro belowTop
    obtain ⟨front, byte, count, below, rfl⟩ := eq_append_replicate_of_ne belowTop
    have bounds (key : List UInt8) := @ByteKeys.prefix_iff_between front byte below count key
    rw [getNextPrefix_append_replicate front below count]
    refine ⟨bounds, ⟨front ++ [byte + 1]⟩, ?_, rfl, fun key => ?_⟩
    · rw [next_eq, getNextPrefix_append_replicate front below count, if_neg (by simp)]
    · rw [← Bool.not_eq_true, lt_iff, lt_iff]
      exact bounds key.bytes
  · intro allTop
    have top : p = List.replicate p.length 0xFF := List.eq_replicate_iff.mpr ⟨rfl, allTop⟩
    rw [top, getNextPrefix_replicate]
    exact ⟨rfl, by rw [next_eq, getNextPrefix_replicate]; rfl⟩

end Eosio.Session.SharedBytes
