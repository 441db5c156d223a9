/-
This file models how a little-endian host lays out unsigned words in memory: a word of `width`
bytes holding `n` is its digits in base 256, least significant first. It gives the round trip from
a word to its bytes and back, reads arrays of words back from consecutive memory, and relates the
layout to the big-endian order of byte keys: a word's bytes reversed write it most significant
first, and an array of words stored in reverse order and then reversed byte by byte writes each
word big-endian, in order.
-/

import EosioChain.ByteKeys
import EosioChain.MixedRadix

namespace HostWords

open MixedRadix

/-- The bytes of a `width`-byte word holding `n` on a little-endian host, least significant
first. -/
def store (width n : Nat) : List UInt8 :=
  (digits (List.replicate width 256) n).map UInt8.ofNat

/-- The word a little-endian host reads from `bytes`. -/
def load (width : Nat) (bytes : List UInt8) : Nat :=
  value (List.replicate width 256) (bytes.map UInt8.toNat)

/-- The `count` words a little-endian host reads from consecutive memory, `width` bytes each. -/
def loadWords (width : Nat) : Nat → List UInt8 → List Nat
  | 0, _ => []
  | count + 1, bytes => load width (bytes.take width) :: loadWords width count (bytes.drop width)

@[simp] theorem length_store (width n : Nat) : (store width n).length = width := by
  rw [store, List.length_map, length_digits, List.length_replicate]

theorem map_toNat_store (width n : Nat) :
    (store width n).map UInt8.toNat = digits (List.replicate width 256) n := by
  -- every digit is below 256, so it survives the trip through a byte
  have below : ∀ digit ∈ digits (List.replicate width 256) n, digit < 256 :=
    lt_of_mem_digits (fun radix member => by rw [List.eq_of_mem_replicate member]; decide) n
  rw [store, List.map_map]
  conv_rhs => rw [← List.map_id (digits _ n)]
  exact List.map_congr_left fun digit member => by
    simp [UInt8.toNat_ofNat', Nat.mod_eq_of_lt (below digit member)]

/-- **A stored word reads back as the word, cut to its width.** -/
theorem load_store (width n : Nat) : load width (store width n) = n % 256 ^ width := by
  rw [load, map_toNat_store, value_digits, List.prod_replicate]

/-- **A word's bytes reversed write it big-endian.** -/
theorem reverse_store (width n : Nat) : (store width n).reverse = ByteKeys.bigEndian width n := by
  induction width with
  | zero => rfl
  | succ width inductionHypothesis =>
    -- the byte above the others comes last in memory and first in the key
    have highByte : UInt8.ofNat (n / (List.replicate width 256).prod % 256) =
        UInt8.ofNat (n / 256 ^ width) :=
      UInt8.toNat_inj.mp (by simp [UInt8.toNat_ofNat', List.prod_replicate])
    rw [store, List.replicate_succ', digits_append_singleton, List.map_append, List.map_singleton,
      List.reverse_append, List.reverse_singleton, List.singleton_append, highByte, ← store,
      inductionHypothesis, ByteKeys.bigEndian]

/-- **Stored words read back in order**, each cut to its width. -/
theorem loadWords_flatten_store (width : Nat) : ∀ words : List Nat,
    loadWords width words.length (words.map (store width)).flatten =
      words.map (· % 256 ^ width)
  | [] => rfl
  | n :: words => by
    rw [List.length_cons, loadWords, List.map_cons, List.flatten_cons,
      List.take_left' (length_store width n), List.drop_left' (length_store width n), load_store,
      loadWords_flatten_store width words, List.map_cons]

/-- Words written big-endian take `width` bytes each. -/
theorem length_flatten_bigEndian (width : Nat) : ∀ words : List Nat,
    ((words.map (ByteKeys.bigEndian width)).flatten).length = width * words.length
  | [] => rfl
  | n :: words => by
    rw [List.map_cons, List.flatten_cons, List.length_append, ByteKeys.length_bigEndian,
      length_flatten_bigEndian width words, List.length_cons, Nat.mul_succ, Nat.add_comm]

/-- Words stored in reverse order, with the bytes of the whole array then reversed: each word
big-endian, in order. -/
theorem reverse_flatten_store_reverse (width : Nat) (words : List Nat) :
    ((words.reverse.map (store width)).flatten).reverse =
      (words.map (ByteKeys.bigEndian width)).flatten := by
  rw [List.reverse_flatten, List.map_map, List.map_reverse, List.reverse_reverse]
  congr 2
  funext n
  exact reverse_store width n

/-- The other way: big-endian words in order, reversed byte by byte, are the words stored in
reverse order. -/
theorem reverse_flatten_bigEndian (width : Nat) (words : List Nat) :
    ((words.map (ByteKeys.bigEndian width)).flatten).reverse =
      (words.reverse.map (store width)).flatten := by
  rw [← reverse_flatten_store_reverse, List.reverse_reverse]

/-- **Words written big-endian compare as the words do**, one after the other. -/
theorem flatten_bigEndian_lt_iff {width : Nat} : ∀ {words words' : List Nat},
    words.length = words'.length → (∀ word ∈ words, word < 256 ^ width) →
      (∀ word ∈ words', word < 256 ^ width) →
        ((words.map (ByteKeys.bigEndian width)).flatten <
            (words'.map (ByteKeys.bigEndian width)).flatten ↔ words < words')
  | [], [], _, _, _ => by simp [List.lt_irrefl]
  | n :: words, m :: words', lengths, fit, fit' => by
    have nFits := fit n List.mem_cons_self
    have mFits := fit' m List.mem_cons_self
    have sameLength : (ByteKeys.bigEndian width n).length = (ByteKeys.bigEndian width m).length := by
      rw [ByteKeys.length_bigEndian, ByteKeys.length_bigEndian]
    have sameWord : ByteKeys.bigEndian width n = ByteKeys.bigEndian width m ↔ n = m :=
      ⟨ByteKeys.bigEndian_injective nFits mFits, fun same => by rw [same]⟩
    rw [List.map_cons, List.map_cons, List.flatten_cons, List.flatten_cons,
      ListLex.append_lt_append_iff sameLength, ByteKeys.bigEndian_lt_bigEndian_iff nFits mFits,
      sameWord, List.cons_lt_cons_iff,
      flatten_bigEndian_lt_iff (Nat.succ.inj lengths)
        (fun word member => fit word (List.mem_cons_of_mem n member))
        (fun word member => fit' word (List.mem_cons_of_mem m member))]

/-- A `width`-byte word read from the front of a stream, and the rest of the stream; a stream
that ends first fails. -/
def read (width : Nat) (stream : List UInt8) : Option (Nat × List UInt8) :=
  if width ≤ stream.length then some (load width (stream.take width), stream.drop width) else none

/-- Bytes fit, as digits, in a word of as many bytes. -/
theorem fits_map_toNat {width : Nat} {bytes : List UInt8} (length : bytes.length = width) :
    Fits (List.replicate width 256) (bytes.map UInt8.toNat) :=
  fits_replicate (by rw [List.length_map, length]) fun digit member => by
    obtain ⟨byte, -, rfl⟩ := List.mem_map.mp member
    exact byte.toNat_lt

theorem load_lt {width : Nat} {bytes : List UInt8} (length : bytes.length = width) :
    load width bytes < 256 ^ width := by
  have below := value_lt (fits_map_toNat length)
  rwa [List.prod_replicate] at below

/-- **Bytes read as a word are stored back as themselves.** -/
theorem store_load {width : Nat} {bytes : List UInt8} (length : bytes.length = width) :
    store width (load width bytes) = bytes := by
  rw [store, load, digits_value (fits_map_toNat length), List.map_map]
  conv_rhs => rw [← List.map_id bytes]
  exact List.map_congr_left fun byte _ => UInt8.ofNat_toNat

/-- **A word read from a stream is stored back as the bytes it was read from.** -/
theorem eq_store_of_read {width : Nat} {stream rest : List UInt8} {word : Nat}
    (readOk : read width stream = some (word, rest)) :
    word < 256 ^ width ∧ stream = store width word ++ rest := by
  rw [read] at readOk
  split at readOk
  · next long =>
    obtain ⟨rfl, rfl⟩ := Prod.mk.inj (Option.some.inj readOk)
    have length : (stream.take width).length = width := by
      rw [List.length_take]
      omega
    exact ⟨load_lt length, by rw [store_load length, List.take_append_drop]⟩
  · exact absurd readOk (Option.some_ne_none _).symm

/-- A stored word is read back from the front of a stream, cut to its width. -/
theorem read_store (width n : Nat) (rest : List UInt8) :
    read width (store width n ++ rest) = some (n % 256 ^ width, rest) := by
  rw [read, if_pos (by simp), List.take_left' (length_store width n),
    List.drop_left' (length_store width n), load_store]

/-- `count` words of `width` bytes read one after another. -/
def readWords (width : Nat) : Nat → List UInt8 → Option (List Nat × List UInt8)
  | 0, stream => some ([], stream)
  | count + 1, stream => do
    let (word, stream) ← read width stream
    let (words, stream) ← readWords width count stream
    pure (word :: words, stream)

end HostWords
