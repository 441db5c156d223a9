/-
This file models the keys under which the database intrinsics store contract tables in the
key-value backing store (`backing_store::db_key_value_format`), and the chain_kv routines they are
built with: `append_key`, which writes a key's unsigned words most significant byte first from a
little-endian host, and `extract_key`, which reads them back. A key is the scope and the table, a
byte for the key type, and the primary and secondary keys in the order the key type gives; a full
key puts the database type byte and the contract in front.

Every field has a fixed width, so each decoder finds every field where the encoder put it: reading
a key back gives what built it, a decoder for another key type stops at the key-type byte, and the
splice that turns a primary-to-secondary key into a secondary key gives what the direct encoder
gives. The same fixed widths, with each word written big-endian, make the byte-wise order of keys
the lexicographic order of their fields: the scope, the table, the key type, then the keys.
-/

import EosioChain.ChainKvUndo
import EosioChain.HostWords
import EosioChain.Name
import EosioChain.SharedBytes
import Mathlib

namespace B1.ChainKv

/-! ### Keys of unsigned words -/

/-- How `append_key` and `extract_key` see a key type: `value_storage` gives the key as an array of
`count` unsigned words of `width` bytes each, the `N` and `sizeof(t_type)` of the templates; one
word for an unsigned integer, the elements for a `std::array`. The fields after the first four say
that the words are the key's storage: as many as the array has, each fitting its width, and writing
them back gives the key. -/
class KeyWords (K : Type) where
  width : Nat
  count : Nat
  words : K → List Nat
  ofWords : List Nat → K
  length_words : ∀ key, (words key).length = count
  words_lt : ∀ key, ∀ word ∈ words key, word < 256 ^ width
  ofWords_words : ∀ key, ofWords (words key) = key

/-- `sizeof` of a key type: its words. -/
def keySize (K : Type) [KeyWords K] : Nat :=
  KeyWords.width K * KeyWords.count K

variable {K : Type} [KeyWords K]

/-- `detail::append_key<T, N>(dest, value)`: the words copied into an array in reverse order, then
the bytes of that array reversed and appended. -/
def appendKey (dest : Bytes) (key : K) : Bytes :=
  dest ++ (((KeyWords.words key).reverse.map (HostWords.store (KeyWords.width K))).flatten).reverse

/-- `detail::extract_key<It, Key, N>(key_loc, key_end, key)` on the bytes from `key_loc` to
`key_end`: nothing when fewer than `sizeof` the key remain; otherwise the key, read by copying its
bytes into an array of words, reversing those bytes and copying the words out in reverse order,
with the bytes after it. -/
def extractKey (K : Type) [KeyWords K] (remaining : Bytes) : Option (K × Bytes) :=
  if remaining.length < keySize K then none
  else
    some (KeyWords.ofWords (HostWords.loadWords (KeyWords.width K) (KeyWords.count K)
        (remaining.take (keySize K)).reverse).reverse,
      remaining.drop (keySize K))

/-- `uint64_t`: one word of eight bytes. -/
instance : KeyWords UInt64 where
  width := 8
  count := 1
  words key := [key.toNat]
  ofWords words := UInt64.ofNat (words.headD 0)
  length_words _ := rfl
  words_lt key word member := by
    rw [List.mem_singleton] at member
    rw [member]
    exact key.toNat_lt
  ofWords_words _ := UInt64.ofNat_toNat

/-- `unsigned __int128`, the `uint128_t` of the chain and of chain_kv. -/
abbrev Uint128 := Fin (2 ^ 128)

/-- `uint128_t`: one word of sixteen bytes. -/
instance : KeyWords Uint128 where
  width := 16
  count := 1
  words key := [key.val]
  ofWords words := Fin.ofNat _ (words.headD 0)
  length_words _ := rfl
  words_lt key word member := by
    rw [List.mem_singleton] at member
    rw [member]
    exact key.isLt
  ofWords_words key := Fin.ext (Nat.mod_eq_of_lt key.isLt)

/-- `std::array<uint128_t, 2>`, by its two elements: two words of sixteen bytes. -/
instance : KeyWords (Uint128 × Uint128) where
  width := 16
  count := 2
  words key := [key.1.val, key.2.val]
  ofWords words := (Fin.ofNat _ (words.getD 0 0), Fin.ofNat _ (words.getD 1 0))
  length_words _ := rfl
  words_lt key word member := by
    rcases List.mem_pair.mp member with first | second
    · rw [first]
      exact key.1.isLt
    · rw [second]
      exact key.2.isLt
  ofWords_words key := Prod.ext (Fin.ext (Nat.mod_eq_of_lt key.1.isLt))
    (Fin.ext (Nat.mod_eq_of_lt key.2.isLt))

/-- A key written big-endian, word after word: what `append_key` appends. -/
def encodeKey (key : K) : Bytes :=
  ((KeyWords.words key).map (ByteKeys.bigEndian (KeyWords.width K))).flatten

theorem appendKey_eq (dest : Bytes) (key : K) : appendKey dest key = dest ++ encodeKey key := by
  rw [appendKey, encodeKey, HostWords.reverse_flatten_store_reverse]

theorem length_encodeKey (key : K) : (encodeKey key).length = keySize K := by
  rw [encodeKey, HostWords.length_flatten_bigEndian, KeyWords.length_words, keySize]

/-- **`extract_key` reads back what `append_key` wrote**, and leaves what follows. -/
theorem extractKey_encodeKey_append (key : K) (rest : Bytes) :
    extractKey K (encodeKey key ++ rest) = some (key, rest) := by
  have length := length_encodeKey key
  -- the array holds as many words as the key, each of which fits its width
  have count : KeyWords.count K = (KeyWords.words key).reverse.length := by
    rw [List.length_reverse, KeyWords.length_words]
  have fits : (KeyWords.words key).map (· % 256 ^ KeyWords.width K) = KeyWords.words key := by
    conv_rhs => rw [← List.map_id (KeyWords.words key)]
    exact List.map_congr_left fun word member => Nat.mod_eq_of_lt (KeyWords.words_lt key word member)
  unfold extractKey
  rw [if_neg (by rw [List.length_append, length]; omega), List.take_left' length,
    List.drop_left' length, encodeKey, HostWords.reverse_flatten_bigEndian, count,
    HostWords.loadWords_flatten_store, List.map_reverse, fits, List.reverse_reverse,
    KeyWords.ofWords_words]

theorem extractKey_encodeKey (key : K) : extractKey K (encodeKey key) = some (key, []) := by
  simpa using extractKey_encodeKey_append key []

theorem encodeKey_injective {key₁ key₂ : K} (same : encodeKey key₁ = encodeKey key₂) :
    key₁ = key₂ := by
  have decoded := extractKey_encodeKey key₁
  rw [same, extractKey_encodeKey] at decoded
  exact (Prod.mk.inj (Option.some.inj decoded)).1.symm

/-- **Keys written big-endian compare as their words do**, word by word. -/
theorem encodeKey_lt_encodeKey_iff (key₁ key₂ : K) :
    encodeKey key₁ < encodeKey key₂ ↔ KeyWords.words key₁ < KeyWords.words key₂ :=
  HostWords.flatten_bigEndian_lt_iff (by rw [KeyWords.length_words, KeyWords.length_words])
    (KeyWords.words_lt key₁) (KeyWords.words_lt key₂)

/-- The one word of a `uint64_t` orders as the integer. -/
theorem words_lt_words_iff (n m : UInt64) : KeyWords.words n < KeyWords.words m ↔ n < m := by
  show [n.toNat] < [m.toNat] ↔ n < m
  rw [List.cons_lt_cons_iff, UInt64.lt_iff_toNat_lt]
  simp

end B1.ChainKv

namespace Eosio.Chain.BackingStore.DbKeyValueFormat

open B1.ChainKv

/-! ### The model -/

/-- `key_type`, the byte after the scope and the table; its order orders the keys of a table. -/
inductive KeyType
  | primary
  | primaryToSec
  | secI64
  | secI128
  | secI256
  | secDouble
  | secLongDouble
  | table
deriving DecidableEq, Repr

/-- The byte a key type is written as; `table` is `std::numeric_limits<char>::max()`. -/
def KeyType.toByte : KeyType → UInt8
  | .primary => 0
  | .primaryToSec => 1
  | .secI64 => 2
  | .secI128 => 3
  | .secI256 => 4
  | .secDouble => 5
  | .secLongDouble => 6
  | .table => 127

/-- A secondary key type: its words, and `detail::determine_sec_type<Key>::kt`, which is one of the
secondary key types. -/
class SecondaryKey (K : Type) extends KeyWords K where
  kt : KeyType
  kt_secondary : kt ≠ .primary ∧ kt ≠ .primaryToSec ∧ kt ≠ .table

instance : SecondaryKey UInt64 where
  kt := .secI64
  kt_secondary := by decide

instance : SecondaryKey Uint128 where
  kt := .secI128
  kt_secondary := by decide

/-- `key256_t`. -/
instance : SecondaryKey (Uint128 × Uint128) where
  kt := .secI256
  kt_secondary := by decide

/-- `detail::to_string(kt)` of the byte a key holds as its key type. -/
def keyTypeToString (kt : UInt8) : String :=
  if kt = KeyType.primary.toByte then "primary key of type uint64_t"
  else if kt = KeyType.primaryToSec.toByte then "primary key to secondary key type"
  else if kt = KeyType.secI64.toByte then "secondary key of type uint64_t"
  else if kt = KeyType.secI128.toByte then "secondary key of type uint128_t"
  else if kt = KeyType.secI256.toByte then "secondary key of type key256_t"
  else if kt = KeyType.secDouble.toByte then "secondary key of type float64_t"
  else if kt = KeyType.secLongDouble.toByte then "secondary key of type float128_t"
  else if kt = KeyType.table.toByte then "table end key"
  else
    -- `static_cast<char>`: a byte above 127 is a negative `char`
    "<invalid key_type: " ++ toString ((kt.toNat : Int) - if kt.toNat < 128 then 0 else 256) ++ ">"

/-- `detail::prepare_composite_key_prefix(scope, table, ...)`: the scope, then the table. The sizes
it takes only reserve storage. -/
def prepareCompositeKeyPrefix (scope table : Name) : Bytes :=
  appendKey (appendKey [] scope.value) table.value

/-- `detail::prepare_composite_key(scope, table, key_size, kt, ...)`: the scope, the table, then the
key type. -/
def prepareCompositeKey (scope table : Name) (kt : KeyType) : Bytes :=
  prepareCompositeKeyPrefix scope table ++ [kt.toByte]

/-- `detail::extract_from_composite_key_prefix`: the scope, the table, and the bytes after them. -/
def extractFromCompositeKeyPrefix (key : Bytes) : Except String (Name × Name × Bytes) := do
  let some (scopeName, rest) := extractKey UInt64 key
    | throw "DB intrinsic key-value store composite key is malformed, it does not contain a scope"
  let some (tableName, rest) := extractKey UInt64 rest
    | throw "DB intrinsic key-value store composite key is malformed, it does not contain a table"
  pure (⟨scopeName⟩, ⟨tableName⟩, rest)

/-- `detail::extract_from_composite_key`: the scope, the table, the key-type byte, and the bytes
after it. -/
def extractFromCompositeKey (key : Bytes) : Except String (Name × Name × UInt8 × Bytes) := do
  let (scope, table, rest) ← extractFromCompositeKeyPrefix key
  match rest with
  | [] => throw ("DB intrinsic key-value store composite key is malformed, it does not contain an " ++
      "indication of the type of the db-key (primary uint64_t or secondary uint64_t/uint128_t/etc)")
  | kt :: rest => pure (scope, table, kt, rest)

/-- `create_primary_key(scope, table, primary_key)`. -/
def createPrimaryKey (scope table : Name) (primaryKey : UInt64) : Bytes :=
  appendKey (prepareCompositeKey scope table .primary) primaryKey

/-- `get_primary_key(composite_key, scope, table, primary_key)`: whether the key is a primary key,
with the final values of the out-parameters; `primary_key` keeps its value unless it is read. -/
def getPrimaryKey (compositeKey : Bytes) (primaryKey : UInt64) :
    Except String (Bool × Name × Name × UInt64) := do
  let (scope, table, kt, compositeLoc) ← extractFromCompositeKey compositeKey
  if kt ≠ KeyType.primary.toByte then return (false, scope, table, primaryKey)
  let some (primaryKey, compositeLoc) := extractKey UInt64 compositeLoc
    | throw ("DB intrinsic key-value store composite key is malformed, it is supposed to have a " ++
        "primary key")
  unless compositeLoc.isEmpty do
    throw ("DB intrinsic key-value store composite key is malformed, it has extra data after the " ++
      "primary key")
  return (true, scope, table, primaryKey)

/-- `create_secondary_key<Key>(scope, table, sec_key, primary_key)`. -/
def createSecondaryKey [SecondaryKey K] (scope table : Name) (secKey : K) (primaryKey : UInt64) :
    Bytes :=
  appendKey (appendKey (prepareCompositeKey scope table (SecondaryKey.kt K)) secKey) primaryKey

/-- `get_secondary_key<Key>(composite_key, scope, table, sec_key, primary_key)`. -/
def getSecondaryKey (K : Type) [SecondaryKey K] (compositeKey : Bytes) (secKey : K)
    (primaryKey : UInt64) : Except String (Bool × Name × Name × K × UInt64) := do
  let (scope, table, kt, compositeLoc) ← extractFromCompositeKey compositeKey
  if kt ≠ (SecondaryKey.kt K).toByte then return (false, scope, table, secKey, primaryKey)
  let some (secKey, compositeLoc) := extractKey K compositeLoc
    | throw ("DB intrinsic key-value store composite key is malformed, it is supposed to have an " ++
        "underlying: " ++ keyTypeToString kt)
  let some (primaryKey, _) := extractKey UInt64 compositeLoc
    | throw ("DB intrinsic key-value store composite key is malformed, it is supposed to have a " ++
        "trailing primary key")
  return (true, scope, table, secKey, primaryKey)

/-- `detail::append_primary_and_secondary_key_types<Key>`. -/
def appendPrimaryAndSecondaryKeyTypes (K : Type) [SecondaryKey K] (compositeKey : Bytes) : Bytes :=
  compositeKey ++ [KeyType.primaryToSec.toByte, (SecondaryKey.kt K).toByte]

/-- `detail::append_primary_and_secondary_keys`. -/
def appendPrimaryAndSecondaryKeys [SecondaryKey K] (compositeKey : Bytes) (primaryKey : UInt64)
    (secKey : K) : Bytes :=
  appendKey (appendKey (appendPrimaryAndSecondaryKeyTypes K compositeKey) primaryKey) secKey

/-- `create_primary_to_secondary_key<Key>(scope, table, primary_key, sec_key)`. -/
def createPrimaryToSecondaryKey [SecondaryKey K] (scope table : Name) (primaryKey : UInt64)
    (secKey : K) : Bytes :=
  appendPrimaryAndSecondaryKeys (prepareCompositeKeyPrefix scope table) primaryKey secKey

/-- `prim_to_sec_type_result`. -/
inductive PrimToSecTypeResult
  | invalidType
  | wrongSecType
  | validType
deriving DecidableEq, Repr

/-- `get_primary_to_secondary_keys<Key>(composite_key, scope, table, primary_key, sec_key)`. -/
def getPrimaryToSecondaryKeys (K : Type) [SecondaryKey K] (compositeKey : Bytes)
    (primaryKey : UInt64) (secKey : K) :
    Except String (PrimToSecTypeResult × Name × Name × UInt64 × K) := do
  let (scope, table, kt, compositeLoc) ← extractFromCompositeKey compositeKey
  if kt ≠ KeyType.primaryToSec.toByte then return (.invalidType, scope, table, primaryKey, secKey)
  let secKt :: compositeLoc := compositeLoc
    | throw ("DB intrinsic key-value store composite key is malformed, it does not contain an " ++
        "indication of the type of the secondary-key")
  if secKt ≠ (SecondaryKey.kt K).toByte then
    return (.wrongSecType, scope, table, primaryKey, secKey)
  let some (primaryKey, compositeLoc) := extractKey UInt64 compositeLoc
    | throw ("DB intrinsic key-value store composite key is malformed, it is supposed to have a " ++
        "trailing primary key")
  let some (secKey, _) := extractKey K compositeLoc
    | throw ("DB intrinsic key-value store composite key is malformed, it is supposed to have an " ++
        "underlying: " ++ keyTypeToString secKt)
  return (.validType, scope, table, primaryKey, secKey)

/-- `rocksdb_contract_db_prefix`, the first byte of every full key of the database intrinsics. -/
def rocksdbContractDbPrefix : UInt8 := 0x12

/-- `detail::prefix_size<shared_bytes>()`: the database type byte and the contract, then the scope
and the table. -/
def fullPrefixSize : Nat := 1 + 8 + 8 * 2

/-- `create_full_key(composite_key, code)`: the database type byte, the contract, then the key. -/
def createFullKey (compositeKey : Bytes) (code : Name) : Eosio.Session.SharedBytes :=
  ⟨[rocksdbContractDbPrefix] ++ appendKey [] code.value ++ compositeKey⟩

/-- `create_full_secondary_key<Key>(code, scope, table, sec_key, primary_key)`. -/
def createFullSecondaryKey [SecondaryKey K] (code scope table : Name) (secKey : K)
    (primaryKey : UInt64) : Eosio.Session.SharedBytes :=
  createFullKey (createSecondaryKey scope table secKey primaryKey) code

/-- `detail::validate_primary_to_sec_type_size<Key>(full_key, start_prefix_size)`. -/
def validatePrimaryToSecTypeSize (K : Type) [SecondaryKey K] (fullKey : Bytes)
    (startPrefixSize : Nat) : Except String Unit := do
  let prefixMinimumSize := startPrefixSize + 1
  let bothTypesSize := prefixMinimumSize + 1
  let fullSize := bothTypesSize + 8 + keySize K
  unless fullKey.length = fullSize do
    throw ("DB intrinsic key-value validate_primary_to_sec_type_size was passed a full key size: " ++
      "${s1} bytes that was not at least larger than the size that would include the secondary " ++
      "type: ${s2}")

/-- `detail::validate_primary_to_sec_type_prefix(type_prefix, start_prefix_size, expected_sec_kt)`:
whether the prefix reaches the secondary key type, after checking its size and the key types it
holds. -/
def validatePrimaryToSecTypePrefix (typePrefix : Bytes) (startPrefixSize : Nat)
    (expectedSecKt : KeyType) : Except String Bool := do
  let prefixMinimumSize := startPrefixSize + 1
  let bothTypesSize := prefixMinimumSize + 1
  let bothTypesAndPrimarySize := bothTypesSize + 8
  let hasSecType := decide (typePrefix.length ≥ bothTypesSize)
  unless typePrefix.length = prefixMinimumSize ∨ typePrefix.length = bothTypesSize ∨
      typePrefix.length = bothTypesAndPrimarySize do
    throw ("DB intrinsic key-value validate_primary_to_sec_type_prefix was passed a prefix key " ++
      "size: ${s1} bytes that was not either: ${s2}, ${s3}, or ${s4} bytes long")
  unless KeyType.primaryToSec.toByte = typePrefix.getD startPrefixSize 0 do
    throw ("DB intrinsic key-value validate_primary_to_sec_type_prefix was passed a prefix that " ++
      "was the wrong type: ${type}, it should have been of type: ${type2}")
  if hasSecType then
    unless expectedSecKt.toByte = typePrefix.getD (startPrefixSize + 1) 0 do
      throw ("DB intrinsic key-value validate_primary_to_sec_type_prefix was passed a prefix that " ++
        "was the wrong secondary type: ${type}, it should have been of type: ${type2}")
  return hasSecType

/-- `detail::locate_trailing_primary_and_secondary_keys<Key>(key)`: the primary key and the
secondary key after the prefix of `prefixSize` bytes and the two key types. -/
def locateTrailingPrimaryAndSecondaryKeys (K : Type) [SecondaryKey K] (key : Bytes)
    (prefixSize : Nat) : Bytes × Bytes :=
  let primaryOffset := prefixSize + 1 + 1
  ((key.drop primaryOffset).take 8, (key.drop (primaryOffset + 8)).take (keySize K))

/-- `create_secondary_key_from_primary_to_sec_key<Key>(primary_to_sec_key)` on a full key: the
prefix, the secondary key type, the secondary key, then the primary key. -/
def createSecondaryKeyFromPrimaryToSecKey (K : Type) [SecondaryKey K]
    (primaryToSecKey : Eosio.Session.SharedBytes) : Except String Eosio.Session.SharedBytes := do
  let startPrefixSize := fullPrefixSize
  validatePrimaryToSecTypeSize K primaryToSecKey.bytes startPrefixSize
  let bothTypesAndPrimarySize := fullPrefixSize + 1 + 1 + 8
  let typePrefixSlice := primaryToSecKey.bytes.take bothTypesAndPrimarySize
  let expectedSecKt := SecondaryKey.kt K
  let secKtChecked ← validatePrimaryToSecTypePrefix typePrefixSlice startPrefixSize expectedSecKt
  unless secKtChecked do
    throw ("DB intrinsic invariant failure, key-value create_secondary_key_from_primary_to_sec_key " ++
      "was passed a key that was verified as long enough but validate_primary_to_sec_type_prefix " ++
      "indicated that it wasn't long enough to verify the secondary type")
  let (primarySlice, secondarySlice) :=
    locateTrailingPrimaryAndSecondaryKeys K primaryToSecKey.bytes startPrefixSize
  return ⟨primaryToSecKey.bytes.take startPrefixSize ++ [expectedSecKt.toByte] ++ secondarySlice ++
    primarySlice⟩

/-- `create_prefix_key(scope, table)`: the scope and the table alone. -/
def createPrefixKey (scope table : Name) : Bytes :=
  prepareCompositeKeyPrefix scope table

/-- `create_prefix_type_key(scope, table, kt)`. -/
def createPrefixTypeKey (scope table : Name) (kt : KeyType) : Bytes :=
  prepareCompositeKey scope table kt

/-- `create_table_key(scope, table)`: the key that marks a table, after all its other keys. -/
def createTableKey (scope table : Name) : Bytes :=
  createPrefixTypeKey scope table .table

/-! ### The layout of the keys -/

theorem KeyType.toByte_inj {kt kt' : KeyType} : kt.toByte = kt'.toByte ↔ kt = kt' := by
  cases kt <;> cases kt' <;> decide

variable {K : Type} [SecondaryKey K]

theorem prepareCompositeKeyPrefix_eq (scope table : Name) :
    prepareCompositeKeyPrefix scope table = encodeKey scope.value ++ encodeKey table.value := by
  rw [prepareCompositeKeyPrefix, appendKey_eq, appendKey_eq, List.nil_append]

theorem createPrimaryKey_eq (scope table : Name) (primaryKey : UInt64) :
    createPrimaryKey scope table primaryKey =
      prepareCompositeKeyPrefix scope table ++ KeyType.primary.toByte :: encodeKey primaryKey := by
  rw [createPrimaryKey, appendKey_eq, prepareCompositeKey, List.append_assoc, List.singleton_append]

/-- The primary key 3 of table 2 in scope 1: each integer big-endian, the key type between. -/
example : createPrimaryKey ⟨1⟩ ⟨2⟩ 3 =
    [0, 0, 0, 0, 0, 0, 0, 1, 0, 0, 0, 0, 0, 0, 0, 2, 0, 0, 0, 0, 0, 0, 0, 0, 3] := by
  decide

theorem createSecondaryKey_eq (scope table : Name) (secKey : K) (primaryKey : UInt64) :
    createSecondaryKey scope table secKey primaryKey =
      prepareCompositeKeyPrefix scope table ++
        (SecondaryKey.kt K).toByte :: (encodeKey secKey ++ encodeKey primaryKey) := by
  rw [createSecondaryKey, appendKey_eq, appendKey_eq, prepareCompositeKey, List.append_assoc,
    List.append_assoc, List.singleton_append]

theorem createPrimaryToSecondaryKey_eq (scope table : Name) (primaryKey : UInt64) (secKey : K) :
    createPrimaryToSecondaryKey scope table primaryKey secKey =
      prepareCompositeKeyPrefix scope table ++ KeyType.primaryToSec.toByte ::
        (SecondaryKey.kt K).toByte :: (encodeKey primaryKey ++ encodeKey secKey) := by
  rw [createPrimaryToSecondaryKey, appendPrimaryAndSecondaryKeys, appendKey_eq, appendKey_eq,
    appendPrimaryAndSecondaryKeyTypes, List.append_assoc, List.append_assoc]
  rfl

/-- The decoders find the scope, the table and the key-type byte where the encoders put them. -/
theorem extractFromCompositeKey_eq (scope table : Name) (kt : UInt8) (rest : Bytes) :
    extractFromCompositeKey (prepareCompositeKeyPrefix scope table ++ kt :: rest) =
      pure (scope, table, kt, rest) := by
  rw [prepareCompositeKeyPrefix_eq, List.append_assoc]
  simp only [extractFromCompositeKey, extractFromCompositeKeyPrefix, extractKey_encodeKey_append]
  rfl

/-! ### Reading keys back -/

theorem getPrimaryKey_createPrimaryKey (scope table : Name) (primaryKey primaryKey₀ : UInt64) :
    getPrimaryKey (createPrimaryKey scope table primaryKey) primaryKey₀ =
      .ok (true, scope, table, primaryKey) := by
  rw [createPrimaryKey_eq]
  unfold getPrimaryKey
  rw [extractFromCompositeKey_eq, pure_bind]
  simp only [ne_eq, not_true_eq_false, if_false, extractKey_encodeKey, List.isEmpty_nil, if_true]
  rfl

theorem getSecondaryKey_createSecondaryKey (scope table : Name) (secKey secKey₀ : K)
    (primaryKey primaryKey₀ : UInt64) :
    getSecondaryKey K (createSecondaryKey scope table secKey primaryKey) secKey₀ primaryKey₀ =
      .ok (true, scope, table, secKey, primaryKey) := by
  rw [createSecondaryKey_eq]
  unfold getSecondaryKey
  rw [extractFromCompositeKey_eq, pure_bind]
  simp only [ne_eq, not_true_eq_false, if_false, extractKey_encodeKey_append, extractKey_encodeKey]
  rfl

theorem getPrimaryToSecondaryKeys_createPrimaryToSecondaryKey (scope table : Name)
    (primaryKey primaryKey₀ : UInt64) (secKey secKey₀ : K) :
    getPrimaryToSecondaryKeys K (createPrimaryToSecondaryKey scope table primaryKey secKey)
        primaryKey₀ secKey₀ =
      .ok (.validType, scope, table, primaryKey, secKey) := by
  rw [createPrimaryToSecondaryKey_eq]
  unfold getPrimaryToSecondaryKeys
  rw [extractFromCompositeKey_eq, pure_bind]
  simp only [ne_eq, not_true_eq_false, if_false, extractKey_encodeKey_append, extractKey_encodeKey]
  rfl

theorem getSecondaryKey_of_ne {K' : Type} [SecondaryKey K'] (differ : SecondaryKey.kt K ≠ SecondaryKey.kt K')
    (scope table : Name) (secKey : K) (secKey₀ : K') (primaryKey primaryKey₀ : UInt64) :
    getSecondaryKey K' (createSecondaryKey scope table secKey primaryKey) secKey₀ primaryKey₀ =
      .ok (false, scope, table, secKey₀, primaryKey₀) := by
  rw [createSecondaryKey_eq]
  unfold getSecondaryKey
  rw [extractFromCompositeKey_eq, pure_bind]
  simp only [ne_eq, KeyType.toByte_inj, differ, not_false_eq_true, if_true]
  rfl

theorem getPrimaryToSecondaryKeys_of_ne {K' : Type} [SecondaryKey K'] (differ : SecondaryKey.kt K ≠ SecondaryKey.kt K')
    (scope table : Name) (primaryKey primaryKey₀ : UInt64) (secKey : K) (secKey₀ : K') :
    getPrimaryToSecondaryKeys K' (createPrimaryToSecondaryKey scope table primaryKey secKey)
        primaryKey₀ secKey₀ =
      .ok (.wrongSecType, scope, table, primaryKey₀, secKey₀) := by
  rw [createPrimaryToSecondaryKey_eq]
  unfold getPrimaryToSecondaryKeys
  rw [extractFromCompositeKey_eq, pure_bind]
  simp only [ne_eq, not_true_eq_false, if_false, KeyType.toByte_inj, differ, not_false_eq_true, if_true]
  rfl

theorem getPrimaryKey_createSecondaryKey (scope table : Name) (secKey : K) (primaryKey primaryKey₀ : UInt64) :
    getPrimaryKey (createSecondaryKey scope table secKey primaryKey) primaryKey₀ =
      .ok (false, scope, table, primaryKey₀) := by
  rw [createSecondaryKey_eq]
  unfold getPrimaryKey
  rw [extractFromCompositeKey_eq, pure_bind]
  simp only [ne_eq, KeyType.toByte_inj, SecondaryKey.kt_secondary.1, not_false_eq_true, if_true]
  rfl
/-! ### Splicing a primary-to-secondary key -/

theorem validatePrimaryToSecTypeSize_eq (fullKey : Bytes) {startPrefixSize : Nat}
    (size : fullKey.length = startPrefixSize + 1 + 1 + 8 + keySize K) :
    validatePrimaryToSecTypeSize K fullKey startPrefixSize = pure () := by
  simp only [validatePrimaryToSecTypeSize, size, if_true]

theorem validatePrimaryToSecTypePrefix_eq (typePrefix : Bytes) {startPrefixSize : Nat} {expectedSecKt : KeyType}
    (size : typePrefix.length = startPrefixSize + 1 + 1 + 8)
    (firstType : typePrefix.getD startPrefixSize 0 = KeyType.primaryToSec.toByte)
    (secondType : typePrefix.getD (startPrefixSize + 1) 0 = expectedSecKt.toByte) :
    validatePrimaryToSecTypePrefix typePrefix startPrefixSize expectedSecKt = pure true := by
  have reaches : startPrefixSize + 1 + 1 + 8 ≥ startPrefixSize + 1 + 1 := by omega
  simp only [validatePrimaryToSecTypePrefix, size, firstType, secondType, reaches, or_true, if_true,
    decide_true]
theorem createSecondaryKeyFromPrimaryToSecKey_createFullKey (code scope table : Name)
    (primaryKey : UInt64) (secKey : K) :
    createSecondaryKeyFromPrimaryToSecKey K
        (createFullKey (createPrimaryToSecondaryKey scope table primaryKey secKey) code) =
      .ok (createFullSecondaryKey code scope table secKey primaryKey) := by
  -- both keys start with the database type byte, the contract, the scope and the table
  have frontLength : ([rocksdbContractDbPrefix] ++ encodeKey code.value ++
      prepareCompositeKeyPrefix scope table).length = fullPrefixSize := by
    rw [prepareCompositeKeyPrefix_eq]
    simp only [List.length_append, length_encodeKey, List.length_singleton]
    rfl
  generalize frontEq : [rocksdbContractDbPrefix] ++ encodeKey code.value ++
    prepareCompositeKeyPrefix scope table = front at frontLength
  have full : (createFullKey (createPrimaryToSecondaryKey scope table primaryKey secKey) code).bytes =
      front ++ KeyType.primaryToSec.toByte :: (SecondaryKey.kt K).toByte ::
        (encodeKey primaryKey ++ encodeKey secKey) := by
    rw [← frontEq, createFullKey, createPrimaryToSecondaryKey_eq, appendKey_eq, List.nil_append]
    simp only [List.append_assoc]
  have direct : createFullSecondaryKey code scope table secKey primaryKey =
      ⟨front ++ (SecondaryKey.kt K).toByte :: (encodeKey secKey ++ encodeKey primaryKey)⟩ := by
    rw [← frontEq, createFullSecondaryKey, createFullKey, createSecondaryKey_eq, appendKey_eq,
      List.nil_append]
    simp only [List.append_assoc]
  have primaryLength : (encodeKey primaryKey).length = 8 := length_encodeKey primaryKey
  have secLength := length_encodeKey secKey
  -- where the splice cuts the primary-to-secondary key
  have slice : (front ++ KeyType.primaryToSec.toByte :: (SecondaryKey.kt K).toByte ::
      (encodeKey primaryKey ++ encodeKey secKey)).take (fullPrefixSize + 1 + 1 + 8) =
        front ++ KeyType.primaryToSec.toByte :: (SecondaryKey.kt K).toByte :: encodeKey primaryKey := by
    rw [List.take_append, List.take_of_length_le (by omega), frontLength,
      show fullPrefixSize + 1 + 1 + 8 - fullPrefixSize = 8 + 1 + 1 by omega, List.take_succ_cons,
      List.take_succ_cons, List.take_left' primaryLength]
  have sliceLength : (front ++ KeyType.primaryToSec.toByte :: (SecondaryKey.kt K).toByte ::
      encodeKey primaryKey).length = fullPrefixSize + 1 + 1 + 8 := by
    simp only [List.length_append, List.length_cons, frontLength, primaryLength]
  have firstType : (front ++ KeyType.primaryToSec.toByte :: (SecondaryKey.kt K).toByte ::
      encodeKey primaryKey).getD fullPrefixSize 0 = KeyType.primaryToSec.toByte := by
    rw [List.getD_append_right _ _ _ _ frontLength.le, frontLength, Nat.sub_self, List.getD_cons_zero]
  have secondType : (front ++ KeyType.primaryToSec.toByte :: (SecondaryKey.kt K).toByte ::
      encodeKey primaryKey).getD (fullPrefixSize + 1) 0 = (SecondaryKey.kt K).toByte := by
    rw [List.getD_append_right _ _ _ _ (by omega), frontLength, Nat.add_sub_cancel_left,
      List.getD_cons_succ, List.getD_cons_zero]
  have trailing : locateTrailingPrimaryAndSecondaryKeys K (front ++ KeyType.primaryToSec.toByte ::
      (SecondaryKey.kt K).toByte :: (encodeKey primaryKey ++ encodeKey secKey)) fullPrefixSize =
        (encodeKey primaryKey, encodeKey secKey) := by
    have skipTypes : (front ++ KeyType.primaryToSec.toByte :: (SecondaryKey.kt K).toByte ::
        (encodeKey primaryKey ++ encodeKey secKey)).drop (fullPrefixSize + 1 + 1) =
          encodeKey primaryKey ++ encodeKey secKey := by
      rw [List.drop_append, List.drop_of_length_le (by omega), frontLength, List.nil_append,
        show fullPrefixSize + 1 + 1 - fullPrefixSize = 2 by omega]
      rfl
    rw [locateTrailingPrimaryAndSecondaryKeys, ← List.drop_drop (i := 8) (j := fullPrefixSize + 1 + 1), skipTypes,
      List.take_left' primaryLength, List.drop_left' primaryLength,
      List.take_of_length_le secLength.le]
  unfold createSecondaryKeyFromPrimaryToSecKey
  dsimp only
  rw [full, direct, validatePrimaryToSecTypeSize_eq _ (by simp only [List.length_append, List.length_cons, frontLength, primaryLength, secLength]; omega), pure_bind, slice,
    validatePrimaryToSecTypePrefix_eq _ sliceLength firstType secondType, pure_bind, if_pos rfl, trailing,
    List.take_left' frontLength]
  simp only [List.append_assoc, List.singleton_append]
  rfl
/-! ### The order of keys -/

/-- The keys of the table `table` in `scope` with key type `kt`: the scope, the table and the
key-type byte, then anything. -/
def OfTable (scope table : Name) (kt : KeyType) (key : Bytes) : Prop :=
  ∃ rest, key = createPrefixTypeKey scope table kt ++ rest

theorem createPrefixTypeKey_eq (scope table : Name) (kt : KeyType) :
    createPrefixTypeKey scope table kt = createPrefixKey scope table ++ [kt.toByte] :=
  rfl

theorem KeyType.toByte_lt_table {kt : KeyType} (other : kt ≠ .table) :
    kt.toByte < KeyType.table.toByte := by
  cases kt <;> first | decide | exact absurd rfl other

theorem ofTable_createPrimaryKey (scope table : Name) (primaryKey : UInt64) :
    OfTable scope table .primary (createPrimaryKey scope table primaryKey) :=
  ⟨encodeKey primaryKey, by
    rw [createPrimaryKey_eq, createPrefixTypeKey_eq, createPrefixKey, List.append_assoc,
      List.singleton_append]⟩

theorem ofTable_createSecondaryKey (scope table : Name) (secKey : K) (primaryKey : UInt64) :
    OfTable scope table (SecondaryKey.kt K) (createSecondaryKey scope table secKey primaryKey) :=
  ⟨encodeKey secKey ++ encodeKey primaryKey, by
    rw [createSecondaryKey_eq, createPrefixTypeKey_eq, createPrefixKey, List.append_assoc,
      List.singleton_append]⟩

theorem ofTable_createPrimaryToSecondaryKey (scope table : Name) (primaryKey : UInt64)
    (secKey : K) :
    OfTable scope table .primaryToSec (createPrimaryToSecondaryKey scope table primaryKey secKey) :=
  ⟨(SecondaryKey.kt K).toByte :: (encodeKey primaryKey ++ encodeKey secKey), by
    rw [createPrimaryToSecondaryKey_eq, createPrefixTypeKey_eq, createPrefixKey, List.append_assoc,
      List.singleton_append]⟩

theorem ofTable_createTableKey (scope table : Name) :
    OfTable scope table .table (createTableKey scope table) :=
  ⟨[], (List.append_nil _).symm⟩

/-- Keys of an earlier scope and table come first, whatever follows the two prefixes. -/
theorem createPrefixKey_append_lt {scope₁ table₁ scope₂ table₂ : Name}
    (earlier : scope₁.value < scope₂.value ∨ scope₁ = scope₂ ∧ table₁.value < table₂.value)
    (rest₁ rest₂ : Bytes) :
    createPrefixKey scope₁ table₁ ++ rest₁ < createPrefixKey scope₂ table₂ ++ rest₂ := by
  have sameLength : ∀ n m : UInt64, (encodeKey n).length = (encodeKey m).length := fun n m => by
    rw [length_encodeKey, length_encodeKey]
  rw [createPrefixKey, createPrefixKey, prepareCompositeKeyPrefix_eq, prepareCompositeKeyPrefix_eq,
    List.append_assoc, List.append_assoc, ListLex.append_lt_append_iff (sameLength _ _),
    ListLex.append_lt_append_iff (sameLength _ _), encodeKey_lt_encodeKey_iff,
    encodeKey_lt_encodeKey_iff, words_lt_words_iff, words_lt_words_iff]
  rcases earlier with less | ⟨rfl, less⟩
  · exact Or.inl less
  · exact Or.inr ⟨rfl, Or.inl less⟩

/-- A table's prefix is at or below every key of the table. -/
theorem OfTable.prefix_le {scope table : Name} {kt : KeyType} {key : Bytes}
    (ofTable : OfTable scope table kt key) : createPrefixKey scope table ≤ key := by
  obtain ⟨rest, rfl⟩ := ofTable
  rw [createPrefixTypeKey_eq, List.append_assoc]
  exact ByteKeys.not_append_lt _ _

theorem OfTable.lt_of_earlier {scope₁ table₁ scope₂ table₂ : Name} {kt₁ kt₂ : KeyType}
    {key₁ key₂ : Bytes} (first : OfTable scope₁ table₁ kt₁ key₁)
    (second : OfTable scope₂ table₂ kt₂ key₂)
    (earlier : scope₁.value < scope₂.value ∨ scope₁ = scope₂ ∧ table₁.value < table₂.value) :
    key₁ < key₂ := by
  obtain ⟨rest₁, rfl⟩ := first
  obtain ⟨rest₂, rfl⟩ := second
  rw [createPrefixTypeKey_eq, createPrefixTypeKey_eq, List.append_assoc, List.append_assoc]
  exact createPrefixKey_append_lt earlier _ _

/-- Every key of a table lies before the prefix of any later scope and table. -/
theorem OfTable.lt_createPrefixKey {scope₁ table₁ scope₂ table₂ : Name} {kt : KeyType}
    {key : Bytes} (ofTable : OfTable scope₁ table₁ kt key)
    (earlier : scope₁.value < scope₂.value ∨ scope₁ = scope₂ ∧ table₁.value < table₂.value) :
    key < createPrefixKey scope₂ table₂ := by
  obtain ⟨rest, rfl⟩ := ofTable
  have before := createPrefixKey_append_lt earlier ([kt.toByte] ++ rest) []
  rwa [List.append_nil, ← List.append_assoc, ← createPrefixTypeKey_eq] at before

/-- Within a table, keys are ordered by their key type first. -/
theorem OfTable.lt_of_toByte_lt {scope table : Name} {kt₁ kt₂ : KeyType} {key₁ key₂ : Bytes}
    (first : OfTable scope table kt₁ key₁) (second : OfTable scope table kt₂ key₂)
    (below : kt₁.toByte < kt₂.toByte) : key₁ < key₂ := by
  obtain ⟨rest₁, rfl⟩ := first
  obtain ⟨rest₂, rfl⟩ := second
  rw [createPrefixTypeKey_eq, createPrefixTypeKey_eq, List.append_assoc, List.append_assoc,
    ByteKeys.append_lt_append_iff_left, List.singleton_append, List.singleton_append,
    List.cons_lt_cons_iff]
  exact Or.inl below

/-- The table key comes after every other key of its table. -/
theorem OfTable.lt_createTableKey {scope table : Name} {kt : KeyType} {key : Bytes}
    (ofTable : OfTable scope table kt key) (other : kt ≠ .table) :
    key < createTableKey scope table :=
  ofTable.lt_of_toByte_lt (ofTable_createTableKey scope table) (KeyType.toByte_lt_table other)

theorem createPrimaryKey_lt_iff (scope table : Name) (primaryKey₁ primaryKey₂ : UInt64) :
    createPrimaryKey scope table primaryKey₁ < createPrimaryKey scope table primaryKey₂ ↔
      primaryKey₁ < primaryKey₂ := by
  rw [createPrimaryKey, createPrimaryKey, appendKey_eq, appendKey_eq,
    ByteKeys.append_lt_append_iff_left, encodeKey_lt_encodeKey_iff, words_lt_words_iff]

theorem createSecondaryKey_lt_iff (scope table : Name) (secKey₁ secKey₂ : K)
    (primaryKey₁ primaryKey₂ : UInt64) :
    createSecondaryKey scope table secKey₁ primaryKey₁ <
        createSecondaryKey scope table secKey₂ primaryKey₂ ↔
      KeyWords.words secKey₁ < KeyWords.words secKey₂ ∨
        secKey₁ = secKey₂ ∧ primaryKey₁ < primaryKey₂ := by
  have sameLength : (encodeKey secKey₁).length = (encodeKey secKey₂).length := by
    rw [length_encodeKey, length_encodeKey]
  have sameKey : encodeKey secKey₁ = encodeKey secKey₂ ↔ secKey₁ = secKey₂ :=
    ⟨encodeKey_injective, fun same => by rw [same]⟩
  rw [createSecondaryKey, createSecondaryKey, appendKey_eq, appendKey_eq, appendKey_eq,
    appendKey_eq, List.append_assoc, List.append_assoc, ByteKeys.append_lt_append_iff_left, ListLex.append_lt_append_iff sameLength,
    encodeKey_lt_encodeKey_iff, sameKey, encodeKey_lt_encodeKey_iff, words_lt_words_iff]

/-! ### The key format -/

/-- **The contract-table keys read back as they were built.** A primary, a secondary and a
primary-to-secondary key decode to their scope, table and keys; the primary decoder rejects a
secondary key and a decoder for another secondary key type stops at the key type, both leaving
their out-parameters alone; and splicing a full primary-to-secondary key gives the full secondary
key that the direct encoder gives. -/
theorem table_keys_round_trip {K : Type} [SecondaryKey K] (code scope table : Name)
    (primaryKey primaryKey₀ : UInt64) (secKey secKey₀ : K) :
    getPrimaryKey (createPrimaryKey scope table primaryKey) primaryKey₀ =
        .ok (true, scope, table, primaryKey) ∧
      getSecondaryKey K (createSecondaryKey scope table secKey primaryKey) secKey₀ primaryKey₀ =
        .ok (true, scope, table, secKey, primaryKey) ∧
      getPrimaryToSecondaryKeys K (createPrimaryToSecondaryKey scope table primaryKey secKey)
          primaryKey₀ secKey₀ =
        .ok (.validType, scope, table, primaryKey, secKey) ∧
      getPrimaryKey (createSecondaryKey scope table secKey primaryKey) primaryKey₀ =
        .ok (false, scope, table, primaryKey₀) ∧
      (∀ (K' : Type) [SecondaryKey K'] (secKey' : K'), SecondaryKey.kt K ≠ SecondaryKey.kt K' →
        getSecondaryKey K' (createSecondaryKey scope table secKey primaryKey) secKey' primaryKey₀ =
            .ok (false, scope, table, secKey', primaryKey₀) ∧
          getPrimaryToSecondaryKeys K' (createPrimaryToSecondaryKey scope table primaryKey secKey)
              primaryKey₀ secKey' =
            .ok (.wrongSecType, scope, table, primaryKey₀, secKey')) ∧
      createSecondaryKeyFromPrimaryToSecKey K
          (createFullKey (createPrimaryToSecondaryKey scope table primaryKey secKey) code) =
        .ok (createFullSecondaryKey code scope table secKey primaryKey) :=
  ⟨getPrimaryKey_createPrimaryKey scope table primaryKey primaryKey₀,
    getSecondaryKey_createSecondaryKey scope table secKey secKey₀ primaryKey primaryKey₀,
    getPrimaryToSecondaryKeys_createPrimaryToSecondaryKey scope table primaryKey primaryKey₀ secKey
      secKey₀,
    getPrimaryKey_createSecondaryKey scope table secKey primaryKey primaryKey₀,
    fun _ _ secKey' differ =>
      ⟨getSecondaryKey_of_ne differ scope table secKey secKey' primaryKey primaryKey₀,
        getPrimaryToSecondaryKeys_of_ne differ scope table primaryKey primaryKey₀ secKey secKey'⟩,
    createSecondaryKeyFromPrimaryToSecKey_createFullKey code scope table primaryKey secKey⟩

/-- **The byte order of the contract-table keys is the order of their fields.** Primary keys of a
table order as the integers, secondary keys as the secondary key word by word and then the primary
key; every key the format creates for a table has the table's prefix and its key type in front, so
it lies at or after the prefix and before the prefix of any later scope and table, the keys of a
table are ordered by key type with the table key last, and keys of different tables are ordered by
scope and then table. -/
theorem table_keys_order {K : Type} [SecondaryKey K] :
    (∀ (scope table : Name) (primaryKey₁ primaryKey₂ : UInt64),
      createPrimaryKey scope table primaryKey₁ < createPrimaryKey scope table primaryKey₂ ↔
        primaryKey₁ < primaryKey₂) ∧
      (∀ (scope table : Name) (secKey₁ secKey₂ : K) (primaryKey₁ primaryKey₂ : UInt64),
        createSecondaryKey scope table secKey₁ primaryKey₁ <
            createSecondaryKey scope table secKey₂ primaryKey₂ ↔
          KeyWords.words secKey₁ < KeyWords.words secKey₂ ∨
            secKey₁ = secKey₂ ∧ primaryKey₁ < primaryKey₂) ∧
      (∀ (scope table : Name) (primaryKey : UInt64) (secKey : K),
        OfTable scope table .primary (createPrimaryKey scope table primaryKey) ∧
          OfTable scope table (SecondaryKey.kt K) (createSecondaryKey scope table secKey primaryKey) ∧
          OfTable scope table .primaryToSec
            (createPrimaryToSecondaryKey scope table primaryKey secKey) ∧
          OfTable scope table .table (createTableKey scope table)) ∧
      (∀ (scope table : Name) (kt : KeyType) (key : Bytes), OfTable scope table kt key →
        createPrefixKey scope table ≤ key ∧
          ∀ scope' table' : Name, scope.value < scope'.value ∨ scope = scope' ∧ table.value < table'.value →
            key < createPrefixKey scope' table') ∧
      (∀ (scope table : Name) (kt₁ kt₂ : KeyType) (key₁ key₂ : Bytes),
        OfTable scope table kt₁ key₁ → OfTable scope table kt₂ key₂ → kt₁.toByte < kt₂.toByte →
          key₁ < key₂) ∧
      (∀ (scope table : Name) (kt : KeyType) (key : Bytes), OfTable scope table kt key →
        kt ≠ .table → key < createTableKey scope table) ∧
      (∀ (scope₁ table₁ scope₂ table₂ : Name) (kt₁ kt₂ : KeyType) (key₁ key₂ : Bytes),
        OfTable scope₁ table₁ kt₁ key₁ → OfTable scope₂ table₂ kt₂ key₂ →
          scope₁.value < scope₂.value ∨ scope₁ = scope₂ ∧ table₁.value < table₂.value →
            key₁ < key₂) :=
  ⟨createPrimaryKey_lt_iff, createSecondaryKey_lt_iff,
    fun scope table primaryKey secKey =>
      ⟨ofTable_createPrimaryKey scope table primaryKey,
        ofTable_createSecondaryKey scope table secKey primaryKey,
        ofTable_createPrimaryToSecondaryKey scope table primaryKey secKey,
        ofTable_createTableKey scope table⟩,
    fun _ _ _ _ ofTable => ⟨ofTable.prefix_le, fun _ _ earlier => ofTable.lt_createPrefixKey earlier⟩,
    fun _ _ _ _ _ _ first second below => first.lt_of_toByte_lt second below,
    fun _ _ _ _ ofTable other => ofTable.lt_createTableKey other,
    fun _ _ _ _ _ _ _ _ first second earlier => first.lt_of_earlier second earlier⟩

end Eosio.Chain.BackingStore.DbKeyValueFormat
