/-
This file proves that the built-in types of the chain pack back: a value of `name`,
`symbol_code`, `symbol`, `asset` or `extended_asset` that the `unpack_function` of
`pack_unpack` reads and makes a variant is packed by its `pack_function`, from that variant, as
the bytes it was read from, once the value is one `ChainValue.writesBack` keeps.

The fields are a little-endian host's bytes, which store back what they load. A name reads back
through `string_to_uint64_t`; a symbol code through `string_to_symbol`, once no byte stands
above its seven letters, which `symbol(value << 8)` drops; a symbol and an asset through their
`from_string`, once their name is not empty, under what `FcText.Decimal` assumes of `fc`. What
`fc` packs itself, its varints and its `bool`, is assumed to pack back, in
`FcCodec.PacksBackUnpacked`.
-/

import EosioChain.AbiSerializer

namespace Eosio.Chain

/-- The chain values that `variant_to_binary` writes back as the bytes they were read from: a
symbol code with no byte above its seven letters, and symbols and assets with a name. -/
def ChainValue.writesBack : ChainValue → Bool
  | .name _ => true
  | .symbolCode value => value >>> 56 == 0
  | .symbol sym => !sym.name.isEmpty
  | .asset a => !a.sym.name.isEmpty
  | .extendedAsset quantity _ => !quantity.sym.name.isEmpty

/-- What the round trip assumes of `fc`: the bytes a built-in of `builtIns` that `fc` converts,
a varint or a `bool` was read from are the bytes it is written as, and its text functions
behave as `FcText.Decimal` says. -/
structure FcCodec.PacksBackUnpacked {Scalar : Type} (codec : FcCodec Scalar)
    (builtIns : List (List Char)) : Prop where
  builtin : ∀ {name isArray isOptional stream v rest}, name ∈ builtIns → ChainType.ofName name = none →
    codec.unpack name isArray isOptional stream = some (v, rest) →
      ∃ pre, stream = pre ++ rest ∧ codec.pack name isArray isOptional v = some pre
  varint : ∀ {stream n rest}, codec.unpackVarint stream = some (n, rest) →
    stream = codec.packVarint n ++ rest
  bool : ∀ {stream present rest}, codec.unpackBool stream = some (present, rest) →
    stream = codec.packBool present ++ rest
  decimal : codec.text.Decimal

/-! ### Packed fields -/

section Fields

variable {stream rest : List UInt8}

theorem eq_store_of_unpackUint64 {value : UInt64} (unpacked : unpackUint64 stream = some (value, rest)) :
    stream = HostWords.store 8 value.toNat ++ rest := by
  simp only [unpackUint64, Option.map_eq_some_iff, Prod.mk.injEq, Prod.exists] at unpacked
  obtain ⟨word, after, read, rfl, rfl⟩ := unpacked
  obtain ⟨below, split⟩ := HostWords.eq_store_of_read read
  have fits : word.toUInt64.toNat = word := by
    simp only [Nat.toUInt64, UInt64.toNat_ofNat']
    omega
  rw [fits]
  exact split

theorem unpackUint64_store (value : UInt64) (rest : List UInt8) :
    unpackUint64 (HostWords.store 8 value.toNat ++ rest) = some (value, rest) := by
  simp [unpackUint64, HostWords.read_store]

/-- An `int64_t` is packed back in two's complement as the word it was read from. -/
theorem eq_packInt64_of_unpackInt64 {x : Int} (unpacked : unpackInt64 stream = some (x, rest)) :
    stream = packInt64 x ++ rest := by
  simp only [unpackInt64, Option.map_eq_some_iff, Prod.mk.injEq, Prod.exists] at unpacked
  obtain ⟨word, after, read, rfl, rfl⟩ := unpacked
  obtain ⟨below, split⟩ := HostWords.eq_store_of_read read
  have complement :
      ((if word < 2 ^ 63 then (word : Int) else (word : Int) - 2 ^ 64) % 2 ^ 64).toNat = word := by
    split <;> omega
  rw [packInt64, complement]
  exact split

theorem unpackSymbol_eq_some {sym : Symbol} (unpacked : unpackSymbol stream = some (sym, rest)) :
    sym.valid ∧ stream = HostWords.store 8 sym.value.toNat ++ rest := by
  simp only [unpackSymbol, Option.bind_eq_bind, Option.bind_eq_some_iff, Prod.exists] at unpacked
  obtain ⟨value, after, read, checked⟩ := unpacked
  by_cases valid : (⟨value⟩ : Symbol).valid
  · rw [if_pos valid, Option.pure_def, Option.some.injEq, Prod.mk.injEq] at checked
    obtain ⟨rfl, rfl⟩ := checked
    exact ⟨valid, eq_store_of_unpackUint64 read⟩
  · rw [if_neg valid] at checked
    exact absurd checked (Option.some_ne_none _).symm

theorem unpackAsset_eq_some {a : Asset} (unpacked : unpackAsset stream = some (a, rest)) :
    a.isValid ∧ stream = packAsset a ++ rest := by
  simp only [unpackAsset, Option.bind_eq_bind, Option.bind_eq_some_iff, Prod.exists] at unpacked
  obtain ⟨amount, afterAmount, readAmount, sym, afterSymbol, readSymbol, checked⟩ := unpacked
  by_cases valid : (⟨amount, sym⟩ : Asset).isValid
  · rw [if_pos valid, Option.pure_def, Option.some.injEq, Prod.mk.injEq] at checked
    obtain ⟨rfl, rfl⟩ := checked
    refine ⟨valid, ?_⟩
    rw [eq_packInt64_of_unpackInt64 readAmount, (unpackSymbol_eq_some readSymbol).2, packAsset,
      List.append_assoc]
  · rw [if_neg valid] at checked
    exact absurd checked (Option.some_ne_none _).symm

end Fields

/-! ### Variants read back -/

theorem toOption_eq_some_iff {ε α : Type} {e : Except ε α} {x : α} :
    e.toOption = some x ↔ e = .ok x := by
  cases e <;> simp [Except.toOption]

section FromVariant

variable {Scalar : Type} {fc : FcText}

theorem nameFromVariant_toString (n : Name) :
    nameFromVariant (.string n.toString : Variant Scalar) = some n := by
  obtain ⟨value⟩ := n
  simp [nameFromVariant, Variant.asString, stringToUint64_toString, Except.toOption]

/-- The symbol of a symbol code's value over no decimals has none. -/
theorem decimals_shiftLeft (value : UInt64) : (⟨value <<< 8⟩ : Symbol).decimals = 0 := by
  apply UInt8.toNat_inj.mp
  rw [Symbol.toNat_decimals, UInt64.toNat_shiftLeft]
  simp [Nat.shiftLeft_eq]

/-- `to_symbol_code` takes back a symbol code with no byte above its seven letters. -/
theorem shiftLeft_shiftRight {value : UInt64} (top : value >>> 56 = 0) : value <<< 8 >>> 8 = value := by
  apply UInt64.toNat_inj.mp
  have below := congrArg UInt64.toNat top
  simp only [UInt64.toNat_shiftRight, UInt64.toNat_shiftLeft, Nat.shiftLeft_eq,
    Nat.shiftRight_eq_div_pow, UInt64.reduceToNat, Nat.reduceMod] at below ⊢
  omega

/-- `c_str()` hands on the whole name of a valid symbol: it holds no null character. -/
theorem takeWhile_name {sym : Symbol} (valid : sym.valid) :
    sym.name.takeWhile (· ≠ '\x00') = sym.name :=
  List.takeWhile_eq_self_iff.mpr fun c member => by
    have letter := letter_iff.mp (letter_of_mem_name valid c member)
    simp only [ne_eq, decide_eq_true_eq]
    rintro rfl
    simp at letter

/-- A symbol code is read back from the name of `symbol(value << 8)` without its top byte. -/
theorem symbolCode_fromVariant {value : UInt64} (valid : (⟨value <<< 8⟩ : Symbol).valid) :
    ChainType.symbolCode.fromVariant fc (.string (⟨value <<< 8⟩ : Symbol).name : Variant Scalar) =
      some (.symbolCode (value <<< 8 >>> 8)) := by
  have read : stringToSymbol 0 (⟨value <<< 8⟩ : Symbol).name = .ok (value <<< 8) := by
    have named := stringToSymbol_name valid
    rwa [decimals_shiftLeft] at named
  have made : Symbol.make (value <<< 8) = .ok ⟨value <<< 8⟩ := by
    rw [Symbol.make, if_pos valid]
    rfl
  simp only [ChainType.fromVariant, Variant.asString, Option.bind_eq_bind, Option.bind_some,
    takeWhile_name valid, read, made, Except.toOption, Option.pure_def]

theorem symbol_fromVariant (decimal : fc.Decimal) {sym : Symbol} (valid : sym.valid)
    (named : sym.name ≠ []) :
    ChainType.symbol.fromVariant fc (.string sym.toString : Variant Scalar) = some (.symbol sym) := by
  simp [ChainType.fromVariant, Variant.asString, Symbol.toString,
    Symbol.fromString_render decimal valid named, Except.toOption]

/-- An asset's text reads back as the asset. -/
theorem assetFromVariant_of_toString (decimal : fc.Decimal) {a : Asset} (valid : a.isValid)
    (named : a.sym.name ≠ []) {text : List Char} (written : a.toString fc = .ok text) :
    assetFromVariant fc (.string text : Variant Scalar) = some a := by
  have symValid : a.sym.valid := by
    simp only [Asset.isValid, Bool.and_eq_true] at valid
    exact valid.2
  rw [Asset.toString_eq decimal symValid, Except.ok.injEq] at written
  subst written
  simp [assetFromVariant, Variant.asString, Asset.fromString_amountText decimal valid named,
    Except.toOption]

end FromVariant

/-! ### Each chain type -/

section ChainType

variable {Scalar : Type} {fc : FcText}

/-- The quantity and contract of an `extended_asset` are found in the object it is written as. -/
theorem extendedAssetParts_object (quantity contract : Variant Scalar) :
    extendedAssetParts (.object [("quantity".toList, quantity), ("contract".toList, contract)]) =
      some (quantity, contract) :=
  rfl

/-- A value that a decoder made a variant is not null. -/
theorem ChainValue.isNull_of_toVariant {value : ChainValue} {var : Variant Scalar}
    (converted : value.toVariant fc = some var) : var.isNull = false := by
  cases value <;>
    simp only [ChainValue.toVariant, Option.map_eq_some_iff, Option.some.injEq] at converted <;>
    first
    | (subst converted; rfl)
    | (obtain ⟨_, -, rfl⟩ := converted; rfl)

/-- **A value of a chain type is packed back from its variant as the bytes it was read from**,
once the canonical decoder keeps it. -/
theorem ChainType.fromVariant_of_unpack (decimal : fc.Decimal) {t : ChainType}
    {stream rest : List UInt8} {value : ChainValue} {var : Variant Scalar}
    (unpacked : t.unpack stream = some (value, rest))
    (kept : value.keptVariant fc ChainValue.writesBack = some var) :
    stream = value.pack ++ rest ∧ t.fromVariant fc var = some value := by
  have writesBack : value.writesBack = true := by
    by_contra dropped
    rw [ChainValue.keptVariant, if_neg dropped] at kept
    exact absurd kept (Option.some_ne_none _).symm
  rw [ChainValue.keptVariant, if_pos writesBack] at kept
  cases t with
  | name =>
    simp only [ChainType.unpack, Option.map_eq_some_iff, Prod.mk.injEq, Prod.exists] at unpacked
    obtain ⟨code, after, read, rfl, rfl⟩ := unpacked
    simp only [ChainValue.toVariant, Option.some.injEq] at kept
    subst kept
    refine ⟨eq_store_of_unpackUint64 read, ?_⟩
    simp [ChainType.fromVariant, nameFromVariant_toString]
  | symbolCode =>
    simp only [ChainType.unpack, Option.map_eq_some_iff, Prod.mk.injEq, Prod.exists] at unpacked
    obtain ⟨code, after, read, rfl, rfl⟩ := unpacked
    have top : code >>> 56 = 0 := by simpa [ChainValue.writesBack] using writesBack
    -- the symbol of the code's value over no decimals is valid, and is what the variant names
    simp only [ChainValue.toVariant, Option.map_eq_some_iff, toOption_eq_some_iff] at kept
    obtain ⟨sym, made, rfl⟩ := kept
    rw [Symbol.make] at made
    split at made
    next valid =>
      obtain rfl := (Except.ok.inj made).symm
      refine ⟨eq_store_of_unpackUint64 read, ?_⟩
      rw [symbolCode_fromVariant valid, shiftLeft_shiftRight top]
    next => exact absurd made (by simp [throw, throwThe, MonadExceptOf.throw])
  | symbol =>
    simp only [ChainType.unpack, Option.map_eq_some_iff, Prod.mk.injEq, Prod.exists] at unpacked
    obtain ⟨sym, after, read, rfl, rfl⟩ := unpacked
    obtain ⟨valid, split⟩ := unpackSymbol_eq_some read
    have named : sym.name ≠ [] := by simpa [ChainValue.writesBack] using writesBack
    simp only [ChainValue.toVariant, Option.some.injEq] at kept
    subst kept
    exact ⟨split, symbol_fromVariant decimal valid named⟩
  | asset =>
    simp only [ChainType.unpack, Option.map_eq_some_iff, Prod.mk.injEq, Prod.exists] at unpacked
    obtain ⟨a, after, read, rfl, rfl⟩ := unpacked
    obtain ⟨valid, split⟩ := unpackAsset_eq_some read
    have named : a.sym.name ≠ [] := by simpa [ChainValue.writesBack] using writesBack
    simp only [ChainValue.toVariant, Option.map_eq_some_iff, toOption_eq_some_iff] at kept
    obtain ⟨text, written, rfl⟩ := kept
    refine ⟨split, ?_⟩
    simp [ChainType.fromVariant, assetFromVariant_of_toString decimal valid named written]
  | extendedAsset =>
    simp only [ChainType.unpack, Option.bind_eq_bind, Option.bind_eq_some_iff, Prod.exists,
      Option.pure_def, Option.some.injEq, Prod.mk.injEq] at unpacked
    obtain ⟨quantity, afterQuantity, readQuantity, code, after, readContract, rfl, rfl⟩ := unpacked
    obtain ⟨valid, split⟩ := unpackAsset_eq_some readQuantity
    have named : quantity.sym.name ≠ [] := by simpa [ChainValue.writesBack] using writesBack
    simp only [ChainValue.toVariant, Option.map_eq_some_iff, toOption_eq_some_iff] at kept
    obtain ⟨text, written, rfl⟩ := kept
    refine ⟨by rw [split, eq_store_of_unpackUint64 readContract, ChainValue.pack, List.append_assoc], ?_⟩
    simp only [ChainType.fromVariant, extendedAssetParts_object, Option.bind_eq_bind,
      Option.bind_some, assetFromVariant_of_toString decimal valid named written,
      nameFromVariant_toString, Option.pure_def]

/-- The values of a `vector` are packed back from their variants, one after another. -/
theorem ChainType.unpackValues_packBack (decimal : fc.Decimal) {t : ChainType} :
    ∀ {count stream rest values} {vars : List (Variant Scalar)},
      t.unpackValues count stream = some (values, rest) →
        values.mapM (ChainValue.keptVariant fc ChainValue.writesBack) = some vars →
          values.length = count ∧ vars.mapM (t.fromVariant fc) = some values ∧
            stream = (values.map ChainValue.pack).flatten ++ rest
  | 0, stream, rest, values, vars, unpacked, converted => by
    simp only [ChainType.unpackValues, Option.some.injEq, Prod.mk.injEq] at unpacked
    obtain ⟨rfl, rfl⟩ := unpacked
    simp only [List.mapM_nil, Option.pure_def, Option.some.injEq] at converted
    subst converted
    exact ⟨rfl, rfl, rfl⟩
  | count + 1, stream, rest, values, vars, unpacked, converted => by
    simp only [ChainType.unpackValues, Option.bind_eq_bind, Option.bind_eq_some_iff, Prod.exists,
      Option.pure_def, Option.some.injEq, Prod.mk.injEq] at unpacked
    obtain ⟨value, afterValue, readValue, tail, after, readTail, rfl, rfl⟩ := unpacked
    simp only [List.mapM_cons, Option.bind_eq_bind, Option.bind_eq_some_iff, Option.pure_def,
      Option.some.injEq] at converted
    obtain ⟨var, keptValue, tailVars, keptTail, rfl⟩ := converted
    obtain ⟨split, readBack⟩ := ChainType.fromVariant_of_unpack decimal readValue keptValue
    obtain ⟨length, tailBack, tailSplit⟩ := ChainType.unpackValues_packBack decimal readTail keptTail
    refine ⟨by rw [List.length_cons, length], ?_, ?_⟩
    · simp [List.mapM_cons, readBack, tailBack]
    · rw [split, tailSplit, List.map_cons, List.flatten_cons, List.append_assoc]

/-! ### The `unpack_function` of a chain type, branch by branch -/

section UnpackVariant

variable {codec : FcCodec Scalar} {keep : ChainValue → Bool} {t : ChainType}
  {isArray isOptional : Bool} {stream rest : List UInt8} {v : Variant Scalar}

theorem ChainType.unpackVariant_array_eq_some (array : isArray = true) :
    t.unpackVariant codec keep isArray isOptional stream = some (v, rest) ↔
      ∃ size afterSize values vars, codec.unpackVarint stream = some (size, afterSize) ∧
        codec.vectorFits size t.size = true ∧ t.unpackValues size afterSize = some (values, rest) ∧
        values.mapM (ChainValue.keptVariant codec.text keep) = some vars ∧ v = .array vars := by
  rw [ChainType.unpackVariant, if_pos array]
  simp only [Option.bind_eq_bind, Option.bind_eq_some_iff, Prod.exists]
  constructor
  · rintro ⟨size, afterSize, sized, checked⟩
    by_cases fits : codec.vectorFits size t.size = true
    · simp only [fits] at checked
      obtain ⟨⟨values, after⟩, readValues, converted⟩ := Option.bind_eq_some_iff.mp checked
      obtain ⟨vars, keptAll, finished⟩ := Option.bind_eq_some_iff.mp converted
      obtain ⟨rfl, rfl⟩ := Prod.mk.inj (Option.some.inj finished)
      exact ⟨size, afterSize, values, vars, sized, fits, readValues, keptAll, rfl⟩
    · simp [fits] at checked
  · rintro ⟨size, afterSize, values, vars, sized, fits, readValues, keptAll, rfl⟩
    exact ⟨size, afterSize, sized, by simp [fits, readValues, keptAll]⟩

theorem ChainType.unpackVariant_optional_eq_some (array : isArray = false)
    (optional : isOptional = true) :
    t.unpackVariant codec keep isArray isOptional stream = some (v, rest) ↔
      ∃ present afterFlag, codec.unpackBool stream = some (present, afterFlag) ∧
        (present = false ∧ v = .null ∧ rest = afterFlag ∨
          present = true ∧ ∃ value, t.unpack afterFlag = some (value, rest) ∧
            value.keptVariant codec.text keep = some v) := by
  rw [ChainType.unpackVariant, array, optional]
  simp only [Bool.false_eq_true, if_false, if_true, Option.bind_eq_bind, Option.bind_eq_some_iff,
    Prod.exists]
  constructor
  · rintro ⟨present, afterFlag, flagged, read⟩
    cases present with
    | false =>
      simp only [Bool.false_eq_true, if_false] at read
      obtain ⟨rfl, rfl⟩ := read
      exact ⟨false, rest, flagged, Or.inl ⟨rfl, rfl, rfl⟩⟩
    | true =>
      simp only [if_true, Option.bind_eq_some_iff, Prod.exists] at read
      obtain ⟨value, after, readValue, var, kept, rfl, rfl⟩ := read
      exact ⟨true, afterFlag, flagged, Or.inr ⟨rfl, value, readValue, kept⟩⟩
  · rintro ⟨present, afterFlag, flagged, ⟨rfl, rfl, rfl⟩ | ⟨rfl, value, readValue, kept⟩⟩
    · exact ⟨false, rest, flagged, rfl⟩
    · exact ⟨true, afterFlag, flagged, by simp [readValue, kept]⟩

theorem ChainType.unpackVariant_plain_eq_some (array : isArray = false) (optional : isOptional = false) :
    t.unpackVariant codec keep isArray isOptional stream = some (v, rest) ↔
      ∃ value, t.unpack stream = some (value, rest) ∧ value.keptVariant codec.text keep = some v := by
  rw [ChainType.unpackVariant, array, optional]
  simp only [Bool.false_eq_true, if_false, Option.bind_eq_bind, Option.bind_eq_some_iff,
    Prod.exists, Option.pure_def, Option.some.injEq, Prod.mk.injEq]
  constructor
  · rintro ⟨value, after, readValue, var, kept, rfl, rfl⟩
    exact ⟨value, readValue, kept⟩
  · rintro ⟨value, readValue, kept⟩
    exact ⟨value, rest, readValue, v, kept, rfl, rfl⟩

/-- **The `pack_function` of a chain type packs back what its `unpack_function` read**, for a
`vector`, an `optional` and a plain value alike. -/
theorem ChainType.packVariant_of_unpackVariant {builtIns : List (List Char)}
    (exact : codec.PacksBackUnpacked builtIns)
    (unpacked : t.unpackVariant codec ChainValue.writesBack isArray isOptional stream = some (v, rest)) :
    ∃ pre, stream = pre ++ rest ∧ t.packVariant codec isArray isOptional v = some pre := by
  cases array : isArray
  · cases optional : isOptional
    · -- a plain `T`
      obtain ⟨value, readValue, kept⟩ :=
        (ChainType.unpackVariant_plain_eq_some array optional).mp unpacked
      obtain ⟨split, readBack⟩ := ChainType.fromVariant_of_unpack exact.decimal readValue kept
      exact ⟨value.pack, split, by simp [ChainType.packVariant, readBack]⟩
    · -- an `optional<T>`: a `bool`, then the value when it is set
      obtain ⟨present, afterFlag, flagged, ⟨rfl, rfl, rfl⟩ | ⟨rfl, value, readValue, kept⟩⟩ :=
        (ChainType.unpackVariant_optional_eq_some array optional).mp unpacked
      · exact ⟨codec.packBool false, exact.bool flagged, by
          simp [ChainType.packVariant, Variant.isNull]⟩
      · obtain ⟨split, readBack⟩ := ChainType.fromVariant_of_unpack exact.decimal readValue kept
        have notNull : v.isNull = false := by
          rw [ChainValue.keptVariant] at kept
          split at kept
          · exact ChainValue.isNull_of_toVariant kept
          · exact absurd kept (Option.some_ne_none _).symm
        refine ⟨codec.packBool true ++ value.pack,
          by rw [exact.bool flagged, split, List.append_assoc], ?_⟩
        simp [ChainType.packVariant, notNull, readBack]
  · -- a `vector<T>`: its size, then its values
    obtain ⟨size, afterSize, values, vars, sized, -, readValues, keptAll, rfl⟩ :=
      (ChainType.unpackVariant_array_eq_some array).mp unpacked
    obtain ⟨length, readBack, split⟩ :=
      ChainType.unpackValues_packBack exact.decimal readValues keptAll
    refine ⟨codec.packVarint size ++ (values.map ChainValue.pack).flatten,
      by rw [exact.varint sized, split, List.append_assoc], ?_⟩
    simp [ChainType.packVariant, readBack, length]

end UnpackVariant

/-- **A symbol code loses the byte above its seven letters**: whatever that byte, the code is
read as the name of `symbol(value << 8)`, which drops it, and that name is written back
without it. -/
theorem ChainType.symbolCode_loses_top_byte (codec : FcCodec Scalar) {value : UInt64}
    (rest : List UInt8) (valid : (⟨value <<< 8⟩ : Symbol).valid) :
    ChainType.symbolCode.unpackVariant codec (fun _ => true) false false
        (HostWords.store 8 value.toNat ++ rest) = some (.string (⟨value <<< 8⟩ : Symbol).name, rest) ∧
      ChainType.symbolCode.packVariant codec false false (.string (⟨value <<< 8⟩ : Symbol).name) =
        some (HostWords.store 8 (value <<< 8 >>> 8).toNat) := by
  have made : Symbol.make (value <<< 8) = .ok ⟨value <<< 8⟩ := by
    rw [Symbol.make, if_pos valid]
    rfl
  constructor
  · refine (ChainType.unpackVariant_plain_eq_some rfl rfl).mpr ⟨.symbolCode value, ?_, ?_⟩
    · simp [ChainType.unpack, unpackUint64_store]
    · simp [ChainValue.keptVariant, ChainValue.toVariant, made, Except.toOption]
  · simp [ChainType.packVariant, symbolCode_fromVariant valid, ChainValue.pack]

/-! ### Decoders that keep more -/

section Keeps

variable {codec : FcCodec Scalar} {keep keep' : ChainValue → Bool}

theorem ChainValue.keptVariant_of_keeps (keeps : ∀ value, keep value = true → keep' value = true)
    {value : ChainValue} {var : Variant Scalar} (kept : value.keptVariant fc keep = some var) :
    value.keptVariant fc keep' = some var := by
  rw [ChainValue.keptVariant] at kept ⊢
  split at kept
  next accepted =>
    rw [if_pos (keeps value accepted)]
    exact kept
  next => exact absurd kept (Option.some_ne_none _).symm

theorem mapM_keptVariant_of_keeps (keeps : ∀ value, keep value = true → keep' value = true) :
    ∀ {values : List ChainValue} {vars : List (Variant Scalar)},
      values.mapM (ChainValue.keptVariant fc keep) = some vars →
        values.mapM (ChainValue.keptVariant fc keep') = some vars
  | [], _, converted => converted
  | _ :: _, _, converted => by
    simp only [List.mapM_cons, Option.bind_eq_bind, Option.bind_eq_some_iff, Option.pure_def,
      Option.some.injEq] at converted
    obtain ⟨var, kept, tail, keptTail, rfl⟩ := converted
    simp [List.mapM_cons, ChainValue.keptVariant_of_keeps keeps kept,
      mapM_keptVariant_of_keeps keeps keptTail]

theorem ChainType.unpackVariant_of_keeps (keeps : ∀ value, keep value = true → keep' value = true)
    {t : ChainType} {isArray isOptional : Bool} {stream rest : List UInt8} {v : Variant Scalar}
    (unpacked : t.unpackVariant codec keep isArray isOptional stream = some (v, rest)) :
    t.unpackVariant codec keep' isArray isOptional stream = some (v, rest) := by
  cases isArray
  · cases isOptional
    · obtain ⟨value, readValue, kept⟩ := (ChainType.unpackVariant_plain_eq_some rfl rfl).mp unpacked
      exact (ChainType.unpackVariant_plain_eq_some rfl rfl).mpr
        ⟨value, readValue, ChainValue.keptVariant_of_keeps keeps kept⟩
    · obtain ⟨present, afterFlag, flagged, absent | ⟨set, value, readValue, kept⟩⟩ :=
        (ChainType.unpackVariant_optional_eq_some rfl rfl).mp unpacked
      · exact (ChainType.unpackVariant_optional_eq_some rfl rfl).mpr
          ⟨present, afterFlag, flagged, Or.inl absent⟩
      · exact (ChainType.unpackVariant_optional_eq_some rfl rfl).mpr
          ⟨present, afterFlag, flagged,
            Or.inr ⟨set, value, readValue, ChainValue.keptVariant_of_keeps keeps kept⟩⟩
  · obtain ⟨size, afterSize, values, vars, sized, fits, readValues, keptAll, rfl⟩ :=
      (ChainType.unpackVariant_array_eq_some rfl).mp unpacked
    exact (ChainType.unpackVariant_array_eq_some rfl).mpr
      ⟨size, afterSize, values, vars, sized, fits, readValues, mapM_keptVariant_of_keeps keeps keptAll,
        rfl⟩

/-- A decoder that keeps more chain values reads whatever one that keeps fewer reads. -/
theorem FcCodec.unpackBuiltIn_of_keeps (keeps : ∀ value, keep value = true → keep' value = true)
    {type : List Char} {isArray isOptional : Bool} {stream rest : List UInt8} {v : Variant Scalar}
    (unpacked : codec.unpackBuiltIn keep type isArray isOptional stream = some (v, rest)) :
    codec.unpackBuiltIn keep' type isArray isOptional stream = some (v, rest) := by
  rw [FcCodec.unpackBuiltIn] at unpacked ⊢
  split at unpacked
  next t named => exact ChainType.unpackVariant_of_keeps keeps unpacked
  next named => exact unpacked

end Keeps

/-- **Every built-in the canonical decoder reads packs back**: a chain type by the lemma above,
any other by what `fc` is assumed to do. -/
theorem FcCodec.PacksBackUnpacked.packBuiltIn {codec : FcCodec Scalar} {builtIns : List (List Char)}
    (exact : codec.PacksBackUnpacked builtIns) {name : List Char} {isArray isOptional : Bool}
    {stream rest : List UInt8} {v : Variant Scalar} (member : name ∈ builtIns)
    (unpacked : codec.unpackBuiltIn ChainValue.writesBack name isArray isOptional stream =
      some (v, rest)) :
    ∃ pre, stream = pre ++ rest ∧ codec.packBuiltIn name isArray isOptional v = some pre := by
  rw [FcCodec.unpackBuiltIn] at unpacked
  rw [FcCodec.packBuiltIn]
  split at unpacked
  next t named => exact ChainType.packVariant_of_unpackVariant exact unpacked
  next named => exact exact.builtin member named unpacked

end ChainType

end Eosio.Chain
