/-
This file models `abi_serializer` of `abi_serializer.cpp`: the tables `set_abi` fills from an
`abi_def` once it has checked it, and the two conversions between bytes and `fc::variant`,
`binary_to_variant` and `variant_to_binary`, over typedefs, structs with bases and
binary-extension fields, arrays, optionals and variants.

What `fc` provides is a parameter, `FcCodec`: the packing of the built-in types it converts,
of the varint sizes and tags and of `bool`, its text functions, and `variant::as<bytes>`. A
variant holds the value of such a built-in as an opaque scalar, and a `mutable_variant_object`
as its list of entries. The built-ins whose conversions this repository defines, `name`,
`symbol_code`, `symbol`, `asset` and `extended_asset`, are modelled as `name.hpp`, `symbol.hpp`
and `asset.hpp` write them, with the checks `symbol` and `asset` make once unpacked. The kv
tables of an ABI are read where the conversions look for them, before structs. The traversal
context yields with the standard check of `create_yield_function` without its deadline: a
conversion fails when it would enter its 32nd nested scope. The actions, tables, error messages
and action results of an ABI are left out, and so are the texts of the exceptions.

The decoder is written once for every `DecodePolicy`, a set of checks made besides the reading
of the bytes, and threads what `variant_to_binary_context::allow_extensions` would be at each
value; `binary_to_variant` is the decoder that checks nothing and ignores it.
-/

import Mathlib
import EosioChain.Asset
import EosioChain.HostWords

namespace Eosio.Chain

/-! ### Variants -/

/-- `fc::variant`, with the value of a built-in type held as a `Scalar`. -/
inductive Variant (Scalar : Type) where
  | null
  | scalar (value : Scalar)
  | string (chars : List Char)
  | array (items : List (Variant Scalar))
  | object (entries : List (List Char × Variant Scalar))

namespace Variant

variable {Scalar : Type}

/-- `variant::is_null`. -/
def isNull : Variant Scalar → Bool
  | null => true
  | _ => false

/-- `variant::is_object`. -/
def isObject : Variant Scalar → Bool
  | object _ => true
  | _ => false

/-- `variant::get_string`, which throws on a variant that is not a string. -/
def asString : Variant Scalar → Option (List Char)
  | string chars => some chars
  | _ => none

/-- `mutable_variant_object::set`: the first entry of the key takes the value, or an entry is
added. -/
def setEntry : List (List Char × Variant Scalar) → List Char → Variant Scalar →
    List (List Char × Variant Scalar)
  | [], key, value => [(key, value)]
  | entry :: rest, key, value =>
    if entry.1 = key then (key, value) :: rest else entry :: setEntry rest key value

/-- `variant_object::find`: the value of the first entry of the key. -/
def findEntry (entries : List (List Char × Variant Scalar)) (key : List Char) :
    Option (Variant Scalar) :=
  (entries.find? fun entry => entry.1 = key).map Prod.snd

end Variant

/-! ### ABIs -/

/-- `type_def`. -/
structure TypeDef where
  newTypeName : List Char
  type : List Char
deriving DecidableEq

/-- `field_def`. -/
structure FieldDef where
  name : List Char
  type : List Char
deriving DecidableEq

/-- `struct_def`. -/
structure StructDef where
  name : List Char
  base : List Char
  fields : List FieldDef
deriving DecidableEq

/-- `variant_def`. -/
structure VariantDef where
  name : List Char
  types : List (List Char)
deriving DecidableEq

/-- `kv_table_def`, with the type of its values and the type of its primary index. -/
structure KvTableDef where
  type : List Char
  primaryIndexType : List Char
deriving DecidableEq

/-- `abi_def`, with the parts the serializer reads. -/
structure AbiDef where
  version : List Char
  types : List TypeDef
  structs : List StructDef
  variants : List VariantDef
  kvTables : List (Name × KvTableDef)

/-- The maps of `abi_serializer` the conversions read, each a list with one entry of a name. -/
structure AbiSerializer where
  typedefs : List TypeDef
  structs : List StructDef
  variants : List VariantDef
  kvTables : List (Name × KvTableDef)

/-- The exceptions of the serializer. -/
inductive AbiError
  | unsupportedAbiVersion
  | duplicateAbiDef
  | abiCircularDef
  | invalidTypeInsideAbi
  | abiRecursionDepth
  | unpack
  | pack
  | abi
deriving DecidableEq, Repr

/-- `abi_serializer::max_recursion_depth`. -/
def maxRecursionDepth : Nat := 32

/-- The names of `configure_built_in_types`. -/
def builtInTypeNames : List (List Char) :=
  ["bool", "int8", "uint8", "int16", "uint16", "int32", "uint32", "int64", "uint64", "int128",
    "uint128", "varint32", "varuint32", "float32", "float64", "float128", "time_point",
    "time_point_sec", "block_timestamp_type", "name", "bytes", "string", "checksum160",
    "checksum256", "checksum512", "public_key", "signature", "symbol", "symbol_code", "asset",
    "extended_asset"].map String.toList

/-- `boost::algorithm::ends_with`. -/
def endsWith (type suffix : List Char) : Bool :=
  suffix.isSuffixOf type

/-- `abi_serializer::is_array`. -/
def isArray (type : List Char) : Bool :=
  endsWith type "[]".toList

/-- `abi_serializer::is_optional`. -/
def isOptional (type : List Char) : Bool :=
  endsWith type "?".toList

/-- `abi_serializer::fundamental_type`: the type of the elements of an array, or of the value
of an optional. -/
def fundamentalType (type : List Char) : List Char :=
  if isArray type then type.take (type.length - 2)
  else if isOptional type then type.take (type.length - 1)
  else type

/-- `abi_serializer::_remove_bin_extension`. -/
def removeBinExtension (type : List Char) : List Char :=
  if endsWith type "$".toList then type.take (type.length - 1) else type

/-- What `fc` provides: the `unpack_function` and `pack_function` of each built-in type it
converts, given whether the type is an array and whether an optional; the packing of
`fc::unsigned_int` and of `bool`; the check of the size of a `vector` before its elements are
read, given the size and the size of an element; its text functions; and `variant::as<bytes>`. -/
structure FcCodec (Scalar : Type) where
  unpack : List Char → Bool → Bool → List UInt8 → Option (Variant Scalar × List UInt8)
  pack : List Char → Bool → Bool → Variant Scalar → Option (List UInt8)
  unpackVarint : List UInt8 → Option (Nat × List UInt8)
  packVarint : Nat → List UInt8
  unpackBool : List UInt8 → Option (Bool × List UInt8)
  packBool : Bool → List UInt8
  vectorFits : Nat → Nat → Bool
  text : FcText
  asBytes : Variant Scalar → Option (List UInt8)

/-! ### The built-in types of the chain

`name`, `symbol_code`, `symbol`, `asset` and `extended_asset` are packed as their reflected
fields, an integer as its bytes on a little-endian host, and converted to and from variants by
the functions of `name.hpp`, `symbol.hpp` and `asset.hpp`. -/

/-- The built-in types whose conversions this repository defines. -/
inductive ChainType
  | name
  | symbolCode
  | symbol
  | asset
  | extendedAsset
deriving DecidableEq, Repr

/-- The chain type a built-in's name stands for. -/
def ChainType.ofName (type : List Char) : Option ChainType :=
  if type = "name".toList then some .name
  else if type = "symbol_code".toList then some .symbolCode
  else if type = "symbol".toList then some .symbol
  else if type = "asset".toList then some .asset
  else if type = "extended_asset".toList then some .extendedAsset
  else none

/-- `sizeof` of a chain type. -/
def ChainType.size : ChainType → Nat
  | .name | .symbolCode | .symbol => 8
  | .asset => 16
  | .extendedAsset => 24

/-- A value of a chain type. -/
inductive ChainValue
  | name (n : Name)
  | symbolCode (value : UInt64)
  | symbol (sym : Symbol)
  | asset (a : Asset)
  | extendedAsset (quantity : Asset) (contract : Name)
deriving DecidableEq

/-- `fc::raw::unpack` of a `uint64_t`. -/
def unpackUint64 (stream : List UInt8) : Option (UInt64 × List UInt8) :=
  (HostWords.read 8 stream).map fun (word, rest) => (word.toUInt64, rest)

/-- `fc::raw::unpack` of an `int64_t`, held in two's complement. -/
def unpackInt64 (stream : List UInt8) : Option (Int × List UInt8) :=
  (HostWords.read 8 stream).map fun (word, rest) =>
    (if word < 2 ^ 63 then (word : Int) else (word : Int) - 2 ^ 64, rest)

/-- `fc::raw::pack` of an `int64_t`. -/
def packInt64 (x : Int) : List UInt8 :=
  HostWords.store 8 (x % 2 ^ 64).toNat

/-- `fc::raw::unpack` of a `symbol`, and its `reflector_init`, which checks what `valid()` does:
the precision at most 18 and a name of upper-case letters. -/
def unpackSymbol (stream : List UInt8) : Option (Symbol × List UInt8) := do
  let (value, stream) ← unpackUint64 stream
  let sym : Symbol := ⟨value⟩
  if sym.valid then pure (sym, stream) else none

/-- `fc::raw::unpack` of an `asset`, its amount then its symbol, and its `reflector_init`, which
checks the amount's range and the symbol. -/
def unpackAsset (stream : List UInt8) : Option (Asset × List UInt8) := do
  let (amount, stream) ← unpackInt64 stream
  let (sym, stream) ← unpackSymbol stream
  let a : Asset := ⟨amount, sym⟩
  if a.isValid then pure (a, stream) else none

/-- `fc::raw::pack` of an `asset`. -/
def packAsset (a : Asset) : List UInt8 :=
  packInt64 a.amount ++ HostWords.store 8 a.sym.value.toNat

/-- `fc::raw::unpack` of a value of a chain type. -/
def ChainType.unpack : ChainType → List UInt8 → Option (ChainValue × List UInt8)
  | .name, stream => (unpackUint64 stream).map fun (value, rest) => (.name ⟨value⟩, rest)
  | .symbolCode, stream => (unpackUint64 stream).map fun (value, rest) => (.symbolCode value, rest)
  | .symbol, stream => (unpackSymbol stream).map fun (sym, rest) => (.symbol sym, rest)
  | .asset, stream => (unpackAsset stream).map fun (a, rest) => (.asset a, rest)
  | .extendedAsset, stream => do
    let (quantity, stream) ← unpackAsset stream
    let (contract, stream) ← unpackUint64 stream
    pure (.extendedAsset quantity ⟨contract⟩, stream)

/-- `fc::raw::pack` of a value of a chain type. -/
def ChainValue.pack : ChainValue → List UInt8
  | .name n => HostWords.store 8 n.value.toNat
  | .symbolCode value => HostWords.store 8 value.toNat
  | .symbol sym => HostWords.store 8 sym.value.toNat
  | .asset a => packAsset a
  | .extendedAsset quantity contract => packAsset quantity ++ HostWords.store 8 contract.value.toNat

/-- `symbol::to_string()`: the decimals, a comma and the name. -/
def Symbol.toString (sym : Symbol) : List Char :=
  DecimalText.render sym.decimals.toNat ++ ',' :: sym.name

/-- `to_variant` of a value of a chain type. A `symbol_code` is written as the name of the
symbol of its value over no decimals, which must be valid; an `extended_asset` as the object of
its reflected fields. -/
def ChainValue.toVariant {Scalar : Type} (fc : FcText) : ChainValue → Option (Variant Scalar)
  | .name n => some (.string n.toString)
  | .symbolCode value => (Symbol.make (value <<< 8)).toOption.map fun sym => .string sym.name
  | .symbol sym => some (.string sym.toString)
  | .asset a => (a.toString fc).toOption.map .string
  | .extendedAsset quantity contract => (quantity.toString fc).toOption.map fun text =>
    .object [("quantity".toList, .string text), ("contract".toList, .string contract.toString)]

/-- `to_variant` of a value that a decoder keeps. -/
def ChainValue.keptVariant {Scalar : Type} (fc : FcText) (keep : ChainValue → Bool)
    (value : ChainValue) : Option (Variant Scalar) :=
  if keep value then value.toVariant fc else none

section FromVariant

variable {Scalar : Type}

/-- `from_variant` of a `name`: `name::set`, by `string_to_uint64_t`. -/
def nameFromVariant (var : Variant Scalar) : Option Name := do
  let value ← (stringToUint64 (← var.asString)).toOption
  pure ⟨value⟩

/-- `from_variant` of an `asset`: `asset::from_string`. -/
def assetFromVariant (fc : FcText) (var : Variant Scalar) : Option Asset := do
  (Asset.fromString fc (← var.asString)).toOption

/-- The quantity and the contract of an `extended_asset` given as a variant: the first two
items of an array, or the entries of those names of an object. -/
def extendedAssetParts : Variant Scalar → Option (Variant Scalar × Variant Scalar)
  | .array items => do pure (← items[0]?, ← items[1]?)
  | .object entries => do
    pure (← Variant.findEntry entries "quantity".toList, ← Variant.findEntry entries "contract".toList)
  | _ => none

/-- `from_variant` of a value of a chain type. -/
def ChainType.fromVariant (fc : FcText) : ChainType → Variant Scalar → Option ChainValue
  | .name, var => ChainValue.name <$> nameFromVariant var
  | .symbolCode, var => do
    -- `symbol(0, var.get_string().c_str()).to_symbol_code()`
    let value ← (stringToSymbol 0 ((← var.asString).takeWhile (· ≠ '\x00'))).toOption
    let sym ← (Symbol.make value).toOption
    pure (.symbolCode (sym.value >>> 8))
  | .symbol, var => do
    let sym ← (Symbol.fromString fc (← var.asString)).toOption
    pure (.symbol sym)
  | .asset, var => ChainValue.asset <$> assetFromVariant fc var
  | .extendedAsset, var => do
    let (quantity, contract) ← extendedAssetParts var
    pure (.extendedAsset (← assetFromVariant fc quantity) (← nameFromVariant contract))

end FromVariant

section ChainCodec

variable {Scalar : Type} (codec : FcCodec Scalar)

/-- `fc::raw::unpack` of `count` values of a chain type, one after another. -/
def ChainType.unpackValues (t : ChainType) : Nat → List UInt8 → Option (List ChainValue × List UInt8)
  | 0, stream => some ([], stream)
  | count + 1, stream => do
    let (value, stream) ← t.unpack stream
    let (values, stream) ← t.unpackValues count stream
    pure (value :: values, stream)

/-- The `unpack_function` of `pack_unpack<T>` for a chain type `T`: a `vector<T>`, an
`std::optional<T>` or a `T` unpacked, then made a variant. `keep` says which values a decoder
accepts. -/
def ChainType.unpackVariant (keep : ChainValue → Bool) (t : ChainType) (isArray isOptional : Bool)
    (stream : List UInt8) : Option (Variant Scalar × List UInt8) :=
  if isArray then do
    let (size, stream) ← codec.unpackVarint stream
    unless codec.vectorFits size t.size do none
    let (values, stream) ← t.unpackValues size stream
    let vars ← values.mapM (ChainValue.keptVariant codec.text keep)
    pure (.array vars, stream)
  else if isOptional then do
    let (present, stream) ← codec.unpackBool stream
    if present then
      let (value, stream) ← t.unpack stream
      pure (← value.keptVariant codec.text keep, stream)
    else pure (.null, stream)
  else do
    let (value, stream) ← t.unpack stream
    pure (← value.keptVariant codec.text keep, stream)

/-- The `pack_function` of `pack_unpack<T>` for a chain type `T`: the variant read as a
`vector<T>`, an `std::optional<T>` or a `T`, then packed. -/
def ChainType.packVariant (t : ChainType) (isArray isOptional : Bool) (var : Variant Scalar) :
    Option (List UInt8) :=
  if isArray then
    match var with
    | .array items => do
      let values ← items.mapM (t.fromVariant codec.text)
      pure (codec.packVarint values.length ++ (values.map ChainValue.pack).flatten)
    | _ => none
  else if isOptional then
    if var.isNull then some (codec.packBool false)
    else do
      let value ← t.fromVariant codec.text var
      pure (codec.packBool true ++ value.pack)
  else (t.fromVariant codec.text var).map ChainValue.pack

/-- The `unpack_function` of a built-in type: the chain's own for a chain type, `fc`'s for the
others. -/
def FcCodec.unpackBuiltIn (keep : ChainValue → Bool) (type : List Char) (isArray isOptional : Bool)
    (stream : List UInt8) : Option (Variant Scalar × List UInt8) :=
  match ChainType.ofName type with
  | some t => t.unpackVariant codec keep isArray isOptional stream
  | none => codec.unpack type isArray isOptional stream

/-- The `pack_function` of a built-in type. -/
def FcCodec.packBuiltIn (type : List Char) (isArray isOptional : Bool) (var : Variant Scalar) :
    Option (List UInt8) :=
  match ChainType.ofName type with
  | some t => t.packVariant codec isArray isOptional var
  | none => codec.pack type isArray isOptional var

end ChainCodec

namespace AbiSerializer

variable (abi : AbiSerializer)

/-- `typedefs.find`. -/
def findTypedef (type : List Char) : Option (List Char) :=
  (abi.typedefs.find? fun typedef => typedef.newTypeName = type).map TypeDef.type

/-- `structs.find`. -/
def findStruct (type : List Char) : Option StructDef :=
  abi.structs.find? fun st => st.name = type

/-- `variants.find`. -/
def findVariant (type : List Char) : Option VariantDef :=
  abi.variants.find? fun v => v.name = type

/-- The loop of `resolve_type` from the target `t`, with `remaining` passes left: the first
name of the chain that is not a typedef, or `none` when the passes run out. -/
def resolveLoop : Nat → List Char → Option (List Char)
  | 0, _ => none
  | remaining + 1, t =>
    match abi.findTypedef t with
    | none => some t
    | some next => resolveLoop remaining next

/-- `resolve_type`: the end of the chain of typedefs from `type`, followed at most as many times
as there are typedefs; `type` itself when it is not a typedef or the chain does not end. -/
def resolveType (type : List Char) : List Char :=
  match abi.findTypedef type with
  | none => type
  | some t => (abi.resolveLoop abi.typedefs.length t).getD type

/-- `kv_tables.find(name(type))`, for a type that is a valid name. -/
def findKvTable (type : List Char) : Option KvTableDef :=
  match stringToUint64 type with
  | .ok value => (abi.kvTables.find? fun table => table.1.value = value).map Prod.snd
  | .error _ => none

/-- Whether the conversions look for a kv table of the type: there are kv tables, and the type
is a valid name. -/
def usesKvTables (type : List Char) : Bool :=
  !abi.kvTables.isEmpty && isStringValidName type

/-- The kv table the conversions read a type through. -/
def kvTableOf (type : List Char) : Option KvTableDef :=
  if abi.usesKvTables type then abi.findKvTable type else none

/-- `_is_type`, entering a scope at each call: `fuel` counts the scopes it may still enter. -/
def isTypeAt : Nat → List Char → Except AbiError Bool
  | 0, _ => .error .abiRecursionDepth
  | fuel + 1, rtype =>
    let type := fundamentalType rtype
    if type ∈ builtInTypeNames then .ok true
    else match abi.findTypedef type with
      | some target => isTypeAt fuel target
      | none => .ok ((abi.findStruct type).isSome || (abi.findVariant type).isSome ||
          (isStringValidName type && (abi.findKvTable type).isSome))

/-- How `_variant_to_binary` reads a name before it looks for a struct of it: a struct name is
read as a struct when it is neither a built-in, an array, an optional nor a variant. -/
def readsAsStruct (rtype : List Char) : Bool :=
  !(fundamentalType rtype ∈ builtInTypeNames) && !isArray rtype && !isOptional rtype &&
    (abi.findVariant rtype).isNone

end AbiSerializer

/-! ### `set_abi` -/

/-- `map[key] = value` on a map kept as a list. -/
def insertByName {α : Type} (name : α → List Char) (entries : List α) (entry : α) : List α :=
  if entries.any fun other => name other = name entry then
    entries.map fun other => if name other = name entry then entry else other
  else entries ++ [entry]

namespace AbiSerializer

variable (abi : AbiSerializer)

/-- The loop of `validate` along the typedefs from `name`: no name comes back. `fuel` bounds the
passes, which a chain without repetition cannot exceed. -/
def typedefChainOk : Nat → List (List Char) → List Char → Except AbiError Unit
  | 0, _, _ => .error .abiCircularDef
  | fuel + 1, seen, name =>
    match abi.findTypedef name with
    | none => .ok ()
    | some next =>
      if next ∈ seen then .error .abiCircularDef else typedefChainOk fuel (seen ++ [next]) next

/-- The loop of `validate` along the bases of a struct: each base is a struct, reached through
`get_struct`, and none comes back. -/
def baseChainOk : Nat → List (List Char) → StructDef → Except AbiError Unit
  | 0, _, _ => .error .abiCircularDef
  | fuel + 1, seen, current =>
    if current.base = [] then .ok ()
    else match abi.findStruct (abi.resolveType current.base) with
      | none => .error .invalidTypeInsideAbi
      | some base =>
        if base.name ∈ seen then .error .abiCircularDef
        else baseChainOk fuel (seen ++ [base.name]) base

/-- `_is_type` from `validate`, whose context starts at depth `0`. -/
def isType (type : List Char) : Except AbiError Bool :=
  abi.isTypeAt (maxRecursionDepth - 1) type

/-- A check of `validate` that a name is a type. -/
def requireType (type : List Char) : Except AbiError Unit := do
  unless (← abi.isType type) do throw .invalidTypeInsideAbi

/-- `abi_serializer::validate`, for typedefs, structs, variants and kv tables. -/
def validate : Except AbiError Unit := do
  abi.typedefs.forM fun t => abi.typedefChainOk (abi.typedefs.length + 1) [t.newTypeName, t.type] t.type
  abi.typedefs.forM fun t => abi.requireType t.type
  abi.structs.forM fun s => do
    abi.baseChainOk (abi.structs.length + 1) [s.name] s
    s.fields.forM fun field => abi.requireType (removeBinExtension field.type)
  abi.variants.forM fun s => s.types.forM abi.requireType
  abi.kvTables.forM fun kt => do
    abi.requireType kt.2.type
    unless kt.2.primaryIndexType ≠ [] do throw .invalidTypeInsideAbi

end AbiSerializer

/-- `map[key] = value` on a map keyed by names. -/
def insertByKey {α : Type} (entries : List (Name × α)) (entry : Name × α) : List (Name × α) :=
  if entries.any fun other => other.1 = entry.1 then
    entries.map fun other => if other.1 = entry.1 then entry else other
  else entries ++ [entry]

/-- `abi_serializer::set_abi`: the maps are filled, structs first, then typedefs, each of a name
that is not a type yet, then kv tables and variants; no two definitions of a kind may share a
name; then `validate`. -/
def setAbi (abiDef : AbiDef) : Except AbiError AbiSerializer := do
  unless "eosio::abi/1.".toList.isPrefixOf abiDef.version do throw .unsupportedAbiVersion
  let structs := abiDef.structs.foldl (insertByName StructDef.name) []
  let typedefs ← abiDef.types.foldlM (fun typedefs td => do
      let seen : AbiSerializer := ⟨typedefs, structs, [], []⟩
      if (← seen.isType td.newTypeName) then throw .duplicateAbiDef
      pure (insertByName TypeDef.newTypeName typedefs td)) []
  let kvTables := abiDef.kvTables.foldl insertByKey []
  let variants := abiDef.variants.foldl (insertByName VariantDef.name) []
  unless typedefs.length = abiDef.types.length do throw .duplicateAbiDef
  unless structs.length = abiDef.structs.length do throw .duplicateAbiDef
  unless kvTables.length = abiDef.kvTables.length do throw .duplicateAbiDef
  unless variants.length = abiDef.variants.length do throw .duplicateAbiDef
  let abi : AbiSerializer := ⟨typedefs, structs, variants, kvTables⟩
  abi.validate
  pure abi

/-! ### From bytes to variants -/

/-- The checks a decoder makes besides the reading of the bytes. -/
structure DecodePolicy where
  /-- whether a built-in type is read -/
  builtin : List Char → Bool
  /-- whether a presence flag is accepted -/
  flag : UInt8 → Bool
  /-- whether the value after a set presence flag is kept, given whether it is null -/
  present : Bool → Bool
  /-- whether a variant's tag is accepted, given whether its type first appears at that tag -/
  tag : Bool → Bool
  /-- whether a field is stored or left out, given whether the object has its name already -/
  field : Bool → Bool
  /-- whether an extension field is left out, given whether `variant_to_binary` allows it -/
  skip : Bool → Bool
  /-- whether a base is read, given whether `variant_to_binary` reads it as a struct -/
  base : Bool → Bool
  /-- whether a value of a chain type is read -/
  chainValue : ChainValue → Bool
  /-- whether the value of a kv table is kept, given whether `variant_to_binary` writes it
  through the table: the type is no struct, and the value an object -/
  kv : Bool → Bool

/-- The policy of `abi_serializer`, which checks none of these. -/
def DecodePolicy.permissive : DecodePolicy :=
  ⟨fun _ => true, fun _ => true, fun _ => true, fun _ => true, fun _ => true, fun _ => true,
    fun _ => true, fun _ => true, fun _ => true⟩

section Decode

variable {Scalar : Type} (abi : AbiSerializer) (codec : FcCodec Scalar) (policy : DecodePolicy)

/-- The loop of `_binary_to_variant` over the elements of an array: none may be null. -/
def unpackElements (decode : List UInt8 → Except AbiError (Variant Scalar × List UInt8)) :
    Nat → List UInt8 → Except AbiError (List (Variant Scalar) × List UInt8)
  | 0, stream => .ok ([], stream)
  | size + 1, stream => do
    let (v, stream) ← decode stream
    if v.isNull then throw .unpack
    let (vars, stream) ← unpackElements decode size stream
    pure (v :: vars, stream)

/-- The loop of `_binary_to_variant` over the fields of a struct: once the bytes run out, an
extension field is left out, and any other field fails. `decodeField allow type` reads a
field's value, where `allow` is what `variant_to_binary` would allow there. -/
def unpackFields
    (decodeField : Bool → List Char → List UInt8 → Except AbiError (Variant Scalar × List UInt8))
    (allow : Bool) : List FieldDef → Bool → List UInt8 → List (List Char × Variant Scalar) →
      Except AbiError (List (List Char × Variant Scalar) × List UInt8)
  | [], _, stream, obj => .ok (obj, stream)
  | field :: rest, encounteredExtension, stream, obj =>
    let extension := endsWith field.type "$".toList
    let encounteredExtension := encounteredExtension || extension
    let known := obj.any fun entry => entry.1 = field.name
    match stream with
    | [] =>
      if extension then
        if policy.skip allow && policy.field known then
          unpackFields decodeField allow rest encounteredExtension [] obj
        else .error .unpack
      else if encounteredExtension then .error .abi
      else .error .unpack
    | byte :: bytes => do
      let (v, stream) ← decodeField (allow && rest.isEmpty)
        (abi.resolveType (if extension then removeBinExtension field.type else field.type))
        (byte :: bytes)
      unless policy.field known do throw .unpack
      unpackFields decodeField allow rest encounteredExtension stream
        (Variant.setEntry obj field.name v)

mutual

/-- `_binary_to_variant(type, stream, ctx)`: the value of `type` at the front of the stream, and
the bytes after it. `fuel` counts the scopes the call may still enter. -/
def unpackValue : Nat → Bool → List Char → List UInt8 →
    Except AbiError (Variant Scalar × List UInt8)
  | 0, _, _, _ => .error .abiRecursionDepth
  | fuel + 1, allow, type, stream =>
    let rtype := abi.resolveType type
    let ftype := fundamentalType rtype
    if ftype ∈ builtInTypeNames then
      if policy.builtin ftype then
        match codec.unpackBuiltIn policy.chainValue ftype (isArray rtype) (isOptional rtype) stream with
        | some result => .ok result
        | none => .error .unpack
      else .error .unpack
    else if isArray rtype then
      match codec.unpackVarint stream with
      | some (size, stream) => do
        let (vars, stream) ← unpackElements (unpackValue fuel false ftype) size stream
        pure (.array vars, stream)
      | none => .error .unpack
    else if isOptional rtype then
      match stream with
      | flag :: stream =>
        if !policy.flag flag then .error .unpack
        else if flag ≠ 0 then do
          let (v, stream) ← unpackValue fuel allow ftype stream
          unless policy.present v.isNull do throw .unpack
          pure (v, stream)
        else .ok (.null, stream)
      | [] => .error .unpack
    else match abi.findVariant rtype with
      | some vdef =>
        match codec.unpackVarint stream with
        | some (select, stream) =>
          match vdef.types[select]? with
          | some t =>
            if policy.tag (vdef.types.idxOf t = select) then do
              let (v, stream) ← unpackValue fuel allow t stream
              pure (.array [.string t, v], stream)
            else .error .unpack
          | none => .error .unpack
        | none => .error .unpack
      | none =>
        match abi.kvTableOf rtype with
        | some kt => do
          let (v, stream) ← unpackValue fuel allow kt.type stream
          unless policy.kv ((abi.findStruct rtype).isNone && v.isObject) do throw .unpack
          pure (v, stream)
        | none => do
          let (obj, stream) ← unpackObject fuel allow rtype stream []
          -- an empty struct is not unpacked
          if obj.isEmpty then throw .unpack
          pure (.object obj, stream)

/-- `_binary_to_variant(type, stream, obj, ctx)`: the fields of the struct `type` read into
`obj`, those of its base first. -/
def unpackObject : Nat → Bool → List Char → List UInt8 → List (List Char × Variant Scalar) →
    Except AbiError (List (List Char × Variant Scalar) × List UInt8)
  | 0, _, _, _, _ => .error .abiRecursionDepth
  | fuel + 1, allow, type, stream, obj =>
    match abi.findStruct type with
    | none => .error .invalidTypeInsideAbi
    | some st => do
      let (obj, stream) ←
        if st.base ≠ [] then
          if policy.base (abi.readsAsStruct (abi.resolveType st.base)) then
            unpackObject fuel false (abi.resolveType st.base) stream obj
          else throw .unpack
        else pure (obj, stream)
      unpackFields abi policy (unpackValue fuel) allow st.fields false stream obj

end

/-- `_binary_to_variant(type, binary, ctx)` under `policy`, with the bytes it leaves: the call
and the value each enter a scope. -/
def unpackBinary (type : List Char) (binary : List UInt8) :
    Except AbiError (Variant Scalar × List UInt8) :=
  unpackValue abi codec policy (maxRecursionDepth - 2) true type binary

/-- `abi_serializer::binary_to_variant`. -/
def binaryToVariant (type : List Char) (binary : List UInt8) : Except AbiError (Variant Scalar) :=
  Prod.fst <$> unpackBinary abi codec .permissive type binary

end Decode

/-! ### From variants to bytes -/

section Encode

variable {Scalar : Type} (abi : AbiSerializer) (codec : FcCodec Scalar)

/-- The loop of `_variant_to_binary` over the elements of an array. -/
def packElements (encode : Variant Scalar → Except AbiError (List UInt8)) :
    List (Variant Scalar) → Except AbiError (List UInt8)
  | [] => .ok []
  | var :: rest => do
    let head ← encode var
    let tail ← packElements encode rest
    pure (head ++ tail)

/-- The loop of `_variant_to_binary` over the fields of a struct given as an object: a missing
extension field where extensions are allowed ends the fields, after which none may be given. -/
def packObjectFields (encodeField : Bool → List Char → Variant Scalar → Except AbiError (List UInt8))
    (allow : Bool) (vo : List (List Char × Variant Scalar)) :
    List FieldDef → Bool → Except AbiError (List UInt8)
  | [], _ => .ok []
  | field :: rest, disallowAdditionalFields =>
    match Variant.findEntry vo field.name with
    | some value =>
      if disallowAdditionalFields then .error .pack
      else do
        let head ← encodeField (allow && rest.isEmpty) (removeBinExtension field.type) value
        let tail ← packObjectFields encodeField allow vo rest disallowAdditionalFields
        pure (head ++ tail)
    | none =>
      if endsWith field.type "$".toList && allow then
        packObjectFields encodeField allow vo rest true
      else if disallowAdditionalFields then .error .abi
      else .error .pack

/-- The loop of `_variant_to_binary` over the fields of a struct given as an array. -/
def packArrayFields (encodeField : Bool → List Char → Variant Scalar → Except AbiError (List UInt8))
    (allow : Bool) : List FieldDef → List (Variant Scalar) → Except AbiError (List UInt8)
  | [], _ => .ok []
  | field :: rest, value :: values => do
    let head ← encodeField (allow && rest.isEmpty) (removeBinExtension field.type) value
    let tail ← packArrayFields encodeField allow rest values
    pure (head ++ tail)
  | field :: _, [] =>
    if endsWith field.type "$".toList && allow then .ok [] else .error .pack

/-- `_variant_to_binary(type, var, ds, ctx)`: the bytes of `var` as a `type`; `allow` is the
context's `allow_extensions`, and `fuel` counts the scopes the call may still enter. -/
def packValue : Nat → Bool → List Char → Variant Scalar → Except AbiError (List UInt8)
  | 0, _, _, _ => .error .abiRecursionDepth
  | fuel + 1, allow, type, var =>
    let rtype := abi.resolveType type
    if fundamentalType rtype ∈ builtInTypeNames then
      match codec.packBuiltIn (fundamentalType rtype) (isArray rtype) (isOptional rtype) var with
      | some bytes => .ok bytes
      | none => .error .pack
    else if isArray rtype then
      match var with
      | .array vars => do
        let body ← packElements (packValue fuel false (fundamentalType rtype)) vars
        pure (codec.packVarint vars.length ++ body)
      | _ => .error .pack
    else if isOptional rtype then
      if var.isNull then .ok [0]
      else do
        let body ← packValue fuel allow (fundamentalType rtype) var
        pure (1 :: body)
    else match abi.findVariant rtype with
      | some v =>
        match var with
        | .array [.string t, value] =>
          match v.types.idxOf? t with
          | some index => do
            let body ← packValue fuel allow t value
            pure (codec.packVarint index ++ body)
          | none => .error .pack
        | _ => .error .pack
      | none =>
        match abi.findStruct rtype with
        | some st =>
          match var with
          | .object vo => do
            let baseBytes ←
              if st.base ≠ [] then packValue fuel false (abi.resolveType st.base) var else pure []
            let fieldBytes ← packObjectFields (packValue fuel) allow vo st.fields false
            pure (baseBytes ++ fieldBytes)
          | .array va =>
            if st.base ≠ [] then .error .invalidTypeInsideAbi
            else packArrayFields (packValue fuel) allow st.fields va
          | _ => .error .pack
        | none =>
          match var with
          | .object _ =>
            -- a kv table that is not found writes nothing
            if abi.usesKvTables rtype then
              match abi.findKvTable rtype with
              | some kt => packValue fuel allow kt.type var
              | none => .ok []
            else .error .invalidTypeInsideAbi
          | _ => .error .invalidTypeInsideAbi

/-- `abi_serializer::variant_to_binary`: the bytes of a type of the ABI, written into a buffer
of 1 MiB; a variant of any other type is read with `as<bytes>`. The call, its `_is_type` and
the value each enter a scope. -/
def variantToBinary (type : List Char) (var : Variant Scalar) : Except AbiError (List UInt8) := do
  if !(← abi.isTypeAt (maxRecursionDepth - 2) type) then
    match codec.asBytes var with
    | some bytes => pure bytes
    | none => throw .pack
  else
    let bytes ← packValue abi codec (maxRecursionDepth - 2) true type var
    unless bytes.length ≤ 1024 * 1024 do throw .pack
    pure bytes

end Encode

end Eosio.Chain
