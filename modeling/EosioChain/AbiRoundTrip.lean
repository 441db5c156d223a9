/-
This file relates the two conversions of `abi_serializer`. Reading bytes into a variant and
writing the variant back does not give the bytes back in general: a presence flag other than
`0` and `1` is read as set and written as `1`, a tag of a type that a variant lists twice is
written as the first, and a binary-extension field left out by the decoder may not be left out
where the encoder writes it.

The built-ins of the chain lose bytes too: a symbol code's byte above its seven letters is
dropped. A kv table is read before a struct of its name but written after it, and written only
from an object.

A canonical decoder makes the checks that rule these out. Whatever bytes it accepts,
`binary_to_variant` reads as the same variant, and `variant_to_binary` writes back exactly, as
long as fc packs back what it unpacked and the bytes fit the encoder's buffer.

The proof is a mutual induction on the decoder's fuel: a value read with some fuel is written
back with at least as much, and the fields of a struct read into an object are written back from
any object that agrees with it on their names.
-/

import EosioChain.AbiBuiltIns
import EosioChain.Transition

namespace Eosio.Chain

open Transition

/-! ### Objects -/

namespace Variant

variable {Scalar : Type} {entries more : List (List Char × Variant Scalar)} {key : List Char}
  {value : Variant Scalar}

/-- The decoder's test for a field already read is membership of its name. -/
theorem any_key_eq_decide :
    (entries.any fun entry => entry.1 = key) = decide (key ∈ entries.map Prod.fst) := by
  rw [Bool.eq_iff_iff]
  simp

theorem findEntry_eq_none (absent : key ∉ entries.map Prod.fst) : findEntry entries key = none := by
  simp only [findEntry, Option.map_eq_none_iff, List.find?_eq_none, decide_eq_true_eq]
  intro entry member same
  exact absent (List.mem_map.mpr ⟨entry, member, same⟩)

theorem findEntry_append_of_mem (member : key ∈ entries.map Prod.fst) :
    findEntry (entries ++ more) key = findEntry entries key := by
  obtain ⟨entry, entryMember, rfl⟩ := List.mem_map.mp member
  have found : (entries.find? fun other => other.1 = entry.1).isSome :=
    List.find?_isSome.mpr ⟨entry, entryMember, by simp⟩
  obtain ⟨first, firstFound⟩ := Option.isSome_iff_exists.mp found
  simp [findEntry, List.find?_append, firstFound]

theorem findEntry_append_of_not_mem (absent : key ∉ entries.map Prod.fst) :
    findEntry (entries ++ more) key = findEntry more key := by
  have missing : findEntry entries key = none := findEntry_eq_none absent
  simp only [findEntry, Option.map_eq_none_iff] at missing
  simp [findEntry, List.find?_append, missing]

theorem findEntry_cons_self : findEntry ((key, value) :: entries) key = some value := by
  simp [findEntry]

/-- Setting a key an object does not have adds its entry at the end. -/
theorem setEntry_of_not_mem (absent : key ∉ entries.map Prod.fst) :
    setEntry entries key value = entries ++ [(key, value)] := by
  induction entries with
  | nil => rfl
  | cons entry rest inductionHypothesis =>
    have other : entry.1 ≠ key := fun same => absent (by simp [← same])
    have restAbsent : key ∉ rest.map Prod.fst := fun member => absent (by simp_all)
    simp [setEntry, other, inductionHypothesis restAbsent]

end Variant

/-- An object `whole` that agrees with `obj` on its keys, and, where extensions are allowed, has
none of the other keys. The fields read into `obj` are written back from such an object. -/
def AgreesWith {Scalar : Type} (whole obj : List (List Char × Variant Scalar)) (allow : Bool) :
    Prop :=
  (∀ key ∈ obj.map Prod.fst, Variant.findEntry whole key = Variant.findEntry obj key) ∧
    (allow = true → ∀ key ∉ obj.map Prod.fst, Variant.findEntry whole key = none)

theorem AgreesWith.refl {Scalar : Type} (obj : List (List Char × Variant Scalar)) (allow : Bool) :
    AgreesWith obj obj allow :=
  ⟨fun _ _ => rfl, fun _ _ absent => Variant.findEntry_eq_none absent⟩

/-- What agrees with an object agrees, without extensions, with the part read before. -/
theorem AgreesWith.of_append {Scalar : Type} {whole obj more : List (List Char × Variant Scalar)}
    {allow : Bool} (agrees : AgreesWith whole (obj ++ more) allow) : AgreesWith whole obj false := by
  refine ⟨fun key member => ?_, fun allowed => nomatch allowed⟩
  have longer : key ∈ (obj ++ more).map Prod.fst := by simp_all
  rw [agrees.1 key longer, Variant.findEntry_append_of_mem member]

/-! ### Typedefs -/

namespace AbiSerializer

variable (abi : AbiSerializer)

/-- The loop of `resolve_type` stops at a name that is not a typedef. -/
theorem findTypedef_of_resolveLoop {remaining : Nat} {t resolved : List Char}
    (stopped : abi.resolveLoop remaining t = some resolved) : abi.findTypedef resolved = none := by
  induction remaining generalizing t with
  | zero => exact nomatch stopped
  | succ remaining inductionHypothesis =>
    rw [resolveLoop] at stopped
    split at stopped
    · next isNotTypedef => exact Option.some.inj stopped ▸ isNotTypedef
    · exact inductionHypothesis stopped

/-- A resolved type resolves to itself. -/
@[simp]
theorem resolveType_resolveType (type : List Char) :
    abi.resolveType (abi.resolveType type) = abi.resolveType type := by
  cases isTypedef : abi.findTypedef type with
  | none => simp [resolveType, isTypedef]
  | some t =>
    cases stopped : abi.resolveLoop abi.typedefs.length t with
    | none =>
      have unchanged : abi.resolveType type = type := by simp [resolveType, isTypedef, stopped]
      rw [unchanged, unchanged]
    | some resolved =>
      have resolvedTo : abi.resolveType type = resolved := by simp [resolveType, isTypedef, stopped]
      rw [resolvedTo]
      simp [resolveType, abi.findTypedef_of_resolveLoop stopped]

end AbiSerializer

/-- The field type the decoder reads is the one the encoder writes, with or without `$`. -/
theorem removeBinExtension_of_extension (type : List Char) :
    (if endsWith type "$".toList = true then removeBinExtension type else type) =
      removeBinExtension type := by
  by_cases extension : endsWith type "$".toList = true
  · rw [if_pos extension]
  · rw [if_neg extension, removeBinExtension, if_neg extension]

/-! ### The encoder, branch by branch -/

section Encode

variable {Scalar : Type} {abi : AbiSerializer} {codec : FcCodec Scalar} {fuel : Nat}
  {allow : Bool} {type : List Char}

/-- One call of `_variant_to_binary` with fuel left, as the definition reads; the branch lemmas
below rewrite with it rather than unfold the encoder each time. -/
theorem packValue_succ (v : Variant Scalar) :
    packValue abi codec (fuel + 1) allow type v =
      let rtype := abi.resolveType type
      if fundamentalType rtype ∈ builtInTypeNames then
        match codec.packBuiltIn (fundamentalType rtype) (isArray rtype) (isOptional rtype) v with
        | some bytes => .ok bytes
        | none => .error .pack
      else if isArray rtype then
        match v with
        | .array vars => do
          let body ← packElements (packValue abi codec fuel false (fundamentalType rtype)) vars
          pure (codec.packVarint vars.length ++ body)
        | _ => .error .pack
      else if isOptional rtype then
        if v.isNull then .ok [0]
        else do
          let body ← packValue abi codec fuel allow (fundamentalType rtype) v
          pure (1 :: body)
      else match abi.findVariant rtype with
        | some vdef =>
          match v with
          | .array [.string t, value] =>
            match vdef.types.idxOf? t with
            | some index => do
              let body ← packValue abi codec fuel allow t value
              pure (codec.packVarint index ++ body)
            | none => .error .pack
          | _ => .error .pack
        | none =>
          match abi.findStruct rtype with
          | some st =>
            match v with
            | .object vo => do
              let baseBytes ←
                if st.base ≠ [] then packValue abi codec fuel false (abi.resolveType st.base) v
                else pure []
              let fieldBytes ← packObjectFields (packValue abi codec fuel) allow vo st.fields false
              pure (baseBytes ++ fieldBytes)
            | .array va =>
              if st.base ≠ [] then .error .invalidTypeInsideAbi
              else packArrayFields (packValue abi codec fuel) allow st.fields va
            | _ => .error .pack
          | none =>
            match v with
            | .object _ =>
              if abi.usesKvTables rtype then
                match abi.findKvTable rtype with
                | some kt => packValue abi codec fuel allow kt.type v
                | none => .ok []
              else .error .invalidTypeInsideAbi
            | _ => .error .invalidTypeInsideAbi :=
  rfl

/-- The encoder reads a type through `resolve_type` only. -/
@[simp]
theorem packValue_resolveType (v : Variant Scalar) :
    packValue abi codec fuel allow (abi.resolveType type) v = packValue abi codec fuel allow type v := by
  cases fuel with
  | zero => rfl
  | succ fuel => simp only [packValue_succ, AbiSerializer.resolveType_resolveType]

theorem packValue_of_builtin {v : Variant Scalar} {bytes : List UInt8}
    (builtin : fundamentalType (abi.resolveType type) ∈ builtInTypeNames)
    (packed : codec.packBuiltIn (fundamentalType (abi.resolveType type))
      (isArray (abi.resolveType type)) (isOptional (abi.resolveType type)) v = some bytes) :
    packValue abi codec (fuel + 1) allow type v = .ok bytes := by
  simp [packValue_succ, builtin, packed]

theorem packValue_of_array {vars : List (Variant Scalar)} {body : List UInt8}
    (notBuiltin : fundamentalType (abi.resolveType type) ∉ builtInTypeNames)
    (array : isArray (abi.resolveType type) = true)
    (elements : packElements (packValue abi codec fuel false (fundamentalType (abi.resolveType type)))
      vars = .ok body) :
    packValue abi codec (fuel + 1) allow type (.array vars) = .ok (codec.packVarint vars.length ++ body) := by
  simp [packValue_succ, notBuiltin, array, elements, bind, Except.bind, pure, Except.pure]

theorem packValue_null_of_optional
    (notBuiltin : fundamentalType (abi.resolveType type) ∉ builtInTypeNames)
    (notArray : isArray (abi.resolveType type) = false)
    (optional : isOptional (abi.resolveType type) = true) :
    packValue abi codec (fuel + 1) allow type .null = .ok [0] := by
  simp [packValue_succ, notBuiltin, notArray, optional, Variant.isNull]

theorem packValue_of_optional {v : Variant Scalar} {body : List UInt8}
    (notBuiltin : fundamentalType (abi.resolveType type) ∉ builtInTypeNames)
    (notArray : isArray (abi.resolveType type) = false)
    (optional : isOptional (abi.resolveType type) = true) (present : v.isNull = false)
    (packed : packValue abi codec fuel allow (fundamentalType (abi.resolveType type)) v = .ok body) :
    packValue abi codec (fuel + 1) allow type v = .ok (1 :: body) := by
  simp [packValue_succ, notBuiltin, notArray, optional, present, packed, bind, Except.bind, pure,
    Except.pure]

theorem packValue_of_variant {vdef : VariantDef} {t : List Char} {index : Nat} {value : Variant Scalar}
    {body : List UInt8}
    (notBuiltin : fundamentalType (abi.resolveType type) ∉ builtInTypeNames)
    (notArray : isArray (abi.resolveType type) = false)
    (notOptional : isOptional (abi.resolveType type) = false)
    (found : abi.findVariant (abi.resolveType type) = some vdef) (tag : vdef.types.idxOf? t = some index)
    (packed : packValue abi codec fuel allow t value = .ok body) :
    packValue abi codec (fuel + 1) allow type (.array [.string t, value]) =
      .ok (codec.packVarint index ++ body) := by
  simp [packValue_succ, notBuiltin, notArray, notOptional, found, tag, packed, bind, Except.bind, pure,
    Except.pure]

theorem packValue_of_struct {st : StructDef} {whole : List (List Char × Variant Scalar)}
    {baseBytes fieldBytes : List UInt8} (reads : abi.readsAsStruct (abi.resolveType type) = true)
    (found : abi.findStruct (abi.resolveType type) = some st)
    (packedBase : st.base ≠ [] →
      packValue abi codec fuel false (abi.resolveType st.base) (.object whole) = .ok baseBytes)
    (noBase : st.base = [] → baseBytes = [])
    (packedFields : packObjectFields (packValue abi codec fuel) allow whole st.fields false =
      .ok fieldBytes) :
    packValue abi codec (fuel + 1) allow type (.object whole) = .ok (baseBytes ++ fieldBytes) := by
  simp only [AbiSerializer.readsAsStruct, Bool.and_eq_true, Bool.not_eq_true',
    decide_eq_false_iff_not, Option.isNone_iff_eq_none] at reads
  obtain ⟨⟨⟨notBuiltin, notArray⟩, notOptional⟩, notVariant⟩ := reads
  by_cases hasBase : st.base = []
  · simp [packValue_succ, notBuiltin, notArray, notOptional, notVariant, found, hasBase, noBase hasBase,
      packedFields, bind, Except.bind, pure, Except.pure]
  · simp [packValue_succ, notBuiltin, notArray, notOptional, notVariant, found, hasBase,
      packedBase hasBase, packedFields, bind, Except.bind, pure, Except.pure]

/-- An object of a type that is no struct but a kv table's name is written as the table's type. -/
theorem packValue_of_kvTable {kt : KvTableDef} {whole : List (List Char × Variant Scalar)}
    {bytes : List UInt8} (reads : abi.readsAsStruct (abi.resolveType type) = true)
    (notStruct : abi.findStruct (abi.resolveType type) = none)
    (found : abi.kvTableOf (abi.resolveType type) = some kt)
    (packed : packValue abi codec fuel allow kt.type (.object whole) = .ok bytes) :
    packValue abi codec (fuel + 1) allow type (.object whole) = .ok bytes := by
  simp only [AbiSerializer.readsAsStruct, Bool.and_eq_true, Bool.not_eq_true',
    decide_eq_false_iff_not, Option.isNone_iff_eq_none] at reads
  obtain ⟨⟨⟨notBuiltin, notArray⟩, notOptional⟩, notVariant⟩ := reads
  rw [AbiSerializer.kvTableOf] at found
  split at found
  next uses =>
    simp [packValue_succ, notBuiltin, notArray, notOptional, notVariant, notStruct, uses, found,
      packed]
  next => exact absurd found (Option.some_ne_none _).symm

end Encode

/-! ### The decoder, branch by branch -/

section Decode

variable {Scalar : Type} {abi : AbiSerializer} {codec : FcCodec Scalar} {policy : DecodePolicy}
  {fuel : Nat} {allow : Bool} {type : List Char} {stream rest : List UInt8} {v : Variant Scalar}

/-- One call of `_binary_to_variant` with fuel left, as the definition reads. -/
theorem unpackValue_succ :
    unpackValue abi codec policy (fuel + 1) allow type stream =
      let rtype := abi.resolveType type
      let ftype := fundamentalType rtype
      if ftype ∈ builtInTypeNames then
        if policy.builtin ftype then
          match codec.unpackBuiltIn policy.chainValue ftype (isArray rtype) (isOptional rtype) stream with
          | some result => .ok result
          | none => .error .unpack
        else .error .unpack
      else if isArray rtype then
        match codec.unpackVarint stream with
        | some (size, stream) => do
          let (vars, stream) ← unpackElements (unpackValue abi codec policy fuel false ftype) size stream
          pure (.array vars, stream)
        | none => .error .unpack
      else if isOptional rtype then
        match stream with
        | flag :: stream =>
          if !policy.flag flag then .error .unpack
          else if flag ≠ 0 then do
            let (v, stream) ← unpackValue abi codec policy fuel allow ftype stream
            unless policy.present v.isNull do throw .unpack
            pure (v, stream)
          else .ok (.null, stream)
        | [] => .error .unpack
      else match abi.findVariant rtype with
        | some vdef =>
          match codec.unpackVarint stream with
          | some (select, stream) =>
            match vdef.types[select]? with
            | some t =>
              if policy.tag (vdef.types.idxOf t = select) then do
                let (v, stream) ← unpackValue abi codec policy fuel allow t stream
                pure (.array [.string t, v], stream)
              else .error .unpack
            | none => .error .unpack
          | none => .error .unpack
        | none =>
          match abi.kvTableOf rtype with
          | some kt => (do
            let (v, stream) ← unpackValue abi codec policy fuel allow kt.type stream
            unless policy.kv ((abi.findStruct rtype).isNone && v.isObject) do throw .unpack
            pure (v, stream))
          | none => (do
            let (obj, stream) ← unpackObject abi codec policy fuel allow rtype stream []
            if obj.isEmpty then throw .unpack
            pure (.object obj, stream)) :=
  rfl

/-- One call of `_binary_to_variant` on a struct with fuel left, as the definition reads. -/
theorem unpackObject_succ {obj : List (List Char × Variant Scalar)} :
    unpackObject abi codec policy (fuel + 1) allow type stream obj =
      match abi.findStruct type with
      | none => .error .invalidTypeInsideAbi
      | some st => (do
        let (obj, stream) ←
          if st.base ≠ [] then
            if policy.base (abi.readsAsStruct (abi.resolveType st.base)) then
              unpackObject abi codec policy fuel false (abi.resolveType st.base) stream obj
            else throw .unpack
          else pure (obj, stream)
        unpackFields abi policy (unpackValue abi codec policy fuel) allow st.fields false stream obj) :=
  rfl

theorem unpackValue_builtin_eq_ok
    (builtin : fundamentalType (abi.resolveType type) ∈ builtInTypeNames) :
    unpackValue abi codec policy (fuel + 1) allow type stream = .ok (v, rest) ↔
      policy.builtin (fundamentalType (abi.resolveType type)) = true ∧
        codec.unpackBuiltIn policy.chainValue (fundamentalType (abi.resolveType type))
          (isArray (abi.resolveType type)) (isOptional (abi.resolveType type)) stream =
            some (v, rest) := by
  simp only [unpackValue_succ, if_pos builtin]
  split
  · split <;> simp_all
  · simp_all

theorem unpackValue_array_eq_ok
    (notBuiltin : fundamentalType (abi.resolveType type) ∉ builtInTypeNames)
    (array : isArray (abi.resolveType type) = true) :
    unpackValue abi codec policy (fuel + 1) allow type stream = .ok (v, rest) ↔
      ∃ size afterSize vars, codec.unpackVarint stream = some (size, afterSize) ∧
        unpackElements (unpackValue abi codec policy fuel false (fundamentalType (abi.resolveType type)))
          size afterSize = .ok (vars, rest) ∧ v = .array vars := by
  simp only [unpackValue_succ, if_neg notBuiltin, if_pos array]
  split
  · next size afterSize sized =>
    simp only [bind_eq_ok, pure, Except.pure, Except.ok.injEq, Prod.mk.injEq, Prod.exists, sized,
      Option.some.injEq]
    constructor
    · rintro ⟨vars, after, elements, rfl, rfl⟩
      exact ⟨size, afterSize, vars, ⟨rfl, rfl⟩, elements, rfl⟩
    · rintro ⟨_, _, vars, ⟨rfl, rfl⟩, elements, rfl⟩
      exact ⟨vars, rest, elements, rfl, rfl⟩
  · next unsized => simp [unsized]

theorem unpackValue_optional_eq_ok
    (notBuiltin : fundamentalType (abi.resolveType type) ∉ builtInTypeNames)
    (notArray : isArray (abi.resolveType type) = false)
    (optional : isOptional (abi.resolveType type) = true) :
    unpackValue abi codec policy (fuel + 1) allow type stream = .ok (v, rest) ↔
      ∃ flag afterFlag, stream = flag :: afterFlag ∧ policy.flag flag = true ∧
        (flag = 0 ∧ v = .null ∧ rest = afterFlag ∨
          flag ≠ 0 ∧ unpackValue abi codec policy fuel allow (fundamentalType (abi.resolveType type))
            afterFlag = .ok (v, rest) ∧ policy.present v.isNull = true) := by
  simp only [unpackValue_succ, if_neg notBuiltin, notArray, optional, Bool.false_eq_true, if_false,
    if_true]
  cases stream with
  | nil => simp
  | cons flag afterFlag =>
    simp only [List.cons.injEq, and_assoc, exists_and_left, exists_eq_left']
    by_cases accepted : policy.flag flag = true
    · by_cases unset : flag = 0
      · subst unset
        simp only [accepted, Bool.not_true, Bool.false_eq_true, if_false, ne_eq, not_true_eq_false,
          Except.ok.injEq, Prod.mk.injEq, true_and, false_and, or_false]
        constructor <;> rintro ⟨rfl, rfl⟩ <;> exact ⟨rfl, rfl⟩
      · simp [accepted, unset, bind_eq_ok, throw_bind, ite_throw_eq_ok, pure, Except.pure]
    · simp [accepted]

theorem unpackValue_variant_eq_ok {vdef : VariantDef}
    (notBuiltin : fundamentalType (abi.resolveType type) ∉ builtInTypeNames)
    (notArray : isArray (abi.resolveType type) = false)
    (notOptional : isOptional (abi.resolveType type) = false)
    (found : abi.findVariant (abi.resolveType type) = some vdef) :
    unpackValue abi codec policy (fuel + 1) allow type stream = .ok (v, rest) ↔
      ∃ select afterTag t value, codec.unpackVarint stream = some (select, afterTag) ∧
        vdef.types[select]? = some t ∧ policy.tag (vdef.types.idxOf t = select) = true ∧
        unpackValue abi codec policy fuel allow t afterTag = .ok (value, rest) ∧
        v = .array [.string t, value] := by
  simp only [unpackValue_succ, if_neg notBuiltin, notArray, notOptional, found, Bool.false_eq_true,
    if_false]
  split
  · next select afterTag tagged =>
    split
    · next t typed =>
      by_cases accepted : policy.tag (vdef.types.idxOf t = select) = true
      · simp only [accepted, if_true, bind_eq_ok, pure, Except.pure, Except.ok.injEq, Prod.exists,
          Prod.mk.injEq]
        constructor
        · rintro ⟨value, after, decodedValue, rfl, rfl⟩
          exact ⟨select, afterTag, t, value, tagged, typed, accepted, decodedValue, rfl⟩
        · rintro ⟨select', afterTag', t', value, tagged', typed', -, decodedValue, rfl⟩
          obtain ⟨rfl, rfl⟩ := Prod.mk.inj (Option.some.inj (tagged.symm.trans tagged'))
          obtain rfl := Option.some.inj (typed.symm.trans typed')
          exact ⟨value, rest, decodedValue, rfl, rfl⟩
      · simp [tagged, typed, accepted]
    · next untyped => simp [tagged, untyped]
  · next untagged => simp [untagged]

theorem unpackValue_kvTable_eq_ok {kt : KvTableDef}
    (reads : abi.readsAsStruct (abi.resolveType type) = true)
    (found : abi.kvTableOf (abi.resolveType type) = some kt) :
    unpackValue abi codec policy (fuel + 1) allow type stream = .ok (v, rest) ↔
      unpackValue abi codec policy fuel allow kt.type stream = .ok (v, rest) ∧
        policy.kv ((abi.findStruct (abi.resolveType type)).isNone && v.isObject) = true := by
  simp only [AbiSerializer.readsAsStruct, Bool.and_eq_true, Bool.not_eq_true',
    decide_eq_false_iff_not, Option.isNone_iff_eq_none] at reads
  obtain ⟨⟨⟨notBuiltin, notArray⟩, notOptional⟩, notVariant⟩ := reads
  simp only [unpackValue_succ, if_neg notBuiltin, notArray, notOptional, notVariant, found,
    Bool.false_eq_true, if_false]
  simp only [bind_eq_ok, throw_bind, ite_throw_eq_ok, pure, Except.pure, Except.ok.injEq,
    Prod.exists, Prod.mk.injEq]
  constructor
  · rintro ⟨value, after, decodedValue, kept, rfl, rfl⟩
    exact ⟨decodedValue, kept⟩
  · rintro ⟨decodedValue, kept⟩
    exact ⟨v, rest, decodedValue, kept, rfl, rfl⟩

theorem unpackValue_struct_eq_ok (reads : abi.readsAsStruct (abi.resolveType type) = true)
    (noKvTable : abi.kvTableOf (abi.resolveType type) = none) :
    unpackValue abi codec policy (fuel + 1) allow type stream = .ok (v, rest) ↔
      ∃ obj, unpackObject abi codec policy fuel allow (abi.resolveType type) stream [] = .ok (obj, rest) ∧
        obj ≠ [] ∧ v = .object obj := by
  simp only [AbiSerializer.readsAsStruct, Bool.and_eq_true, Bool.not_eq_true',
    decide_eq_false_iff_not, Option.isNone_iff_eq_none] at reads
  obtain ⟨⟨⟨notBuiltin, notArray⟩, notOptional⟩, notVariant⟩ := reads
  simp only [unpackValue_succ, if_neg notBuiltin, notArray, notOptional, notVariant, noKvTable,
    Bool.false_eq_true, if_false]
  simp only [bind_eq_ok, throw_bind, ite_throw_else_eq_ok, List.isEmpty_iff, pure, Except.pure,
    Except.ok.injEq, Prod.exists, Prod.mk.injEq]
  constructor
  · rintro ⟨obj, after, decodedObject, notEmpty, rfl, rfl⟩
    exact ⟨obj, decodedObject, notEmpty, rfl⟩
  · rintro ⟨obj, decodedObject, notEmpty, rfl⟩
    exact ⟨obj, rest, decodedObject, notEmpty, rfl, rfl⟩

theorem unpackObject_eq_ok {st : StructDef} {obj obj' : List (List Char × Variant Scalar)}
    (found : abi.findStruct type = some st) :
    unpackObject abi codec policy (fuel + 1) allow type stream obj = .ok (obj', rest) ↔
      ∃ objBase afterBase,
        (st.base = [] ∧ objBase = obj ∧ afterBase = stream ∨
          st.base ≠ [] ∧ policy.base (abi.readsAsStruct (abi.resolveType st.base)) = true ∧
            unpackObject abi codec policy fuel false (abi.resolveType st.base) stream obj =
              .ok (objBase, afterBase)) ∧
        unpackFields abi policy (unpackValue abi codec policy fuel) allow st.fields false afterBase
          objBase = .ok (obj', rest) := by
  simp only [unpackObject_succ, found]
  by_cases hasBase : st.base = []
  · simp [hasBase, bind_eq_ok, pure, Except.pure]
  · simp only [hasBase, ne_eq, not_false_eq_true, if_true, ite_throw_eq_ok, throw_bind,
      bind_eq_ok, Prod.exists, false_and, false_or, true_and]
    constructor
    · rintro ⟨checked, objBase, afterBase, base, fields⟩
      exact ⟨objBase, afterBase, ⟨checked, base⟩, fields⟩
    · rintro ⟨objBase, afterBase, ⟨checked, base⟩, fields⟩
      exact ⟨checked, objBase, afterBase, base, fields⟩

theorem unpackElements_succ_eq_ok
    {decode : List UInt8 → Except AbiError (Variant Scalar × List UInt8)} {size : Nat}
    {vars : List (Variant Scalar)} :
    unpackElements decode (size + 1) stream = .ok (vars, rest) ↔
      ∃ v afterElement tail, decode stream = .ok (v, afterElement) ∧ v.isNull = false ∧
        unpackElements decode size afterElement = .ok (tail, rest) ∧ vars = v :: tail := by
  simp only [unpackElements, bind_eq_ok, Prod.exists, throw_bind, ite_throw_else_eq_ok,
    Bool.not_eq_true, pure, Except.pure, Except.ok.injEq, Prod.mk.injEq]
  constructor
  · rintro ⟨v, afterElement, decoded, notNull, tail, after, remaining, rfl, rfl⟩
    exact ⟨v, afterElement, tail, decoded, notNull, remaining, rfl⟩
  · rintro ⟨v, afterElement, tail, decoded, notNull, remaining, rfl⟩
    exact ⟨v, afterElement, decoded, notNull, tail, rest, remaining, rfl, rfl⟩

theorem unpackFields_cons_eq_ok
    {decodeField : Bool → List Char → List UInt8 → Except AbiError (Variant Scalar × List UInt8)}
    {field : FieldDef} {fields : List FieldDef} {encountered : Bool}
    {obj : List (List Char × Variant Scalar)} {result : List (List Char × Variant Scalar) × List UInt8} :
    unpackFields abi policy decodeField allow (field :: fields) encountered stream obj = .ok result ↔
      (stream = [] ∧ endsWith field.type "$".toList = true ∧ policy.skip allow = true ∧
          policy.field (field.name ∈ obj.map Prod.fst) = true ∧
          unpackFields abi policy decodeField allow fields true [] obj = .ok result) ∨
        ∃ v afterField, stream ≠ [] ∧
          decodeField (allow && fields.isEmpty) (abi.resolveType (removeBinExtension field.type))
            stream = .ok (v, afterField) ∧
          policy.field (field.name ∈ obj.map Prod.fst) = true ∧
          unpackFields abi policy decodeField allow fields
            (encountered || endsWith field.type "$".toList) afterField
            (Variant.setEntry obj field.name v) = .ok result := by
  simp only [unpackFields, Variant.any_key_eq_decide]
  cases stream with
  | nil =>
    by_cases extension : endsWith field.type "$".toList = true
    · simp only [extension, if_true, Bool.or_true]
      by_cases skipped : policy.skip allow = true <;>
        by_cases fresh : policy.field (decide (field.name ∈ obj.map Prod.fst)) = true <;>
        simp [skipped, fresh]
    · simp only [extension, Bool.false_eq_true, if_false]
      split <;> simp
  | cons byte bytes =>
    simp only [removeBinExtension_of_extension, bind_eq_ok, throw_bind, ite_throw_eq_ok,
      Prod.exists, ne_eq, reduceCtorEq, not_false_eq_true, true_and, false_and, false_or]

end Decode

/-- The branch the decoder takes for a resolved type: a built-in, an array, an optional, a
variant, a kv table, or else a struct. -/
theorem AbiSerializer.typeCases (abi : AbiSerializer) (rtype : List Char) :
    fundamentalType rtype ∈ builtInTypeNames ∨
      (fundamentalType rtype ∉ builtInTypeNames ∧ isArray rtype = true) ∨
      (fundamentalType rtype ∉ builtInTypeNames ∧ isArray rtype = false ∧ isOptional rtype = true) ∨
      (fundamentalType rtype ∉ builtInTypeNames ∧ isArray rtype = false ∧
        isOptional rtype = false ∧ ∃ vdef, abi.findVariant rtype = some vdef) ∨
      (abi.readsAsStruct rtype = true ∧ ∃ kt, abi.kvTableOf rtype = some kt) ∨
      (abi.readsAsStruct rtype = true ∧ abi.kvTableOf rtype = none) := by
  by_cases builtin : fundamentalType rtype ∈ builtInTypeNames
  · exact Or.inl builtin
  cases array : isArray rtype
  · cases optional : isOptional rtype
    · cases found : abi.findVariant rtype with
      | none =>
        have reads : abi.readsAsStruct rtype = true := by
          simp [AbiSerializer.readsAsStruct, builtin, array, optional, found]
        cases kv : abi.kvTableOf rtype with
        | none => exact Or.inr (Or.inr (Or.inr (Or.inr (Or.inr ⟨reads, rfl⟩))))
        | some kt => exact Or.inr (Or.inr (Or.inr (Or.inr (Or.inl ⟨reads, kt, rfl⟩))))
      | some vdef => exact Or.inr (Or.inr (Or.inr (Or.inl ⟨builtin, rfl, rfl, vdef, rfl⟩)))
    · exact Or.inr (Or.inr (Or.inl ⟨builtin, rfl, rfl⟩))
  · exact Or.inr (Or.inl ⟨builtin, rfl⟩)

/-! ### Decoders that check more -/

/-- Every check that `strict` passes, `loose` passes. -/
structure DecodePolicy.Refines (strict loose : DecodePolicy) : Prop where
  builtin : ∀ name, strict.builtin name = true → loose.builtin name = true
  flag : ∀ flag, strict.flag flag = true → loose.flag flag = true
  present : ∀ isNull, strict.present isNull = true → loose.present isNull = true
  tag : ∀ first, strict.tag first = true → loose.tag first = true
  field : ∀ known, strict.field known = true → loose.field known = true
  skip : ∀ allow, strict.skip allow = true → loose.skip allow = true
  base : ∀ reads, strict.base reads = true → loose.base reads = true
  chainValue : ∀ value, strict.chainValue value = true → loose.chainValue value = true
  kv : ∀ writes, strict.kv writes = true → loose.kv writes = true

theorem DecodePolicy.refines_permissive (policy : DecodePolicy) : policy.Refines .permissive :=
  ⟨fun _ _ => rfl, fun _ _ => rfl, fun _ _ => rfl, fun _ _ => rfl, fun _ _ => rfl,
    fun _ _ => rfl, fun _ _ => rfl, fun _ _ => rfl, fun _ _ => rfl⟩

section Refines

variable {Scalar : Type} {abi : AbiSerializer} {codec : FcCodec Scalar}
  {strict loose : DecodePolicy}

theorem unpackElements_of_decodes
    {decode decode' : List UInt8 → Except AbiError (Variant Scalar × List UInt8)}
    (decodes : ∀ {stream v rest}, decode stream = .ok (v, rest) → decode' stream = .ok (v, rest)) :
    ∀ {size stream vars rest}, unpackElements decode size stream = .ok (vars, rest) →
      unpackElements decode' size stream = .ok (vars, rest)
  | 0, _, _, _, decoded => decoded
  | _ + 1, _, _, _, decoded => by
    obtain ⟨v, afterElement, tail, element, notNull, remaining, rfl⟩ :=
      unpackElements_succ_eq_ok.mp decoded
    exact unpackElements_succ_eq_ok.mpr
      ⟨v, afterElement, tail, decodes element, notNull, unpackElements_of_decodes decodes remaining, rfl⟩

theorem unpackFields_of_decodes (refines : strict.Refines loose)
    {decode decode' : Bool → List Char → List UInt8 → Except AbiError (Variant Scalar × List UInt8)}
    (decodes : ∀ {allow type stream v rest}, decode allow type stream = .ok (v, rest) →
      decode' allow type stream = .ok (v, rest)) {allow : Bool} :
    ∀ {fields encountered stream obj result},
      unpackFields abi strict decode allow fields encountered stream obj = .ok result →
        unpackFields abi loose decode' allow fields encountered stream obj = .ok result
  | [], _, _, _, _, decoded => decoded
  | _ :: _, _, _, _, _, decoded => by
    rcases unpackFields_cons_eq_ok.mp decoded with
      ⟨rfl, extension, skipped, fresh, remaining⟩ |
      ⟨v, afterField, nonEmpty, decodedField, fresh, remaining⟩
    · exact unpackFields_cons_eq_ok.mpr (Or.inl ⟨rfl, extension, refines.skip _ skipped,
        refines.field _ fresh, unpackFields_of_decodes refines decodes remaining⟩)
    · exact unpackFields_cons_eq_ok.mpr (Or.inr ⟨v, afterField, nonEmpty, decodes decodedField,
        refines.field _ fresh, unpackFields_of_decodes refines decodes remaining⟩)

variable (abi codec strict loose) in
/-- What the stricter decoder reads with `fuel`, the looser one reads alike. -/
def DecodesAlike (fuel : Nat) : Prop :=
  (∀ {allow type stream v rest}, unpackValue abi codec strict fuel allow type stream = .ok (v, rest) →
      unpackValue abi codec loose fuel allow type stream = .ok (v, rest)) ∧
    ∀ {allow type stream obj obj' rest},
      unpackObject abi codec strict fuel allow type stream obj = .ok (obj', rest) →
        unpackObject abi codec loose fuel allow type stream obj = .ok (obj', rest)

/-- **A decoder that checks more reads nothing else.** -/
theorem decodesAlike (refines : strict.Refines loose) :
    ∀ fuel, DecodesAlike abi codec strict loose fuel
  | 0 => ⟨fun decoded => (nomatch decoded), fun decoded => (nomatch decoded)⟩
  | fuel + 1 => by
    obtain ⟨values, objects⟩ := decodesAlike refines fuel
    refine ⟨fun {allow type stream v rest} decoded => ?_,
      fun {allow type stream obj obj' rest} decoded => ?_⟩
    · rcases abi.typeCases (abi.resolveType type) with builtin | ⟨notBuiltin, array⟩ |
        ⟨notBuiltin, notArray, optional⟩ | ⟨notBuiltin, notArray, notOptional, vdef, found⟩ |
        ⟨reads, kt, kvFound⟩ | ⟨reads, noKvTable⟩
      · obtain ⟨checked, unpacked⟩ := (unpackValue_builtin_eq_ok builtin).mp decoded
        exact (unpackValue_builtin_eq_ok builtin).mpr
          ⟨refines.builtin _ checked, FcCodec.unpackBuiltIn_of_keeps refines.chainValue unpacked⟩
      · obtain ⟨size, afterSize, vars, sized, elements, rfl⟩ :=
          (unpackValue_array_eq_ok notBuiltin array).mp decoded
        exact (unpackValue_array_eq_ok notBuiltin array).mpr
          ⟨size, afterSize, vars, sized, unpackElements_of_decodes values elements, rfl⟩
      · obtain ⟨flag, afterFlag, rfl, accepted, absent | ⟨set, decodedValue, kept⟩⟩ :=
          (unpackValue_optional_eq_ok notBuiltin notArray optional).mp decoded
        · exact (unpackValue_optional_eq_ok notBuiltin notArray optional).mpr
            ⟨flag, afterFlag, rfl, refines.flag _ accepted, Or.inl absent⟩
        · exact (unpackValue_optional_eq_ok notBuiltin notArray optional).mpr
            ⟨flag, afterFlag, rfl, refines.flag _ accepted,
              Or.inr ⟨set, values decodedValue, refines.present _ kept⟩⟩
      · obtain ⟨select, afterTag, t, value, tagged, typed, accepted, decodedValue, rfl⟩ :=
          (unpackValue_variant_eq_ok notBuiltin notArray notOptional found).mp decoded
        exact (unpackValue_variant_eq_ok notBuiltin notArray notOptional found).mpr
          ⟨select, afterTag, t, value, tagged, typed, refines.tag _ accepted, values decodedValue, rfl⟩
      · obtain ⟨decodedValue, kept⟩ := (unpackValue_kvTable_eq_ok reads kvFound).mp decoded
        exact (unpackValue_kvTable_eq_ok reads kvFound).mpr ⟨values decodedValue, refines.kv _ kept⟩
      · obtain ⟨obj, decodedObject, notEmpty, rfl⟩ :=
          (unpackValue_struct_eq_ok reads noKvTable).mp decoded
        exact (unpackValue_struct_eq_ok reads noKvTable).mpr
          ⟨obj, objects decodedObject, notEmpty, rfl⟩
    · cases found : abi.findStruct type with
      | none => simp [unpackObject_succ, found] at decoded
      | some st =>
        obtain ⟨objBase, afterBase, base, fields⟩ := (unpackObject_eq_ok found).mp decoded
        refine (unpackObject_eq_ok found).mpr
          ⟨objBase, afterBase, ?_, unpackFields_of_decodes refines values fields⟩
        rcases base with noBase | ⟨hasBase, checked, decodedBase⟩
        · exact Or.inl noBase
        · exact Or.inr ⟨hasBase, refines.base _ checked, objects decodedBase⟩

end Refines

/-! ### The canonical decoder -/

/-- The built-in types of the round trip: the integers and varints, `bool`, `name`, `bytes`,
`string`, the checksums, `symbol`, `symbol_code`, `asset` and `extended_asset`. -/
def roundTripBuiltInTypeNames : List (List Char) :=
  ["bool", "int8", "uint8", "int16", "uint16", "int32", "uint32", "int64", "uint64", "int128",
    "uint128", "varint32", "varuint32", "name", "bytes", "string", "checksum160", "checksum256",
    "checksum512", "symbol", "symbol_code", "asset", "extended_asset"].map String.toList

/-- The decoder that reads only what `variant_to_binary` writes: built-ins of the round trip, a
presence flag of `0` or `1` before a value that is not null, the first tag of a variant's type,
no name twice in an object, binary extensions left out and bases read only where the encoder
does so, chain values that write back, and kv tables only where the encoder writes through
them. -/
def DecodePolicy.canonical : DecodePolicy :=
  ⟨fun name => roundTripBuiltInTypeNames.contains name, fun flag => flag == 0 || flag == 1,
    fun isNull => !isNull, fun first => first, fun known => !known, fun allow => allow,
    fun reads => reads, ChainValue.writesBack, fun writes => writes⟩

/-- The first index of a listed name. -/
theorem idxOf?_eq_some_idxOf {names : List (List Char)} {name : List Char} (member : name ∈ names) :
    names.idxOf? name = some (names.idxOf name) := by
  induction names with
  | nil => exact absurd member List.not_mem_nil
  | cons first rest inductionHypothesis =>
    by_cases same : first = name
    · simp [List.idxOf?_cons, same]
    · have later : name ∈ rest := by simpa [Ne.symm same] using member
      simp [List.idxOf?_cons, same, inductionHypothesis later]

/-! ### Writing back what the canonical decoder read -/

section RoundTrip

variable {Scalar : Type} (abi : AbiSerializer) (codec : FcCodec Scalar)

/-- A value the canonical decoder reads with `fuel` is written back, as the bytes it was read
from, by the encoder with any fuel from `fuel` on. -/
def ValuesPackBack (fuel : Nat) : Prop :=
  ∀ {allow type stream v rest},
    unpackValue abi codec .canonical fuel allow type stream = .ok (v, rest) →
      ∃ pre, stream = pre ++ rest ∧
        ∀ bound, fuel ≤ bound → packValue abi codec bound allow type v = .ok pre

/-- The fields of a struct the canonical decoder reads into an object with `fuel` are written
back, as the bytes they were read from, by the encoder with any fuel from `fuel` on, from any
object that agrees with the one read. -/
def ObjectsPackBack (fuel : Nat) : Prop :=
  ∀ {allow type stream obj obj' rest},
    unpackObject abi codec .canonical fuel allow type stream obj = .ok (obj', rest) →
      ∃ pre, stream = pre ++ rest ∧ (∃ stored, obj' = obj ++ stored) ∧
        ∀ bound, fuel ≤ bound → abi.readsAsStruct type = true → abi.resolveType type = type →
          ∀ whole, AgreesWith whole obj' allow →
            packValue abi codec bound allow type (.object whole) = .ok pre

variable {abi codec}

theorem unpackElements_packBack {fuel : Nat} (values : ValuesPackBack abi codec fuel)
    {type : List Char} :
    ∀ {size stream vars rest},
      unpackElements (unpackValue abi codec .canonical fuel false type) size stream = .ok (vars, rest) →
        vars.length = size ∧ ∃ pre, stream = pre ++ rest ∧
          ∀ bound, fuel ≤ bound → packElements (packValue abi codec bound false type) vars = .ok pre
  | 0, _, _, _, decoded => by
    simp only [unpackElements, Except.ok.injEq, Prod.mk.injEq] at decoded
    obtain ⟨rfl, rfl⟩ := decoded
    exact ⟨rfl, [], rfl, fun _ _ => rfl⟩
  | _ + 1, _, _, _, decoded => by
    obtain ⟨v, afterElement, tail, element, -, remaining, rfl⟩ := unpackElements_succ_eq_ok.mp decoded
    obtain ⟨preElement, splitElement, packElement⟩ := values element
    obtain ⟨length, preTail, splitTail, packTail⟩ := unpackElements_packBack values remaining
    refine ⟨by simp [length], preElement ++ preTail,
      by rw [splitElement, splitTail, List.append_assoc], fun bound atLeast => ?_⟩
    simp [packElements, packElement bound atLeast, packTail bound atLeast, bind, Except.bind, pure,
      Except.pure]

/-- Once the bytes run out, the canonical decoder reads no more fields: it leaves out the rest,
each of which must be an extension it may leave out under a new name. -/
theorem unpackFields_of_exhausted {allow : Bool}
    {decodeField : Bool → List Char → List UInt8 → Except AbiError (Variant Scalar × List UInt8)} :
    ∀ {fields encountered obj result},
      unpackFields abi .canonical decodeField allow fields encountered [] obj = .ok result →
        result = (obj, []) ∧ ∀ field ∈ fields, endsWith field.type "$".toList = true ∧
          allow = true ∧ field.name ∉ obj.map Prod.fst
  | [], _, _, _, decoded => by
    simp only [unpackFields, Except.ok.injEq] at decoded
    exact ⟨decoded.symm, fun _ member => nomatch member⟩
  | field :: _, _, obj, _, decoded => by
    rcases unpackFields_cons_eq_ok.mp decoded with
      ⟨-, extension, skipped, fresh, remaining⟩ | ⟨_, _, nonEmpty, _⟩
    · obtain ⟨done, later⟩ := unpackFields_of_exhausted remaining
      have allowed : allow = true := by simpa [DecodePolicy.canonical] using skipped
      have absent : field.name ∉ obj.map Prod.fst := by simpa [DecodePolicy.canonical] using fresh
      refine ⟨done, fun other member => ?_⟩
      rcases List.mem_cons.mp member with rfl | laterMember
      · exact ⟨extension, allowed, absent⟩
      · exact later other laterMember
    · exact absurd rfl nonEmpty

/-- Extension fields an object lacks are left out where extensions are allowed. -/
theorem packObjectFields_of_missing {allow : Bool} {whole : List (List Char × Variant Scalar)}
    {encodeField : Bool → List Char → Variant Scalar → Except AbiError (List UInt8)} :
    ∀ {fields} (disallow : Bool), (∀ field ∈ fields, endsWith field.type "$".toList = true ∧
        allow = true ∧ Variant.findEntry whole field.name = none) →
      packObjectFields encodeField allow whole fields disallow = .ok []
  | [], _, _ => rfl
  | field :: fields, _, missing => by
    obtain ⟨extension, allowed, absent⟩ := missing field List.mem_cons_self
    have restLeftOut : packObjectFields encodeField allow whole fields true = .ok [] :=
      packObjectFields_of_missing true fun other member =>
      missing other (List.mem_cons_of_mem _ member)
    rw [packObjectFields, absent]
    simp only [extension, allowed, Bool.and_self, if_true] at restLeftOut ⊢
    exact restLeftOut

/-- The fields the canonical decoder reads are written back from any object agreeing with the
one read: each read field under its new name, and each field left out where the encoder may
leave it out. -/
theorem unpackFields_packBack {fuel : Nat} (values : ValuesPackBack abi codec fuel) {allow : Bool} :
    ∀ {fields encountered stream obj obj' rest},
      unpackFields abi .canonical (unpackValue abi codec .canonical fuel) allow fields encountered
          stream obj = .ok (obj', rest) →
        ∃ pre, stream = pre ++ rest ∧ (∃ stored, obj' = obj ++ stored) ∧
          ∀ bound, fuel ≤ bound → ∀ whole, AgreesWith whole obj' allow →
            packObjectFields (packValue abi codec bound) allow whole fields false = .ok pre
  | [], _, _, _, _, _, decoded => by
    simp only [unpackFields, Except.ok.injEq, Prod.mk.injEq] at decoded
    obtain ⟨rfl, rfl⟩ := decoded
    exact ⟨[], rfl, ⟨[], by simp⟩, fun _ _ _ _ => rfl⟩
  | field :: _, _, _, obj, _, _, decoded => by
    rcases unpackFields_cons_eq_ok.mp decoded with
      ⟨rfl, -, -, -, -⟩ | ⟨v, afterField, -, decodedField, fresh, remaining⟩
    · -- the bytes ran out: this field and those after it are left out
      obtain ⟨done, missing⟩ := unpackFields_of_exhausted decoded
      obtain ⟨rfl, rfl⟩ := Prod.mk.inj done
      refine ⟨[], rfl, ⟨[], by simp⟩, fun _ _ whole agrees =>
        packObjectFields_of_missing false fun other member => ?_⟩
      obtain ⟨extension, allowed, absent⟩ := missing other member
      exact ⟨extension, allowed, agrees.2 allowed other.name absent⟩
    · -- the field is read, and stored under a name the object does not have yet
      have absent : field.name ∉ obj.map Prod.fst := by simpa [DecodePolicy.canonical] using fresh
      rw [Variant.setEntry_of_not_mem absent] at remaining
      obtain ⟨preField, splitField, packField⟩ := values decodedField
      obtain ⟨preRest, splitRest, ⟨stored, rfl⟩, packRest⟩ := unpackFields_packBack values remaining
      refine ⟨preField ++ preRest, by rw [splitField, splitRest, List.append_assoc],
        ⟨(field.name, v) :: stored, by simp⟩, fun bound atLeast whole agrees => ?_⟩
      have found : Variant.findEntry whole field.name = some v := by
        rw [agrees.1 field.name (by simp), List.append_assoc, Variant.findEntry_append_of_not_mem absent]
        exact Variant.findEntry_cons_self
      have packedField := packField bound atLeast
      rw [packValue_resolveType] at packedField
      simp [packObjectFields, found, packedField, packRest bound atLeast whole agrees, bind,
        Except.bind, pure, Except.pure]

theorem objectsPackBack_succ {fuel : Nat} (values : ValuesPackBack abi codec fuel)
    (objects : ObjectsPackBack abi codec fuel) : ObjectsPackBack abi codec (fuel + 1) := by
  intro allow type stream obj obj' rest decoded
  cases found : abi.findStruct type with
  | none => simp [unpackObject_succ, found] at decoded
  | some st =>
    obtain ⟨objBase, afterBase, base, fields⟩ := (unpackObject_eq_ok found).mp decoded
    obtain ⟨preFields, splitFields, ⟨storedFields, rfl⟩, packFields⟩ :=
      unpackFields_packBack values fields
    rcases base with ⟨noBase, rfl, rfl⟩ | ⟨hasBase, checked, decodedBase⟩
    · -- no base: the fields alone
      refine ⟨preFields, splitFields, ⟨storedFields, rfl⟩,
        fun bound atLeast reads resolved whole agrees => ?_⟩
      obtain ⟨bound, rfl⟩ := Nat.exists_eq_add_one_of_ne_zero (by omega : bound ≠ 0)
      have packed := packValue_of_struct (by rw [resolved]; exact reads) (by rw [resolved]; exact found)
        (fun hasBase => absurd noBase hasBase) (fun _ => rfl) (packFields bound (by omega) whole agrees)
      rwa [List.nil_append] at packed
    · -- the base's fields, read into the object first, then the struct's own
      have baseReads : abi.readsAsStruct (abi.resolveType st.base) = true := by
        simpa [DecodePolicy.canonical] using checked
      obtain ⟨preBase, splitBase, ⟨storedBase, rfl⟩, packBase⟩ := objects decodedBase
      refine ⟨preBase ++ preFields, by rw [splitBase, splitFields, List.append_assoc],
        ⟨storedBase ++ storedFields, by rw [List.append_assoc]⟩,
        fun bound atLeast reads resolved whole agrees => ?_⟩
      obtain ⟨bound, rfl⟩ := Nat.exists_eq_add_one_of_ne_zero (by omega : bound ≠ 0)
      exact packValue_of_struct (by rw [resolved]; exact reads) (by rw [resolved]; exact found)
        (fun _ => packBase bound (by omega) baseReads (abi.resolveType_resolveType st.base) whole
          agrees.of_append)
        (fun noBase => absurd noBase hasBase) (packFields bound (by omega) whole agrees)

theorem valuesPackBack_succ (exact : codec.PacksBackUnpacked roundTripBuiltInTypeNames)
    {fuel : Nat} (values : ValuesPackBack abi codec fuel) (objects : ObjectsPackBack abi codec fuel) :
    ValuesPackBack abi codec (fuel + 1) := by
  intro allow type stream v rest decoded
  rcases abi.typeCases (abi.resolveType type) with builtin | ⟨notBuiltin, array⟩ |
    ⟨notBuiltin, notArray, optional⟩ | ⟨notBuiltin, notArray, notOptional, vdef, found⟩ |
    ⟨reads, kt, kvFound⟩ | ⟨reads, noKvTable⟩
  · -- a built-in, which the chain or fc reads and writes back
    obtain ⟨checked, unpacked⟩ := (unpackValue_builtin_eq_ok builtin).mp decoded
    have allowed : fundamentalType (abi.resolveType type) ∈ roundTripBuiltInTypeNames := by
      simpa [DecodePolicy.canonical] using checked
    obtain ⟨pre, split, packed⟩ := exact.packBuiltIn allowed unpacked
    refine ⟨pre, split, fun bound atLeast => ?_⟩
    obtain ⟨bound, rfl⟩ := Nat.exists_eq_add_one_of_ne_zero (by omega : bound ≠ 0)
    exact packValue_of_builtin builtin packed
  · -- an array: its size, then its elements
    obtain ⟨size, afterSize, vars, sized, elements, rfl⟩ :=
      (unpackValue_array_eq_ok notBuiltin array).mp decoded
    obtain ⟨length, pre, split, packed⟩ := unpackElements_packBack values elements
    refine ⟨codec.packVarint size ++ pre, by rw [exact.varint sized, split, List.append_assoc],
      fun bound atLeast => ?_⟩
    obtain ⟨bound, rfl⟩ := Nat.exists_eq_add_one_of_ne_zero (by omega : bound ≠ 0)
    rw [← length]
    exact packValue_of_array notBuiltin array (packed bound (by omega))
  · -- an optional: a flag of 0, or a flag of 1 and a value that is not null
    obtain ⟨flag, afterFlag, rfl, accepted, ⟨rfl, rfl, rfl⟩ | ⟨set, decodedValue, kept⟩⟩ :=
      (unpackValue_optional_eq_ok notBuiltin notArray optional).mp decoded
    · refine ⟨[0], rfl, fun bound atLeast => ?_⟩
      obtain ⟨bound, rfl⟩ := Nat.exists_eq_add_one_of_ne_zero (by omega : bound ≠ 0)
      exact packValue_null_of_optional notBuiltin notArray optional
    · have one : flag = 1 := by
        simp only [DecodePolicy.canonical, Bool.or_eq_true, beq_iff_eq] at accepted
        exact accepted.resolve_left set
      have notNull : v.isNull = false := by simpa [DecodePolicy.canonical] using kept
      obtain ⟨pre, split, packed⟩ := values decodedValue
      refine ⟨1 :: pre, by rw [one, split]; rfl, fun bound atLeast => ?_⟩
      obtain ⟨bound, rfl⟩ := Nat.exists_eq_add_one_of_ne_zero (by omega : bound ≠ 0)
      exact packValue_of_optional notBuiltin notArray optional notNull (packed bound (by omega))
  · -- a variant: the tag, the first of its type, then the value
    obtain ⟨select, afterTag, t, value, tagged, typed, accepted, decodedValue, rfl⟩ :=
      (unpackValue_variant_eq_ok notBuiltin notArray notOptional found).mp decoded
    have first : vdef.types.idxOf t = select := by simpa [DecodePolicy.canonical] using accepted
    have index : vdef.types.idxOf? t = some select :=
      first ▸ idxOf?_eq_some_idxOf (List.mem_of_getElem? typed)
    obtain ⟨pre, split, packed⟩ := values decodedValue
    refine ⟨codec.packVarint select ++ pre, by rw [exact.varint tagged, split, List.append_assoc],
      fun bound atLeast => ?_⟩
    obtain ⟨bound, rfl⟩ := Nat.exists_eq_add_one_of_ne_zero (by omega : bound ≠ 0)
    exact packValue_of_variant notBuiltin notArray notOptional found index (packed bound (by omega))
  · -- a kv table, written through the table from the object read
    obtain ⟨decodedValue, kept⟩ := (unpackValue_kvTable_eq_ok reads kvFound).mp decoded
    simp only [DecodePolicy.canonical, Bool.and_eq_true, Option.isNone_iff_eq_none] at kept
    obtain ⟨notStruct, isObject⟩ := kept
    obtain ⟨whole, rfl⟩ : ∃ whole, v = .object whole := by
      cases v <;> first | exact ⟨_, rfl⟩ | exact absurd isObject (by simp [Variant.isObject])
    obtain ⟨pre, split, packed⟩ := values decodedValue
    refine ⟨pre, split, fun bound atLeast => ?_⟩
    obtain ⟨bound, rfl⟩ := Nat.exists_eq_add_one_of_ne_zero (by omega : bound ≠ 0)
    exact packValue_of_kvTable reads notStruct kvFound (packed bound (by omega))
  · -- a struct, written back from the object read
    obtain ⟨obj, decodedObject, -, rfl⟩ := (unpackValue_struct_eq_ok reads noKvTable).mp decoded
    obtain ⟨pre, split, -, packed⟩ := objects decodedObject
    refine ⟨pre, split, fun bound atLeast => ?_⟩
    rw [← packValue_resolveType]
    exact packed bound (by omega) reads (abi.resolveType_resolveType type) obj (AgreesWith.refl obj allow)

/-- **What the canonical decoder reads, the encoder writes back**, by induction on the fuel. -/
theorem packBack (exact : codec.PacksBackUnpacked roundTripBuiltInTypeNames) :
    ∀ fuel, ValuesPackBack abi codec fuel ∧ ObjectsPackBack abi codec fuel
  | 0 => ⟨fun decoded => (nomatch decoded), fun decoded => (nomatch decoded)⟩
  | fuel + 1 =>
    have ⟨values, objects⟩ := packBack exact fuel
    ⟨valuesPackBack_succ exact values objects, objectsPackBack_succ values objects⟩

end RoundTrip

/-! ### The round trip -/

/-- The packing of fc for `uint8`, for sizes and tags below 128 and for `bool`, with the text
functions of `standardFc`; it reads no other type that fc converts. -/
def uint8Codec : FcCodec UInt8 where
  unpack name array optional stream :=
    if name = "uint8".toList ∧ array = false ∧ optional = false then
      match stream with
      | byte :: rest => some (.scalar byte, rest)
      | [] => none
    else none
  pack name array optional var :=
    match var with
    | .scalar byte =>
      if name = "uint8".toList ∧ array = false ∧ optional = false then some [byte] else none
    | _ => none
  unpackVarint stream :=
    match stream with
    | byte :: rest => if byte < 128 then some (byte.toNat, rest) else none
    | [] => none
  packVarint n := [n.toUInt8]
  unpackBool stream :=
    match stream with
    | byte :: rest => if byte ≤ 1 then some (byte = 1, rest) else none
    | [] => none
  packBool present := [if present then 1 else 0]
  vectorFits _ _ := true
  text := standardFc
  asBytes _ := none

theorem uint8Codec_packsBackUnpacked : uint8Codec.PacksBackUnpacked roundTripBuiltInTypeNames where
  builtin := by
    intro name array optional stream v rest _ _ unpacked
    by_cases accepted : name = "uint8".toList ∧ array = false ∧ optional = false
    · simp only [uint8Codec, if_pos accepted] at unpacked
      cases stream with
      | nil => exact nomatch unpacked
      | cons byte bytes =>
        obtain ⟨rfl, rfl⟩ := Prod.mk.inj (Option.some.inj unpacked)
        exact ⟨[byte], rfl, by simp only [uint8Codec, if_pos accepted]⟩
    · simp only [uint8Codec, if_neg accepted] at unpacked
      exact nomatch unpacked
  varint := by
    intro stream n rest unpacked
    cases stream with
    | nil => exact nomatch unpacked
    | cons byte bytes =>
      by_cases small : byte < 128
      · simp only [uint8Codec, if_pos small] at unpacked
        obtain ⟨rfl, rfl⟩ := Prod.mk.inj (Option.some.inj unpacked)
        simp [uint8Codec]
      · simp only [uint8Codec, if_neg small] at unpacked
        exact nomatch unpacked
  bool := by
    intro stream present rest unpacked
    cases stream with
    | nil => exact nomatch unpacked
    | cons byte bytes =>
      by_cases flag : byte ≤ 1
      · simp only [uint8Codec, if_pos flag, Option.some.injEq, Prod.mk.injEq] at unpacked
        obtain ⟨rfl, rfl⟩ := unpacked
        have bit : byte = 0 ∨ byte = 1 := by
          have below : byte.toNat ≤ 1 := UInt8.le_iff_toNat_le.mp flag
          rcases Nat.le_one_iff_eq_zero_or_eq_one.mp below with zero | one
          · exact Or.inl (UInt8.toNat_inj.mp zero)
          · exact Or.inr (UInt8.toNat_inj.mp one)
        rcases bit with rfl | rfl <;> rfl
      · simp only [uint8Codec, if_neg flag] at unpacked
        exact nomatch unpacked
  decimal := standardFc_decimal

/-- The ABI of a struct `s` of one `uint8` field `x`. -/
def optionalAbiDef : AbiDef :=
  ⟨"eosio::abi/1.1".toList, [], [⟨"s".toList, [], [⟨"x".toList, "uint8".toList⟩]⟩], [], []⟩

/-- The ABI of a variant `v` that lists `uint8` twice. -/
def twiceListedAbiDef : AbiDef :=
  ⟨"eosio::abi/1.1".toList, [], [], [⟨"v".toList, ["uint8".toList, "uint8".toList]⟩], []⟩

/-- The ABI of a struct `b` of a `uint8` field `x` and a binary-extension `uint8` field `y`. -/
def extensionAbiDef : AbiDef :=
  ⟨"eosio::abi/1.1".toList, [],
    [⟨"b".toList, [], [⟨"x".toList, "uint8".toList⟩, ⟨"y".toList, "uint8$".toList⟩]⟩], [], []⟩

/-- The ABI with no definitions. -/
def emptyAbiDef : AbiDef :=
  ⟨"eosio::abi/1.1".toList, [], [], [], []⟩

/-- The ABI of a kv table `t` of `uint8` values. -/
def kvTableAbiDef : AbiDef :=
  ⟨"eosio::abi/1.1".toList, [], [], [],
    [(⟨14411518807585587200⟩, ⟨"uint8".toList, "name".toList⟩)]⟩

/-- The symbol `A`, over no decimals. -/
theorem name_symbolA : (⟨16640⟩ : Symbol).name = ['A'] := by
  rw [Symbol.name_eq, Symbol.nameBytes, show (16640 : UInt64).toNat / 256 = 65 from rfl,
    Nat.digits_of_lt 256 65 (by decide) (by decide)]
  rfl

end Eosio.Chain
