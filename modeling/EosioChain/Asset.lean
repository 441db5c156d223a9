/-
This file models `symbol` and `asset` with their text forms, and proves that `asset::from_string`
reads back what `asset::to_string` writes, for every valid asset whose symbol has a name.

`to_string` writes the sign, the whole part of the amount, and, for a symbol with decimals, a dot
and the fraction, zero-filled by printing it above the precision and dropping the first digit;
then a space and the symbol's name. `from_string` splits the text at its first space, counts the
digits after the dot to rebuild the symbol from `"decimals,NAME"`, and reads the whole part and
the fraction with `fc::to_int64`, giving the fraction the sign of the text. The symbol's name is
the bytes of its value above the decimals, and `string_to_symbol` packs the letters back into the
same bytes. A symbol whose name is empty is valid, but its asset prints with a trailing space that
`from_string` trims away before it looks for the space.

`fc` is not part of this repository: its `to_string`, `trim` and `to_int64` are parameters, and
the round trip assumes of them only what `FcText.Decimal` states.
-/

import Mathlib
import EosioChain.DecimalText
import EosioChain.NameCodec

namespace Eosio.Chain

/-! ### `fc`'s text functions -/

/-- The text functions of `fc` that `symbol` and `asset` call. -/
structure FcText where
  /-- `fc::to_string(int64_t)`. -/
  toString : Int → List Char
  /-- `fc::trim`. -/
  trim : List Char → List Char
  /-- `fc::to_int64`, which throws on a text it does not read as a number. -/
  toInt64 : List Char → Except String Int

/-- What the round trip assumes of `fc`: `to_string` writes a number that is not negative in
decimal; `trim` leaves alone a text that starts with a letter, a digit or a minus sign and ends with
a letter or a digit; and `to_int64` reads decimal digits, after a minus sign or not, as the number
they stand for, when it lies in the range of `int64_t`. -/
structure FcText.Decimal (fc : FcText) : Prop where
  toString_natCast : ∀ n : Nat, fc.toString n = DecimalText.render n
  trim_eq_self : ∀ text : List Char, (∀ c ∈ text.head?, c.isAlphanum ∨ c = '-') →
    (∀ c ∈ text.getLast?, c.isAlphanum) → fc.trim text = text
  toInt64_digits : ∀ digits : List Char, digits ≠ [] → (∀ c ∈ digits, c.isDigit) →
    DecimalText.parse digits < 2 ^ 63 →
      fc.toInt64 digits = .ok (DecimalText.parse digits) ∧
        fc.toInt64 ('-' :: digits) = .ok (-(DecimalText.parse digits : Int))

/-! ### The model -/

/-- `symbol`, by its `uint64_t` value: the number of decimals in the low byte, and the characters
of the name in the bytes above it, the first one lowest. -/
structure Symbol where
  value : UInt64
deriving DecidableEq, Repr

namespace Symbol

/-- `symbol::max_precision`. -/
def maxPrecision : UInt8 := 18

/-- `decimals()`. -/
def decimals (sym : Symbol) : UInt8 :=
  (sym.value &&& 0xFF).toUInt8

/-- The loop of `name()`: the character of each byte of `v`, the lowest first, while any byte of
`v` is left that is not zero. -/
def nameLoop (v : UInt64) : List Char :=
  if 0 < v then Char.ofNat (v &&& 0xFF).toNat :: nameLoop (v >>> 8) else []
termination_by v.toNat
decreasing_by
  rw [UInt64.lt_iff_toNat_lt] at *
  simp only [UInt64.toNat_shiftRight, UInt64.reduceToNat, Nat.reduceMod, Nat.shiftRight_eq_div_pow]
  omega

/-- `name()`: the characters of the bytes above the decimals. -/
def name (sym : Symbol) : List Char :=
  nameLoop (sym.value >>> 8)

/-- `valid_name(name)`: upper-case letters only. -/
def validName (name : List Char) : Bool :=
  name.all fun c => 'A' ≤ c && c ≤ 'Z'

/-- `valid()`. -/
def valid (sym : Symbol) : Bool :=
  sym.decimals ≤ maxPrecision && validName sym.name

/-- The loop of `precision()`: `p` more factors of ten into `p10`. -/
def precisionLoop (p10 : UInt64) : Nat → UInt64
  | 0 => p10
  | p + 1 => precisionLoop (p10 * 10) p

/-- `precision()`: ten to the number of decimals. -/
def precision (sym : Symbol) : Except String UInt64 :=
  if sym.decimals ≤ maxPrecision then pure (precisionLoop 1 sym.decimals.toNat)
  else throw "precision ${p} should be <= 18"

/-- `symbol(uint64_t v)`, which must be valid. -/
def make (v : UInt64) : Except String Symbol :=
  if (⟨v⟩ : Symbol).valid then pure ⟨v⟩ else throw "invalid symbol: ${name}"

end Symbol

/-- One pass of the loop of `string_to_symbol`: the character at `i`, which must be an upper-case
letter, into the byte above the `i` bytes of the characters before it and the byte of the
precision. -/
def symbolStep (str : List Char) (result : UInt64) (i : Nat) : Except String UInt64 :=
  let c := str.getD i '\x00'
  if 'A' ≤ c ∧ c ≤ 'Z' then pure (result ||| c.toNat.toUInt64 <<< (8 * (i + 1)).toUInt64)
  else throw "invalid character in symbol name"

/-- `string_to_symbol(precision, str)`. -/
def stringToSymbol (precision : UInt8) (str : List Char) : Except String UInt64 := do
  let result ← (List.range str.length).foldlM (symbolStep str) 0
  pure (result ||| precision.toUInt64)

/-- The conversion of an `int64_t` to `uint8_t`: its value modulo `256`. -/
def uint8OfInt (x : Int) : UInt8 :=
  (x % 256).toNat.toUInt8

/-- `symbol::from_string(from)`: the precision before the comma, the name after it, read up to a
null character as `c_str()` hands it on. -/
def Symbol.fromString (fc : FcText) (text : List Char) : Except String Symbol := do
  let s := fc.trim text
  if s.isEmpty then throw "creating symbol from empty string"
  let some commaPos := s.idxOf? ',' | throw "missing comma in symbol"
  let precPart := s.take commaPos
  let p := uint8OfInt (← fc.toInt64 precPart)
  let namePart := s.drop (commaPos + 1)
  if p ≤ Symbol.maxPrecision then
    Symbol.make (← stringToSymbol p (namePart.takeWhile (· ≠ '\x00')))
  else throw "precision ${p} should be <= 18"

/-- `asset`: an amount of a symbol. -/
structure Asset where
  amount : Int
  sym : Symbol
deriving DecidableEq, Repr

/-- The range of `int64_t`, which `safe<int64_t>` checks after every operation. -/
def InInt64 (x : Int) : Prop := -2 ^ 63 ≤ x ∧ x < 2 ^ 63

instance : DecidablePred InInt64 := fun _ => inferInstanceAs (Decidable (_ ∧ _))

/-- `safe<int64_t>` multiplication, which throws on overflow. -/
def safeMul (x y : Int) : Except String Int :=
  if InInt64 (x * y) then pure (x * y) else throw "safe<int64_t> multiplication overflow"

/-- `safe<int64_t>` addition, which throws on overflow. -/
def safeAdd (x y : Int) : Except String Int :=
  if InInt64 (x + y) then pure (x + y) else throw "safe<int64_t> addition overflow"

namespace Asset

/-- `asset::max_amount`. -/
def maxAmount : Int := 2 ^ 62 - 1

/-- `is_amount_within_range()`. -/
def isAmountWithinRange (a : Asset) : Bool :=
  -maxAmount ≤ a.amount && a.amount ≤ maxAmount

/-- `is_valid()`. -/
def isValid (a : Asset) : Bool :=
  a.isAmountWithinRange && a.sym.valid

/-- `asset(a, id)`, whose amount must be in range and symbol valid. -/
def make (amount : Int) (sym : Symbol) : Except String Asset :=
  if -maxAmount ≤ amount ∧ amount ≤ maxAmount then
    if sym.valid then pure ⟨amount, sym⟩ else throw "invalid symbol"
  else throw "magnitude of asset amount must be less than 2^62"

/-- `asset::to_string()`. -/
def toString (fc : FcText) (a : Asset) : Except String (List Char) := do
  let sign := if a.amount < 0 then ['-'] else []
  let absAmount := a.amount.natAbs
  let precision := (← a.sym.precision).toNat
  let result := fc.toString (absAmount / precision : Nat)
  let result :=
    if a.sym.decimals ≠ 0 then
      let fract := absAmount % precision
      result ++ '.' :: (fc.toString (precision + fract : Nat)).drop 1
    else result
  pure (sign ++ result ++ ' ' :: a.sym.name)

/-- `asset::from_string(from)`: the amount before the first space, with the precision counted
from the digits after its dot, and the symbol's name after the space. -/
def fromString (fc : FcText) (text : List Char) : Except String Asset := do
  let s := fc.trim text
  let some spacePos := s.idxOf? ' '
    | throw "Asset's amount and symbol should be separated with space"
  let symbolStr := fc.trim (s.drop (spacePos + 1))
  let amountStr := s.take spacePos
  let dotPos := amountStr.idxOf? '.'
  if dotPos = some (amountStr.length - 1) then throw "Missing decimal fraction after decimal point"
  let precisionDigitStr :=
    match dotPos with
    | some dotPos => DecimalText.render (amountStr.length - dotPos - 1)
    | none => ['0']
  let sym ← Symbol.fromString fc (precisionDigitStr ++ ',' :: symbolStr)
  let (intPart, fractPart) ←
    match dotPos with
    | some dotPos => do
      let intPart ← fc.toInt64 (amountStr.take dotPos)
      let fractPart ← fc.toInt64 (amountStr.drop (dotPos + 1))
      if amountStr.head? = some '-' then pure (intPart, ← safeMul fractPart (-1))
      else pure (intPart, fractPart)
    | none => do pure (← fc.toInt64 amountStr, 0)
  let amount ← safeMul intPart (← sym.precision).toNat
  let amount ← safeAdd amount fractPart
  make amount sym

end Asset

/-! ### A text library with `fc`'s behaviour -/

/-- The characters `isspace` calls white space, which `fc::trim` drops at both ends. -/
def isSpace (c : Char) : Bool :=
  c == ' ' || c == '\t' || c == '\n' || c == '\x0b' || c == '\x0c' || c == '\r'

/-- The sign in front of a number, and the rest of its text. -/
def splitSign : List Char → Bool × List Char
  | '-' :: digits => (true, digits)
  | '+' :: digits => (false, digits)
  | digits => (false, digits)

/-- `fc::to_int64` as `boost::lexical_cast<int64_t>` reads: an optional sign, then decimal digits
whose value lies in the range of `int64_t`. -/
def readInt64 (text : List Char) : Except String Int :=
  let (negative, digits) := splitSign text
  let value : Int := if negative then -(DecimalText.parse digits : Int) else DecimalText.parse digits
  if digits ≠ [] ∧ digits.all Char.isDigit ∧ InInt64 value then pure value
  else throw "bad lexical cast: source type value could not be interpreted as target"

/-- A text library that writes, trims and reads as `fc` does. -/
def standardFc : FcText where
  toString n := (if n < 0 then ['-'] else []) ++ DecimalText.render n.natAbs
  trim text := ((text.dropWhile isSpace).reverse.dropWhile isSpace).reverse
  toInt64 := readInt64

theorem isSpace_eq_false {c : Char} (visible : c.isAlphanum ∨ c = '-') : isSpace c = false := by
  rcases visible with alphanum | rfl
  · cases space : isSpace c
    · rfl
    · simp only [isSpace, Bool.or_eq_true, beq_iff_eq] at space
      rcases space with ((((rfl | rfl) | rfl) | rfl) | rfl) | rfl <;> exact absurd alphanum (by decide)
  · rfl

theorem dropWhile_isSpace {text : List Char} (visible : ∀ c ∈ text.head?, isSpace c = false) :
    text.dropWhile isSpace = text :=
  List.dropWhile_eq_self_iff.mpr fun nonempty => by
    rw [visible text[0] (by rw [List.head?_eq_getElem?, List.getElem?_eq_getElem nonempty]; rfl)]
    exact Bool.false_ne_true

theorem standardFc_decimal : standardFc.Decimal where
  toString_natCast n := by simp [standardFc]
  trim_eq_self text first last := by
    have front := dropWhile_isSpace fun c member => isSpace_eq_false (first c member)
    have back : text.reverse.dropWhile isSpace = text.reverse := dropWhile_isSpace fun c member => by
      rw [List.head?_reverse] at member
      exact isSpace_eq_false (Or.inl (last c member))
    show ((text.dropWhile isSpace).reverse.dropWhile isSpace).reverse = text
    rw [front, back, List.reverse_reverse]
  toInt64_digits digits nonempty allDigits fits := by
    obtain ⟨first, rest, rfl⟩ := List.exists_cons_of_ne_nil nonempty
    have firstDigit := allDigits first List.mem_cons_self
    have notMinus : first ≠ '-' := by rintro rfl; exact absurd firstDigit (by decide)
    have notPlus : first ≠ '+' := by rintro rfl; exact absurd firstDigit (by decide)
    have all : (first :: rest).all Char.isDigit := List.all_eq_true.mpr allDigits
    have unsigned : splitSign (first :: rest) = (false, first :: rest) := by
      rw [splitSign]
      all_goals
        intro digits same
        cases same
        contradiction
    have inRange : InInt64 (DecimalText.parse (first :: rest)) := by
      constructor <;> omega
    have negatedInRange : InInt64 (-(DecimalText.parse (first :: rest) : Int)) := by
      constructor <;> omega
    refine ⟨?_, ?_⟩
    · show readInt64 (first :: rest) = _
      simp only [readInt64, unsigned, Bool.false_eq_true, if_false, ne_eq, reduceCtorEq,
        not_false_eq_true, all, inRange, and_self, if_true]
      rfl
    · show readInt64 ('-' :: first :: rest) = _
      simp only [readInt64, splitSign, if_true, ne_eq, reduceCtorEq, not_false_eq_true, all,
        negatedInRange, and_self]
      rfl

/-! ### Characters -/

theorem toNat_ofNat_of_lt {n : Nat} (below : n < 256) : (Char.ofNat n).toNat = n := by
  rw [Char.ofNat, dif_pos (by unfold Nat.isValidChar; omega)]
  rfl

theorem letter_iff {c : Char} : ('A' ≤ c ∧ c ≤ 'Z') ↔ 65 ≤ c.toNat ∧ c.toNat ≤ 90 := by
  rw [Char.le_def, Char.le_def, UInt32.le_iff_toNat_le, UInt32.le_iff_toNat_le]
  rfl

theorem isAlphanum_of_letter {c : Char} (letter : 'A' ≤ c ∧ c ≤ 'Z') : c.isAlphanum := by
  rw [letter_iff] at letter
  simp only [Char.isAlphanum, Char.isAlpha, Char.isUpper, Bool.or_eq_true, decide_eq_true_eq,
    UInt32.le_iff_toNat_le]
  left; left
  exact ⟨letter.1, letter.2⟩

theorem isAlphanum_of_isDigit {c : Char} (digit : c.isDigit) : c.isAlphanum := by
  simp only [Char.isAlphanum, digit, Bool.or_true]

/-! ### Symbols -/

namespace Symbol

theorem toNat_and_byte (v : UInt64) : (v &&& 0xFF).toNat = v.toNat % 256 := by
  rw [UInt64.toNat_and, show (0xFF : UInt64).toNat = 2 ^ 8 - 1 from rfl, Nat.and_two_pow_sub_one_eq_mod]

theorem toNat_shiftRight_byte (v : UInt64) : (v >>> 8).toNat = v.toNat / 256 := by
  rw [UInt64.toNat_shiftRight, Nat.shiftRight_eq_div_pow]
  rfl

/-- The loop of `name()` reads the digits of the value in base 256, lowest first. -/
theorem nameLoop_eq (v : UInt64) : nameLoop v = (Nat.digits 256 v.toNat).map Char.ofNat := by
  fun_induction nameLoop v with
  | case1 v positive inductionHypothesis =>
    rw [inductionHypothesis, Nat.digits_def' (by decide) (UInt64.lt_iff_toNat_lt.mp positive),
      List.map_cons, toNat_and_byte, toNat_shiftRight_byte]
  | case2 v zero =>
    have : v.toNat = 0 := by
      rw [UInt64.lt_iff_toNat_lt] at zero
      simp only [UInt64.reduceToNat] at zero
      omega
    rw [this, Nat.digits_zero, List.map_nil]

/-- The bytes of a symbol's name: the digits in base 256 of its value above the decimals. -/
def nameBytes (sym : Symbol) : List Nat :=
  Nat.digits 256 (sym.value.toNat / 256)

theorem name_eq (sym : Symbol) : sym.name = sym.nameBytes.map Char.ofNat := by
  rw [name, nameLoop_eq, toNat_shiftRight_byte, nameBytes]

theorem toNat_decimals (sym : Symbol) : sym.decimals.toNat = sym.value.toNat % 256 := by
  rw [decimals, UInt64.toNat_toUInt8, toNat_and_byte]
  omega

/-- A symbol's value is its decimals and its name's bytes above them. -/
theorem value_eq (sym : Symbol) :
    sym.value.toNat = sym.decimals.toNat + 256 * Nat.ofDigits 256 sym.nameBytes := by
  rw [toNat_decimals, nameBytes, Nat.ofDigits_digits, Nat.mod_add_div]

theorem length_nameBytes_le (sym : Symbol) : sym.nameBytes.length ≤ 7 := by
  rw [nameBytes, Nat.digits_length_le_iff (by decide)]
  have := sym.value.toNat_lt
  omega

theorem validName_iff {name : List Char} : validName name ↔ ∀ c ∈ name, 'A' ≤ c ∧ c ≤ 'Z' := by
  simp [validName]

/-- In a valid symbol every byte of the name is an upper-case letter. -/
theorem letter_of_mem_nameBytes {sym : Symbol} (valid : sym.valid) :
    ∀ byte ∈ sym.nameBytes, 65 ≤ byte ∧ byte ≤ 90 := by
  intro byte member
  have below : byte < 256 := Nat.digits_lt_base (by decide) member
  simp only [Symbol.valid, Bool.and_eq_true, decide_eq_true_eq] at valid
  have letter := validName_iff.mp valid.2 (Char.ofNat byte) (by
    rw [name_eq]
    exact List.mem_map_of_mem member)
  rwa [letter_iff, toNat_ofNat_of_lt below] at letter

end Symbol

/-! ### Packing: `string_to_symbol` -/

theorem symbolStep_of_letter {str : List Char} {i : Nat} (inRange : i < str.length)
    (letter : 'A' ≤ str[i] ∧ str[i] ≤ 'Z') (result : UInt64) :
    symbolStep str result i = pure (result ||| str[i].toNat.toUInt64 <<< (8 * (i + 1)).toUInt64) := by
  rw [symbolStep, List.getD_eq_getElem?_getD, List.getElem?_eq_getElem inRange, Option.getD_some]
  exact if_pos letter

/-- **The packing loop of `string_to_symbol`** over the first `count` letters puts each letter in
the byte above the ones before it, starting one byte up: by induction on the count, the last
letter being packed last. -/
theorem foldlM_symbolStep {str : List Char} : ∀ count : Nat, count ≤ str.length → count ≤ 7 →
    (∀ c ∈ str.take count, 'A' ≤ c ∧ c ≤ 'Z') →
    ∃ result, (List.range count).foldlM (symbolStep str) 0 = .ok result ∧
      result.toNat = 256 * Nat.ofDigits 256 ((str.take count).map Char.toNat)
  | 0, _, _, _ => ⟨0, rfl, by simp⟩
  | count + 1, within, short, letters => by
    have inRange : count < str.length := by omega
    have lastTaken : str.take (count + 1) = str.take count ++ [str[count]] := by
      rw [List.take_add_one, List.getElem?_eq_getElem inRange, Option.toList_some]
    rw [lastTaken] at letters
    have letter := letters str[count] (List.mem_append_right _ (List.mem_singleton_self _))
    obtain ⟨result, loop, packed⟩ := foldlM_symbolStep count (by omega) (by omega)
      (fun c member => letters c (List.mem_append_left _ member))
    have code := letter_iff.mp letter
    -- the letters so far fill the `count` bytes above the lowest one
    have lengthTaken : ((str.take count).map Char.toNat).length = count := by
      rw [List.length_map, List.length_take]
      omega
    have below : result.toNat < 2 ^ (8 * (count + 1)) := by
      have digitsBelow := Nat.ofDigits_lt_base_pow_length (b := 256)
        (l := (str.take count).map Char.toNat) (by decide) (fun byte member => by
          obtain ⟨c, cMember, rfl⟩ := List.mem_map.mp member
          have := letter_iff.mp (letters c (List.mem_append_left _ cMember))
          omega)
      rw [lengthTaken] at digitsBelow
      calc result.toNat
          = 256 * Nat.ofDigits 256 ((str.take count).map Char.toNat) := packed
        _ < 256 * 256 ^ count := Nat.mul_lt_mul_of_pos_left digitsBelow (by decide)
        _ = 2 ^ (8 * (count + 1)) := by rw [pow_mul, show (2 : Nat) ^ 8 = 256 by norm_num, pow_succ']
    have fits : str[count].toNat * 2 ^ (8 * (count + 1)) < 2 ^ 64 :=
      calc str[count].toNat * 2 ^ (8 * (count + 1))
          < 256 * 2 ^ 56 := Nat.mul_lt_mul_of_lt_of_le (by omega)
            (Nat.pow_le_pow_right (by decide) (by omega)) (Nat.two_pow_pos _)
        _ = 2 ^ 64 := by norm_num
    refine ⟨result ||| str[count].toNat.toUInt64 <<< (8 * (count + 1)).toUInt64, ?_, ?_⟩
    · rw [List.range_succ, List.foldlM_append, loop]
      show List.foldlM (symbolStep str) result [count] = _
      rw [List.foldlM_cons, symbolStep_of_letter inRange letter result]
      rfl
    · rw [toNat_or_shiftLeft (by omega) below fits, packed, lastTaken, List.map_append,
        Nat.ofDigits_append, lengthTaken, List.map_singleton, Nat.ofDigits_singleton, pow_mul,
        Nat.mul_add, pow_succ]
      norm_num
      ring

/-- The codes of a valid symbol's name are its name's bytes. -/
theorem map_toNat_name {sym : Symbol} (valid : sym.valid) : sym.name.map Char.toNat = sym.nameBytes := by
  rw [Symbol.name_eq, List.map_map]
  conv_rhs => rw [← List.map_id sym.nameBytes]
  refine List.map_congr_left fun byte member => ?_
  have := Symbol.letter_of_mem_nameBytes valid byte member
  exact toNat_ofNat_of_lt (by omega)

theorem letter_of_mem_name {sym : Symbol} (valid : sym.valid) :
    ∀ c ∈ sym.name, 'A' ≤ c ∧ c ≤ 'Z' := by
  simp only [Symbol.valid, Bool.and_eq_true, decide_eq_true_eq] at valid
  exact Symbol.validName_iff.mp valid.2

/-- **`string_to_symbol` packs a valid symbol's name and decimals back into its value.** -/
theorem stringToSymbol_name {sym : Symbol} (valid : sym.valid) :
    stringToSymbol sym.decimals sym.name = .ok sym.value := by
  have short : sym.name.length ≤ 7 := by
    rw [Symbol.name_eq, List.length_map]
    exact sym.length_nameBytes_le
  obtain ⟨result, loop, packed⟩ := @foldlM_symbolStep sym.name sym.name.length le_rfl short
    (by rw [List.take_length]; exact letter_of_mem_name valid)
  rw [List.take_length, map_toNat_name valid] at packed
  have decimalsBelow : sym.decimals.toNat < 2 ^ 8 := sym.decimals.toNat_lt
  rw [stringToSymbol, loop]
  show (pure (result ||| sym.decimals.toUInt64) : Except String UInt64) = _
  congr 1
  apply UInt64.toNat_inj.mp
  rw [UInt64.toNat_or, UInt8.toNat_toUInt64, packed, Symbol.value_eq,
    show (256 : Nat) = 2 ^ 8 from rfl, ← Nat.two_pow_add_eq_or_of_lt decimalsBelow, Nat.add_comm]

/-! ### Reading a symbol back: `symbol::from_string` -/

theorem getLast?_append_of_ne_nil {front back : List Char} (nonempty : back ≠ []) :
    (front ++ back).getLast? = back.getLast? := by
  rw [List.getLast?_append, List.getLast?_eq_some_getLast nonempty, Option.some_or]

theorem Symbol.precisionLoop_toNat : ∀ (p : Nat) (p10 : UInt64), p10.toNat * 10 ^ p < 2 ^ 64 →
    (Symbol.precisionLoop p10 p).toNat = p10.toNat * 10 ^ p
  | 0, p10, _ => by rw [Symbol.precisionLoop, pow_zero, Nat.mul_one]
  | p + 1, p10, fits => by
    have timesTen : (p10 * 10).toNat = p10.toNat * 10 := by
      have small : p10.toNat * 10 < 2 ^ 64 :=
        calc p10.toNat * 10 ≤ p10.toNat * 10 ^ (p + 1) :=
              Nat.mul_le_mul_left _ (Nat.le_self_pow (by omega) 10)
          _ < 2 ^ 64 := fits
      simp only [UInt64.toNat_mul, UInt64.reduceToNat]
      exact Nat.mod_eq_of_lt small
    rw [Symbol.precisionLoop, Symbol.precisionLoop_toNat p _ (by rw [timesTen, Nat.mul_assoc, ← pow_succ']; exact fits),
      timesTen, Nat.mul_assoc, ← pow_succ']

/-- A valid symbol's precision is ten to its decimals. -/
theorem Symbol.precision_of_valid {sym : Symbol} (valid : sym.valid) :
    ∃ precision, sym.precision = pure precision ∧ precision.toNat = 10 ^ sym.decimals.toNat := by
  simp only [Symbol.valid, Bool.and_eq_true, decide_eq_true_eq] at valid
  have atMost : sym.decimals.toNat ≤ 18 := UInt8.le_iff_toNat_le.mp valid.1
  refine ⟨_, if_pos valid.1, ?_⟩
  rw [Symbol.precisionLoop_toNat _ _ (by
    calc (1 : UInt64).toNat * 10 ^ sym.decimals.toNat ≤ 1 * 10 ^ 18 :=
          Nat.mul_le_mul_left _ (Nat.pow_le_pow_right (by decide) atMost)
      _ < 2 ^ 64 := by norm_num)]
  rw [show (1 : UInt64).toNat = 1 from rfl, Nat.one_mul]

/-- **`symbol::from_string` reads back a valid symbol with a name** from its decimals and name. -/
theorem Symbol.fromString_render {fc : FcText} (decimal : fc.Decimal) {sym : Symbol}
    (valid : sym.valid) (named : sym.name ≠ []) :
    Symbol.fromString fc (DecimalText.render sym.decimals.toNat ++ ',' :: sym.name) = .ok sym := by
  have letters := letter_of_mem_name valid
  have atMost : sym.decimals ≤ Symbol.maxPrecision := by
    simp only [Symbol.valid, Bool.and_eq_true, decide_eq_true_eq] at valid
    exact valid.1
  have below : sym.decimals.toNat < 19 := by
    have := UInt8.le_iff_toNat_le.mp atMost
    simp [Symbol.maxPrecision] at this
    omega
  -- the text has no blank at either end, so `trim` keeps it
  have trimmed : fc.trim (DecimalText.render sym.decimals.toNat ++ ',' :: sym.name) =
      DecimalText.render sym.decimals.toNat ++ ',' :: sym.name := by
    apply decimal.trim_eq_self
    · intro c member
      obtain ⟨first, rest, split⟩ := List.exists_cons_of_ne_nil (DecimalText.render_ne_nil sym.decimals.toNat)
      rw [split, List.cons_append, List.head?_cons, Option.mem_def, Option.some.injEq] at member
      subst member
      exact Or.inl (isAlphanum_of_isDigit (DecimalText.isDigit_of_mem_render (split ▸ List.mem_cons_self)))
    · intro c member
      rw [getLast?_append_of_ne_nil (List.cons_ne_nil _ _), List.getLast?_cons,
        List.getLast?_eq_some_getLast named, Option.getD_some, Option.mem_def, Option.some.injEq] at member
      subst member
      exact isAlphanum_of_letter (letters _ (List.getLast_mem named))
  have comma := DecimalText.idxOf?_append_cons
    (DecimalText.not_mem_render (show ','.isDigit = false by decide) sym.decimals.toNat) sym.name
  have precisionRead :
      fc.toInt64 (DecimalText.render sym.decimals.toNat) = pure (sym.decimals.toNat : Int) := by
    have read := (decimal.toInt64_digits (DecimalText.render sym.decimals.toNat)
      (DecimalText.render_ne_nil _)
      (fun c member => DecimalText.isDigit_of_mem_render member)
      (by rw [DecimalText.parse_render]; omega)).1
    rwa [DecimalText.parse_render] at read
  have narrowed : uint8OfInt sym.decimals.toNat = sym.decimals := by
    rw [uint8OfInt, Int.emod_eq_of_lt (by omega) (by omega), Int.toNat_natCast, Nat.toUInt8_eq,
      UInt8.ofNat_toNat]
  have nameRead : (sym.name.takeWhile (· ≠ '\x00')) = sym.name :=
    List.takeWhile_eq_self_iff.mpr fun c member => by
      have := letter_iff.mp (letters c member)
      simp only [ne_eq, decide_eq_true_eq]
      rintro rfl
      simp at this
  have packed : Symbol.make sym.value = .ok sym := by
    rw [Symbol.make, if_pos valid]
    rfl
  have nonempty : (DecimalText.render sym.decimals.toNat ++ ',' :: sym.name).isEmpty = false := by
    simp
  have front : (DecimalText.render sym.decimals.toNat ++ ',' :: sym.name).take
      (DecimalText.render sym.decimals.toNat).length = DecimalText.render sym.decimals.toNat :=
    List.take_left' rfl
  have back : (DecimalText.render sym.decimals.toNat ++ ',' :: sym.name).drop
      ((DecimalText.render sym.decimals.toNat).length + 1) = sym.name := by
    simp
  simp only [Symbol.fromString, trimmed, nonempty, comma, front, back, precisionRead, narrowed,
    nameRead, atMost, Bool.false_eq_true, if_false, if_true, pure_bind]
  rw [show stringToSymbol sym.decimals sym.name = pure sym.value from stringToSymbol_name valid,
    pure_bind, packed]

/-! ### Writing an asset: `asset::to_string` -/

namespace Asset

/-- The amount as `to_string` writes it for `decimals` decimals: the sign, the whole part, and with
decimals a dot and the fraction padded to their number. -/
def amountText (amount : Int) (decimals : Nat) : List Char :=
  (if amount < 0 then ['-'] else []) ++ DecimalText.render (amount.natAbs / 10 ^ decimals) ++
    if decimals = 0 then [] else '.' :: DecimalText.pad decimals (amount.natAbs % 10 ^ decimals)

/-- **`to_string` writes the amount text, a space and the symbol's name.** -/
theorem toString_eq {fc : FcText} (decimal : fc.Decimal) {a : Asset} (valid : a.sym.valid) :
    a.toString fc = .ok (amountText a.amount a.sym.decimals.toNat ++ ' ' :: a.sym.name) := by
  obtain ⟨precision, isPrecision, precisionToNat⟩ := Symbol.precision_of_valid valid
  rw [Asset.toString, isPrecision, pure_bind]
  simp only [precisionToNat, decimal.toString_natCast, amountText, ne_eq]
  by_cases noDecimals : a.sym.decimals = 0
  · simp only [noDecimals, not_true_eq_false, if_false, show (0 : UInt8).toNat = 0 from rfl,
      if_true, List.append_nil]
    rfl
  · have nonzero : a.sym.decimals.toNat ≠ 0 := fun zero => noDecimals (UInt8.toNat_inj.mp zero)
    -- the fraction printed above the precision starts with a `1` that is dropped
    rw [DecimalText.render_pow_add (Nat.mod_lt _ (Nat.pow_pos (by decide)))]
    simp only [noDecimals, not_false_eq_true, if_true, nonzero, if_false, List.drop_succ_cons,
      List.drop_zero, List.append_assoc]
    rfl

/-! ### Reading an asset back: `asset::from_string` -/

/-- The characters of an amount text: a minus sign, a dot and digits. -/
theorem mem_amountText {amount : Int} {decimals : Nat} {c : Char}
    (member : c ∈ amountText amount decimals) : c = '-' ∨ c = '.' ∨ c.isDigit := by
  simp only [amountText, List.mem_append] at member
  rcases member with (sign | whole) | fraction
  · split at sign
    · exact Or.inl (List.mem_singleton.mp sign)
    · cases sign
  · exact Or.inr (Or.inr (DecimalText.isDigit_of_mem_render whole))
  · split at fraction
    · cases fraction
    · rcases List.mem_cons.mp fraction with dot | padded
      · exact Or.inr (Or.inl dot)
      · exact Or.inr (Or.inr (DecimalText.isDigit_of_mem_pad padded))

theorem space_not_mem_amountText (amount : Int) (decimals : Nat) : ' ' ∉ amountText amount decimals :=
  fun member => by
    rcases mem_amountText member with minus | dot | digit
    · cases minus
    · cases dot
    · exact absurd digit (by decide)

/-- An amount text starts with its sign, or with the first digit of its whole part. -/
theorem head?_amountText (amount : Int) (decimals : Nat) :
    (amountText amount decimals).head? =
      if amount < 0 then some '-' else (DecimalText.render (amount.natAbs / 10 ^ decimals)).head? := by
  obtain ⟨first, rest, split⟩ := List.exists_cons_of_ne_nil
    (DecimalText.render_ne_nil (amount.natAbs / 10 ^ decimals))
  by_cases negative : amount < 0 <;> simp [amountText, negative, split]

theorem isAlphanum_of_head?_amountText {amount : Int} {decimals : Nat} :
    ∀ c ∈ (amountText amount decimals).head?, c.isAlphanum ∨ c = '-' := by
  intro c member
  rw [head?_amountText] at member
  split at member
  · exact Or.inr (Option.mem_some_iff.mp member).symm
  · exact Or.inl (isAlphanum_of_isDigit (DecimalText.isDigit_of_mem_render (List.mem_of_mem_head? member)))

/-- Digits after a sign or not read as the signed number they stand for. -/
theorem toInt64_signed {fc : FcText} (decimal : fc.Decimal) (negative : Prop) [Decidable negative]
    {digits : List Char} (nonempty : digits ≠ []) (allDigits : ∀ c ∈ digits, c.isDigit)
    (fits : DecimalText.parse digits < 2 ^ 63) :
    fc.toInt64 ((if negative then ['-'] else []) ++ digits) =
      pure (if negative then -(DecimalText.parse digits : Int) else DecimalText.parse digits) := by
  have read := decimal.toInt64_digits digits nonempty allDigits fits
  by_cases isNegative : negative
  · simp only [isNegative, if_true, List.singleton_append]
    exact read.2
  · simp only [isNegative, if_false, List.nil_append]
    exact read.1

theorem inInt64_of_natAbs_le {x : Int} (small : x.natAbs < 2 ^ 63) : InInt64 x := by
  constructor <;> omega

theorem safeMul_of_inInt64 {x y : Int} (inRange : InInt64 (x * y)) : safeMul x y = pure (x * y) :=
  if_pos inRange

theorem safeAdd_of_inInt64 {x y : Int} (inRange : InInt64 (x + y)) : safeAdd x y = pure (x + y) :=
  if_pos inRange

/-- The text `to_string` writes splits at its space into the amount text and the name, both kept
by `trim`. -/
theorem trim_amountText {fc : FcText} (decimal : fc.Decimal) {name : List Char} (named : name ≠ [])
    (letters : ∀ c ∈ name, 'A' ≤ c ∧ c ≤ 'Z') (amount : Int) (decimals : Nat) :
    fc.trim (amountText amount decimals ++ ' ' :: name) = amountText amount decimals ++ ' ' :: name ∧
      fc.trim name = name := by
  have lastLetter : ∀ c ∈ name.getLast?, c.isAlphanum := by
    intro c member
    rw [List.getLast?_eq_some_getLast named, Option.mem_def, Option.some.injEq] at member
    subst member
    exact isAlphanum_of_letter (letters _ (List.getLast_mem named))
  refine ⟨decimal.trim_eq_self _ ?_ ?_, decimal.trim_eq_self _ ?_ lastLetter⟩
  · obtain ⟨first, rest, split⟩ := List.exists_cons_of_ne_nil (DecimalText.render_ne_nil
      (amount.natAbs / 10 ^ decimals))
    have nonempty : amountText amount decimals ≠ [] := by
      simp [amountText, split]
    rw [List.head?_append_of_ne_nil _ nonempty]
    exact isAlphanum_of_head?_amountText
  · rwa [getLast?_append_of_ne_nil (List.cons_ne_nil _ _), List.getLast?_cons,
      List.getLast?_eq_some_getLast named, Option.getD_some, ← List.getLast?_eq_some_getLast named]
  · intro c member
    obtain ⟨first, rest, rfl⟩ := List.exists_cons_of_ne_nil named
    rw [List.head?_cons, Option.mem_def, Option.some.injEq] at member
    subst member
    exact Or.inl (isAlphanum_of_letter (letters _ List.mem_cons_self))

/-- **`from_string` reads back the amount text and the name of a valid asset.** -/
theorem fromString_amountText {fc : FcText} (decimal : fc.Decimal) {a : Asset} (valid : a.isValid)
    (named : a.sym.name ≠ []) :
    fromString fc (amountText a.amount a.sym.decimals.toNat ++ ' ' :: a.sym.name) = .ok a := by
  simp only [isValid, isAmountWithinRange, Bool.and_eq_true, decide_eq_true_eq] at valid
  obtain ⟨⟨lowest, highest⟩, symValid⟩ := valid
  have letters := letter_of_mem_name symValid
  obtain ⟨trimmed, nameTrimmed⟩ := trim_amountText decimal named letters a.amount a.sym.decimals.toNat
  have space := DecimalText.idxOf?_append_cons (space_not_mem_amountText a.amount a.sym.decimals.toNat)
    a.sym.name
  have symbolStr : (amountText a.amount a.sym.decimals.toNat ++ ' ' :: a.sym.name).drop
      ((amountText a.amount a.sym.decimals.toNat).length + 1) = a.sym.name := by
    simp
  have amountStr : (amountText a.amount a.sym.decimals.toNat ++ ' ' :: a.sym.name).take
      (amountText a.amount a.sym.decimals.toNat).length = amountText a.amount a.sym.decimals.toNat :=
    List.take_left' rfl
  obtain ⟨precision, isPrecision, precisionToNat⟩ := Symbol.precision_of_valid symValid
  have symbolRead := Symbol.fromString_render decimal symValid named
  have magnitude : a.amount.natAbs < 2 ^ 62 := by
    simp only [maxAmount] at lowest highest
    omega
  -- the signed magnitude is the amount
  have signed : (if a.amount < 0 then -(a.amount.natAbs : Int) else a.amount.natAbs) = a.amount := by
    split <;> omega
  have inRange : InInt64 a.amount := by
    simp only [maxAmount] at lowest highest
    constructor <;> omega
  have made : make a.amount a.sym = .ok a := by
    rw [make, if_pos ⟨lowest, highest⟩, if_pos symValid]
    rfl
  simp only [fromString, trimmed, space, symbolStr, nameTrimmed, amountStr]
  by_cases noDecimals : a.sym.decimals.toNat = 0
  · -- no dot: the whole amount is read at once, with precision one
    have whole : amountText a.amount a.sym.decimals.toNat =
        (if a.amount < 0 then ['-'] else []) ++ DecimalText.render a.amount.natAbs := by
      simp [amountText, noDecimals]
    have noDot : (amountText a.amount a.sym.decimals.toNat).idxOf? '.' = none := by
      rw [whole]
      simp only [List.idxOf?_eq_none_iff, List.mem_append, not_or]
      refine ⟨by split <;> simp, DecimalText.not_mem_render (by decide) _⟩
    have wholeRead : fc.toInt64 (amountText a.amount a.sym.decimals.toNat) = pure a.amount := by
      rw [whole, toInt64_signed decimal _ (DecimalText.render_ne_nil _)
        (fun c member => DecimalText.isDigit_of_mem_render member)
        (by rw [DecimalText.parse_render]; omega), DecimalText.parse_render, signed]
    rw [noDecimals, show DecimalText.render 0 = ['0'] from rfl] at symbolRead
    rw [noDecimals] at precisionToNat
    have one : precision.toNat = 1 := precisionToNat
    simp only [noDot, reduceCtorEq, if_false, wholeRead, pure_bind]
    rw [show Symbol.fromString fc (['0'] ++ ',' :: a.sym.name) = pure a.sym from symbolRead, pure_bind,
      isPrecision, pure_bind, one, Nat.cast_one,
      safeMul_of_inInt64 (by rw [Int.mul_one]; exact inRange), pure_bind, Int.mul_one,
      safeAdd_of_inInt64 (by rw [Int.add_zero]; exact inRange), pure_bind, Int.add_zero, made]
  · -- a dot after the whole part, and the fraction padded to the decimals after it
    have split : amountText a.amount a.sym.decimals.toNat =
        ((if a.amount < 0 then ['-'] else []) ++
          DecimalText.render (a.amount.natAbs / 10 ^ a.sym.decimals.toNat)) ++
          '.' :: DecimalText.pad a.sym.decimals.toNat (a.amount.natAbs % 10 ^ a.sym.decimals.toNat) := by
      simp [amountText, noDecimals]
    have dotNotIn : '.' ∉ (if a.amount < 0 then ['-'] else []) ++
        DecimalText.render (a.amount.natAbs / 10 ^ a.sym.decimals.toNat) := by
      simp only [List.mem_append, not_or]
      exact ⟨by split <;> simp, DecimalText.not_mem_render (by decide) _⟩
    have dot := DecimalText.idxOf?_append_cons dotNotIn
      (DecimalText.pad a.sym.decimals.toNat (a.amount.natAbs % 10 ^ a.sym.decimals.toNat))
    rw [← split] at dot
    have length : (amountText a.amount a.sym.decimals.toNat).length =
        ((if a.amount < 0 then ['-'] else []) ++
          DecimalText.render (a.amount.natAbs / 10 ^ a.sym.decimals.toNat)).length + 1 +
          a.sym.decimals.toNat := by
      rw [split, List.length_append, List.length_cons, DecimalText.length_pad]
      omega
    have front : (amountText a.amount a.sym.decimals.toNat).take
        ((if a.amount < 0 then ['-'] else []) ++
          DecimalText.render (a.amount.natAbs / 10 ^ a.sym.decimals.toNat)).length =
        (if a.amount < 0 then ['-'] else []) ++
          DecimalText.render (a.amount.natAbs / 10 ^ a.sym.decimals.toNat) := by
      rw [split]
      exact List.take_left' rfl
    have back : (amountText a.amount a.sym.decimals.toNat).drop
        (((if a.amount < 0 then ['-'] else []) ++
          DecimalText.render (a.amount.natAbs / 10 ^ a.sym.decimals.toNat)).length + 1) =
        DecimalText.pad a.sym.decimals.toNat (a.amount.natAbs % 10 ^ a.sym.decimals.toNat) := by
      rw [split, List.drop_length_add_append]
      rfl
    have notLast : ¬ ((if a.amount < 0 then ['-'] else []) ++
        DecimalText.render (a.amount.natAbs / 10 ^ a.sym.decimals.toNat)).length =
        (amountText a.amount a.sym.decimals.toNat).length - 1 := by
      rw [length]
      omega
    have count : (amountText a.amount a.sym.decimals.toNat).length -
        ((if a.amount < 0 then ['-'] else []) ++
          DecimalText.render (a.amount.natAbs / 10 ^ a.sym.decimals.toNat)).length - 1 =
        a.sym.decimals.toNat := by
      rw [length]
      omega
    have wholeRead : fc.toInt64 ((if a.amount < 0 then ['-'] else []) ++
        DecimalText.render (a.amount.natAbs / 10 ^ a.sym.decimals.toNat)) =
        pure (if a.amount < 0 then -((a.amount.natAbs / 10 ^ a.sym.decimals.toNat : Nat) : Int)
          else (a.amount.natAbs / 10 ^ a.sym.decimals.toNat : Nat)) := by
      rw [toInt64_signed decimal _ (DecimalText.render_ne_nil _)
        (fun c member => DecimalText.isDigit_of_mem_render member)
        (by rw [DecimalText.parse_render]; exact lt_of_le_of_lt (Nat.div_le_self _ _) (by omega)),
        DecimalText.parse_render]
    have fractBelow : a.amount.natAbs % 10 ^ a.sym.decimals.toNat < 10 ^ a.sym.decimals.toNat :=
      Nat.mod_lt _ (Nat.pow_pos (by decide))
    have fractRead : fc.toInt64
        (DecimalText.pad a.sym.decimals.toNat (a.amount.natAbs % 10 ^ a.sym.decimals.toNat)) =
        pure ((a.amount.natAbs % 10 ^ a.sym.decimals.toNat : Nat) : Int) := by
      have parsed := DecimalText.parse_pad a.sym.decimals.toNat
        (a.amount.natAbs % 10 ^ a.sym.decimals.toNat)
      rw [Nat.mod_eq_of_lt fractBelow] at parsed
      have read := (decimal.toInt64_digits
        (DecimalText.pad a.sym.decimals.toNat (a.amount.natAbs % 10 ^ a.sym.decimals.toNat))
        (by rw [← List.length_pos_iff, DecimalText.length_pad]; omega)
        (fun c member => DecimalText.isDigit_of_mem_pad member)
        (by rw [parsed]; exact lt_of_le_of_lt (Nat.mod_le _ _) (by omega))).1
      rwa [parsed] at read
    have headSign : (amountText a.amount a.sym.decimals.toNat).head? = some '-' ↔ a.amount < 0 := by
      rw [head?_amountText]
      split
      · simp [*]
      · rename_i nonnegative
        simp only [nonnegative, iff_false]
        intro minus
        have digit := DecimalText.isDigit_of_mem_render (List.mem_of_mem_head? minus)
        exact absurd digit (by decide)
    simp only [dot, Option.some.injEq, notLast, if_false, count, front, back, wholeRead, fractRead,
      pure_bind]
    rw [show Symbol.fromString fc (DecimalText.render a.sym.decimals.toNat ++ ',' :: a.sym.name) =
      pure a.sym from symbolRead, pure_bind]
    -- the whole part times the precision and the fraction make up the magnitude
    have decomposed : ((a.amount.natAbs / 10 ^ a.sym.decimals.toNat : Nat) : Int) *
        ((10 ^ a.sym.decimals.toNat : Nat) : Int) + ((a.amount.natAbs % 10 ^ a.sym.decimals.toNat : Nat) : Int) =
        a.amount.natAbs := by
      exact_mod_cast Nat.div_add_mod' a.amount.natAbs (10 ^ a.sym.decimals.toNat)
    have fractNonneg : (0 : Int) ≤ ((a.amount.natAbs % 10 ^ a.sym.decimals.toNat : Nat) : Int) :=
      Int.natCast_nonneg _
    have magnitudeInt : (a.amount.natAbs : Int) < 2 ^ 62 := by exact_mod_cast magnitude
    have fractSmall : (a.amount.natAbs % 10 ^ a.sym.decimals.toNat) < 2 ^ 63 :=
      lt_of_le_of_lt (Nat.mod_le _ _) (by omega)
    by_cases negative : a.amount < 0
    · have amountEq : a.amount = -(a.amount.natAbs : Int) := by
        rw [if_pos negative] at signed
        exact signed.symm
      have total : -((a.amount.natAbs / 10 ^ a.sym.decimals.toNat : Nat) : Int) *
          ((10 ^ a.sym.decimals.toNat : Nat) : Int) +
          ((a.amount.natAbs % 10 ^ a.sym.decimals.toNat : Nat) : Int) * -1 = a.amount := by
        linarith
      rw [if_pos (headSign.mpr negative), safeMul_of_inInt64 (inInt64_of_natAbs_le (by omega)),
        pure_bind, isPrecision, pure_bind, precisionToNat, if_pos negative]
      rw [safeMul_of_inInt64 (inInt64_of_natAbs_le (by
          rw [Int.natAbs_mul, Int.natAbs_neg, Int.natAbs_natCast, Int.natAbs_natCast]
          have := Nat.div_mul_le_self a.amount.natAbs (10 ^ a.sym.decimals.toNat)
          omega)), pure_bind,
        safeAdd_of_inInt64 (by rw [total]; exact inRange), pure_bind, total, made]
    · have amountEq : a.amount = (a.amount.natAbs : Int) := by
        rw [if_neg negative] at signed
        exact signed.symm
      have total : ((a.amount.natAbs / 10 ^ a.sym.decimals.toNat : Nat) : Int) *
          ((10 ^ a.sym.decimals.toNat : Nat) : Int) +
          ((a.amount.natAbs % 10 ^ a.sym.decimals.toNat : Nat) : Int) = a.amount := by
        linarith
      rw [if_neg (mt headSign.mp negative), isPrecision, pure_bind, precisionToNat, if_neg negative]
      rw [safeMul_of_inInt64 (inInt64_of_natAbs_le (by
          rw [Int.natAbs_mul, Int.natAbs_natCast, Int.natAbs_natCast]
          have := Nat.div_mul_le_self a.amount.natAbs (10 ^ a.sym.decimals.toNat)
          omega)), pure_bind,
        safeAdd_of_inInt64 (by rw [total]; exact inRange), pure_bind, total, made]

end Asset

/-! ### The round trip -/

namespace Asset

/-- **`from_string` reads back what `to_string` writes**, for every valid asset whose symbol has a
name: the same amount and the same symbol, negative amounts with a zero whole part included, when
`fc`'s text functions behave as `FcText.Decimal` says. -/
theorem fromString_toString {fc : FcText} (decimal : fc.Decimal) {a : Asset} (valid : a.isValid)
    (named : a.sym.name ≠ []) : (a.toString fc >>= fromString fc) = .ok a := by
  have symValid : a.sym.valid := by
    simp only [isValid, Bool.and_eq_true] at valid
    exact valid.2
  rw [toString_eq decimal symValid]
  exact fromString_amountText decimal valid named

theorem fromString_toString_minus_five :
    standardFc.Decimal ∧ (⟨-5, ⟨16644⟩⟩ : Asset).isValid ∧ (⟨16644⟩ : Symbol).name ≠ [] ∧
      ((⟨-5, ⟨16644⟩⟩ : Asset).toString standardFc >>= fromString standardFc) =
        .ok ⟨-5, ⟨16644⟩⟩ := by
  -- the symbol `4,A`: four decimals, and the letter `A` in the byte above them
  have name : (⟨16644⟩ : Symbol).name = ['A'] := by
    rw [Symbol.name_eq, Symbol.nameBytes, show (16644 : UInt64).toNat / 256 = 65 from rfl,
      Nat.digits_of_lt 256 65 (by decide) (by decide)]
    rfl
  have valid : (⟨-5, ⟨16644⟩⟩ : Asset).isValid := by
    simp only [isValid, isAmountWithinRange, Symbol.valid, name]
    decide
  have named : (⟨16644⟩ : Symbol).name ≠ [] := by
    rw [name]
    exact List.cons_ne_nil _ _
  exact ⟨standardFc_decimal, valid, named, fromString_toString standardFc_decimal valid named⟩

/-- A valid asset whose symbol has an empty name does not read back: `to_string` ends its text
with the space before the name, and `trim` drops that space before `from_string` looks for it. -/
theorem fromString_toString_empty_name :
    (⟨5, ⟨0⟩⟩ : Asset).isValid ∧ (⟨5, ⟨0⟩⟩ : Asset).toString standardFc = .ok ['5', ' '] ∧
      fromString standardFc ['5', ' '] =
        .error "Asset's amount and symbol should be separated with space" := by
  have name : (⟨0⟩ : Symbol).name = [] := by
    rw [Symbol.name_eq, Symbol.nameBytes, show (0 : UInt64).toNat / 256 = 0 from rfl,
      Nat.digits_zero]
    rfl
  have valid : (⟨5, ⟨0⟩⟩ : Asset).isValid := by
    simp only [isValid, isAmountWithinRange, Symbol.valid, name]
    decide
  have symValid : (⟨0⟩ : Symbol).valid := by
    simp only [Symbol.valid, name]
    decide
  -- `trim` drops the space, and no space is left to split at
  have trimmed : standardFc.trim ['5', ' '] = ['5'] := by decide
  have noSpace : (['5'] : List Char).idxOf? ' ' = none := by decide
  refine ⟨valid, ?_, ?_⟩
  · rw [toString_eq (a := ⟨5, ⟨0⟩⟩) standardFc_decimal symValid, name, amountText,
      show (⟨0⟩ : Symbol).decimals.toNat = 0 from rfl, pow_zero, Nat.div_one]
    rfl
  · rw [fromString, trimmed, noSpace]
    rfl

end Asset

end Eosio.Chain
