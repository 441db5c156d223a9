/-
This file proves that `string_to_uint64_t` and `name::to_string` are inverse to each other, that
`is_string_valid_name` accepts exactly the strings `string_to_uint64_t` accepts, and that names
compare as their texts do.

The text of a name is read as thirteen digits in mixed radix, written most significant first: the
first twelve characters take five bits each and the thirteenth the low four. `MixedRadix` keeps
digits least significant first, so the radices are `16` and then twelve `32`s. `to_string` reads
the digits off from the low end and trims the dots, the characters of the zero digit;
`string_to_uint64_t` packs them from the last character to the first, a short text standing for
itself padded with dots. The characters of a name map to digits monotonically, so texts padded
with dots to one length compare as the digits do, and the digits as the values.
-/

import Mathlib
import EosioChain.Name
import EosioChain.MixedRadix

namespace Eosio.Chain

open MixedRadix

/-! ### Characters -/

/-- The character of a digit, `charmap[digit]` in `name::to_string`. -/
def charOf (digit : Nat) : Char := nameCharmap.getD digit '.'

/-- The characters `char_to_symbol` accepts. -/
def NameChar (c : Char) : Prop := ('a' ≤ c ∧ c ≤ 'z') ∨ ('1' ≤ c ∧ c ≤ '5') ∨ c = '.'

/-- The characters `is_string_valid_name` accepts in the thirteenth place. -/
def LastNameChar (c : Char) : Prop := ('a' ≤ c ∧ c ≤ 'j') ∨ ('1' ≤ c ∧ c ≤ '5') ∨ c = '.'

instance : DecidablePred NameChar := fun _ => inferInstanceAs (Decidable (_ ∨ _ ∨ _))

instance : DecidablePred LastNameChar := fun _ => inferInstanceAs (Decidable (_ ∨ _ ∨ _))

/-- The digit of a character: what `char_to_symbol` returns, and zero where it throws. -/
def symbol (c : Char) : Nat :=
  match charToSymbol c with
  | .ok code => code.toNat
  | .error _ => 0

theorem charToSymbol_charOf : ∀ digit < 32, charToSymbol (charOf digit) = .ok digit.toUInt64 := by
  decide

theorem nameChar_charOf : ∀ digit < 32, NameChar (charOf digit) := by
  decide

theorem lastNameChar_charOf_iff : ∀ digit < 32, (LastNameChar (charOf digit) ↔ digit < 16) := by
  decide

theorem symbol_charOf {digit : Nat} (below : digit < 32) : symbol (charOf digit) = digit := by
  simp only [symbol, charToSymbol_charOf digit below, Nat.toUInt64_eq, UInt64.toNat_ofNat']
  omega

/-- Every character of a name is the character of a digit. -/
theorem exists_charOf_of_nameChar {c : Char} (nameChar : NameChar c) :
    ∃ digit < 32, charOf digit = c := by
  have letters : ∀ n < 123, 97 ≤ n → charOf (n - 91) = Char.ofNat n := by decide
  have numbers : ∀ n < 54, 49 ≤ n → charOf (n - 48) = Char.ofNat n := by decide
  rcases nameChar with ⟨atLeast, atMost⟩ | ⟨atLeast, atMost⟩ | dot
  · rw [Char.le_def, UInt32.le_iff_toNat_le] at atLeast atMost
    have code : c.toNat = c.val.toNat := rfl
    refine ⟨c.toNat - 91, by simp at atLeast atMost; omega, ?_⟩
    rw [letters c.toNat (by simp at atMost; omega) (by simp at atLeast; omega), Char.ofNat_toNat]
  · rw [Char.le_def, UInt32.le_iff_toNat_le] at atLeast atMost
    have code : c.toNat = c.val.toNat := rfl
    refine ⟨c.toNat - 48, by simp at atLeast atMost; omega, ?_⟩
    rw [numbers c.toNat (by simp at atMost; omega) (by simp at atLeast; omega), Char.ofNat_toNat]
  · exact ⟨0, by decide, dot ▸ rfl⟩

theorem charToSymbol_of_nameChar {c : Char} (nameChar : NameChar c) :
    charToSymbol c = .ok (symbol c).toUInt64 := by
  obtain ⟨digit, below, rfl⟩ := exists_charOf_of_nameChar nameChar
  rw [symbol_charOf below]
  exact charToSymbol_charOf digit below

theorem symbol_lt_of_nameChar {c : Char} (nameChar : NameChar c) : symbol c < 32 := by
  obtain ⟨digit, below, rfl⟩ := exists_charOf_of_nameChar nameChar
  rw [symbol_charOf below]
  exact below

theorem charOf_symbol {c : Char} (nameChar : NameChar c) : charOf (symbol c) = c := by
  obtain ⟨digit, below, rfl⟩ := exists_charOf_of_nameChar nameChar
  rw [symbol_charOf below]

theorem charToSymbol_of_not_nameChar {c : Char} (other : ¬ NameChar c) :
    charToSymbol c = .error invalidCharacter := by
  simp only [NameChar, not_or] at other
  simp only [charToSymbol, if_neg other.1, if_neg other.2.1, if_neg other.2.2]

/-- Only `.` has the zero digit. -/
theorem symbol_eq_zero_iff {c : Char} (nameChar : NameChar c) : symbol c = 0 ↔ c = '.' := by
  obtain ⟨digit, below, rfl⟩ := exists_charOf_of_nameChar nameChar
  have dot : ∀ digit < 32, (charOf digit = '.' ↔ digit = 0) := by decide
  rw [symbol_charOf below, dot digit below]

/-- The thirteenth place takes the characters whose digit fits in four bits. -/
theorem lastNameChar_iff {c : Char} : LastNameChar c ↔ NameChar c ∧ symbol c < 16 := by
  constructor
  · intro last
    have nameChar : NameChar c := by
      rcases last with ⟨atLeast, atMost⟩ | numbers | dot
      · exact Or.inl ⟨atLeast, le_trans atMost (show 'j' ≤ 'z' by decide)⟩
      · exact Or.inr (Or.inl numbers)
      · exact Or.inr (Or.inr dot)
    obtain ⟨digit, below, rfl⟩ := exists_charOf_of_nameChar nameChar
    rw [symbol_charOf below]
    exact ⟨nameChar, (lastNameChar_charOf_iff digit below).mp last⟩
  · rintro ⟨nameChar, small⟩
    obtain ⟨digit, below, rfl⟩ := exists_charOf_of_nameChar nameChar
    rw [symbol_charOf below] at small
    exact (lastNameChar_charOf_iff digit below).mpr small

/-- The characters of the digits come in the order of the digits. -/
theorem charOf_lt_charOf {digit other : Nat} (otherBelow : other < 32) (lower : digit < other) :
    charOf digit < charOf other := by
  have sorted : nameCharmap.Pairwise (· < ·) := by decide
  have length : nameCharmap.length = 32 := rfl
  have digitBelow : digit < nameCharmap.length := by omega
  have otherBelow : other < nameCharmap.length := by omega
  rw [charOf, charOf, List.getD_eq_getElem?_getD, List.getD_eq_getElem?_getD,
    List.getElem?_eq_getElem digitBelow, List.getElem?_eq_getElem otherBelow, Option.getD_some,
    Option.getD_some]
  exact List.pairwise_iff_getElem.mp sorted digit other digitBelow otherBelow lower

/-- **`char_to_symbol` is strictly monotone on the characters of names.** -/
theorem symbol_strictMonoOn : StrictMonoOn symbol {c | NameChar c} := by
  intro c nameChar c' nameChar' lower
  obtain ⟨digit, below, rfl⟩ := exists_charOf_of_nameChar nameChar
  obtain ⟨digit', below', rfl⟩ := exists_charOf_of_nameChar nameChar'
  rw [symbol_charOf below, symbol_charOf below']
  by_contra notLower
  rcases (Nat.le_of_not_lt notLower).lt_or_eq with greater | same
  · exact lt_asymm lower (charOf_lt_charOf below greater)
  · rw [same] at lower
    exact lt_irrefl _ lower

/-! ### Texts as digits -/

/-- The radices of a name's digits, least significant first: four bits for the thirteenth
character, then five for each of the twelve before it. -/
def nameRadices : List Nat := 16 :: List.replicate 12 32

theorem prod_nameRadices : nameRadices.prod = 2 ^ 64 := by
  decide

/-- The radices below the last `count` full-range characters, and those characters' own. -/
theorem nameRadices_eq {count : Nat} (short : count ≤ 12) :
    nameRadices = (16 :: List.replicate (12 - count) 32) ++ List.replicate count 32 := by
  rw [nameRadices, List.cons_append, ← List.replicate_add, Nat.sub_add_cancel short]

theorem prod_lowRadices (count : Nat) :
    (16 :: List.replicate count 32).prod = 2 ^ (4 + 5 * count) := by
  rw [List.prod_cons, List.prod_replicate, pow_add, pow_mul]
  rfl

/-- The digits of a text, most significant first: the digit of each character, then the zero
digit, the digit of `.`, up to thirteen. -/
def textDigits (s : List Char) : List Nat := s.map symbol ++ List.replicate (13 - s.length) 0

/-- A text that `string_to_uint64_t` accepts: at most thirteen characters of names, the thirteenth
one whose digit fits in four bits. -/
structure ValidName (s : List Char) : Prop where
  length_le : s.length ≤ 13
  nameChar : ∀ c ∈ s.take 12, NameChar c
  lastNameChar : ∀ c ∈ s.drop 12, LastNameChar c

theorem ValidName.nameChar_of_mem {s : List Char} (valid : ValidName s) {c : Char}
    (member : c ∈ s) : NameChar c := by
  rw [← List.take_append_drop 12 s, List.mem_append] at member
  rcases member with first | last
  · exact valid.nameChar c first
  · exact (lastNameChar_iff.mp (valid.lastNameChar c last)).1

theorem length_textDigits {s : List Char} (short : s.length ≤ 13) : (textDigits s).length = 13 := by
  simp only [textDigits, List.length_append, List.length_map, List.length_replicate]
  omega

theorem lt_of_mem_textDigits {s : List Char} (valid : ValidName s) :
    ∀ digit ∈ textDigits s, digit < 32 := by
  intro digit member
  rcases List.mem_append.mp member with symbols | padding
  · obtain ⟨c, inText, rfl⟩ := List.mem_map.mp symbols
    exact symbol_lt_of_nameChar (valid.nameChar_of_mem inText)
  · rw [List.eq_of_mem_replicate padding]
    decide

/-- The thirteenth digit fits in four bits. -/
theorem textDigits_getD_twelve {s : List Char} (valid : ValidName s) :
    (textDigits s).getD 12 0 < 16 := by
  rw [textDigits, List.getD_eq_getElem?_getD]
  by_cases full : 12 < s.length
  · have member : s[12] ∈ s.drop 12 := by
      rw [List.drop_eq_getElem_cons full]
      exact List.mem_cons_self
    rw [List.getElem?_append_left (by simpa using full), List.getElem?_map,
      List.getElem?_eq_getElem full, Option.map_some, Option.getD_some]
    exact (lastNameChar_iff.mp (valid.lastNameChar _ member)).2
  · rw [List.getElem?_append_right (by simp; omega), List.getElem?_replicate]
    split <;> simp

theorem fits_textDigits {s : List Char} (valid : ValidName s) :
    Fits nameRadices (textDigits s).reverse := by
  have length := length_textDigits valid.length_le
  have split : textDigits s = (textDigits s).take 12 ++ [(textDigits s).getD 12 0] := by
    conv_lhs => rw [← List.take_append_drop 12 (textDigits s)]
    rw [List.drop_eq_getElem_cons (by omega), List.drop_eq_nil_of_le (by omega),
      List.getD_eq_getElem?_getD, List.getElem?_eq_getElem (by omega), Option.getD_some]
  rw [split, List.reverse_append, List.reverse_singleton, List.singleton_append]
  refine List.Forall₂.cons (textDigits_getD_twelve valid) (fits_replicate (by simp [length]) ?_)
  intro digit member
  exact lt_of_mem_textDigits valid digit (List.mem_of_mem_take (List.mem_reverse.mp member))

/-! ### Packing: `string_to_uint64_t` -/

/-- One pass of the loop of `string_to_uint64_t`: the code of the character at `i` into its five
bits. -/
def packStep (str : List Char) (n : UInt64) (i : Nat) : Except String UInt64 := do
  let code ← charToSymbol (str.getD i '.')
  pure (n ||| code <<< (64 - 5 * (i + 1)).toUInt64)

theorem packStep_of_nameChar {s : List Char} {i : Nat} (inRange : i < s.length)
    (nameChar : NameChar s[i]) (n : UInt64) :
    packStep s n i = pure (n ||| (symbol s[i]).toUInt64 <<< (64 - 5 * (i + 1)).toUInt64) := by
  rw [packStep, List.getD_eq_getElem?_getD, List.getElem?_eq_getElem inRange, Option.getD_some,
    charToSymbol_of_nameChar nameChar]
  rfl

theorem packStep_of_not_nameChar {s : List Char} {i : Nat} (inRange : i < s.length)
    (other : ¬ NameChar s[i]) (n : UInt64) : packStep s n i = .error invalidCharacter := by
  rw [packStep, List.getD_eq_getElem?_getD, List.getElem?_eq_getElem inRange, Option.getD_some,
    charToSymbol_of_not_nameChar other]
  rfl

/-- Or-ing a digit into bits above a word's is adding it. -/
theorem toNat_or_shiftLeft {n : UInt64} {digit shift : Nat} (shiftBelow : shift < 64)
    (below : n.toNat < 2 ^ shift) (fits : digit * 2 ^ shift < 2 ^ 64) :
    (n ||| digit.toUInt64 <<< shift.toUInt64).toNat = n.toNat + digit * 2 ^ shift := by
  have digitFits : digit < 2 ^ 64 :=
    Nat.lt_of_le_of_lt (Nat.le_mul_of_pos_right digit (Nat.two_pow_pos shift)) fits
  rw [UInt64.toNat_or, UInt64.toNat_shiftLeft, Nat.toUInt64_eq, Nat.toUInt64_eq,
    UInt64.toNat_ofNat', UInt64.toNat_ofNat', Nat.mod_eq_of_lt digitFits,
    Nat.mod_eq_of_lt (by omega : shift < 2 ^ 64), Nat.mod_eq_of_lt shiftBelow, Nat.shiftLeft_eq,
    Nat.mod_eq_of_lt fits, Nat.or_comm, Nat.mul_comm digit, ← Nat.two_pow_add_eq_or_of_lt below,
    Nat.add_comm]

/-- **The packing loop** over the first `count` characters, from a word that fits below their
bits, adds their digits, the first character's in the highest five bits: by induction on the
count, the last character being packed first. -/
theorem foldlM_packStep {s : List Char} : ∀ count : Nat, count ≤ 12 → count ≤ s.length →
    (∀ c ∈ s.take count, NameChar c) → ∀ start : UInt64, start.toNat < 2 ^ (64 - 5 * count) →
    ∃ n, (List.range count).reverse.foldlM (packStep s) start = .ok n ∧
      n.toNat = start.toNat +
        2 ^ (64 - 5 * count) * value (List.replicate count 32) ((s.take count).map symbol).reverse
  | 0, _, _, _, start, _ => ⟨start, rfl, by simp [value]⟩
  | count + 1, short, within, nameChars, start, startFits => by
    have inRange : count < s.length := by omega
    have nameChar : NameChar s[count] := by
      have member := List.getElem_mem (l := s.take (count + 1)) (n := count) (by simp; omega)
      rw [List.getElem_take] at member
      exact nameChars _ member
    have digitBelow := symbol_lt_of_nameChar nameChar
    -- the character's five bits lie above `59 - 5 * count` others
    have slot : 64 - 5 * (count + 1) = 59 - 5 * count := by omega
    have widen : 2 ^ (64 - 5 * count) = 2 ^ (59 - 5 * count) * 32 := by
      rw [show 64 - 5 * count = 59 - 5 * count + 5 by omega, pow_add]
      rfl
    rw [slot] at startFits
    have fits : symbol s[count] * 2 ^ (59 - 5 * count) < 2 ^ 64 :=
      calc symbol s[count] * 2 ^ (59 - 5 * count)
          < 32 * 2 ^ (59 - 5 * count) := Nat.mul_lt_mul_of_pos_right digitBelow (Nat.two_pow_pos _)
        _ = 2 ^ (64 - 5 * count) := by rw [widen, Nat.mul_comm]
        _ ≤ 2 ^ 64 := Nat.pow_le_pow_right (by decide) (by omega)
    have packed := toNat_or_shiftLeft (by omega) startFits fits
    have nextFits : (start ||| (symbol s[count]).toUInt64 <<< (59 - 5 * count).toUInt64).toNat <
        2 ^ (64 - 5 * count) := by
      have atMost : symbol s[count] * 2 ^ (59 - 5 * count) ≤ 31 * 2 ^ (59 - 5 * count) :=
        Nat.mul_le_mul_right _ (by omega)
      calc (start ||| (symbol s[count]).toUInt64 <<< (59 - 5 * count).toUInt64).toNat
          = start.toNat + symbol s[count] * 2 ^ (59 - 5 * count) := packed
        _ < 2 ^ (59 - 5 * count) * 32 := by omega
        _ = 2 ^ (64 - 5 * count) := widen.symm
    obtain ⟨n, loop, packedRest⟩ := foldlM_packStep (s := s) count (by omega) (by omega)
      (fun c member => nameChars c (by rw [List.take_add_one]; exact List.mem_append_left _ member))
      _ nextFits
    refine ⟨n, ?_, ?_⟩
    · rw [List.range_succ, List.reverse_append, List.reverse_singleton, List.singleton_append,
        List.foldlM_cons, packStep_of_nameChar inRange nameChar, slot, pure_bind]
      exact loop
    · rw [packedRest, packed, slot, List.take_add_one, List.getElem?_eq_getElem inRange,
        Option.toList_some, List.map_append, List.reverse_append, List.map_singleton,
        List.reverse_singleton, List.singleton_append, List.replicate_succ, value_cons, widen]
      ring

/-- The packing loop throws when one of the first `count` characters is not a name's. -/
theorem foldlM_packStep_error {s : List Char} : ∀ {count : Nat}, count ≤ s.length →
    (∃ c ∈ s.take count, ¬ NameChar c) → ∀ start : UInt64,
      ∃ e, (List.range count).reverse.foldlM (packStep s) start = .error e
  | 0, _, ⟨_, member, _⟩, _ => by simp at member
  | count + 1, within, ⟨c, member, other⟩, start => by
    have inRange : count < s.length := by omega
    rw [List.range_succ, List.reverse_append, List.reverse_singleton, List.singleton_append,
      List.foldlM_cons]
    by_cases packs : NameChar s[count]
    · -- the character at `count` packs, so the one that does not comes before it
      have earlier : c ∈ s.take count := by
        rw [List.take_add_one, List.getElem?_eq_getElem inRange, Option.toList_some,
          List.mem_append, List.mem_singleton] at member
        rcases member with earlier | last
        · exact earlier
        · exact absurd (last ▸ packs) other
      rw [packStep_of_nameChar inRange packs, pure_bind]
      exact foldlM_packStep_error (s := s) (by omega) ⟨c, earlier, other⟩ _
    · rw [packStep_of_not_nameChar inRange packs]
      exact ⟨invalidCharacter, rfl⟩

theorem stringToUint64_of_length_gt {s : List Char} (long : 13 < s.length) :
    stringToUint64 s = .error "Name is longer than 13 characters (${name}) " := by
  simp only [stringToUint64, show ¬ s.length ≤ 13 by omega, if_false]
  rfl

/-- A text shorter than thirteen characters goes straight to the loop, from zero. -/
theorem stringToUint64_of_length_lt {s : List Char} (short : s.length < 13) :
    stringToUint64 s = (List.range s.length).reverse.foldlM (packStep s) 0 := by
  simp only [stringToUint64, show s.length ≤ 13 by omega, show ¬ 13 ≤ s.length by omega, if_true,
    if_false]
  rfl

/-- A text of thirteen characters starts from the code of the thirteenth, which must fit in four
bits. -/
theorem stringToUint64_of_length_eq {s : List Char} (length : s.length = 13) {code : UInt64}
    (lastCode : charToSymbol (s.getD 12 '.') = pure code) :
    stringToUint64 s = if code ≤ 0x0F then (List.range 12).reverse.foldlM (packStep s) code
      else .error "invalid 13th character: (${c})" := by
  simp only [stringToUint64, show s.length ≤ 13 by omega, show 13 ≤ s.length by omega, if_true,
    lastCode, pure_bind]
  split <;> rfl

theorem stringToUint64_of_length_eq_error {s : List Char} (length : s.length = 13) {e : String}
    (lastCode : charToSymbol (s.getD 12 '.') = .error e) : stringToUint64 s = .error e := by
  simp only [stringToUint64, show s.length ≤ 13 by omega, show 13 ≤ s.length by omega, if_true,
    lastCode]
  rfl

/-- The value of a text's digits: those of its first `count` characters above the rest. -/
theorem value_textDigits {s : List Char} {count : Nat} (short : count ≤ 12)
    (within : count ≤ s.length) (length : s.length ≤ 13) :
    value nameRadices (textDigits s).reverse =
      value (16 :: List.replicate (12 - count) 32)
          ((s.drop count).map symbol ++ List.replicate (13 - s.length) 0).reverse +
        2 ^ (64 - 5 * count) * value (List.replicate count 32) ((s.take count).map symbol).reverse := by
  have split : textDigits s =
      (s.take count).map symbol ++ ((s.drop count).map symbol ++ List.replicate (13 - s.length) 0) := by
    rw [textDigits, ← List.append_assoc, ← List.map_append, List.take_append_drop]
  have lowLength : (16 :: List.replicate (12 - count) 32).length =
      ((s.drop count).map symbol ++ List.replicate (13 - s.length) 0).reverse.length := by
    simp only [List.length_cons, List.length_replicate, List.length_reverse, List.length_append,
      List.length_map, List.length_drop]
    omega
  rw [split, List.reverse_append, nameRadices_eq short, value_append lowLength, prod_lowRadices,
    show 4 + 5 * (12 - count) = 64 - 5 * count by omega]

/-- **`string_to_uint64_t` of an accepted text returns the value of its digits.** -/
theorem stringToUint64_of_validName {s : List Char} (valid : ValidName s) :
    ∃ n, stringToUint64 s = .ok n ∧ n.toNat = value nameRadices (textDigits s).reverse := by
  by_cases full : 13 ≤ s.length
  · -- the thirteenth character is packed first, into the low four bits
    have length : s.length = 13 := le_antisymm valid.length_le full
    have member : s[12] ∈ s.drop 12 := by
      rw [List.drop_eq_getElem_cons (by omega)]
      exact List.mem_cons_self
    obtain ⟨nameChar, small⟩ := lastNameChar_iff.mp (valid.lastNameChar _ member)
    have lastCode : charToSymbol (s.getD 12 '.') = pure (symbol s[12]).toUInt64 := by
      rw [List.getD_eq_getElem?_getD, List.getElem?_eq_getElem (by omega), Option.getD_some]
      exact charToSymbol_of_nameChar nameChar
    have startToNat : (symbol s[12]).toUInt64.toNat = symbol s[12] := by
      rw [Nat.toUInt64_eq, UInt64.toNat_ofNat']
      omega
    have lastFits : (symbol s[12]).toUInt64 ≤ 0x0F := by
      rw [UInt64.le_iff_toNat_le, startToNat]
      exact Nat.le_of_lt_succ small
    obtain ⟨n, loop, packed⟩ := foldlM_packStep (s := s) 12 le_rfl (by omega)
      valid.nameChar (symbol s[12]).toUInt64 (by rw [startToNat]; exact small)
    refine ⟨n, ?_, ?_⟩
    · rw [stringToUint64_of_length_eq length lastCode, if_pos lastFits]
      exact loop
    · have rest : (s.drop 12).map symbol ++ List.replicate (13 - s.length) 0 = [symbol s[12]] := by
        rw [show 13 - s.length = 0 by omega, List.drop_eq_getElem_cons (by omega),
          List.drop_eq_nil_of_le (by omega)]
        rfl
      rw [packed, startToNat, value_textDigits le_rfl (by omega) valid.length_le, rest]
      simp [value]
  · -- a shorter text stands for itself padded with dots
    have short : s.length ≤ 12 := by omega
    obtain ⟨n, loop, packed⟩ := foldlM_packStep (s := s) s.length short le_rfl
      (fun c member => valid.nameChar_of_mem (List.mem_of_mem_take member)) 0
      (by simp)
    refine ⟨n, ?_, ?_⟩
    · rw [stringToUint64_of_length_lt (by omega)]
      exact loop
    · rw [packed, value_textDigits short le_rfl valid.length_le, List.drop_length, List.map_nil,
        List.nil_append, List.reverse_replicate, value_replicate_zero]
      simp

theorem drop_twelve_of_length_eq {s : List Char} (length : s.length = 13) :
    s.drop 12 = [s.getD 12 '.'] := by
  rw [List.drop_eq_getElem_cons (by omega), List.drop_eq_nil_of_le (by omega),
    List.getD_eq_getElem?_getD, List.getElem?_eq_getElem (by omega), Option.getD_some]

/-- **`string_to_uint64_t` throws on every text it does not accept.** -/
theorem stringToUint64_of_not_validName {s : List Char} (invalid : ¬ ValidName s) :
    ∃ e, stringToUint64 s = .error e := by
  rcases lt_trichotomy s.length 13 with short | length | long
  · -- with no thirteenth character, one of the others is not a name's
    have bad : ∃ c ∈ s.take s.length, ¬ NameChar c := by
      by_contra allNames
      push Not at allNames
      rw [List.take_length] at allNames
      refine invalid ⟨by omega, fun c member => allNames c (List.mem_of_mem_take member), ?_⟩
      intro c member
      rw [List.drop_eq_nil_of_le (by omega)] at member
      cases member
    rw [stringToUint64_of_length_lt short]
    exact foldlM_packStep_error le_rfl bad 0
  · by_cases lastName : NameChar (s.getD 12 '.')
    · rw [stringToUint64_of_length_eq length (charToSymbol_of_nameChar lastName)]
      by_cases fits : (symbol (s.getD 12 '.')).toUInt64 ≤ 0x0F
      · -- the thirteenth character fits, so one of the twelve before it is not a name's
        have small : symbol (s.getD 12 '.') < 16 := by
          rw [UInt64.le_iff_toNat_le, Nat.toUInt64_eq, UInt64.toNat_ofNat'] at fits
          have := symbol_lt_of_nameChar lastName
          simp only [Nat.mod_eq_of_lt (by omega : symbol (s.getD 12 '.') < 2 ^ 64)] at fits
          exact Nat.lt_succ_of_le fits
        have bad : ∃ c ∈ s.take 12, ¬ NameChar c := by
          by_contra allNames
          push Not at allNames
          refine invalid ⟨by omega, allNames, ?_⟩
          intro c member
          rw [drop_twelve_of_length_eq length, List.mem_singleton] at member
          exact lastNameChar_iff.mpr ⟨member ▸ lastName, member ▸ small⟩
        rw [if_pos fits]
        exact foldlM_packStep_error (by omega) bad _
      · rw [if_neg fits]
        exact ⟨_, rfl⟩
    · rw [stringToUint64_of_length_eq_error length (charToSymbol_of_not_nameChar lastName)]
      exact ⟨_, rfl⟩
  · rw [stringToUint64_of_length_gt long]
    exact ⟨_, rfl⟩

theorem stringToUint64_eq_ok_iff {s : List Char} :
    (∃ n, stringToUint64 s = .ok n) ↔ ValidName s := by
  constructor
  · rintro ⟨n, accepted⟩
    by_contra invalid
    obtain ⟨e, rejected⟩ := stringToUint64_of_not_validName invalid
    rw [accepted] at rejected
    cases rejected
  · intro valid
    obtain ⟨n, accepted, _⟩ := stringToUint64_of_validName valid
    exact ⟨n, accepted⟩

/-- **`is_string_valid_name` accepts exactly the texts `string_to_uint64_t` accepts.** -/
theorem isStringValidName_iff {s : List Char} : isStringValidName s = true ↔ ValidName s := by
  have nameTest : ∀ c : Char, (decide ('a' ≤ c ∧ c ≤ 'z') || decide ('1' ≤ c ∧ c ≤ '5') ||
      decide (c = '.')) = true ↔ NameChar c := by
    intro c
    simp [NameChar, or_assoc]
  have lastTest : ∀ c : Char, (decide ('a' ≤ c ∧ c ≤ 'j') || decide ('1' ≤ c ∧ c ≤ '5') ||
      decide (c = '.')) = true ↔ LastNameChar c := by
    intro c
    simp [LastNameChar, or_assoc]
  by_cases long : s.length > 13
  · have notValid : ¬ ValidName s := fun valid => absurd valid.length_le (by omega)
    simp only [isStringValidName, long, if_true, Bool.false_eq_true, false_iff]
    exact notValid
  · -- the first twelve characters are checked, then a thirteenth if there is one
    have firstTwelve : s.take (if s.length ≤ 12 then s.length else 12) = s.take 12 := by
      split
      · rw [List.take_length, List.take_of_length_le (by omega)]
      · rfl
    simp only [isStringValidName, long, if_false, firstTwelve]
    split
    · rename_i allNames
      rw [List.all_eq_true] at allNames
      have nameChars : ∀ c ∈ s.take 12, NameChar c := fun c member => (nameTest c).mp (allNames c member)
      split
      · rename_i length
        rw [lastTest]
        constructor
        · intro last
          refine ⟨by omega, nameChars, ?_⟩
          intro c member
          rw [drop_twelve_of_length_eq length, List.mem_singleton] at member
          exact member ▸ last
        · intro valid
          exact valid.lastNameChar _ (by rw [drop_twelve_of_length_eq length]; exact List.mem_singleton_self _)
      · rename_i notThirteen
        simp only [true_iff]
        refine ⟨by omega, nameChars, ?_⟩
        intro c member
        rw [List.drop_eq_nil_of_le (by omega)] at member
        cases member
    · rename_i notAll
      simp only [Bool.false_eq_true, false_iff]
      intro valid
      apply notAll
      rw [List.all_eq_true]
      exact fun c member => (nameTest c).mpr (valid.nameChar c member)

/-! ### Unpacking: `name::to_string` -/

/-- One pass of the loop of `name::to_string`: the character of the low bits put in front, and
the word shifted past them. -/
def unpackStep (acc : List Char × UInt64) (i : Nat) : List Char × UInt64 :=
  (nameCharmap.getD (acc.2 &&& (if i = 0 then 0x0f else 0x1f)).toNat '.' :: acc.1,
    acc.2 >>> (if i = 0 then 4 else 5))

theorem toString_eq_foldl (n : Name) :
    n.toString = ((List.range 13).foldl unpackStep ([], n.value)).1.rdropWhile (· = '.') :=
  rfl

/-- A pass reads one digit, in radix sixteen for the thirteenth character and thirty-two for the
others. -/
theorem unpackStep_spec (acc : List Char × UInt64) (i : Nat) :
    (unpackStep acc i).1 = charOf (acc.2.toNat % (if i = 0 then 16 else 32)) :: acc.1 ∧
      (unpackStep acc i).2.toNat = acc.2.toNat / (if i = 0 then 16 else 32) := by
  by_cases first : i = 0
  · simp only [unpackStep, first, if_true, charOf, UInt64.toNat_and, UInt64.toNat_shiftRight,
      Nat.shiftRight_eq_div_pow]
    refine ⟨?_, rfl⟩
    rw [show (0x0f : UInt64).toNat = 2 ^ 4 - 1 from rfl, Nat.and_two_pow_sub_one_eq_mod]
  · simp only [unpackStep, first, if_false, charOf, UInt64.toNat_and, UInt64.toNat_shiftRight,
      Nat.shiftRight_eq_div_pow]
    refine ⟨?_, rfl⟩
    rw [show (0x1f : UInt64).toNat = 2 ^ 5 - 1 from rfl, Nat.and_two_pow_sub_one_eq_mod]

theorem take_succ_nameRadices {count : Nat} (short : count < 13) :
    nameRadices.take (count + 1) = nameRadices.take count ++ [if count = 0 then 16 else 32] := by
  have radixAt : ∀ count < 13, nameRadices[count]? = some (if count = 0 then 16 else 32) := by
    decide
  rw [List.take_add_one, radixAt count short, Option.toList_some]

/-- **The loop of `name::to_string`** after `count` passes has written the characters of the low
`count` digits, the last one first, and shifted the word past them. -/
theorem foldl_unpackStep (v : UInt64) : ∀ count : Nat, count ≤ 13 →
    ((List.range count).foldl unpackStep ([], v)).1 =
        ((digits (nameRadices.take count) v.toNat).map charOf).reverse ∧
      ((List.range count).foldl unpackStep ([], v)).2.toNat =
        v.toNat / (nameRadices.take count).prod
  | 0, _ => ⟨rfl, by simp⟩
  | count + 1, short => by
    obtain ⟨chars, rest⟩ := foldl_unpackStep v count (by omega)
    obtain ⟨nextChars, nextRest⟩ :=
      unpackStep_spec ((List.range count).foldl unpackStep ([], v)) count
    rw [List.range_succ, List.foldl_append, List.foldl_cons, List.foldl_nil,
      take_succ_nameRadices (by omega)]
    refine ⟨?_, ?_⟩
    · rw [nextChars, chars, rest, digits_append_singleton, List.map_append, List.reverse_append,
        List.map_singleton, List.reverse_singleton, List.singleton_append]
    · rw [nextRest, rest, List.prod_append, List.prod_singleton, Nat.div_div_eq_div_mul]

/-- **`name::to_string` writes the characters of the digits of the value, most significant
first, with the trailing dots trimmed.** -/
theorem toString_eq (v : UInt64) :
    Name.toString ⟨v⟩ = ((digits nameRadices v.toNat).reverse.map charOf).rdropWhile (· = '.') := by
  rw [toString_eq_foldl, (foldl_unpackStep v 13 le_rfl).1,
    List.take_of_length_le (by decide : nameRadices.length ≤ 13), List.map_reverse]

/-! ### Round trips and order -/

theorem rdropWhile_append_dots (text : List Char) (count : Nat) :
    (text ++ List.replicate count '.').rdropWhile (· = '.') = text.rdropWhile (· = '.') := by
  induction count with
  | zero => rw [List.replicate_zero, List.append_nil]
  | succ count inductionHypothesis =>
    rw [List.replicate_succ', ← List.append_assoc, List.rdropWhile_concat_pos _ _ _ (by simp),
      inductionHypothesis]

/-- A text is its trimmed part followed by dots. -/
theorem eq_rdropWhile_append_dots (text : List Char) :
    text = text.rdropWhile (· = '.') ++
      List.replicate (text.length - (text.rdropWhile (· = '.')).length) '.' := by
  have trailing : text.rtakeWhile (· = '.') =
      List.replicate (text.length - (text.rdropWhile (· = '.')).length) '.' := by
    rw [List.eq_replicate_iff]
    constructor
    · have total := congrArg List.length
        (List.rdropWhile_append_rtakeWhile (p := fun c => decide (c = '.')) (l := text))
      rw [List.length_append] at total
      omega
    · intro c member
      simpa using List.mem_rtakeWhile_imp member
  rw [← trailing, List.rdropWhile_append_rtakeWhile]

theorem digits_lt_thirtyTwo (v : UInt64) : ∀ digit ∈ digits nameRadices v.toNat, digit < 32 :=
  lt_of_mem_digits (by decide) v.toNat

/-- `string_to_uint64_t(name(v).to_string()) == v`. -/
theorem stringToUint64_toString (v : UInt64) : stringToUint64 (Name.toString ⟨v⟩) = .ok v := by
  have fits : Fits nameRadices (digits nameRadices v.toNat) := fits_digits (by decide) v.toNat
  have below := digits_lt_thirtyTwo v
  -- the thirteen characters `to_string` writes, and what is left after trimming
  set text := (digits nameRadices v.toNat).reverse.map charOf with textEq
  set trimmed := text.rdropWhile (· = '.') with trimmedEq
  have textLength : text.length = 13 := by
    rw [textEq, List.length_map, List.length_reverse, length_digits]
    rfl
  have split := eq_rdropWhile_append_dots text
  rw [← trimmedEq, textLength] at split
  have trimmedLength : trimmed.length ≤ 13 := textLength ▸ (List.rdropWhile_prefix _ text).length_le
  have inText : ∀ c ∈ trimmed, ∃ digit < 32, charOf digit = c := by
    intro c member
    obtain ⟨digit, inDigits, rfl⟩ := List.mem_map.mp ((List.rdropWhile_prefix _ text).subset member)
    exact ⟨digit, below digit (List.mem_reverse.mp inDigits), rfl⟩
  -- the thirteenth character is that of the low digit, below sixteen
  have lastInText : ∀ c ∈ trimmed.drop 12, c = charOf (v.toNat % 16) := by
    intro c member
    have inTextDrop : c ∈ text.drop 12 := by
      rw [split, List.drop_append]
      exact List.mem_append_left _ member
    have lowDigit : (digits nameRadices v.toNat).reverse.drop 12 = [v.toNat % 16] := by
      rw [nameRadices, digits_cons, List.reverse_cons, List.drop_append,
        List.drop_eq_nil_of_le (by rw [List.length_reverse, length_digits]; rfl),
        List.length_reverse, length_digits]
      rfl
    rw [textEq, ← List.map_drop, lowDigit, List.map_singleton, List.mem_singleton] at inTextDrop
    exact inTextDrop
  have valid : ValidName trimmed := by
    refine ⟨trimmedLength, fun c member => ?_, fun c member => ?_⟩
    · obtain ⟨digit, digitBelow, rfl⟩ := inText c (List.mem_of_mem_take member)
      exact nameChar_charOf digit digitBelow
    · rw [lastInText c member]
      exact (lastNameChar_charOf_iff _ (by omega)).mpr (Nat.mod_lt _ (by decide))
  -- the trimmed text has the digits of the value
  have sameDigits : textDigits trimmed = (digits nameRadices v.toNat).reverse := by
    have symbols : text.map symbol = (digits nameRadices v.toNat).reverse := by
      rw [textEq, List.map_map]
      exact (List.map_congr_left fun digit member =>
        symbol_charOf (below digit (List.mem_reverse.mp member))).trans (List.map_id _)
    rw [← symbols, split, List.map_append, List.map_replicate, textDigits]
    rfl
  obtain ⟨n, accepted, packed⟩ := stringToUint64_of_validName valid
  rw [toString_eq, ← textEq, ← trimmedEq, accepted]
  refine congrArg Except.ok ?_
  rw [← UInt64.toNat_inj, packed, sameDigits, List.reverse_reverse, value_digits,
    prod_nameRadices, Nat.mod_eq_of_lt v.toNat_lt]

/-- `name(s).to_string()` is `s` with its trailing dots trimmed, for every text `s`
`string_to_uint64_t` accepts. -/
theorem toString_of_stringToUint64 {s : List Char} {n : UInt64}
    (accepted : stringToUint64 s = .ok n) : Name.toString ⟨n⟩ = s.rdropWhile (· = '.') := by
  have valid : ValidName s := stringToUint64_eq_ok_iff.mp ⟨n, accepted⟩
  obtain ⟨m, acceptedAs, packed⟩ := stringToUint64_of_validName valid
  rw [accepted, Except.ok.injEq] at acceptedAs
  subst acceptedAs
  have fits := fits_textDigits valid
  have fitsBelow : value nameRadices (textDigits s).reverse < 2 ^ 64 :=
    prod_nameRadices ▸ value_lt fits
  have characters : s.map (charOf ∘ symbol) = s :=
    (List.map_congr_left fun c member => charOf_symbol (valid.nameChar_of_mem member)).trans
      (List.map_id _)
  rw [toString_eq, packed, digits_value fits, List.reverse_reverse, textDigits, List.map_append,
    List.map_map, characters, List.map_replicate]
  exact rdropWhile_append_dots s _

/-- **Names and their texts are in bijection.** Every value's text packs back to the value; every
accepted text comes back from its value with its trailing dots trimmed; and `is_string_valid_name`
holds of exactly the texts `string_to_uint64_t` accepts. -/
theorem name_text_bijection :
    (∀ v : UInt64, stringToUint64 (Name.toString ⟨v⟩) = .ok v) ∧
    (∀ (s : List Char) (n : UInt64), stringToUint64 s = .ok n →
      Name.toString ⟨n⟩ = s.rdropWhile (· = '.')) ∧
    (∀ s : List Char, isStringValidName s = true ↔ ∃ n, stringToUint64 s = .ok n) :=
  ⟨stringToUint64_toString, fun _ _ accepted => toString_of_stringToUint64 accepted,
    fun _ => isStringValidName_iff.trans stringToUint64_eq_ok_iff.symm⟩

/-- The digits of an accepted text that does not end in a dot do not end in the zero digit. -/
theorem getLast?_map_symbol_ne_zero {s : List Char} (valid : ValidName s)
    (trimmed : s.getLast? ≠ some '.') : (s.map symbol).getLast? ≠ some 0 := by
  rw [List.getLast?_map]
  intro endsInZero
  obtain ⟨c, last, zero⟩ := Option.map_eq_some_iff.mp endsInZero
  have nameChar := valid.nameChar_of_mem (List.mem_of_getLast? last)
  rw [(symbol_eq_zero_iff nameChar).mp zero] at last
  exact trimmed last

/-- **Names compare as their texts do**: for texts `string_to_uint64_t` accepts and that do not
end in a dot, the values are in the lexicographic order of the texts. The texts are of the
characters of names, so this order is the byte-wise one. -/
theorem stringToUint64_lt_iff {s t : List Char} {m n : UInt64}
    (leftAccepted : stringToUint64 s = .ok m) (rightAccepted : stringToUint64 t = .ok n)
    (leftTrimmed : s.getLast? ≠ some '.') (rightTrimmed : t.getLast? ≠ some '.') :
    m < n ↔ s < t := by
  have leftValid : ValidName s := stringToUint64_eq_ok_iff.mp ⟨m, leftAccepted⟩
  have rightValid : ValidName t := stringToUint64_eq_ok_iff.mp ⟨n, rightAccepted⟩
  obtain ⟨m', leftAcceptedAs, leftPacked⟩ := stringToUint64_of_validName leftValid
  obtain ⟨n', rightAcceptedAs, rightPacked⟩ := stringToUint64_of_validName rightValid
  rw [leftAccepted, Except.ok.injEq] at leftAcceptedAs
  rw [rightAccepted, Except.ok.injEq] at rightAcceptedAs
  subst leftAcceptedAs rightAcceptedAs
  have lengths : (s.map symbol).length + (13 - s.length) = (t.map symbol).length + (13 - t.length) := by
    have := leftValid.length_le
    have := rightValid.length_le
    simp only [List.length_map]
    omega
  -- values, digits, the digits of the characters, the characters
  rw [UInt64.lt_iff_toNat_lt, leftPacked, rightPacked,
    value_lt_value_iff (fits_textDigits leftValid) (fits_textDigits rightValid),
    List.reverse_reverse, List.reverse_reverse, textDigits, textDigits,
    ListLex.append_replicate_lt_iff Nat.zero_le (getLast?_map_symbol_ne_zero leftValid leftTrimmed)
      (getLast?_map_symbol_ne_zero rightValid rightTrimmed) lengths]
  exact ListLex.map_lt_map_iff symbol_strictMonoOn (fun c member => leftValid.nameChar_of_mem member)
    (fun c member => rightValid.nameChar_of_mem member)

theorem stringToUint64_lt_iff_alice_bob :
    stringToUint64 "alice".toList = .ok 3773036822876127232 ∧
      stringToUint64 "bob".toList = .ok 4399453885987553280 ∧
      ((3773036822876127232 : UInt64) < 4399453885987553280 ↔ "alice".toList < "bob".toList) :=
  ⟨by decide, by decide, stringToUint64_lt_iff (by decide) (by decide) (by decide) (by decide)⟩

end Eosio.Chain
