/-
This file models `eosio::chain::name`, the 64-bit value behind account, permission and action
names, and `name::to_string`, its text of up to thirteen characters.
-/

import Mathlib

namespace Eosio.Chain

/-- `name`: a `uint64_t` value. The empty name is `0`. -/
structure Name where
  value : UInt64
deriving DecidableEq, Repr, Inhabited

/-- The empty name, `name()`, of value `0`. -/
def Name.empty : Name := ⟨0⟩

/-- `config::system_account_name`, the name `eosio`. -/
def systemAccountName : Name := ⟨6138663577826885632⟩

/-- The text of the `name_type_exception` that `char_to_symbol` throws. -/
def invalidCharacter : String := "Name contains invalid character: (${c}) "

/-- `char_to_symbol(c)`: the five-bit code of a character of a name, `.` first, then the digits
`1` to `5`, then the letters. -/
def charToSymbol (c : Char) : Except String UInt64 :=
  if 'a' ≤ c ∧ c ≤ 'z' then .ok (c.toNat - 'a'.toNat + 6).toUInt64
  else if '1' ≤ c ∧ c ≤ '5' then .ok (c.toNat - '1'.toNat + 1).toUInt64
  else if c = '.' then .ok 0
  else .error invalidCharacter

/-- `string_to_uint64_t(str)`: each of the first twelve characters in five bits, the first in
the highest, and a thirteenth character in the low four bits. -/
def stringToUint64 (str : List Char) : Except String UInt64 := do
  unless str.length ≤ 13 do
    throw "Name is longer than 13 characters (${name}) "
  -- a thirteenth character is packed first, and must fit in four bits
  let (i, n) ← if 13 ≤ str.length then do
      let n ← charToSymbol (str.getD 12 '.')
      unless n ≤ 0x0F do
        throw "invalid 13th character: (${c})"
      pure (12, n)
    else pure (str.length, 0)
  -- `while (--i >= 0)`: the full-range characters, from the last one to the first
  (List.range i).reverse.foldlM (fun n i => do
      let symbol ← charToSymbol (str.getD i '.')
      pure (n ||| symbol <<< (64 - 5 * (i + 1)).toUInt64)) n

/-- `is_string_valid_name(str)`: at most thirteen characters, the first twelve from `.`, `1` to
`5` and the letters, a thirteenth from `.`, `1` to `5` and `a` to `j`. -/
def isStringValidName (str : List Char) : Bool :=
  if str.length > 13 then false
  else
    let len := if str.length ≤ 12 then str.length else 12
    if (str.take len).all fun c => decide ('a' ≤ c ∧ c ≤ 'z') || decide ('1' ≤ c ∧ c ≤ '5') ||
        decide (c = '.') then
      if str.length = 13 then
        let c := str.getD 12 '.'
        decide ('a' ≤ c ∧ c ≤ 'j') || decide ('1' ≤ c ∧ c ≤ '5') || decide (c = '.')
      else true
    else false

/-- The `charmap` of `name::to_string`: the character of each five-bit code. -/
def nameCharmap : List Char := ".12345abcdefghijklmnopqrstuvwxyz".toList

/-- `name::to_string`, as its list of characters: thirteen characters, the last from the low four
bits and each one before it from the next five bits up, with the trailing dots trimmed. -/
def Name.toString (n : Name) : List Char :=
  let (str, _) := (List.range 13).foldl (fun (acc : List Char × UInt64) i =>
      -- the character of index `12 - i`, put in front of those after it
      let c := nameCharmap.getD (acc.2 &&& (if i = 0 then 0x0f else 0x1f)).toNat '.'
      (c :: acc.1, acc.2 >>> (if i = 0 then 4 else 5)))
    ([], n.value)
  (str.reverse.dropWhile (· = '.')).reverse

example : Name.toString systemAccountName = "eosio".toList := by decide

example : stringToUint64 "eosio".toList = .ok systemAccountName.value := by decide

end Eosio.Chain
