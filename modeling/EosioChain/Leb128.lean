/-
This file gives the LEB128 encoding of a 32-bit `unsigned_int`, as `fc::raw` packs it: seven bits
a byte, the lowest first, with the high bit of every byte but the last set. The reader adds up the
seven-bit groups, stops after the byte whose high bit is clear or after the fifth byte, and keeps
the low 32 bits of what it read. The writer and the reader are given five bytes at most, so both
compute by structural recursion.

The round trip is proved by induction on the number of bytes the writer may still write, with the
position of the next group of bits generalised: a value below `2 ^ 32` reads back as itself, and
the bytes after it are left to the next reader.
-/

import Mathlib.Data.UInt
import Mathlib.Tactic.Ring

namespace Leb128

/-- The loop of `fc::raw::pack(unsigned_int)`, with `fuel` bytes left: the low seven bits of `val`,
with the high bit set while bits remain above them. -/
def packFrom : Nat → Nat → List UInt8
  | 0, _ => []
  | fuel + 1, val =>
    if val / 128 = 0 then [UInt8.ofNat val]
    else UInt8.ofNat (val % 128 + 128) :: packFrom fuel (val / 128)

/-- `fc::raw::pack(unsigned_int)`: the value is a `uint32_t`, which takes five bytes at most. -/
def pack (val : Nat) : List UInt8 :=
  packFrom 5 (val % 2 ^ 32)

/-- The loop of `fc::raw::unpack(unsigned_int)` from bit `shift`: each byte adds its low seven bits
at `shift`, and the loop goes on while the byte's high bit is set and fewer than 32 bits were
read. A stream that ends first fails. -/
def unpackFrom (shift : Nat) : List UInt8 → Option (Nat × List UInt8)
  | [] => none
  | byte :: rest =>
    let low := byte.toNat % 128 * 2 ^ shift
    if 128 ≤ byte.toNat ∧ shift + 7 < 32 then
      (unpackFrom (shift + 7) rest).map fun (high, rest) => (low + high, rest)
    else some (low, rest)

/-- `fc::raw::unpack(unsigned_int)`: the value read, cut to its `uint32_t`, and the rest of the
stream. -/
def unpack (bytes : List UInt8) : Option (Nat × List UInt8) :=
  (unpackFrom 0 bytes).map fun (val, rest) => (val % 2 ^ 32, rest)

theorem toNat_ofNat_of_lt {n : Nat} (below : n < 256) : (UInt8.ofNat n).toNat = n := by
  rw [UInt8.toNat_ofNat', Nat.mod_eq_of_lt below]

/-- **The bytes written from bit `shift` read back as the value at that bit**, when the value fits
the bytes left and they end by bit 35. -/
theorem unpackFrom_packFrom (rest : List UInt8) :
    ∀ fuel shift val, 0 < fuel → val < 2 ^ (7 * fuel) → shift + 7 * fuel ≤ 35 →
      unpackFrom shift (packFrom fuel val ++ rest) = some (val * 2 ^ shift, rest)
  | 0, _, _, positive, _, _ => absurd positive (Nat.lt_irrefl 0)
  | fuel + 1, shift, val, _, fits, ends => by
    rw [packFrom]
    split
    · -- the last byte: the value is below 128, so its high bit is clear
      rename_i last
      have small : val < 128 := by omega
      rw [List.singleton_append, unpackFrom, toNat_ofNat_of_lt (by omega),
        if_neg (fun continued => by omega), Nat.mod_eq_of_lt small]
    · -- a byte with its high bit set, and at least one more byte to come
      rename_i more
      have moreFuel : 0 < fuel := by
        rcases Nat.eq_zero_or_pos fuel with noFuel | positive
        · rw [noFuel] at fits
          omega
        · exact positive
      have highFits : val / 128 < 2 ^ (7 * fuel) := by
        have widened : 2 ^ (7 * (fuel + 1)) = 2 ^ (7 * fuel) * 128 := by
          rw [Nat.mul_succ, pow_add]
          norm_num
        rw [Nat.div_lt_iff_lt_mul (by norm_num), ← widened]
        exact fits
      have byteValue : (UInt8.ofNat (val % 128 + 128)).toNat = val % 128 + 128 :=
        toNat_ofNat_of_lt (by omega)
      rw [List.cons_append, unpackFrom, byteValue, if_pos ⟨by omega, by omega⟩,
        unpackFrom_packFrom rest fuel (shift + 7) (val / 128) moreFuel highFits (by omega),
        Option.map_some]
      dsimp only
      -- the low group and the groups above it make up the value
      have split : (val % 128 + 128) % 128 * 2 ^ shift + val / 128 * 2 ^ (shift + 7) =
          val * 2 ^ shift := by
        have whole := Nat.mod_add_div val 128
        rw [Nat.add_mod_right, Nat.mod_mod, pow_add]
        calc val % 128 * 2 ^ shift + val / 128 * (2 ^ shift * 2 ^ 7)
            = (val % 128 + 128 * (val / 128)) * 2 ^ shift := by ring
          _ = val * 2 ^ shift := by rw [whole]
      rw [split]

/-- **A packed `unsigned_int` reads back as itself**, and the bytes after it are left. -/
theorem unpack_pack {val : Nat} (fits : val < 2 ^ 32) (rest : List UInt8) :
    unpack (pack val ++ rest) = some (val, rest) := by
  rw [unpack, pack, Nat.mod_eq_of_lt fits,
    unpackFrom_packFrom rest 5 0 val (by norm_num) (by omega) (by norm_num), Option.map_some]
  dsimp only
  rw [pow_zero, Nat.mul_one, Nat.mod_eq_of_lt fits]

end Leb128
