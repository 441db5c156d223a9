/-
This file develops decimal text: numbers written in the digits `0` to `9`, most significant first,
as a number is printed and as a parser reads it back. `pad width n` writes the low `width` digits
of `n`, filled with zeros on the left, and `render n` writes `n` with no leading zero, as `pad` to
the number of its digits. `parse` reads digits back the way a parser does, multiplying by ten and
adding each digit in turn.

A padded text reads back as the number cut to its width, and a rendered one as the number itself.
The rendering of `10 ^ width + r`, for `r` below `10 ^ width`, is a `1` and then `r` padded to
`width`: this is how a fraction is printed zero-filled, by printing it above a power of ten and
dropping the first character.
-/

import Mathlib
import EosioChain.MixedRadix

namespace DecimalText

open MixedRadix

/-! ### Digits and their characters -/

/-- The character of a decimal digit. -/
def digitChar (digit : Nat) : Char :=
  Char.ofNat ('0'.toNat + digit)

/-- The digit of a decimal character. -/
def digitValue (c : Char) : Nat :=
  c.toNat - '0'.toNat

/-- The low `width` digits of `n`, most significant first, filled with zeros on the left. -/
def pad (width n : Nat) : List Char :=
  ((digits (List.replicate width 10) n).map digitChar).reverse

/-- `n` in decimal, with no leading zero: `0` for zero. -/
def render (n : Nat) : List Char :=
  pad (Nat.log 10 n + 1) n

/-- The number a run of decimal digits stands for. -/
def parse (text : List Char) : Nat :=
  text.foldl (fun value c => 10 * value + digitValue c) 0

theorem digitValue_digitChar : ∀ digit < 10, digitValue (digitChar digit) = digit := by
  decide

theorem isDigit_digitChar : ∀ digit < 10, (digitChar digit).isDigit := by
  decide

theorem digits_lt_ten (width n : Nat) : ∀ digit ∈ digits (List.replicate width 10) n, digit < 10 :=
  lt_of_mem_digits (fun radix member => by rw [List.eq_of_mem_replicate member]; decide) n

/-! ### Reading digits back -/

/-- Parsing from a value already read shifts that value past the new digits. -/
theorem foldl_parse (text : List Char) (start : Nat) :
    text.foldl (fun value c => 10 * value + digitValue c) start =
      start * 10 ^ text.length + parse text := by
  induction text generalizing start with
  | nil => simp [parse]
  | cons c text inductionHypothesis =>
    have first : parse (c :: text) = (10 * 0 + digitValue c) * 10 ^ text.length + parse text :=
      inductionHypothesis _
    rw [List.foldl_cons, inductionHypothesis, first, List.length_cons, pow_succ]
    ring

theorem parse_append (front back : List Char) :
    parse (front ++ back) = parse front * 10 ^ back.length + parse back := by
  rw [parse, List.foldl_append, foldl_parse]
  rfl

/-- Digits below ten, written most significant first, read back as their value. -/
theorem parse_reverse_map_digitChar : ∀ ds : List Nat, (∀ digit ∈ ds, digit < 10) →
    parse ((ds.map digitChar).reverse) = value (List.replicate ds.length 10) ds
  | [], _ => rfl
  | digit :: ds, below => by
    have rest := parse_reverse_map_digitChar ds
      (fun other member => below other (List.mem_cons_of_mem _ member))
    rw [List.map_cons, List.reverse_cons, parse_append, rest, List.length_singleton, pow_one,
      List.length_cons, List.replicate_succ, value_cons]
    have last : parse [digitChar digit] = digit := by
      simp only [parse, List.foldl_cons, List.foldl_nil, Nat.mul_zero, Nat.zero_add]
      exact digitValue_digitChar digit (below digit List.mem_cons_self)
    rw [last]
    ring

/-- **A padded number reads back cut to its width.** -/
theorem parse_pad (width n : Nat) : parse (pad width n) = n % 10 ^ width := by
  rw [pad, parse_reverse_map_digitChar _ (digits_lt_ten width n), length_digits,
    List.length_replicate, value_digits, List.prod_replicate]

/-- **A rendered number reads back as itself.** -/
theorem parse_render (n : Nat) : parse (render n) = n := by
  rw [render, parse_pad, Nat.mod_eq_of_lt (Nat.lt_pow_succ_log_self (by decide) n)]

theorem length_pad (width n : Nat) : (pad width n).length = width := by
  rw [pad, List.length_reverse, List.length_map, length_digits, List.length_replicate]

theorem isDigit_of_mem_pad {width n : Nat} {c : Char} (member : c ∈ pad width n) : c.isDigit := by
  rw [pad, List.mem_reverse, List.mem_map] at member
  obtain ⟨digit, digitMember, rfl⟩ := member
  exact isDigit_digitChar digit (digits_lt_ten width n digit digitMember)

theorem isDigit_of_mem_render {n : Nat} {c : Char} (member : c ∈ render n) : c.isDigit :=
  isDigit_of_mem_pad member

theorem not_mem_pad {c : Char} (notDigit : c.isDigit = false) (width n : Nat) : c ∉ pad width n :=
  fun member => Bool.false_ne_true (notDigit ▸ isDigit_of_mem_pad member)

theorem not_mem_render {c : Char} (notDigit : c.isDigit = false) (n : Nat) : c ∉ render n :=
  not_mem_pad notDigit _ n

theorem render_ne_nil (n : Nat) : render n ≠ [] := by
  rw [← List.length_pos_iff, render, length_pad]
  exact Nat.succ_pos _

/-! ### Zero-filled fractions -/

/-- **`10 ^ width + r` renders as a `1` and `r` padded to `width`**, for `r` below `10 ^ width`. -/
theorem render_pow_add {width r : Nat} (below : r < 10 ^ width) :
    render (10 ^ width + r) = '1' :: pad width r := by
  have log : Nat.log 10 (10 ^ width + r) = width := by
    apply Nat.log_eq_of_pow_le_of_lt_pow (Nat.le_add_right _ _)
    rw [pow_succ]
    omega
  -- the digit above the `width` low ones is the leading `1`
  have top : (10 ^ width + r) / (List.replicate width 10).prod % 10 = 1 := by
    rw [List.prod_replicate, Nat.add_div_left _ (Nat.pow_pos (by decide)),
      Nat.div_eq_of_lt below]
  have low : digits (List.replicate width 10) (10 ^ width + r) =
      digits (List.replicate width 10) r := by
    rw [Nat.add_comm, ← Nat.mul_one (10 ^ width), ← List.prod_replicate, digits_add_prod_mul]
  rw [render, log, pad, List.replicate_succ', digits_append_singleton, top, low, List.map_append,
    List.reverse_append, List.map_singleton, List.reverse_singleton, List.singleton_append, pad]
  rfl

/-! ### Separators -/

/-- A separator found past a text that does not hold it is found where it stands in the rest. -/
theorem idxOf?_append_of_not_mem {a : Char} {front : List Char} (absent : a ∉ front)
    (back : List Char) : (front ++ back).idxOf? a = (back.idxOf? a).map (· + front.length) := by
  induction front with
  | nil => simp
  | cons c front inductionHypothesis =>
    have differ : (c == a) = false := by
      simpa using fun same : c = a => absent (same ▸ List.mem_cons_self)
    rw [List.cons_append, List.idxOf?_cons, differ, if_neg Bool.false_ne_true,
      inductionHypothesis (fun member => absent (List.mem_cons_of_mem c member)), Option.map_map]
    simp [Function.comp_def, Nat.add_assoc]

/-- **The first separator of a text** is the one after a front that does not hold it. -/
theorem idxOf?_append_cons {a : Char} {front : List Char} (absent : a ∉ front) (back : List Char) :
    (front ++ a :: back).idxOf? a = some front.length := by
  rw [idxOf?_append_of_not_mem absent, List.idxOf?_cons, beq_self_eq_true, if_pos rfl]
  simp

end DecimalText
