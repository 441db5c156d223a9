/-
This file collects what the keys of an ordered byte-string store need from the byte-wise order,
the order `memcmp` gives and that an ordered key-value store iterates in: it is a strict total
order; appending to a common prefix keeps it; a key that lies between a prefix extended by one
byte and the same prefix extended by the next byte starts with the first; and numbers written
big-endian in a fixed number of bytes are ordered as the numbers are.
-/

import Mathlib

instance instIsStrictOrderBytes : IsStrictOrder (List UInt8) (· < ·) where
  irrefl := List.lt_irrefl
  trans := fun _ _ _ => List.lt_trans

instance instIsStrictTotalOrderBytes : IsStrictTotalOrder (List UInt8) (· < ·) := {}

namespace ByteKeys

/-! ### Prefixes -/

theorem append_lt_append_iff_left (pre : List UInt8) {left right : List UInt8} :
    pre ++ left < pre ++ right ↔ left < right := by
  induction pre with
  | nil => rfl
  | cons byte pre inductionHypothesis =>
    rw [List.cons_append, List.cons_append, List.cons_lt_cons_iff, inductionHypothesis]
    constructor
    · rintro (below | ⟨_, below⟩)
      · exact absurd below (irrefl byte)
      · exact below
    · exact fun below => Or.inr ⟨rfl, below⟩

theorem not_append_lt (pre rest : List UInt8) : ¬ pre ++ rest < pre := by
  have shorter : pre ++ rest < pre ++ [] ↔ rest < [] := append_lt_append_iff_left pre
  rw [List.append_nil] at shorter
  exact fun below => List.not_lt_nil rest (shorter.mp below)

/-- A key at least `pre ++ [low]` and below `pre ++ [high]`, with no byte between `low` and
`high`, starts with `pre ++ [low]`. -/
theorem prefix_of_between {pre : List UInt8} {low high : UInt8}
    (next : high.toNat = low.toNat + 1) :
    ∀ {key : List UInt8}, ¬ key < pre ++ [low] → key < pre ++ [high] →
      pre ++ [low] <+: key := by
  induction pre with
  | nil =>
    intro key atLeast below
    match key, atLeast, below with
    | [], atLeast, _ => exact absurd (List.nil_lt_cons low []) atLeast
    | byte :: rest, atLeast, below =>
      -- the first byte of the key is `low`
      rw [List.nil_append, List.cons_lt_cons_iff, not_or] at atLeast
      rw [List.nil_append, List.cons_lt_cons_iff] at below
      have notBelowLow : ¬ byte < low := atLeast.1
      have belowHigh : byte < high := by
        rcases below with less | ⟨_, impossible⟩
        · exact less
        · exact absurd impossible (List.not_lt_nil rest)
      have same : byte = low := by
        rw [UInt8.lt_iff_toNat_lt] at notBelowLow belowHigh
        exact UInt8.toNat_inj.mp (by omega)
      subst same
      exact List.cons_prefix_cons.mpr ⟨rfl, List.nil_prefix⟩
  | cons first pre inductionHypothesis =>
    intro key atLeast below
    match key, atLeast, below with
    | [], atLeast, _ => exact absurd (List.nil_lt_cons _ _) atLeast
    | byte :: rest, atLeast, below =>
      -- the first bytes agree, and the rest lies between the shorter bounds
      rw [List.cons_append, List.cons_lt_cons_iff, not_or, not_and] at atLeast
      rw [List.cons_append, List.cons_lt_cons_iff] at below
      rcases below with less | ⟨same, restBelow⟩
      · exact absurd less atLeast.1
      · subst same
        rw [List.cons_append]
        exact List.cons_prefix_cons.mpr ⟨rfl, inductionHypothesis (atLeast.2 rfl) restBelow⟩

/-- A key below another is below every extension of it. -/
theorem lt_append_of_lt {key pre : List UInt8} (rest : List UInt8) (below : key < pre) :
    key < pre ++ rest := by
  rcases trichotomous_of (· < ·) key (pre ++ rest) with less | same | greater
  · exact less
  · subst same
    exact absurd below (not_append_lt pre rest)
  · exact absurd (List.lt_trans greater below) (not_append_lt pre rest)

/-- Only keys that start with top bytes are at least as high as the top bytes. -/
theorem replicate_top_prefix : ∀ (count : Nat) {key : List UInt8},
    ¬ key < List.replicate count 0xFF → List.replicate count 0xFF <+: key
  | 0, _, _ => List.nil_prefix
  | count + 1, [], atLeast => absurd (List.nil_lt_cons _ _) atLeast
  | count + 1, byte :: rest, atLeast => by
    rw [List.replicate_succ, List.cons_lt_cons_iff, not_or, not_and] at atLeast
    -- no byte is above `0xFF`, so the first byte is `0xFF`
    have top : byte = 0xFF := by
      have notBelow := atLeast.1
      rw [UInt8.lt_iff_toNat_lt] at notBelow
      have := byte.toNat_lt
      exact UInt8.toNat_inj.mp (by simp only [UInt8.reduceToNat] at notBelow ⊢; omega)
    subst top
    rw [List.replicate_succ]
    exact List.cons_prefix_cons.mpr ⟨rfl, replicate_top_prefix count (atLeast.2 rfl)⟩

/-- **The keys that extend `pre ++ byte :: 0xFF…`, for a byte below `0xFF`, are the keys from it
up to `pre ++ [byte + 1]`**: the bound raises the last byte that can be raised and drops the top
bytes after it. -/
theorem prefix_iff_between {pre : List UInt8} {byte : UInt8} (belowTop : byte ≠ 0xFF) (count : Nat)
    (key : List UInt8) :
    pre ++ byte :: List.replicate count 0xFF <+: key ↔
      ¬ key < pre ++ byte :: List.replicate count 0xFF ∧ key < pre ++ [byte + 1] := by
  have next : (byte + 1).toNat = byte.toNat + 1 := by
    have : byte.toNat ≠ 255 := fun top => belowTop (UInt8.toNat_inj.mp top)
    have := byte.toNat_lt
    simp only [UInt8.toNat_add, UInt8.reduceToNat]
    omega
  constructor
  · rintro ⟨rest, rfl⟩
    refine ⟨not_append_lt _ rest, ?_⟩
    rw [List.append_assoc, append_lt_append_iff_left, List.cons_append, List.cons_lt_cons_iff]
    exact Or.inl (UInt8.lt_iff_toNat_lt.mpr (by omega))
  · rintro ⟨atLeast, below⟩
    -- the key lies between `pre ++ [byte]` and `pre ++ [byte + 1]`, so it extends `pre ++ [byte]`
    have split : pre ++ byte :: List.replicate count 0xFF =
        (pre ++ [byte]) ++ List.replicate count 0xFF := by
      rw [List.append_assoc, List.singleton_append]
    have atLeastByte : ¬ key < pre ++ [byte] := fun less =>
      atLeast (split ▸ lt_append_of_lt (List.replicate count 0xFF) less)
    obtain ⟨rest, rfl⟩ := prefix_of_between next atLeastByte below
    -- and what follows it is at least the top bytes, so it starts with them
    rw [split, append_lt_append_iff_left] at atLeast
    obtain ⟨tail, rfl⟩ := replicate_top_prefix count atLeast
    exact ⟨tail, by rw [split, List.append_assoc]⟩

/-! ### Big-endian numbers -/

/-- The number `n` written in `width` bytes, most significant first. -/
def bigEndian : (width : Nat) → (n : Nat) → List UInt8
  | 0, _ => []
  | width + 1, n => UInt8.ofNat (n / 256 ^ width) :: bigEndian width n

theorem length_bigEndian (width n : Nat) : (bigEndian width n).length = width := by
  induction width with
  | zero => rfl
  | succ width inductionHypothesis => rw [bigEndian, List.length_cons, inductionHypothesis]

/-- Only the low `width` bytes of a number are written. -/
theorem bigEndian_mod (width n : Nat) :
    bigEndian width (n % 256 ^ width) = bigEndian width n := by
  induction width generalizing n with
  | zero => rfl
  | succ width inductionHypothesis =>
    have highByte :
        UInt8.ofNat (n % 256 ^ (width + 1) / 256 ^ width) = UInt8.ofNat (n / 256 ^ width) := by
      rw [Nat.pow_succ, Nat.mod_mul_right_div_self]
      exact UInt8.toNat_inj.mp (by simp [UInt8.toNat_ofNat'])
    have lowBytes : bigEndian width (n % 256 ^ (width + 1)) = bigEndian width n := by
      rw [← inductionHypothesis, Nat.mod_mod_of_dvd _ (Nat.pow_dvd_pow 256 (Nat.le_succ width)),
        inductionHypothesis]
    rw [bigEndian, bigEndian, highByte, lowBytes]

/-- **Big-endian keys are ordered as the numbers they write.** -/
theorem bigEndian_lt_bigEndian {width : Nat} :
    ∀ {n m : Nat}, n < m → m < 256 ^ width → bigEndian width n < bigEndian width m := by
  induction width with
  | zero => intro n m below fits; simp at fits; omega
  | succ width inductionHypothesis =>
    intro n m below fits
    have positive : 0 < 256 ^ width := Nat.pow_pos (by decide)
    have highFits : m / 256 ^ width < 256 := by
      rw [Nat.div_lt_iff_lt_mul positive]
      rw [Nat.pow_succ, Nat.mul_comm] at fits
      exact fits
    have highLe : n / 256 ^ width ≤ m / 256 ^ width :=
      Nat.div_le_div_right (Nat.le_of_lt below)
    rw [bigEndian, bigEndian, List.cons_lt_cons_iff]
    rcases Nat.lt_or_eq_of_le highLe with highBelow | highSame
    · -- the most significant bytes differ
      left
      rw [UInt8.lt_iff_toNat_lt, UInt8.toNat_ofNat', UInt8.toNat_ofNat',
        Nat.mod_eq_of_lt (by omega), Nat.mod_eq_of_lt (by omega)]
      exact highBelow
    · -- the most significant bytes agree, and the rest decides
      right
      refine ⟨by rw [highSame], ?_⟩
      have lowBelow : n % 256 ^ width < m % 256 ^ width := by
        have := Nat.div_add_mod n (256 ^ width)
        have := Nat.div_add_mod m (256 ^ width)
        rw [highSame] at *
        omega
      rw [← bigEndian_mod width n, ← bigEndian_mod width m]
      exact inductionHypothesis lowBelow (Nat.mod_lt _ positive)

theorem bigEndian_injective {width n m : Nat} (nFits : n < 256 ^ width) (mFits : m < 256 ^ width)
    (same : bigEndian width n = bigEndian width m) : n = m := by
  rcases Nat.lt_trichotomy n m with below | equal | above
  · exact absurd (same ▸ bigEndian_lt_bigEndian below mFits) (irrefl _)
  · exact equal
  · exact absurd (same ▸ bigEndian_lt_bigEndian above nFits) (irrefl _)

theorem bigEndian_lt_bigEndian_iff {width n m : Nat} (nFits : n < 256 ^ width)
    (mFits : m < 256 ^ width) : bigEndian width n < bigEndian width m ↔ n < m := by
  refine ⟨fun below => ?_, fun below => bigEndian_lt_bigEndian below mFits⟩
  rcases Nat.lt_trichotomy n m with less | equal | greater
  · exact less
  · subst equal
    exact absurd below (irrefl _)
  · exact absurd (bigEndian_lt_bigEndian greater nFits) (asymm below)

end ByteKeys
