/-
This file develops a finite map kept as a list of entries in strictly increasing key order, the
shape of an ordered key-value store: a point lookup, an insert that replaces the entry of its key,
the removal of a key or of a half-open range of keys, and the entries of a range in key order, as
an ordered iterator visits them.

The key order is any strict order that is irreflexive, transitive and trichotomous; the sortedness
of the entries is a field of the map, so every operation has to keep it and every reader may use
it. Two sorted entry lists with the same members are equal, which is how the entries of a range
are identified.
-/

import Mathlib

variable {κ ν : Type*} [LT κ]

/-- A finite map from `κ` to `ν` whose entries are listed in strictly increasing key order. -/
structure SortedMap (κ ν : Type*) [LT κ] where
  entries : List (κ × ν)
  sorted : entries.Pairwise fun first second => first.1 < second.1

namespace SortedMap

/-! ### Sorted entry lists -/

/-- Two key-sorted entry lists with the same members are the same list. -/
theorem eq_of_mem_iff [IsStrictTotalOrder κ (· < ·)] :
    ∀ {entries others : List (κ × ν)},
    entries.Pairwise (fun first second => first.1 < second.1) →
    others.Pairwise (fun first second => first.1 < second.1) →
    (∀ entry, entry ∈ entries ↔ entry ∈ others) → entries = others
  | [], [], _, _, _ => rfl
  | [], other :: _, _, _, same => absurd ((same other).mpr List.mem_cons_self) List.not_mem_nil
  | entry :: _, [], _, _, same => absurd ((same entry).mp List.mem_cons_self) List.not_mem_nil
  | entry :: rest, other :: more, sorted, othersSorted, same => by
    obtain ⟨entryBelow, restSorted⟩ := List.pairwise_cons.mp sorted
    obtain ⟨otherBelow, moreSorted⟩ := List.pairwise_cons.mp othersSorted
    -- the heads are the least entries of both lists
    have heads : entry = other := by
      rcases List.mem_cons.mp ((same entry).mp List.mem_cons_self) with equal | later
      · exact equal
      rcases List.mem_cons.mp ((same other).mpr List.mem_cons_self) with equal | earlier
      · exact equal.symm
      exact absurd (entryBelow other earlier) (asymm (otherBelow entry later))
    subst heads
    congr 1
    refine eq_of_mem_iff restSorted moreSorted fun member =>
      ⟨fun inRest => ?_, fun inMore => ?_⟩
    · rcases List.mem_cons.mp ((same member).mp (List.mem_cons_of_mem _ inRest)) with
        equal | inMore
      · exact absurd (equal ▸ entryBelow member inRest) (irrefl _)
      · exact inMore
    · rcases List.mem_cons.mp ((same member).mpr (List.mem_cons_of_mem _ inMore)) with
        equal | inRest
      · exact absurd (equal ▸ otherBelow member inMore) (irrefl _)
      · exact inRest

/-! ### Lookups -/

variable [DecidableEq κ]

/-- The map with no entry. -/
def empty : SortedMap κ ν := ⟨[], List.Pairwise.nil⟩

/-- The value stored under `k`. -/
def get (map : SortedMap κ ν) (k : κ) : Option ν :=
  (map.entries.find? fun entry => decide (entry.1 = k)).map Prod.snd

theorem get_empty (k : κ) : (empty : SortedMap κ ν).get k = none :=
  rfl

omit [LT κ] in
theorem find?_filter_of_ne {entries : List (κ × ν)} {keep : κ × ν → Bool} {k : κ}
    (kept : ∀ entry ∈ entries, entry.1 = k → keep entry = true) :
    (entries.filter keep).find? (fun entry => decide (entry.1 = k)) =
      entries.find? fun entry => decide (entry.1 = k) := by
  induction entries with
  | nil => rfl
  | cons first rest inductionHypothesis =>
    have restKept : ∀ entry ∈ rest, entry.1 = k → keep entry = true :=
      fun entry member => kept entry (List.mem_cons_of_mem _ member)
    by_cases asked : first.1 = k
    · rw [List.filter_cons_of_pos (kept first List.mem_cons_self asked)]
      simp [asked]
    · by_cases keptFirst : keep first = true
      · rw [List.filter_cons_of_pos keptFirst]
        simp only [List.find?_cons, asked, decide_false]
        exact inductionHypothesis restKept
      · rw [List.filter_cons_of_neg keptFirst, inductionHypothesis restKept]
        simp [asked]

omit [LT κ] in
theorem find?_filter_eq_none {entries : List (κ × ν)} {keep : κ × ν → Bool} {k : κ}
    (dropped : ∀ entry ∈ entries, entry.1 = k → keep entry = false) :
    (entries.filter keep).find? (fun entry => decide (entry.1 = k)) = none := by
  rw [List.find?_eq_none]
  intro entry member
  obtain ⟨inEntries, keptEntry⟩ := List.mem_filter.mp member
  intro asked
  have := dropped entry inEntries (of_decide_eq_true asked)
  rw [this] at keptEntry
  exact Bool.false_ne_true keptEntry

/-- Remove the entry of `k`. -/
def erase (map : SortedMap κ ν) (k : κ) : SortedMap κ ν :=
  ⟨map.entries.filter fun entry => decide (entry.1 ≠ k), map.sorted.filter _⟩

theorem get_erase (map : SortedMap κ ν) (k k' : κ) :
    (map.erase k).get k' = if k' = k then none else map.get k' := by
  unfold erase get
  split
  · next same =>
    rw [find?_filter_eq_none fun entry _ asked => by simp [asked, same]]
    rfl
  · next different =>
    rw [find?_filter_of_ne fun entry _ asked => by simp [asked, different]]

theorem get_eq_some_iff [IsStrictTotalOrder κ (· < ·)] {map : SortedMap κ ν} {k : κ}
    {v : ν} :
    map.get k = some v ↔ (k, v) ∈ map.entries := by
  obtain ⟨entries, sorted⟩ := map
  unfold get
  induction entries with
  | nil => simp
  | cons first rest inductionHypothesis =>
    obtain ⟨firstBelow, restSorted⟩ := List.pairwise_cons.mp sorted
    by_cases same : first.1 = k
    · -- the first entry answers; no later entry has its key
      obtain ⟨key, value⟩ := first
      subst same
      simp only [List.find?_cons, decide_true, Option.map_some, Option.some.injEq,
        List.mem_cons, Prod.mk.injEq, true_and]
      constructor
      · intro same
        exact Or.inl same.symm
      · rintro (same | later)
        · exact same.symm
        · exact absurd (firstBelow _ later) (irrefl key)
    · simp only [List.find?_cons, same, decide_false]
      rw [inductionHypothesis restSorted, List.mem_cons]
      constructor
      · exact Or.inr
      · rintro (first | later)
        · exact absurd (congrArg Prod.fst first).symm same
        · exact later

/-! ### Insertion and ranges -/

variable [∀ first second : κ, Decidable (first < second)]

/-- Insert `(k, v)` into a sorted entry list in one pass, replacing the entry of `k`. -/
def insertEntry (k : κ) (v : ν) : List (κ × ν) → List (κ × ν)
  | [] => [(k, v)]
  | entry :: rest =>
    if k < entry.1 then (k, v) :: entry :: rest
    else if k = entry.1 then (k, v) :: rest
    else entry :: insertEntry k v rest

theorem mem_insertEntry {k : κ} {v : ν} {entry : κ × ν} :
    ∀ {entries : List (κ × ν)}, entry ∈ insertEntry k v entries →
      entry = (k, v) ∨ entry ∈ entries
  | [] => by simp [insertEntry]
  | first :: rest => by
    unfold insertEntry
    split_ifs
    · simp
    · intro member
      rcases List.mem_cons.mp member with same | inRest
      · exact Or.inl same
      · exact Or.inr (List.mem_cons_of_mem _ inRest)
    · intro member
      rcases List.mem_cons.mp member with same | inRest
      · exact Or.inr (same ▸ List.mem_cons_self)
      · rcases mem_insertEntry inRest with new | old
        · exact Or.inl new
        · exact Or.inr (List.mem_cons_of_mem _ old)

section Insert

variable [IsStrictTotalOrder κ (· < ·)]

theorem sorted_insertEntry (k : κ) (v : ν) :
    ∀ {entries : List (κ × ν)}, entries.Pairwise (fun first second => first.1 < second.1) →
      (insertEntry k v entries).Pairwise fun first second => first.1 < second.1
  | [], _ => List.pairwise_singleton _ _
  | first :: rest, sorted => by
    obtain ⟨firstBelow, restSorted⟩ := List.pairwise_cons.mp sorted
    unfold insertEntry
    split_ifs with below same
    · -- `k` goes in front of every entry
      refine List.Pairwise.cons (fun entry member => ?_) sorted
      rcases List.mem_cons.mp member with rfl | inRest
      · exact below
      · exact trans_of (· < ·) below (firstBelow entry inRest)
    · -- `k` replaces the first entry
      subst same
      exact List.Pairwise.cons firstBelow restSorted
    · -- `k` goes after the first entry
      have above : first.1 < k := by
        rcases trichotomous_of (· < ·) k first.1 with less | equal | greater
        · exact absurd less below
        · exact absurd equal same
        · exact greater
      refine List.Pairwise.cons (fun entry member => ?_) (sorted_insertEntry k v restSorted)
      rcases mem_insertEntry member with rfl | old
      · exact above
      · exact firstBelow entry old

/-- Store `v` under `k`. -/
def insert (map : SortedMap κ ν) (k : κ) (v : ν) : SortedMap κ ν :=
  ⟨insertEntry k v map.entries, sorted_insertEntry k v map.sorted⟩

theorem get_insert (map : SortedMap κ ν) (k k' : κ) (v : ν) :
    (map.insert k v).get k' = if k' = k then some v else map.get k' := by
  obtain ⟨entries, sorted⟩ := map
  unfold insert get
  dsimp only
  induction entries with
  | nil =>
    by_cases asked : k' = k
    · simp [insertEntry, asked]
    · simp [insertEntry, Ne.symm asked, asked]
  | cons first rest inductionHypothesis =>
    have restSorted := (List.pairwise_cons.mp sorted).2
    unfold insertEntry
    by_cases below : k < first.1
    · -- the new entry goes in front
      rw [if_pos below]
      by_cases asked : k' = k
      · simp [asked]
      · simp [Ne.symm asked, asked]
    by_cases same : k = first.1
    · -- the new entry replaces the first one
      rw [if_neg below, if_pos same]
      by_cases asked : k' = k
      · simp [asked]
      · have firstIsNot : ¬ first.1 = k' := fun equal => asked (equal ▸ same).symm
        simp [Ne.symm asked, asked, firstIsNot]
    · -- the new entry goes after the first one
      rw [if_neg below, if_neg same]
      by_cases firstAsked : first.1 = k'
      · have asked : ¬ k' = k := fun equal => same (equal ▸ firstAsked).symm
        simp [firstAsked, asked]
      · simp only [List.find?_cons, firstAsked, decide_false]
        exact inductionHypothesis restSorted

end Insert

/-- Whether `k` lies in the half-open range from `first` to `last`. -/
def InRange (first last k : κ) : Prop :=
  ¬ k < first ∧ k < last

instance (first last k : κ) : Decidable (InRange first last k) :=
  inferInstanceAs (Decidable (¬ k < first ∧ k < last))

/-- Remove the entries of the keys from `first` up to, not including, `last`. -/
def eraseRange (map : SortedMap κ ν) (first last : κ) : SortedMap κ ν :=
  ⟨map.entries.filter fun entry => !decide (InRange first last entry.1), map.sorted.filter _⟩

/-- The entries of the keys from `first` up to, not including, `last`, in key order. -/
def between (map : SortedMap κ ν) (first last : κ) : List (κ × ν) :=
  map.entries.filter fun entry => decide (InRange first last entry.1)

/-- Whether some key is at least `k`: whether an iterator sought to `k` is valid. -/
def hasKeyFrom (map : SortedMap κ ν) (k : κ) : Bool :=
  map.entries.any fun entry => !decide (entry.1 < k)

theorem get_eraseRange (map : SortedMap κ ν) (first last k : κ) :
    (map.eraseRange first last).get k = if InRange first last k then none else map.get k := by
  unfold eraseRange get
  split
  · next inside =>
    rw [find?_filter_eq_none fun entry _ asked => by simp [asked, inside]]
    rfl
  · next outside =>
    rw [find?_filter_of_ne fun entry _ asked => by simp [asked, outside]]

theorem hasKeyFrom_of_get [IsStrictTotalOrder κ (· < ·)] {map : SortedMap κ ν} {k key : κ}
    {v : ν} (stored : map.get key = some v) (atLeast : ¬ key < k) : map.hasKeyFrom k = true := by
  unfold hasKeyFrom
  rw [List.any_eq_true]
  exact ⟨(key, v), get_eq_some_iff.mp stored, by simpa using atLeast⟩

theorem mem_between [IsStrictTotalOrder κ (· < ·)] {map : SortedMap κ ν} {first last : κ}
    {entry : κ × ν} :
    entry ∈ map.between first last ↔
      map.get entry.1 = some entry.2 ∧ InRange first last entry.1 := by
  unfold between
  rw [List.mem_filter, decide_eq_true_iff, get_eq_some_iff]

omit [DecidableEq κ] in
theorem sorted_between (map : SortedMap κ ν) (first last : κ) :
    (map.between first last).Pairwise fun first second => first.1 < second.1 :=
  map.sorted.filter _

end SortedMap
