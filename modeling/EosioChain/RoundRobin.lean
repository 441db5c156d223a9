/-
This file develops round-robin slot ownership: `owners` owners take turns, each owning `run`
consecutive slots, so that a slot belongs to the owner `slot % (owners * run) / run`, which is
the number of its run taken modulo `owners`.

The first slot from `start` on that an owner holds is `start` itself when it owns `start`, and
otherwise the first slot of its next run: the run of `start`, moved forward by the distance from
the owner of `start` to it around the circle of owners. No slot in between belongs to it, since
the runs in between belong to the owners strictly between the two on the circle.
-/

import Mathlib

namespace RoundRobin

/-- The owner of `slot`, when `owners` owners take turns of `run` slots each. -/
def owner (owners run slot : Nat) : Nat :=
  slot % (owners * run) / run

/-- How many runs forward from a run of `current` the next run of `index` is, around the circle of
`owners` owners: zero for the same owner. -/
def distance (owners current index : Nat) : Nat :=
  if current ≤ index then index - current else index + owners - current

/-- The slots from `start` on that `index` owns. -/
def ownedFrom (owners run start index : Nat) : Set Nat :=
  {slot | start ≤ slot ∧ owner owners run slot = index}

variable {owners run : Nat}

/-! ### Owners of slots -/

/-- The owner of a slot is the number of its run, modulo the owners. -/
theorem owner_eq (slot : Nat) : owner owners run slot = slot / run % owners := by
  rw [owner, Nat.mul_comm, Nat.mod_mul_right_div_self]

theorem owner_lt (positive : 0 < owners) (slot : Nat) : owner owners run slot < owners := by
  rw [owner_eq]
  exact Nat.mod_lt _ positive

/-- A slot `ahead` runs past the run of `slot` belongs to the owner `ahead` places further on. -/
theorem owner_of_div_eq {slot later ahead : Nat} (runs : later / run = slot / run + ahead) :
    owner owners run later = (owner owners run slot + ahead) % owners := by
  rw [owner_eq, owner_eq, runs, Nat.mod_add_mod]

/-! ### Distances around the circle -/

section Circle

variable {current index : Nat}

/-- Moving `distance` places from `current` reaches `index`. -/
theorem add_distance_mod (currentBelow : current < owners) (indexBelow : index < owners) :
    (current + distance owners current index) % owners = index := by
  unfold distance
  split
  · rw [Nat.add_sub_cancel' ‹_›, Nat.mod_eq_of_lt indexBelow]
  · rw [show current + (index + owners - current) = index + owners by omega, Nat.add_mod_right,
      Nat.mod_eq_of_lt indexBelow]

/-- Moving fewer places than `distance` does not reach `index`. -/
theorem add_mod_ne_of_lt_distance (currentBelow : current < owners) (indexBelow : index < owners)
    {ahead : Nat}
    (short : ahead < distance owners current index) : (current + ahead) % owners ≠ index := by
  unfold distance at short
  split at short
  · -- short of `index` without going round
    rw [Nat.mod_eq_of_lt (by omega)]
    omega
  · by_cases wraps : owners ≤ current + ahead
    · -- past the end of the circle, the places reached are those below `index`
      rw [Nat.mod_eq_sub_mod wraps, Nat.mod_eq_of_lt (by omega)]
      omega
    · rw [Nat.mod_eq_of_lt (by omega)]
      omega

theorem distance_pos (currentBelow : current < owners) (differ : current ≠ index) :
    0 < distance owners current index := by
  unfold distance
  split <;> omega

theorem distance_lt (indexBelow : index < owners) : distance owners current index < owners := by
  unfold distance
  split <;> omega

end Circle

/-! ### The next slot of an owner -/

section NextSlot

variable {start index : Nat}

/-- A slot that `index` owns is the first one from there on. -/
theorem isLeast_start (owned : owner owners run start = index) :
    IsLeast (ownedFrom owners run start index) start :=
  ⟨⟨le_refl start, owned⟩, fun _ member => member.1⟩

/-- **The next run of an owner.** When `index` does not own `start`, the first slot from `start`
on that it owns is the first slot of the run `distance` runs past the run of `start`. -/
theorem isLeast_aligned (runPositive : 0 < run) (indexBelow : index < owners)
    (notOwned : owner owners run start ≠ index) :
    IsLeast (ownedFrom owners run start index)
      (start - start % run + distance owners (owner owners run start) index * run) := by
  have ownersPositive : 0 < owners := Nat.zero_lt_of_lt indexBelow
  have currentBelow := @owner_lt owners run ownersPositive start
  set current := owner owners run start
  set ahead := distance owners current index
  -- the slot found is the start of run `start / run + ahead`
  have aligned : start - start % run + ahead * run = (start / run + ahead) * run := by
    have split := Nat.mod_add_div' start run
    rw [Nat.add_mul]
    omega
  have runs (ahead' : Nat) : (start / run + ahead') * run / run = start / run + ahead' :=
    Nat.mul_div_cancel _ runPositive
  have positive := distance_pos currentBelow notOwned
  refine ⟨⟨?_, ?_⟩, fun later member => ?_⟩
  · -- it lies past the run of `start`
    rw [aligned, Nat.add_mul]
    have withinRun := Nat.lt_div_mul_add (a := start) runPositive
    have oneRun : run ≤ ahead * run := Nat.le_mul_of_pos_left run positive
    omega
  · rw [aligned, @owner_of_div_eq owners run start _ ahead (runs ahead)]
    exact add_distance_mod currentBelow indexBelow
  · -- a slot before it lies in a run between, which belongs to another owner
    obtain ⟨after, owned⟩ := member
    rw [aligned]
    by_contra before
    have laterRun : later / run = start / run + (later / run - start / run) := by
      have := Nat.div_le_div_right (c := run) after
      omega
    have short : later / run - start / run < ahead := by
      have := (Nat.div_lt_iff_lt_mul runPositive).mpr (Nat.lt_of_not_le before)
      omega
    exact add_mod_ne_of_lt_distance currentBelow indexBelow short
      (owner_of_div_eq laterRun ▸ owned)

end NextSlot

end RoundRobin
