/-
This file proves that the fork database stays a tree hanging from its root, with the best valid
block at its head, along every run of its mutators from `reset`.

Three facts carry the proof. The block numbers in the ids make every chain of previous ids
strictly descending, so an index in which every block builds on the root or on another indexed
block lies entirely above the root (`blockNum_gt_of_linked`); that part of the invariant is never
proved step by step. The first block of the `by_lib_block_num` index is valid as soon as any
indexed block is, and no valid block is preferred over it (`candidate_preferred`); both head
updates rest on this. And a removal takes a set of blocks closed under "built on", so no block
that stays loses its parent (`removeQueue_closed`); `advance_root` removes the ancestors of the new
root, the old root among them, and keeps the new root's descendants, whose parents are the new
root or are kept.

`advance_root` needs no condition on its argument here: if the head is not on the new root's
branch, one of the removals reaches it and the call fails.
-/

import EosioChain.ForkDatabase

namespace Eosio.Chain

namespace ForkDatabase

variable {Hash : Type}

/-! ### The invariant -/

/-- Every block of `index` builds on `root` or on a block of `index`. -/
def Linked (index : List (ForkBlock Hash)) (root : ForkBlock Hash) : Prop :=
  ∀ b ∈ index, b.previous = root.id ∨ ∃ c ∈ index, c.id = b.previous

/-- **A linked index lies above its root.** Block numbers go down by one along previous ids, so
the induction is on the block number. -/
theorem blockNum_gt_of_linked {index : List (ForkBlock Hash)} {root : ForkBlock Hash}
    (linked : Linked index root) : ∀ b ∈ index, root.blockNum < b.blockNum := by
  intro b
  induction numbered : b.blockNum using Nat.strong_induction_on generalizing b with
  | _ number inductionHypothesis =>
    intro member
    have numbers := b.previousBlockNum
    rcases linked b member with onRoot | ⟨c, cMember, parent⟩
    · rw [onRoot, root.idBlockNum] at numbers
      omega
    · rw [← parent, c.idBlockNum] at numbers
      have above := inductionHypothesis c.blockNum (by omega) c rfl cMember
      omega

/-- No valid block of `index` is preferred over `block`. -/
def NoValidPreferred (index : List (ForkBlock Hash)) (block : ForkBlock Hash) : Prop :=
  ∀ b ∈ index, b.validated = true → firstPreferred b block = false

theorem NoValidPreferred.mono {index index' : List (ForkBlock Hash)} {block : ForkBlock Hash}
    (best : NoValidPreferred index block) (contained : ∀ b ∈ index', b ∈ index) :
    NoValidPreferred index' block :=
  fun b member valid => best b (contained b member) valid

theorem firstPreferred_self (b : ForkBlock Hash) : firstPreferred b b = false := by
  simp [firstPreferred]

/-- The fork database invariant: every indexed block builds on the root or on another indexed
block and lies above the root, and the head is the root or a valid indexed block, with no valid
indexed block preferred over it. -/
structure Invariant (s : ForkDatabase Hash) : Prop where
  linked : Linked s.index s.root
  aboveRoot : ∀ b ∈ s.index, s.root.blockNum < b.blockNum
  headPlaced : s.head = s.root ∨ (s.head ∈ s.index ∧ s.head.validated = true)
  headPreferred : NoValidPreferred s.index s.head

theorem Invariant.of_linked {s : ForkDatabase Hash} (linked : Linked s.index s.root)
    (headPlaced : s.head = s.root ∨ (s.head ∈ s.index ∧ s.head.validated = true))
    (headPreferred : NoValidPreferred s.index s.head) : Invariant s :=
  ⟨linked, blockNum_gt_of_linked linked, headPlaced, headPreferred⟩

/-- Changing blocks in place, keeping their ids and previous ids, keeps the index linked. -/
theorem Linked.map {index : List (ForkBlock Hash)} {root : ForkBlock Hash}
    (linked : Linked index root) (update : ForkBlock Hash → ForkBlock Hash)
    (keepsId : ∀ b, (update b).id = b.id) (keepsPrevious : ∀ b, (update b).previous = b.previous) :
    Linked (index.map update) root := by
  intro b' member
  obtain ⟨b, bMember, rfl⟩ := List.mem_map.mp member
  rw [keepsPrevious]
  rcases linked b bMember with onRoot | ⟨c, cMember, parent⟩
  · exact Or.inl onRoot
  · exact Or.inr ⟨update c, List.mem_map_of_mem cMember, by rw [keepsId, parent]⟩

theorem reset_invariant (rootBhs : ForkBlock Hash) : Invariant (reset rootBhs) :=
  .of_linked (fun _ member => absurd member List.not_mem_nil) (Or.inl rfl)
    fun _ member => absurd member List.not_mem_nil

theorem rollbackHeadToRoot_invariant {s : ForkDatabase Hash} (invariant : Invariant s) :
    Invariant s.rollbackHeadToRoot := by
  refine .of_linked (invariant.linked.map _ (fun _ => rfl) fun _ => rfl) (Or.inl rfl) ?_
  intro b member valid
  obtain ⟨_, _, rfl⟩ := List.mem_map.mp member
  cases valid

theorem eq_of_mem_of_id_eq (s : ForkDatabase Hash) {b c : ForkBlock Hash} (bMember : b ∈ s.index)
    (cMember : c ∈ s.index) (sameId : b.id = c.id) : b = c :=
  List.inj_on_of_nodup_map s.idsUnique bMember cMember sameId

/-- What a run of removals keeps: the root and the head, a part of the index closed under
parents, and the head block when it was indexed. -/
structure Shrinks (s t : ForkDatabase Hash) : Prop where
  contained : ∀ b ∈ t.index, b ∈ s.index
  sameRoot : t.root = s.root
  sameHead : t.head = s.head
  parentsKept : ∀ b ∈ t.index, ∀ c ∈ s.index, c.id = b.previous → c ∈ t.index
  headKept : s.head ∈ s.index → s.head ∈ t.index

theorem Shrinks.refl (s : ForkDatabase Hash) : Shrinks s s :=
  ⟨fun _ member => member, rfl, rfl, fun _ _ _ cMember _ => cMember, id⟩

theorem Shrinks.trans {s t u : ForkDatabase Hash} (first : Shrinks s t) (second : Shrinks t u) :
    Shrinks s u where
  contained := fun b member => first.contained b (second.contained b member)
  sameRoot := second.sameRoot.trans first.sameRoot
  sameHead := second.sameHead.trans first.sameHead
  parentsKept := fun b member c cMember parent =>
    second.parentsKept b member c (first.parentsKept b (second.contained b member) c cMember parent)
      parent
  headKept := fun headMember => by
    have kept := first.headKept headMember
    rw [← first.sameHead] at kept ⊢
    exact second.headKept kept

variable [LinearOrder Hash]

/-! ### Lookups -/

theorem getBlock_eq_none {s : ForkDatabase Hash} {id : BlockId Hash}
    (missing : s.getBlock id = none) : ∀ b ∈ s.index, b.id ≠ id := by
  intro b member same
  unfold getBlock at missing
  have unmatched := List.find?_eq_none.mp missing b member
  exact unmatched (decide_eq_true same)

theorem getBlockHeader_eq_some {s : ForkDatabase Hash} {id : BlockId Hash} {p : ForkBlock Hash}
    (found : s.getBlockHeader id = some p) :
    (p = s.root ∧ s.root.id = id) ∨ (p ∈ s.index ∧ p.id = id) := by
  unfold getBlockHeader at found
  split at found
  · rename_i isRoot
    exact Or.inl ⟨(Option.some.inj found).symm, isRoot⟩
  · exact Or.inr (getBlock_eq_some found)

/-! ### The first block of the index -/

/-- A block that does not sort before `c` while being valid leaves `c` valid and at least as
preferred. -/
theorem preference_le_of_not_key_lt {b c : ForkBlock Hash} (valid : b.validated = true)
    (notBefore : ¬ libBlockNumKey b < libBlockNumKey c) :
    c.validated = true ∧ b.preference ≤ c.preference := by
  unfold libBlockNumKey at notBefore
  simp only [Prod.Lex.toLex_lt_toLex, OrderDual.toDual_lt_toDual, not_or, not_and] at notBefore
  have cValid : c.validated = true := by
    by_contra invalid
    rw [Bool.not_eq_true] at invalid
    rw [valid, invalid] at notBefore
    exact notBefore.1 Bool.false_lt_true
  refine ⟨cValid, not_lt.mp fun preferred => ?_⟩
  rw [valid, cValid] at notBefore
  exact (notBefore.2 rfl).1 preferred

theorem candidate_mem {s : ForkDatabase Hash} {c : ForkBlock Hash} (chosen : s.candidate = some c) :
    c ∈ s.index :=
  List.argmin_mem chosen

theorem candidate_exists {s : ForkDatabase Hash} {b : ForkBlock Hash} (member : b ∈ s.index) :
    ∃ c, s.candidate = some c := by
  unfold candidate
  cases chosen : s.index.argmin libBlockNumKey with
  | none => exact absurd (List.argmin_eq_none.mp chosen ▸ member) List.not_mem_nil
  | some c => exact ⟨c, rfl⟩

/-- **The first block of the index is the best valid block**: it is valid when any indexed block
is, and at least as preferred as every valid indexed block. -/
theorem candidate_preferred {s : ForkDatabase Hash} {c b : ForkBlock Hash}
    (chosen : s.candidate = some c) (member : b ∈ s.index) (valid : b.validated = true) :
    c.validated = true ∧ b.preference ≤ c.preference :=
  preference_le_of_not_key_lt valid (List.not_lt_of_mem_argmin member chosen)

/-- A block the first block of the index is not preferred over has no valid block preferred over
it. -/
theorem noValidPreferred_of_candidate {s : ForkDatabase Hash} {c block : ForkBlock Hash}
    (chosen : s.candidate = some c) (notPreferred : firstPreferred c block = false) :
    NoValidPreferred s.index block := by
  intro b member valid
  have below := (candidate_preferred chosen member valid).2
  unfold firstPreferred at notPreferred ⊢
  rw [decide_eq_false_iff_not, not_lt] at notPreferred ⊢
  exact below.trans notPreferred

/-! ### The head updates -/

@[simp] theorem adoptValidCandidate_index (s : ForkDatabase Hash) :
    s.adoptValidCandidate.index = s.index := by
  unfold adoptValidCandidate
  split
  · split <;> rfl
  · rfl

@[simp] theorem adoptValidCandidate_root (s : ForkDatabase Hash) :
    s.adoptValidCandidate.root = s.root := by
  unfold adoptValidCandidate
  split
  · split <;> rfl
  · rfl

/-- After `add`'s head update, either no indexed block is valid and the head is unchanged, or the
head is the best valid indexed block. -/
theorem adoptValidCandidate_head (s : ForkDatabase Hash) :
    (s.adoptValidCandidate.head = s.head ∧ ∀ b ∈ s.index, b.validated = false) ∨
      (s.adoptValidCandidate.head ∈ s.index ∧ s.adoptValidCandidate.head.validated = true ∧
        NoValidPreferred s.index s.adoptValidCandidate.head) := by
  unfold adoptValidCandidate
  split
  · rename_i c chosen
    split
    · rename_i valid
      exact Or.inr ⟨candidate_mem chosen, valid,
        noValidPreferred_of_candidate chosen (firstPreferred_self c)⟩
    · rename_i invalid
      refine Or.inl ⟨rfl, fun b member => ?_⟩
      by_contra valid
      rw [Bool.not_eq_false] at valid
      exact invalid (candidate_preferred chosen member valid).1
  · rename_i none
    refine Or.inl ⟨rfl, fun b member => ?_⟩
    obtain ⟨c, chosen⟩ := candidate_exists member
    rw [none] at chosen
    cases chosen

@[simp] theorem adoptPreferredCandidate_index (s : ForkDatabase Hash) :
    s.adoptPreferredCandidate.index = s.index := by
  unfold adoptPreferredCandidate
  split
  · split <;> rfl
  · rfl

@[simp] theorem adoptPreferredCandidate_root (s : ForkDatabase Hash) :
    s.adoptPreferredCandidate.root = s.root := by
  unfold adoptPreferredCandidate
  split
  · split <;> rfl
  · rfl

/-- After `mark_valid`'s head update, with some indexed block valid, the head is the old head or
the first block of the index, and no valid block is preferred over it. -/
theorem adoptPreferredCandidate_head {s : ForkDatabase Hash}
    (someValid : ∃ b ∈ s.index, b.validated = true) :
    (s.adoptPreferredCandidate.head = s.head ∨
        (s.adoptPreferredCandidate.head ∈ s.index ∧
          s.adoptPreferredCandidate.head.validated = true)) ∧
      NoValidPreferred s.index s.adoptPreferredCandidate.head := by
  obtain ⟨v, vMember, vValid⟩ := someValid
  obtain ⟨c, chosen⟩ := candidate_exists vMember
  have cValid := (candidate_preferred chosen vMember vValid).1
  unfold adoptPreferredCandidate
  rw [chosen]
  dsimp only
  split
  · exact ⟨Or.inr ⟨candidate_mem chosen, cValid⟩,
      noValidPreferred_of_candidate chosen (firstPreferred_self c)⟩
  · rename_i notPreferred
    exact ⟨Or.inl rfl, noValidPreferred_of_candidate chosen (by simpa using notPreferred)⟩

/-- Removing a set of ids closed under "built on" keeps the index linked. -/
theorem Linked.filter_closed {index : List (ForkBlock Hash)} {root : ForkBlock Hash}
    (linked : Linked index root) {removed : List (BlockId Hash)}
    (closed : ∀ b ∈ index, b.previous ∈ removed → b.id ∈ removed) :
    Linked (index.filter fun b => decide (b.id ∉ removed)) root := by
  intro b member
  rw [List.mem_filter, decide_eq_true_eq] at member
  rcases linked b member.1 with onRoot | ⟨c, cMember, parent⟩
  · exact Or.inl onRoot
  · refine Or.inr ⟨c, List.mem_filter.mpr ⟨cMember, decide_eq_true fun cRemoved => ?_⟩, parent⟩
    exact member.2 (closed b member.1 (parent ▸ cRemoved))

/-! ### One call of each mutator -/

theorem add_eq_ok {s s' : ForkDatabase Hash} {n : ForkBlock Hash} {ignoreDuplicate : Bool}
    (added : s.add n ignoreDuplicate = .ok s') :
    s' = s ∨ ∃ p fresh, s.getBlockHeader n.previous = some p ∧
      s' = (s.insertBlock n fresh).adoptValidCandidate := by
  unfold add at added
  split at added
  · cases added
  · rename_i p found
    split at added
    · split at added
      · exact Or.inl (Except.ok.inj added).symm
      · cases added
    · rename_i fresh
      exact Or.inr ⟨p, fresh, found, (Except.ok.inj added).symm⟩

/-- `add` links the new block to the root or to its indexed parent; the head moves to the best
valid block, or stays when no indexed block is valid. -/
theorem add_invariant {s s' : ForkDatabase Hash} {n : ForkBlock Hash} {ignoreDuplicate : Bool}
    (invariant : Invariant s) (added : s.add n ignoreDuplicate = .ok s') : Invariant s' := by
  rcases add_eq_ok added with rfl | ⟨p, fresh, found, rfl⟩
  · exact invariant
  have linked : Linked (s.index ++ [n]) s.root := by
    intro b member
    rcases List.mem_append.mp member with old | new
    · rcases invariant.linked b old with onRoot | ⟨c, cMember, parent⟩
      · exact Or.inl onRoot
      · exact Or.inr ⟨c, List.mem_append_left _ cMember, parent⟩
    · rw [List.mem_singleton.mp new]
      rcases getBlockHeader_eq_some found with ⟨_, onRoot⟩ | ⟨pMember, parent⟩
      · exact Or.inl onRoot.symm
      · exact Or.inr ⟨p, List.mem_append_left _ pMember, parent⟩
  refine .of_linked (by simpa [insertBlock] using linked) ?_ ?_
  all_goals
    simp only [adoptValidCandidate_root, adoptValidCandidate_index]
    rcases adoptValidCandidate_head (s.insertBlock n fresh) with ⟨same, invalid⟩ | best
  · rw [same]
    rcases invariant.headPlaced with isRoot | ⟨headMember, headValid⟩
    · exact Or.inl isRoot
    · have := invalid s.head (List.mem_append_left _ headMember)
      rw [headValid] at this
      cases this
  · exact Or.inr ⟨by simpa using best.1, best.2.1⟩
  · intro b member valid
    rw [invalid b (by simpa using member)] at valid
    cases valid
  · simpa using best.2.2

theorem markValid_eq_ok {s s' : ForkDatabase Hash} {h : ForkBlock Hash}
    (marked : s.markValid h = .ok s') :
    s' = s ∨ (h.id ∈ s.index.map ForkBlock.id ∧ s' = (s.markIndexed h.id).adoptPreferredCandidate) := by
  unfold markValid at marked
  split at marked
  · exact Or.inl (Except.ok.inj marked).symm
  · split at marked
    · cases marked
    · rename_i indexed
      exact Or.inr ⟨not_not.mp indexed, (Except.ok.inj marked).symm⟩

/-- `mark_valid` keeps the head when it is at least as preferred as every valid block, and moves
it to the first block of the index otherwise. -/
theorem markValid_invariant {s s' : ForkDatabase Hash} {h : ForkBlock Hash}
    (invariant : Invariant s) (marked : s.markValid h = .ok s') : Invariant s' := by
  rcases markValid_eq_ok marked with rfl | ⟨indexed, rfl⟩
  · exact invariant
  obtain ⟨target, targetMember, targetId⟩ := List.mem_map.mp indexed
  have someValid : ∃ b ∈ (s.markIndexed h.id).index, b.validated = true := by
    refine ⟨target.withValidated true, List.mem_map.mpr ⟨target, targetMember, ?_⟩, rfl⟩
    rw [if_pos targetId]
  obtain ⟨placed, preferred⟩ := adoptPreferredCandidate_head someValid
  have linked := invariant.linked.map (fun b => if b.id = h.id then b.withValidated true else b)
    (fun b => by split <;> rfl) fun b => by split <;> rfl
  refine .of_linked (by simpa [markIndexed, mapIndex] using linked) ?_ (by simpa using preferred)
  simp only [adoptPreferredCandidate_root, adoptPreferredCandidate_index]
  rcases placed with same | moved
  · rw [same]
    rcases invariant.headPlaced with isRoot | ⟨headMember, headValid⟩
    · exact Or.inl isRoot
    · refine Or.inr ⟨List.mem_map.mpr ⟨s.head, headMember, ?_⟩, headValid⟩
      split
      · rw [← headValid]
        exact ForkBlock.withValidated_self s.head
      · rfl
  · exact Or.inr ⟨by simpa using moved.1, moved.2⟩

/-- What a removal takes: `id`, every indexed block built on a removed one, and not the head. -/
theorem removeQueue_closed {s : ForkDatabase Hash} {id : BlockId Hash}
    {queue : List (BlockId Hash)} (collected : s.removeQueue id = some queue) :
    id ∈ queue ∧ s.head.id ∉ queue ∧ ∀ b ∈ s.index, b.previous ∈ queue → b.id ∈ queue := by
  obtain ⟨initial, closed⟩ := Worklist.drain_zero_closed collected
  refine ⟨initial (List.mem_singleton_self id), fun headQueued => ?_, fun b member queued => ?_⟩
  · exact of_decide_eq_true (closed s.head.id headQueued).1 rfl
  · refine (closed b.previous queued).2 b.id (List.mem_map_of_mem ?_)
    exact List.mem_filter.mpr ⟨member, decide_eq_true rfl⟩

theorem remove_eq_ok {s s' : ForkDatabase Hash} {id : BlockId Hash}
    (removed : s.remove id = .ok s') :
    ∃ queue, s.removeQueue id = some queue ∧
      s' = s.filterIndex fun b => decide (b.id ∉ queue) := by
  unfold remove at removed
  split at removed
  · rename_i queue collected
    exact ⟨queue, collected, (Except.ok.inj removed).symm⟩
  · cases removed

theorem remove_invariant {s s' : ForkDatabase Hash} {id : BlockId Hash}
    (invariant : Invariant s) (removed : s.remove id = .ok s') : Invariant s' := by
  obtain ⟨queue, collected, rfl⟩ := remove_eq_ok removed
  obtain ⟨_, headKept, closed⟩ := removeQueue_closed collected
  refine .of_linked (invariant.linked.filter_closed closed) ?_
    (invariant.headPreferred.mono fun _ member => List.mem_of_mem_filter member)
  rcases invariant.headPlaced with isRoot | ⟨headMember, headValid⟩
  · exact Or.inl isRoot
  · exact Or.inr ⟨List.mem_filter.mpr ⟨headMember, decide_eq_true headKept⟩, headValid⟩

/-! ### `advance_root` -/

/-- One removal shrinks the database, was not asked to remove the head, and leaves no block built
on the id it removed. -/
theorem remove_shrinks {s t : ForkDatabase Hash} {id : BlockId Hash}
    (removed : s.remove id = .ok t) :
    Shrinks s t ∧ id ≠ s.head.id ∧ ∀ b ∈ t.index, b.previous ≠ id := by
  obtain ⟨queue, collected, rfl⟩ := remove_eq_ok removed
  obtain ⟨idQueued, headKept, closed⟩ := removeQueue_closed collected
  refine ⟨⟨fun _ member => List.mem_of_mem_filter member, rfl, rfl, ?_, ?_⟩, ?_, ?_⟩
  · intro b member c cMember parent
    rw [filterIndex, List.mem_filter, decide_eq_true_eq] at member ⊢
    exact ⟨cMember, fun cQueued => member.2 (closed b member.1 (parent ▸ cQueued))⟩
  · exact fun headMember => List.mem_filter.mpr ⟨headMember, decide_eq_true headKept⟩
  · exact fun same => headKept (same ▸ idQueued)
  · intro b member onRemoved
    rw [filterIndex, List.mem_filter, decide_eq_true_eq] at member
    exact member.2 (closed b member.1 (onRemoved ▸ idQueued))

theorem shrinks_of_run {s t : ForkDatabase Hash}
    (run : Relation.ReflTransGen (Transition.LoopStep fun db blockId => db.remove blockId) s t) :
    Shrinks s t := by
  induction run with
  | refl => exact Shrinks.refl s
  | tail _ pass inductionHypothesis =>
    obtain ⟨_, removed⟩ := pass
    exact inductionHypothesis.trans (remove_shrinks removed).1

/-- The ids `advance_root` collects end with the root's. -/
theorem root_mem_previousIds {s : ForkDatabase Hash} {b : ForkBlock Hash}
    {ids : List (BlockId Hash)} (collected : s.previousIds b = .ok ids) : s.root.id ∈ ids := by
  induction numbered : b.blockNum using Nat.strong_induction_on generalizing b ids with
  | _ number inductionHypothesis =>
    rw [previousIds] at collected
    split at collected
    · rename_i parent found
      obtain ⟨rest, restCollected, rfl⟩ := Transition.map_eq_ok.mp collected
      have lower : parent.blockNum < number := by
        rw [← numbered, getBlock_blockNum found, ← b.previousBlockNum]
        exact Nat.lt_succ_self _
      exact List.mem_cons_of_mem _ (inductionHypothesis _ lower restCollected rfl)
    · split at collected
      · rename_i onRoot
        rw [← Except.ok.inj collected, onRoot]
        exact List.mem_singleton_self _
      · cases collected

theorem advanceRoot_eq_ok {s s' : ForkDatabase Hash} {id : BlockId Hash}
    (advanced : s.advanceRoot id = .ok s') :
    ∃ newRoot blocksToRemove removed, s.getBlock id = some newRoot ∧
      s.previousIds newRoot = .ok blocksToRemove ∧
      blocksToRemove.foldlM (fun db blockId => db.remove blockId)
        (s.filterIndex fun b => decide (b.id ≠ id)) = .ok removed ∧
      s' = { removed with root := newRoot } := by
  unfold advanceRoot at advanced
  split at advanced
  · cases advanced
  · rename_i newRoot found
    split at advanced
    · cases advanced
    · obtain ⟨blocksToRemove, collected, rest⟩ := Transition.bind_eq_ok.mp advanced
      obtain ⟨removed, looped, finished⟩ := Transition.bind_eq_ok.mp rest
      exact ⟨newRoot, blocksToRemove, removed, found, collected, looped,
        (Except.ok.inj finished).symm⟩

/-- `advance_root` keeps the blocks built on the new root, each with its parent, removes every
other block, and keeps the head, which becomes the root when it is the new root. -/
theorem advanceRoot_invariant {s s' : ForkDatabase Hash} {id : BlockId Hash}
    (invariant : Invariant s) (advanced : s.advanceRoot id = .ok s') : Invariant s' := by
  obtain ⟨newRoot, blocksToRemove, removed, found, collected, looped, rfl⟩ :=
    advanceRoot_eq_ok advanced
  obtain ⟨newRootMember, newRootId⟩ := getBlock_eq_some found
  have shrinks := shrinks_of_run (Transition.foldlM_eq_ok_run looped)
  -- every collected id was removed by one pass of the loop, with its children
  have orphaned : ∀ x ∈ blocksToRemove, x ≠ s.head.id ∧ ∀ b ∈ removed.index, b.previous ≠ x := by
    intro x member
    obtain ⟨before, after, reached, pass, finished⟩ := Transition.foldlM_eq_ok_of_mem looped member
    obtain ⟨_, notHead, noChild⟩ := remove_shrinks pass
    have headBefore := (shrinks_of_run reached).sameHead
    refine ⟨by rwa [headBefore] at notHead, fun b member => ?_⟩
    exact noChild b ((shrinks_of_run finished).contained b member)
  have kept : ∀ b ∈ removed.index, b ∈ s.index ∧ b.id ≠ id := by
    intro b member
    have erased := shrinks.contained b member
    rw [filterIndex, List.mem_filter, decide_eq_true_eq] at erased
    exact erased
  refine .of_linked ?_ ?_ ?_
  · intro b member
    rcases invariant.linked b (kept b member).1 with onRoot | ⟨c, cMember, parent⟩
    · exact absurd onRoot ((orphaned _ (root_mem_previousIds collected)).2 b member)
    · by_cases isNewRoot : c.id = id
      · rw [s.eq_of_mem_of_id_eq cMember newRootMember (isNewRoot.trans newRootId.symm)] at parent
        exact Or.inl parent.symm
      · have cErased : c ∈ (s.filterIndex fun b => decide (b.id ≠ id)).index :=
          List.mem_filter.mpr ⟨cMember, decide_eq_true isNewRoot⟩
        exact Or.inr ⟨c, shrinks.parentsKept b member c cErased parent, parent⟩
  · show removed.head = newRoot ∨ (removed.head ∈ removed.index ∧ removed.head.validated = true)
    rw [shrinks.sameHead]
    rcases invariant.headPlaced with isRoot | ⟨headMember, headValid⟩
    · -- the old root's id is collected, and removing it would remove the head
      have notHead := (orphaned _ (root_mem_previousIds collected)).1
      rw [isRoot] at notHead
      exact absurd rfl notHead
    · by_cases isNewRoot : s.head.id = id
      · exact Or.inl (s.eq_of_mem_of_id_eq headMember newRootMember (isNewRoot.trans newRootId.symm))
      · have headErased : s.head ∈ (s.filterIndex fun b => decide (b.id ≠ id)).index :=
          List.mem_filter.mpr ⟨headMember, decide_eq_true isNewRoot⟩
        exact Or.inr ⟨shrinks.headKept headErased, headValid⟩
  · show NoValidPreferred removed.index removed.head
    rw [shrinks.sameHead]
    exact invariant.headPreferred.mono fun b member => (kept b member).1

/-! ### Runs -/

theorem Invariant.step {s s' : ForkDatabase Hash} (invariant : Invariant s) (stepped : Step s s') :
    Invariant s' := by
  cases stepped with
  | add n ignoreDuplicate added => exact add_invariant invariant added
  | markValid h marked => exact markValid_invariant invariant marked
  | remove id removed => exact remove_invariant invariant removed
  | rollbackHeadToRoot => exact rollbackHeadToRoot_invariant invariant
  | advanceRoot id advanced => exact advanceRoot_invariant invariant advanced

/-- **The fork database invariant holds at every state reached from `reset`**: every indexed block
builds on the root or on another indexed block and has a higher block number than the root, and
the head is either the root, with no valid indexed block preferred over it, or a valid indexed
block over which no valid indexed block is preferred. -/
theorem reachable_forkInvariant {s : ForkDatabase Hash} (reachable : Reachable s) : Invariant s := by
  refine Transition.Reachable.invariant Invariant (fun start isReset => ?_)
    (fun _ _ invariant stepped => invariant.step stepped) reachable
  obtain ⟨rootBhs, rfl⟩ := isReset
  exact reset_invariant rootBhs

namespace Run

/-- The blocks of a run: the root 1, blocks 2 and 3 on it, and a fork 3' on 2 with a lower
irreversible block. -/
def block1 : ForkBlock Nat := ⟨⟨1, 1⟩, ⟨0, 0⟩, 1, 0, false, rfl, rfl⟩
def block2 : ForkBlock Nat := ⟨⟨2, 2⟩, ⟨1, 1⟩, 2, 1, false, rfl, rfl⟩
def block3 : ForkBlock Nat := ⟨⟨3, 3⟩, ⟨2, 2⟩, 3, 2, false, rfl, rfl⟩
def fork3 : ForkBlock Nat := ⟨⟨3, 4⟩, ⟨2, 2⟩, 3, 1, false, rfl, rfl⟩

end Run

/-- A run through every mutator from the root block 1: blocks 2 and 3 and the fork 3' are added,
2 and 3 validated, the fork removed, the root advanced to 2, and the head rolled back to it. -/
theorem forkRun_forkInvariant :
    ∃ s : ForkDatabase Nat, Reachable s ∧ s.root.id = ⟨2, 2⟩ ∧ s.head.id = ⟨2, 2⟩ ∧
      s.index.map ForkBlock.id = [⟨3, 3⟩] ∧ Invariant s := by
  have started : Reachable (reset Run.block1) := Transition.Reachable.of_initial ⟨_, rfl⟩
  have added := ((started.step (Step.add Run.block2 false rfl)).step
    (Step.add Run.block3 false rfl)).step (Step.add Run.fork3 false rfl)
  have validated := (added.step (Step.markValid Run.block2 rfl)).step
    (Step.markValid Run.block3 rfl)
  have removed := validated.step (Step.remove Run.fork3.id rfl)
  -- `previous_ids` recurses on the block number, so its one pass is unfolded by hand
  have advanced := removed.step
    (Step.advanceRoot Run.block2.id (by unfold advanceRoot previousIds; exact rfl))
  have rolledBack := advanced.step (Step.rollbackHeadToRoot _)
  exact ⟨_, rolledBack, rfl, rfl, rfl, reachable_forkInvariant rolledBack⟩

end ForkDatabase

end Eosio.Chain
