import DreamWorld.Proofs.Tree.Inheritance
import Mathlib.Data.Set.Card
import Mathlib.Logic.Relation

/-!
# What lies below a class

A step down leads from a class to one directly within it or, where branches count, to one
of its branches.  Every step down leads to a greater number, so a single pass over the
numbers in their order marks exactly the classes that steps down lead to.  Where branches
count, these steps lead from a class to everything that inherits from it.
-/

namespace DreamWorld.Tree

open Document (ClassRecord PlacedRecord)

/-- A step down leads from an entry to another one. -/
def StepsDown (tree : Tree) (withBranches : Bool) (id child : EntryId) : Prop :=
  child ∈ tree.childIds id ∨ withBranches = true ∧ child ∈ tree.branchIds id

/-- Steps down, of any number, lead from an entry to another one. -/
def LeadsTo (tree : Tree) (withBranches : Bool) : EntryId → EntryId → Prop :=
  Relation.ReflTransGen (tree.StepsDown withBranches)

/-- Steps to the parent, of any number, lead from an entry to another one. -/
def Inherits (tree : Tree) : EntryId → EntryId → Prop :=
  Relation.ReflTransGen fun id parent => (tree.entryAt id).parent = some parent

variable {tree : Tree} {done : List PlacedRecord} {withBranches : Bool} {id other child : EntryId}

theorem mem_below_iff :
    child ∈ tree.below withBranches id ↔ tree.StepsDown withBranches id child := by
  unfold below StepsDown childIds branchIds
  cases tree.get? id with
  | none => simp
  | some entry => cases withBranches <;> simp

namespace Represents

/-- Every step down leads to a greater number. -/
theorem lt_of_stepsDown (holds : tree.Represents done)
    (step : tree.StepsDown withBranches id child) : id < child ∧ child < tree.size := by
  rcases step with within | ⟨_, branch⟩
  · rcases holds.mem_childIds_iff.mp within with ⟨index, record, listed, rfl⟩
    exact ⟨Nat.lt_succ_of_le (holds.outer_le listed), (holds.positive_of_mem_childIds within).2⟩
  · rcases holds.positive_of_mem_branchIds branch with ⟨positive, inRange⟩
    obtain ⟨_, _, parent, _, _, parentLt, _, _, _, branchIff⟩ := holds.exists_links positive inRange
    rcases (branchIff id).mp branch with ⟨_, rfl⟩
    exact ⟨parentLt, inRange⟩

theorem lt_size_of_leadsTo (holds : tree.Represents done) (inRange : id < tree.size)
    (leads : tree.LeadsTo withBranches id other) : other < tree.size := by
  cases leads with
  | refl => exact inRange
  | tail _ step => exact (holds.lt_of_stepsDown step).2

/-- The last step down comes from a smaller number. -/
theorem leadsTo_iff (holds : tree.Represents done) :
    tree.LeadsTo withBranches id other ↔ other = id ∨
      ∃ parent, parent < other ∧ tree.LeadsTo withBranches id parent ∧
        tree.StepsDown withBranches parent other := by
  constructor
  · intro leads
    cases leads with
    | refl => exact .inl rfl
    | tail before step => exact .inr ⟨_, (holds.lt_of_stepsDown step).1, before, step⟩
  · rintro (rfl | ⟨parent, _, before, step⟩)
    · exact .refl
    · exact before.tail step

end Represents

/-! ## Marking -/

theorem getD_setIfInBounds (marks : Array Bool) (id other : Nat) :
    (marks.setIfInBounds id true).getD other false = true ↔
      other = id ∧ other < marks.size ∨ marks.getD other false = true := by
  rw [Array.getD_eq_getD_getElem?, Array.getD_eq_getD_getElem?, Array.getElem?_setIfInBounds]
  by_cases same : id = other
  · subst same
    by_cases inBounds : id < marks.size
    · simp [inBounds]
    · simp [inBounds]
  · simp [same, Ne.symm same]

theorem size_foldl_setIfInBounds (children : List Nat) (marks : Array Bool) :
    (children.foldl (fun marks child => marks.setIfInBounds child true) marks).size =
      marks.size := by
  induction children generalizing marks with
  | nil => rfl
  | cons child rest ih => exact (ih _).trans Array.size_setIfInBounds

theorem getD_foldl_setIfInBounds (children : List Nat) (marks : Array Bool) (other : Nat) :
    (children.foldl (fun marks child => marks.setIfInBounds child true) marks).getD other
        false = true ↔
      other ∈ children ∧ other < marks.size ∨ marks.getD other false = true := by
  induction children generalizing marks with
  | nil => simp
  | cons child rest ih =>
      rw [List.foldl_cons, ih, Array.size_setIfInBounds, getD_setIfInBounds, List.mem_cons,
        ← or_assoc, or_and_right, or_comm (a := _ ∧ _)]

theorem size_markBelow (marks : Array Bool) :
    (tree.markBelow withBranches marks id).size = marks.size := by
  unfold markBelow
  split
  · exact size_foldl_setIfInBounds _ marks
  · rfl

theorem getD_markBelow (marks : Array Bool) :
    (tree.markBelow withBranches marks id).getD other false = true ↔
      (marks.getD id false = true ∧ tree.StepsDown withBranches id other ∧ other < marks.size) ∨
        marks.getD other false = true := by
  unfold markBelow
  split
  · rename_i marked
    rw [getD_foldl_setIfInBounds, mem_below_iff]
    simp only [marked, true_and]
  · rename_i unmarked
    simp [unmarked]

namespace Represents

/-- After the pass has gone through some numbers, a mark stands at the start and one step
below each of these numbers that steps down lead to. -/
private theorem getD_foldl_markBelow (holds : tree.Represents done) (inRange : id < tree.size)
    (count : Nat) :
    let marks := (List.range count).foldl (tree.markBelow withBranches)
      ((Array.replicate tree.size false).setIfInBounds id true)
    marks.size = tree.size ∧ ∀ other, marks.getD other false = true ↔ other = id ∨
      ∃ parent, parent < count ∧ tree.LeadsTo withBranches id parent ∧
        tree.StepsDown withBranches parent other := by
  induction count with
  | zero =>
      refine ⟨by simp, fun other => ?_⟩
      have unmarked : (Array.replicate tree.size false).getD other false = false := by
        rw [Array.getD_eq_getD_getElem?, Array.getElem?_replicate]
        split <;> rfl
      rw [List.range_zero, List.foldl_nil, getD_setIfInBounds, unmarked, Array.size_replicate]
      constructor
      · rintro (⟨rfl, _⟩ | marked)
        · exact .inl rfl
        · cases marked
      · rintro (rfl | ⟨_, before, _⟩)
        · exact .inl ⟨rfl, inRange⟩
        · exact absurd before (Nat.not_lt_zero _)
  | succ count ih =>
      rcases ih with ⟨sizeEq, marked⟩
      simp only [List.range_succ, List.foldl_append, List.foldl_cons, List.foldl_nil]
      refine ⟨size_markBelow _ |>.trans sizeEq, fun other => ?_⟩
      -- The number that is gone through now has its final mark already.
      rw [getD_markBelow, marked, marked, ← holds.leadsTo_iff, sizeEq]
      constructor
      · rintro (⟨leads, step, _⟩ | rfl | ⟨parent, before, leads, step⟩)
        · exact .inr ⟨count, Nat.lt_succ_self count, leads, step⟩
        · exact .inl rfl
        · exact .inr ⟨parent, Nat.lt_succ_of_lt before, leads, step⟩
      · rintro (rfl | ⟨parent, before, leads, step⟩)
        · exact .inr (.inl rfl)
        · rcases Nat.lt_succ_iff_lt_or_eq.mp before with earlier | rfl
          · exact .inr (.inr ⟨parent, earlier, leads, step⟩)
          · exact .inl ⟨leads, step, (holds.lt_of_stepsDown step).2⟩

/-- The pass marks what steps down lead to. -/
theorem getD_reached (holds : tree.Represents done) (inRange : id < tree.size)
    (otherLt : other < tree.size) :
    (tree.reached withBranches id).getD other false = true ↔
      tree.LeadsTo withBranches id other := by
  rw [reached, (holds.getD_foldl_markBelow inRange tree.size).2, holds.leadsTo_iff]
  constructor
  · rintro (rfl | ⟨parent, _, leads, step⟩)
    · exact .inl rfl
    · exact .inr ⟨parent, (holds.lt_of_stepsDown step).1, leads, step⟩
  · rintro (rfl | ⟨parent, before, leads, step⟩)
    · exact .inl rfl
    · exact .inr ⟨parent, Nat.lt_trans before otherLt, leads, step⟩

/-! ## Descendants -/

/-- The descendants of an entry are what steps down lead to from it, the entry itself only
if it is to count. -/
theorem mem_descendants_iff (holds : tree.Represents done) (inRange : id < tree.size)
    {inclusive : Bool} :
    other ∈ tree.descendants id withBranches inclusive ↔
      tree.LeadsTo withBranches id other ∧ (inclusive = true ∨ other ≠ id) := by
  unfold descendants
  rw [List.mem_filter, List.mem_range, Bool.and_eq_true, Bool.or_eq_true, bne_iff_ne]
  constructor
  · rintro ⟨otherLt, marked, counts⟩
    exact ⟨(holds.getD_reached inRange otherLt).mp marked, counts⟩
  · rintro ⟨leads, counts⟩
    have otherLt := holds.lt_size_of_leadsTo inRange leads
    exact ⟨otherLt, (holds.getD_reached inRange otherLt).mpr leads, counts⟩

/-- If the entry itself counts, all that steps down lead to are its descendants. -/
theorem mem_descendants_inclusive_iff (holds : tree.Represents done) (inRange : id < tree.size) :
    other ∈ tree.descendants id withBranches true ↔ tree.LeadsTo withBranches id other := by
  rw [holds.mem_descendants_iff inRange, and_iff_left (.inl rfl)]

theorem descendants_nodup (tree : Tree) (id : EntryId) (withBranches inclusive : Bool) :
    (tree.descendants id withBranches inclusive).Nodup :=
  List.nodup_range.filter _

/-- There are as many descendants, the entry itself among them, as steps down lead to. -/
theorem length_descendants (holds : tree.Represents done) (inRange : id < tree.size) :
    (tree.descendants id withBranches true).length =
      {other | other < tree.size ∧ tree.LeadsTo withBranches id other}.ncard := by
  have sameEntries : {other | other < tree.size ∧ tree.LeadsTo withBranches id other} =
      ((tree.descendants id withBranches true).toFinset : Set EntryId) := by
    ext other
    rw [List.coe_toFinset, Set.mem_ofPred_eq, Set.mem_ofPred_eq,
      holds.mem_descendants_inclusive_iff inRange,
      and_iff_right_of_imp (holds.lt_size_of_leadsTo inRange)]
  rw [sameEntries, Set.ncard_coe_finset,
    List.toFinset_card_of_nodup (descendants_nodup tree id withBranches true)]

/-! ## Inheritance goes down -/

/-- A class lies one step below its parent, as a class within it or as a branch. -/
theorem stepsDown_of_parent (holds : tree.Represents done) (inRange : child < tree.size)
    (parentEq : (tree.entryAt child).parent = some id) : tree.StepsDown true id child := by
  have derived := holds.mem_derivedChildren_iff_parent.mpr ⟨inRange, parentEq⟩
  rcases mem_derivedChildren_iff_mem.mp derived with ⟨within, _⟩ | branch
  · exact .inl within
  · exact .inr ⟨rfl, branch⟩

/-- Steps down lead to a class from everything that it inherits from. -/
theorem leadsTo_of_inherits (holds : tree.Represents done) (inRange : other < tree.size)
    (inherits : tree.Inherits other id) : tree.LeadsTo true id other := by
  induction inherits using Relation.ReflTransGen.head_induction_on with
  | refl => exact .refl
  | @head child parent link _ ih =>
      have parentLt := holds.parent_lt_size inRange parent link
      exact (ih parentLt).tail (holds.stepsDown_of_parent inRange link)

end Represents

end DreamWorld.Tree
