import DreamWorld.Proofs.Tree.PathCoherence
import DreamWorld.Proofs.Tree.Worklist

/-!
# Descendants, paths and inheritance

The descendants of a class, without branches, are the classes whose names go on from the names
that lead to it.  If all names are plain, these are the classes whose paths lie below its path.
With branches, everything that inherits from a class is among its descendants.
-/

namespace DreamWorld.Tree

open Document (ClassRecord PlacedRecord)
open Document.ClassRecord (graveyardDocument)

variable {tree : Tree} {done : List PlacedRecord} {id other : EntryId} {names : List String}

namespace Represents

variable (holds : tree.Represents done)

include holds

/-- Steps down within classes go on from the names that lead to a class. -/
theorem leadsTo_false_iff (found : tree.find? names = some id) :
    tree.LeadsTo false id other ↔ ∃ more, tree.find? (names ++ more) = some other := by
  constructor
  · intro leads
    induction leads with
    | refl => exact ⟨[], by rwa [List.append_nil]⟩
    | tail _ step ih =>
        rcases ih with ⟨more, middleFound⟩
        rcases step with within | ⟨withBranches, _⟩
        · rcases holds.mem_childIds_iff_child?.mp within with ⟨name, childFound⟩
          refine ⟨more ++ [name], ?_⟩
          rw [← List.append_assoc]
          exact find?_append_singleton_eq_some_iff.mpr ⟨_, middleFound, childFound⟩
        · cases withBranches
  · rintro ⟨more, otherFound⟩
    induction more using List.reverseRecOn generalizing other with
    | nil =>
        rw [List.append_nil, found] at otherFound
        cases otherFound
        exact .refl
    | append_singleton more name ih =>
        rw [← List.append_assoc] at otherFound
        rcases find?_append_singleton_eq_some_iff.mp otherFound with
          ⟨middle, middleFound, childFound⟩
        exact (ih middleFound).tail
          (.inl (holds.mem_childIds_iff_child?.mpr ⟨name, childFound⟩))

end Represents

/-- Steps down, where branches count, lead to everything that derived children lead to. -/
theorem leadsTo_of_derivedChildren
    (derives : Relation.ReflTransGen (fun parent child => child ∈ tree.derivedChildren parent)
      id other) : tree.LeadsTo true id other := by
  have stepsDown : (fun parent child => child ∈ tree.derivedChildren parent) ≤
      tree.StepsDown true := by
    intro parent child derived
    rcases Represents.mem_derivedChildren_iff_mem.mp derived with ⟨within, _⟩ | branch
    · exact .inl within
    · exact .inr ⟨rfl, branch⟩
  exact Relation.ReflTransGen.mono stepsDown _ _ derives

variable {document : ClassRecord}

/-- The bare root of the first world carries the document that has no class within it. -/
theorem Produced.exists_carries (produced : Produced document tree) :
    ∃ (σ : Type) (loader : ResourceLoader σ) (firstClass : ClassId),
      Carries loader firstClass document tree (document.placedWithin 0) := by
  cases produced with
  | start =>
      have members : ((Definition.below 0 Path.root none).loadMembers (fileLoader "res")
          { name := "" }).run {} = (.ok (Definition.below 0 Path.root none), {}) := rfl
      exact ⟨_, fileLoader "res", 0, .single members⟩
  | loaded run => exact ⟨_, _, _, carries_of_loadRecord run⟩

/-- Plain names lead to an entry of the path that they spell. -/
theorem Carries.path_eq_of_isPlain {σ : Type} {loader : ResourceLoader σ} {firstClass : ClassId}
    (carries : Carries loader firstClass document tree (document.placedWithin 0))
    (plain : ∀ place inner, 0 < place → document.preorder[place]? = some inner →
      Path.IsPlain inner.name) {record : ClassRecord} (reached : document.Reaches names id record) :
    (tree.entryAt id).path = ⟨.absolute, names⟩ := by
  have spelled := (Path.elements_spelled_eq_iff names).mpr (isPlain_of_mem_names reached plain)
  rw [carries.path_eq (List.prefix_refl _) reached (carries.lt_size_of_reaches reached)]
  exact congrArg₂ Path.mk (Path.kind_spelled names) spelled

/-- If all names within the document are plain, steps down within classes lead from a class to
the classes whose paths lie below its path. -/
theorem Carries.leadsTo_false_iff_liesBelow {σ : Type} {loader : ResourceLoader σ}
    {firstClass : ClassId}
    (carries : Carries loader firstClass document tree (document.placedWithin 0))
    (plain : ∀ place inner, 0 < place → document.preorder[place]? = some inner →
      Path.IsPlain inner.name) (inRange : id < tree.size) (otherLt : other < tree.size) :
    tree.LeadsTo false id other ↔
      (tree.entryAt other).path.liesBelow (tree.entryAt id).path = true := by
  rcases carries.exists_reaches_of_lt_size inRange with ⟨names, record, reached⟩
  rcases carries.exists_reaches_of_lt_size otherLt with ⟨otherNames, otherRecord, otherReached⟩
  have found := carries.find?_eq_some_iff_reaches.mpr ⟨record, reached⟩
  rw [carries.path_eq_of_isPlain plain reached, carries.path_eq_of_isPlain plain otherReached,
    carries.represents.leadsTo_false_iff found, Path.liesBelow, beq_self_eq_true, Bool.true_and,
    List.isPrefixOf_iff_prefix]
  constructor
  · rintro ⟨more, moreFound⟩
    rcases carries.find?_eq_some_iff_reaches.mp moreFound with ⟨_, moreReached⟩
    exact ⟨more, (moreReached.unique otherReached).1⟩
  · rintro ⟨more, rfl⟩
    exact ⟨more, carries.find?_eq_some_iff_reaches.mpr ⟨otherRecord, otherReached⟩⟩

/-- In any tree of a world take a number and say whether branches and the entry itself are to
count.  A walk by a worklist from there comes to an end, in whatever order it meets the entries
below another one, and what it has listed at its end, put in order, are the descendants.  These
are in strictly ascending order, and they are the entries that steps down lead to, the entry
itself only if it is to count.  A number that the tree is too small for has none.  If all names
within the document are plain, the descendants of an entry within it, and the entry itself, are
the entries whose paths lie below its path.  Whatever the names are, the descendants that may go
through branches hold everything that derived children lead to. -/
theorem Produced.descendants_spec (produced : Produced document tree) (id : EntryId)
    (withBranches inclusive : Bool) :
    Walk.Finds tree id withBranches inclusive (tree.descendants id withBranches inclusive) ∧
    (tree.descendants id withBranches inclusive).Pairwise (· < ·) ∧
    (∀ other, other ∈ tree.descendants id withBranches inclusive ↔
      other < tree.size ∧ tree.LeadsTo withBranches id other ∧
        (inclusive = true ∨ other ≠ id)) ∧
    (tree.size ≤ id → tree.descendants id withBranches inclusive = []) ∧
    (id < tree.size →
      ((∀ place inner, 0 < place → document.preorder[place]? = some inner →
          Path.IsPlain inner.name) →
        ∀ other, other ∈ tree.descendants id false true ↔ other < tree.size ∧
          (tree.entryAt other).path.liesBelow (tree.entryAt id).path = true) ∧
      ∀ other,
        Relation.ReflTransGen (fun parent child => child ∈ tree.derivedChildren parent) id other →
        other ∈ tree.descendants id true true) := by
  have holds := produced.represents
  refine ⟨Walk.finds_descendants holds id withBranches inclusive,
    pairwise_descendants tree id withBranches inclusive,
    fun _ => holds.mem_descendants_iff_lt,
    fun outside => (lacks_iff.mpr outside).descendants_eq_nil withBranches inclusive, ?_⟩
  intro inRange
  constructor
  · intro plain other
    rcases produced.exists_carries with ⟨_, _, _, carries⟩
    rw [holds.mem_descendants_iff_lt]
    exact and_congr_right fun otherLt => (and_iff_left (.inl rfl)).trans
      (carries.leadsTo_false_iff_liesBelow plain inRange otherLt)
  · intro other derives
    exact (holds.mem_descendants_inclusive_iff inRange).mpr
      (leadsTo_of_derivedChildren derives)

/-- The class that inherits from elsewhere lies below the class that it lies in, and below the one
that it inherits from only where branches count. -/
theorem Produced.descendants_spec_graveyardDocument :
    let tree := (World.start.loadRecord (fileLoader "res") graveyardDocument {}).2.1.tree
    Produced graveyardDocument tree ∧ 3 ∈ tree.descendants 2 false true ∧
      3 ∉ tree.descendants 1 false true ∧ 3 ∈ tree.descendants 1 true true := by
  intro tree
  have loaded : World.start.loadRecord (fileLoader "res") graveyardDocument {} =
      (.ok (), (World.start.loadRecord (fileLoader "res") graveyardDocument {}).2) := rfl
  have produced : Produced graveyardDocument tree := .loaded loaded
  have plain : ∀ place inner, 0 < place → graveyardDocument.preorder[place]? = some inner →
      Path.IsPlain inner.name := isPlain_of_preorder_tail (by decide)
  obtain ⟨_, _, _, _, fighter⟩ := produced.descendants_spec 1 true true
  obtain ⟨_, _, _, _, grave⟩ := produced.descendants_spec 2 false true
  have fighterBelow := (fighter (by decide)).1 plain 3
  have graveBelow := (grave (by decide)).1 plain 3
  refine ⟨produced, graveBelow.mpr (by decide), ?_, ?_⟩
  · rw [fighterBelow]
    decide
  · have derived : 3 ∈ tree.derivedChildren 1 :=
      produced.represents.mem_derivedChildren_iff_parent.mpr ⟨by decide, rfl⟩
    exact (fighter (by decide)).2 3 (.single derived)

end DreamWorld.Tree
