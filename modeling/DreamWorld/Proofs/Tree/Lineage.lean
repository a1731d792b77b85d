import DreamWorld.Proofs.Document.Lineage
import DreamWorld.Proofs.Tree.Acceptance
import DreamWorld.Proofs.Tree.Inheritance

/-!
# Lineages of classes

The parent of an entry is the entry of the record that its own record inherits from.
So a class has exactly one lineage, and the class bodies that its definition goes
through are those of the records of this lineage, in their order.
-/

namespace DreamWorld.Tree

open Document (ClassRecord PlacedRecord)

variable {σ : Type} {loader : ResourceLoader σ} {firstClass : ClassId} {tree : Tree}
  {document : ClassRecord} {place parent : Nat} {lineage : List (Nat × ClassRecord)}

/-- The parent of an entry is the entry of the record that its own record inherits
from. -/
theorem Represents.inheritsFrom_iff (holds : tree.Represents (document.placedWithin 0))
    (inRange : place < tree.size) :
    document.InheritsFrom place parent ↔ (tree.entryAt place).parent = some parent := by
  cases place with
  | zero =>
      have unlinked := (holds.root_unlinked (get?_entryAt inRange)).1
      rw [show (tree.entryAt 0).parent = none from unlinked]
      constructor
      · intro inherits
        exact absurd inherits.lt (Nat.not_lt_zero parent)
      · rintro ⟨⟩
  | succ index =>
      have inList : index < (document.placedWithin 0).length := by
        rw [holds.size_eq] at inRange
        exact Nat.lt_of_succ_lt_succ inRange
      have someListed : ∃ outer record, (document.placedWithin 0)[index]? = some ⟨outer, record⟩ :=
        ⟨_, _, List.getElem?_eq_getElem inList⟩
      rcases someListed with ⟨outer, record, listed⟩
      have within := ClassRecord.getElem?_placed_eq_some_iff.mp listed
      rcases holds.linked_parent listed with ⟨named, entry, resolved, namedLe, found, parentEq, _⟩
      rw [entryAt_of_get? found, parentEq, Option.some.injEq]
      constructor
      · intro inherits
        cases inherits with
        | enclosing otherWithin unnamed =>
            rcases within.unique otherWithin with ⟨rfl, rfl⟩
            rw [namedParent_eq_ok_none_iff.mpr unnamed] at resolved
            cases resolved
            rfl
        | named otherWithin resolves =>
            rcases within.unique otherWithin with ⟨rfl, rfl⟩
            obtain ⟨text, ancestor, textEq, absolute, before, reached⟩ := resolves
            have later : document.Resolves tree.size record parent :=
              ⟨text, ancestor, textEq, absolute, Nat.lt_trans before inRange, reached⟩
            rw [(holds.namedParent_eq_some_iff (List.prefix_refl _)).mpr later] at resolved
            cases resolved
            rfl
      · rintro rfl
        cases named with
        | none => exact .enclosing within (namedParent_eq_ok_none_iff.mp resolved)
        | some target =>
            obtain ⟨text, ancestor, textEq, absolute, _, reached⟩ :=
              (holds.namedParent_eq_some_iff (List.prefix_refl _)).mp resolved
            exact .named within
              ⟨text, ancestor, textEq, absolute, Nat.lt_succ_of_le (namedLe target rfl), reached⟩

namespace Carries

variable (carries : Carries loader firstClass document tree (document.placedWithin 0))

include carries

theorem lt_size_of_getElem? {record : ClassRecord}
    (listed : document.preorder[place]? = some record) : place < tree.size := by
  rw [carries.size_eq_length_preorder]
  exact (List.getElem?_eq_some_iff.mp listed).1

/-- A record of the document has an entry that is built from it. -/
theorem exists_builtFrom {record : ClassRecord} (listed : document.preorder[place]? = some record) :
    ∃ path, BuiltFrom loader firstClass tree place path record := by
  rcases ClassRecord.exists_reaches_of_getElem? listed with ⟨names, reached⟩
  exact ⟨_, carries.built_of_reaches (List.prefix_refl _) reached
    (carries.lt_size_of_getElem? listed)⟩

theorem exists_lineage (inRange : place < tree.size) :
    ∃ lineage, document.Lineage place lineage := by
  induction place using Nat.strongRecOn with
  | _ place ih =>
      rcases Nat.eq_zero_or_pos place with rfl | positive
      · exact ⟨_, .outermost⟩
      · obtain ⟨entry, _, parent, found, parentEq, _⟩ :=
          carries.represents.exists_links positive inRange
        rw [← entryAt_of_get? found] at parentEq
        have inherits := (carries.represents.inheritsFrom_iff inRange).mpr parentEq
        rcases ih parent inherits.lt (Nat.lt_trans inherits.lt inRange) with ⟨lineage, lineal⟩
        rw [carries.size_eq_length_preorder] at inRange
        exact ⟨_, .heir (List.getElem?_eq_getElem inRange) inherits lineal⟩

/-- Two lineages of one record are one lineage. -/
theorem lineage_unique {other : List (Nat × ClassRecord)}
    (first : document.Lineage place lineage) (second : document.Lineage place other) :
    lineage = other := by
  induction first generalizing other with
  | outermost =>
      cases second with
      | outermost => rfl
      | heir _ inherits _ => exact absurd inherits.lt (Nat.not_lt_zero _)
  | heir listed inherits _ ih =>
      cases second with
      | outermost => exact absurd inherits.lt (Nat.not_lt_zero _)
      | heir otherListed otherInherits otherLineal =>
          have inRange := carries.lt_size_of_getElem? listed
          have parentEq := (carries.represents.inheritsFrom_iff inRange).mp inherits
          have otherEq := (carries.represents.inheritsFrom_iff inRange).mp otherInherits
          rw [parentEq] at otherEq
          cases otherEq
          rw [listed] at otherListed
          cases otherListed
          rw [ih otherLineal]

end Carries

end DreamWorld.Tree
