import DreamWorld.Proofs.Tree.Descendants
import DreamWorld.Proofs.Tree.SharedOwners

/-!
# Subtypes

The classes that a class of a loaded tree goes through are those of the entries that links to
the parent lead to.  So it is a subtype of a path exactly when it inherits from an entry of
this path.
-/

namespace DreamWorld.Tree

open Document (ClassRecord)

variable {σ : Type} {loader : ResourceLoader σ} {firstClass : ClassId} {tree : Tree}
  {document : ClassRecord} {place other id : EntryId} {lineage : List (Nat × ClassRecord)}

namespace Carries

variable (carries : Carries loader firstClass document tree (document.placedWithin 0))

include carries

/-- The members of a lineage stand at the places of the entries that are inherited from. -/
theorem mem_lineage_iff (lineal : document.Lineage place lineage) :
    other ∈ lineage.map Prod.fst ↔ tree.Inherits place other := by
  induction lineal with
  | outermost =>
      have rootLt : rootId < tree.size := tree.nonempty
      have unlinked : (tree.entryAt 0).parent = none :=
        (carries.represents.root_unlinked (get?_entryAt rootLt)).1
      rw [Inherits, Relation.ReflTransGen.cases_head_iff, unlinked]
      simp [eq_comm]
  | @heir place parent record lineage listed inherits _ ih =>
      have inRange := carries.lt_size_of_getElem? listed
      have link := (carries.represents.inheritsFrom_iff inRange).mp inherits
      have headOrAbove : tree.Inherits place other ↔ _ := Relation.ReflTransGen.cases_head_iff
      rw [List.map_cons, List.mem_cons, ih, headOrAbove, link]
      simp only [Option.some.injEq, exists_eq_left']
      exact or_congr_left eq_comm

/-- The classes that a class goes through are those that it inherits from. -/
theorem mem_lineage_entryAt_iff (inRange : id < tree.size) {body : ClassBody} :
    body ∈ (tree.entryAt id).definition.lineage ↔
      ∃ ancestor, tree.Inherits id ancestor ∧ (tree.entryAt ancestor).definition.own = body := by
  rcases carries.exists_lineage inRange with ⟨lineage, lineal⟩
  rw [carries.lineage_entryAt lineal, List.mem_map]
  simp only [← carries.mem_lineage_iff lineal, List.mem_map, exists_exists_and_eq_and]

/-- A class is a subtype of a path if it inherits from an entry of the path. -/
theorem isSubtypeOf_entryAt_iff (inRange : id < tree.size) (type : Path) :
    (tree.entryAt id).definition.isSubtypeOf type = true ↔
      ∃ ancestor, tree.Inherits id ancestor ∧ (tree.entryAt ancestor).path = type := by
  unfold Definition.isSubtypeOf
  simp only [List.any_eq_true, carries.mem_lineage_entryAt_iff inRange, beq_iff_eq]
  constructor
  · rintro ⟨_, ⟨ancestor, inherits, rfl⟩, typeEq⟩
    exact ⟨ancestor, inherits, typeEq⟩
  · rintro ⟨ancestor, inherits, typeEq⟩
    exact ⟨_, ⟨ancestor, inherits, rfl⟩, typeEq⟩

theorem lt_size_of_inherits (inRange : id < tree.size) (inherits : tree.Inherits id other) :
    other < tree.size := by
  induction inherits with
  | refl => exact inRange
  | tail _ link ih => exact carries.represents.parent_lt_size ih _ link

end Carries

end DreamWorld.Tree
