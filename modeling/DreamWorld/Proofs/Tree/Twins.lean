import DreamWorld.Proofs.Document.Rearranged
import DreamWorld.Proofs.Tree.PathCoherence
import DreamWorld.Proofs.Tree.SuperChains
import DreamWorld.Proofs.Tree.Subtypes

/-!
# Entries of the same names in two trees

If two trees carry rearranged documents, the same names lead to entries in both.  Two
entries that the same names lead to are twins.  Each entry of one tree has exactly one
twin in the other one.  Twins are built from records that agree but for the records
within them, and links of all kinds lead from twins to twins.
-/

namespace DreamWorld.Tree

open Document (ClassRecord PlacedRecord)

/-- Entries of two trees that the same names lead to. -/
def Twins (tree other : Tree) (id otherId : EntryId) : Prop :=
  ∃ names, tree.find? names = some id ∧ other.find? names = some otherId

/-- Two trees carry documents that are rearranged from each other. -/
structure Counterparts {σ τ : Type} (loader : ResourceLoader σ) (otherLoader : ResourceLoader τ)
    (firstClass otherFirst : ClassId) (document otherDocument : ClassRecord)
    (tree other : Tree) : Prop where
  carries : Carries loader firstClass document tree (document.placedWithin 0)
  otherCarries : Carries otherLoader otherFirst otherDocument other (otherDocument.placedWithin 0)
  rearranged : document.Rearranged otherDocument

namespace Represents

variable {tree : Tree} {done : List PlacedRecord} {id child : EntryId}

/-- A class is a branch of the class that it names as its parent. -/
theorem mem_branchIds_iff_parent (holds : tree.Represents done) (inRange : child < tree.size) :
    child ∈ tree.branchIds id ↔ (tree.entryAt child).hasNamedParent = true ∧
      (tree.entryAt child).parent = some id := by
  rcases Nat.eq_zero_or_pos child with rfl | positive
  · have unlinked : (tree.entryAt 0).parent = none :=
      (holds.root_unlinked (get?_entryAt inRange)).1
    rw [unlinked]
    simp only [reduceCtorEq, and_false, iff_false]
    exact fun branch => Nat.lt_irrefl 0 (holds.positive_of_mem_branchIds branch).1
  · obtain ⟨entry, _, parent, found, parentEq, _, _, _, _, branchIff⟩ :=
      holds.exists_links positive inRange
    rw [branchIff, entryAt_of_get? found, parentEq, Option.some.injEq, eq_comm (a := id)]

end Represents

variable {σ τ : Type} {loader : ResourceLoader σ} {otherLoader : ResourceLoader τ}
  {firstClass otherFirst : ClassId} {document otherDocument : ClassRecord} {tree other : Tree}
  {id otherId child otherChild start : EntryId} {names : List String} {withBranches : Bool}

theorem Twins.symm (twins : Twins tree other id otherId) : Twins other tree otherId id := by
  rcases twins with ⟨names, found, otherFound⟩
  exact ⟨names, otherFound, found⟩

theorem twins_root : Twins tree other rootId rootId :=
  ⟨[], rfl, rfl⟩

/-- The parents that records name alike are twins. -/
theorem rel_namedParent {record otherRecord : ClassRecord} {named otherNamed : Option EntryId}
    (sameParent : record.parent = otherRecord.parent)
    (resolved : tree.namedParent record = .ok named)
    (otherResolved : other.namedParent otherRecord = .ok otherNamed) :
    Option.Rel (Twins tree other) named otherNamed := by
  cases named with
  | none =>
      have unnamed := namedParent_eq_ok_none_iff.mp resolved
      rw [namedParent_eq_ok_none_iff.mpr (sameParent ▸ unnamed)] at otherResolved
      cases otherResolved
      exact .none
  | some parent =>
      rcases namedParent_eq_ok_some_iff.mp resolved with ⟨text, named, found⟩
      cases otherNamed with
      | none =>
          rw [namedParent_eq_ok_none_iff, ← sameParent, named] at otherResolved
          cases otherResolved
      | some otherParent =>
          rcases namedParent_eq_ok_some_iff.mp otherResolved with
            ⟨otherText, otherNamed, otherFound⟩
          rw [← sameParent, named] at otherNamed
          cases otherNamed
          exact .some ⟨_, (entryId_eq_ok_iff.mp found).2, (entryId_eq_ok_iff.mp otherFound).2⟩

namespace Counterparts

variable (both : Counterparts loader otherLoader firstClass otherFirst document otherDocument
  tree other)

include both

theorem symm : Counterparts otherLoader loader otherFirst firstClass otherDocument document
    other tree :=
  ⟨both.otherCarries, both.carries, both.rearranged.symm⟩

/-! ## Each entry has one twin -/

theorem exists_find? (found : tree.find? names = some id) :
    ∃ otherId, other.find? names = some otherId := by
  rcases both.carries.find?_eq_some_iff_reaches.mp found with ⟨record, reached⟩
  rcases both.rearranged.exists_reaches reached with ⟨otherId, otherRecord, otherReached, _⟩
  exact ⟨otherId, both.otherCarries.find?_eq_some_iff_reaches.mpr ⟨otherRecord, otherReached⟩⟩

/-- Names lead somewhere in both trees or in neither. -/
theorem isSome_find? (names : List String) :
    (tree.find? names).isSome = (other.find? names).isSome := by
  rw [Bool.eq_iff_iff, Option.isSome_iff_exists, Option.isSome_iff_exists]
  constructor
  · rintro ⟨_, found⟩
    exact both.exists_find? found
  · rintro ⟨_, found⟩
    exact both.symm.exists_find? found

theorem exists_twin (inRange : id < tree.size) : ∃ otherId, Twins tree other id otherId := by
  rcases both.carries.exists_reaches_of_lt_size inRange with ⟨names, record, reached⟩
  have found := both.carries.find?_eq_some_iff_reaches.mpr ⟨record, reached⟩
  rcases both.exists_find? found with ⟨otherId, otherFound⟩
  exact ⟨otherId, names, found, otherFound⟩

/-- An entry of one tree has at most one twin, as only one list of names leads to it. -/
theorem twin_unique {second : EntryId} (firstTwins : Twins tree other id otherId)
    (secondTwins : Twins tree other id second) : otherId = second := by
  rcases firstTwins with ⟨names, found, otherFound⟩
  rcases secondTwins with ⟨sameNames, sameFound, secondFound⟩
  rcases both.carries.find?_eq_some_iff_reaches.mp found with ⟨_, reached⟩
  rcases both.carries.find?_eq_some_iff_reaches.mp sameFound with ⟨_, sameReached⟩
  rw [(reached.unique sameReached).1, secondFound] at otherFound
  exact (Option.some.inj otherFound).symm

theorem lt_size_of_twins (twins : Twins tree other id otherId) : id < tree.size := by
  rcases twins with ⟨_, found, _⟩
  exact both.carries.represents.lt_size_of_find? found

/-! ## What twins are built from -/

/-- The same names reach rearranged records at the places of twins. -/
theorem exists_records (twins : Twins tree other id otherId) :
    ∃ names record otherRecord, document.Reaches names id record ∧
      otherDocument.Reaches names otherId otherRecord ∧ record.Rearranged otherRecord := by
  rcases twins with ⟨names, found, otherFound⟩
  rcases both.carries.find?_eq_some_iff_reaches.mp found with ⟨record, reached⟩
  rcases both.rearranged.exists_reaches reached with
    ⟨place, otherRecord, otherReached, rearranged⟩
  have placeFound := both.otherCarries.find?_eq_some_iff_reaches.mpr ⟨otherRecord, otherReached⟩
  rw [otherFound] at placeFound
  cases placeFound
  exact ⟨names, record, otherRecord, reached, otherReached, rearranged⟩

/-- Records at the places of twins agree but for the records within them. -/
theorem alone_eq (twins : Twins tree other id otherId) {record otherRecord : ClassRecord}
    (listed : document.preorder[id]? = some record)
    (otherListed : otherDocument.preorder[otherId]? = some otherRecord) :
    record.alone = otherRecord.alone := by
  rcases both.exists_records twins with ⟨_, _, _, reached, otherReached, rearranged⟩
  have same := reached.getElem?_preorder
  have otherSame := otherReached.getElem?_preorder
  rw [listed] at same
  rw [otherListed] at otherSame
  cases same
  cases otherSame
  exact rearranged.alone_eq

theorem path_eq (twins : Twins tree other id otherId) :
    (tree.entryAt id).path = (other.entryAt otherId).path := by
  rcases both.exists_records twins with ⟨_, _, _, reached, otherReached, _⟩
  rw [both.carries.path_eq (List.prefix_refl _) reached (both.lt_size_of_twins twins),
    both.otherCarries.path_eq (List.prefix_refl _) otherReached
      (both.symm.lt_size_of_twins twins.symm)]

/-! ## Links lead from twins to twins -/

/-- Twins inherit from twins, and both name their parents or neither does. -/
theorem rel_parent (twins : Twins tree other id otherId) :
    Option.Rel (Twins tree other) (tree.entryAt id).parent (other.entryAt otherId).parent ∧
      (tree.entryAt id).hasNamedParent = (other.entryAt otherId).hasNamedParent := by
  have inRange := both.lt_size_of_twins twins
  have otherInRange := both.symm.lt_size_of_twins twins.symm
  have holds := both.carries.represents
  have otherHolds := both.otherCarries.represents
  obtain ⟨names, record, otherRecord, reached, otherReached, rearranged⟩ :=
    both.exists_records twins
  have sameParent := rearranged.apply_eq ClassRecord.parent fun _ => rfl
  rcases reached.cases_place with
    ⟨rfl, rfl, _⟩ | ⟨outerNames, outer, enclosing, rfl, up, within⟩
  · rcases otherReached.cases_place with ⟨_, rfl, _⟩ | ⟨_, _, _, namesEq, _, _⟩
    · have unlinked : (tree.entryAt 0).parent = none ∧ (tree.entryAt 0).hasNamedParent = false :=
        holds.root_unlinked (get?_entryAt inRange)
      have otherUnlinked :
          (other.entryAt 0).parent = none ∧ (other.entryAt 0).hasNamedParent = false :=
        otherHolds.root_unlinked (get?_entryAt otherInRange)
      rw [unlinked.1, unlinked.2, otherUnlinked.1, otherUnlinked.2]
      exact ⟨.none, rfl⟩
    · simp at namesEq
  · rcases otherReached.cases_place with
      ⟨namesEq, _, _⟩ | ⟨otherOuterNames, otherOuter, otherEnclosing, namesEq, otherUp, otherWithin⟩
    · simp at namesEq
    · obtain rfl := (List.append_inj_left' namesEq rfl)
      have outerTwins : Twins tree other outer otherOuter :=
        ⟨outerNames, both.carries.find?_eq_some_iff_reaches.mpr ⟨enclosing, up⟩,
          both.otherCarries.find?_eq_some_iff_reaches.mpr ⟨otherEnclosing, otherUp⟩⟩
      obtain ⟨_, named, sameWithin, resolved, parentEq, namedEq⟩ :=
        holds.linkedAs (List.prefix_refl _) within inRange
      obtain ⟨_, otherNamed, otherSameWithin, otherResolved, otherParentEq, otherNamedEq⟩ :=
        otherHolds.linkedAs (List.prefix_refl _) otherWithin otherInRange
      cases (within.unique sameWithin).1
      cases (otherWithin.unique otherSameWithin).1
      rw [parentEq, otherParentEq, namedEq, otherNamedEq, sameParent]
      refine ⟨.some ?_, rfl⟩
      cases rel_namedParent sameParent resolved otherResolved with
      | none => exact outerTwins
      | some parentTwins => exact parentTwins

/-- A step down leads from twins to twins. -/
theorem stepsDown (twins : Twins tree other id otherId)
    (childTwins : Twins tree other child otherChild) (step : tree.StepsDown withBranches id child) :
    other.StepsDown withBranches otherId otherChild := by
  rcases step with within | ⟨counts, branch⟩
  · rcases both.carries.represents.mem_childIds_iff_child?.mp within with ⟨name, childFound⟩
    rcases twins with ⟨names, found, otherFound⟩
    have reached := find?_append_singleton_eq_some_iff.mpr ⟨id, found, childFound⟩
    rcases both.exists_find? reached with ⟨place, placeFound⟩
    obtain rfl := both.twin_unique childTwins ⟨_, reached, placeFound⟩
    rcases find?_append_singleton_eq_some_iff.mp placeFound with
      ⟨outer, outerFound, otherChildFound⟩
    rw [otherFound] at outerFound
    cases outerFound
    exact .inl (both.otherCarries.represents.mem_childIds_iff_child?.mpr ⟨name, otherChildFound⟩)
  · have childLt := both.lt_size_of_twins childTwins
    have otherChildLt := both.symm.lt_size_of_twins childTwins.symm
    rcases (both.carries.represents.mem_branchIds_iff_parent childLt).mp branch with
      ⟨named, parentEq⟩
    rcases both.rel_parent childTwins with ⟨related, namedEq⟩
    rw [parentEq] at related
    rcases exists_of_rel_some related with ⟨otherParent, otherParentEq, parentTwins⟩
    rw [both.twin_unique parentTwins twins] at otherParentEq
    exact .inr ⟨counts, (both.otherCarries.represents.mem_branchIds_iff_parent otherChildLt).mpr
      ⟨namedEq ▸ named, otherParentEq⟩⟩

/-- Where steps down lead from an entry, they lead from its twin to a twin. -/
theorem exists_leadsTo (twins : Twins tree other start otherId)
    (leads : tree.LeadsTo withBranches start id) :
    ∃ otherEnd, Twins tree other id otherEnd ∧ other.LeadsTo withBranches otherId otherEnd := by
  induction leads with
  | refl => exact ⟨otherId, twins, .refl⟩
  | tail _ step ih =>
      rcases ih with ⟨otherBefore, beforeTwins, otherLeads⟩
      have childLt := (both.carries.represents.lt_of_stepsDown step).2
      rcases both.exists_twin childLt with ⟨otherEnd, endTwins⟩
      exact ⟨otherEnd, endTwins, otherLeads.tail (both.stepsDown beforeTwins endTwins step)⟩

/-! ## Lineages of twins -/

/-- The lineages of twins go through twins, and their records agree but for the records
within them. -/
theorem exists_lineage (twins : Twins tree other id otherId)
    {lineage : List (Nat × ClassRecord)} (lineal : document.Lineage id lineage) :
    ∃ otherLineage, otherDocument.Lineage otherId otherLineage ∧
      List.Forall₂ (fun member otherMember =>
        Twins tree other member.1 otherMember.1 ∧ member.2.alone = otherMember.2.alone)
        lineage otherLineage := by
  induction lineal generalizing otherId with
  | outermost =>
      obtain rfl := both.twin_unique twins twins_root
      exact ⟨_, .outermost, .cons ⟨twins, both.rearranged.alone_eq⟩ .nil⟩
  | @heir id parent record lineage listed inherits _ ih =>
      have otherInRange := both.symm.lt_size_of_twins twins.symm
      have parentEq := (both.carries.represents.inheritsFrom_iff
        (both.lt_size_of_twins twins)).mp inherits
      have related := (both.rel_parent twins).1
      rw [parentEq] at related
      rcases exists_of_rel_some related with ⟨otherParent, otherParentEq, parentTwins⟩
      have otherInherits :=
        (both.otherCarries.represents.inheritsFrom_iff otherInRange).mpr otherParentEq
      rcases ih parentTwins with ⟨otherLineage, otherLineal, matched⟩
      rw [both.otherCarries.size_eq_length_preorder] at otherInRange
      have otherListed := List.getElem?_eq_getElem otherInRange
      exact ⟨_, .heir otherListed otherInherits otherLineal,
        .cons ⟨twins, both.alone_eq twins listed otherListed⟩ matched⟩

end Counterparts

end DreamWorld.Tree
