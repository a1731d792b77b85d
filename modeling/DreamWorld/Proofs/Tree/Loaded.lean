import DreamWorld.Proofs.Tree.Represents
import DreamWorld.World

/-!
# Trees and the documents they come from

The names that lead to a record of a document lead to its entry in the tree, as
soon as the record has been loaded.  The definition of that entry declares the
members of the record, on top of what the parent of the entry defines.
-/

namespace DreamWorld.Tree

open Document (ClassRecord PlacedRecord)

variable {σ : Type} {loader : ResourceLoader σ} {firstClass : ClassId} {tree : Tree}
  {document record : ClassRecord} {done : List PlacedRecord} {names : List String}
  {outer id place : Nat}

/-! ## Names of records and names of entries -/

namespace Represents

/-- The records loaded so far are the first ones of the document. -/
theorem getElem?_iff_within (loaded : done <+: document.placedWithin 0) {index : Nat} :
    done[index]? = some ⟨outer, record⟩ ↔
      index < done.length ∧ document.Within outer (index + 1) record := by
  rw [← ClassRecord.getElem?_placed_eq_some_iff]
  rcases loaded with ⟨rest, placedEq⟩
  rw [← placedEq]
  constructor
  · intro listed
    have inList := index_lt listed
    exact ⟨inList, (List.getElem?_append_left inList).trans listed⟩
  · rintro ⟨inList, listed⟩
    exact (List.getElem?_append_left inList).symm.trans listed

/-- Names lead to an entry exactly when they reach a record that has been loaded;
its place is the number of the entry. -/
theorem find?_eq_some_iff (holds : tree.Represents done)
    (loaded : done <+: document.placedWithin 0) :
    tree.find? names = some id ↔
      id < tree.size ∧ ∃ record, document.Reaches names id record := by
  constructor
  · intro found
    apply And.intro (holds.lt_size_of_find? found)
    induction names using List.reverseRecOn generalizing id with
    | nil =>
        cases found
        exact ⟨document, .outermost⟩
    | append_singleton names last ih =>
        rcases find?_append_singleton_eq_some_iff.mp found with ⟨outer, outerFound, childFound⟩
        rcases holds.child?_eq_some_iff.mp childFound with ⟨index, record, listed, rfl, rfl⟩
        rcases ih outerFound with ⟨enclosing, reached⟩
        have within := ((getElem?_iff_within loaded).mp listed).2
        rcases within.reaches with ⟨outerNames, _, outerReached, recordReached⟩
        rcases outerReached.unique reached with ⟨rfl, _⟩
        exact ⟨record, recordReached⟩
  · rintro ⟨inRange, record, reached⟩
    induction place : id using Nat.strongRecOn generalizing id names record with
    | _ _ ih =>
        subst place
        rcases reached.cases_place with ⟨rfl, rfl, _⟩ | ⟨outerNames, outer, _, rfl, up, down⟩
        · rfl
        · have before := down.outer_lt
          rcases down.exists_place_eq_succ with ⟨index, rfl⟩
          have outerFound := ih outer before (Nat.lt_trans before inRange) _ up rfl
          rw [holds.size_eq] at inRange
          have listed := (getElem?_iff_within loaded).mpr ⟨Nat.lt_of_succ_lt_succ inRange, down⟩
          apply find?_append_singleton_eq_some_iff.mpr
          exact ⟨outer, outerFound,
            holds.child?_eq_some_iff.mpr ⟨index, record, listed, rfl, rfl⟩⟩

end Represents

/-! ## Definitions of entries -/

/-- The entry of a number has the given path, and its definition declares the
members of a record on top of what its parent defines. -/
def BuiltFrom (loader : ResourceLoader σ) (firstClass : ClassId) (tree : Tree) (id : EntryId)
    (path : Path) (record : ClassRecord) : Prop :=
  ∃ memory last, ((Definition.below (firstClass + id) path
    ((tree.entryAt id).parent.map fun parent => (tree.entryAt parent).definition)).loadMembers
      loader record).run memory = (.ok (tree.entryAt id).definition, last)

theorem BuiltFrom.path_eq {path : Path} (built : BuiltFrom loader firstClass tree id path record) :
    (tree.entryAt id).path = path := by
  rcases built with ⟨_, _, run⟩
  exact (Definition.sameClass_of_run_loadMembers run).2.1

/-- The root and the given records are represented, and every entry is built from
its record. -/
structure Carries (loader : ResourceLoader σ) (firstClass : ClassId) (document : ClassRecord)
    (tree : Tree) (done : List PlacedRecord) : Prop where
  represents : tree.Represents done
  root_built : BuiltFrom loader firstClass tree rootId Path.root document
  built : ∀ {index outer : Nat} {record : ClassRecord}, done[index]? = some ⟨outer, record⟩ →
    BuiltFrom loader firstClass tree (index + 1)
      ((tree.entryAt outer).path.resolve record.name) record

namespace Carries

/-- The path of an entry follows the names of its record from the root. -/
theorem path_eq (carries : Carries loader firstClass document tree done)
    (loaded : done <+: document.placedWithin 0) (reached : document.Reaches names place record)
    (inRange : place < tree.size) :
    (tree.entryAt place).path = names.foldl Path.resolve Path.root := by
  induction place using Nat.strongRecOn generalizing names record with
  | _ place ih =>
      rcases reached.cases_place with ⟨rfl, rfl, _⟩ | ⟨outerNames, outer, _, rfl, up, down⟩
      · exact carries.root_built.path_eq
      · have before := down.outer_lt
        rcases down.exists_place_eq_succ with ⟨index, rfl⟩
        rw [carries.represents.size_eq] at inRange
        have listed := (Represents.getElem?_iff_within loaded).mpr
          ⟨Nat.lt_of_succ_lt_succ inRange, down⟩
        have outerPath := ih outer before up
          (by rw [carries.represents.size_eq]; exact Nat.lt_trans before inRange)
        rw [(carries.built listed).path_eq, outerPath, List.foldl_append]
        rfl

/-- The entry of a loaded record is built from it, under the path of its names. -/
theorem built_of_reaches (carries : Carries loader firstClass document tree done)
    (loaded : done <+: document.placedWithin 0) (reached : document.Reaches names place record)
    (inRange : place < tree.size) :
    BuiltFrom loader firstClass tree place (names.foldl Path.resolve Path.root) record := by
  rw [← carries.path_eq loaded reached inRange]
  rcases reached.cases_place with ⟨_, rfl, rfl⟩ | ⟨_, outer, _, _, _, down⟩
  · have rootPath : (tree.entryAt 0).path = Path.root := carries.root_built.path_eq
    rw [rootPath]
    exact carries.root_built
  · rcases down.exists_place_eq_succ with ⟨index, rfl⟩
    rw [carries.represents.size_eq] at inRange
    have built := carries.built ((Represents.getElem?_iff_within loaded).mpr
      ⟨Nat.lt_of_succ_lt_succ inRange, down⟩)
    rw [built.path_eq]
    exact built

end Carries

/-- The entry of a number inherits from the parent that its record names, or else
from the entry of the enclosing record. -/
def LinkedAs (document : ClassRecord) (tree : Tree) (id : EntryId) (record : ClassRecord) : Prop :=
  ∃ outer named, document.Within outer id record ∧ tree.namedParent record = .ok named ∧
    (tree.entryAt id).parent = some (named.getD outer) ∧
    (tree.entryAt id).hasNamedParent = record.parent.isSome

/-- The entry of a loaded record is linked as the record says. -/
theorem Represents.linkedAs (holds : tree.Represents done)
    (loaded : done <+: document.placedWithin 0) (within : document.Within outer place record)
    (inRange : place < tree.size) : LinkedAs document tree place record := by
  rcases within.exists_place_eq_succ with ⟨index, rfl⟩
  rw [holds.size_eq] at inRange
  have listed := (getElem?_iff_within loaded).mpr ⟨Nat.lt_of_succ_lt_succ inRange, within⟩
  rcases holds.linked_parent listed with ⟨named, entry, resolved, _, found, parentEq, namedEq⟩
  rw [LinkedAs, entryAt_of_get? found]
  exact ⟨outer, named, within, resolved, parentEq, namedEq.trans (isSome_of_namedParent resolved)⟩

/-! ## Loading keeps what a tree carries -/

/-- A class stays built from its record while others are added. -/
theorem BuiltFrom.declare {placed : PlacedRecord} {named : Option EntryId}
    {definition : Definition} {path : Path}
    (built : BuiltFrom loader firstClass tree id path record) (holds : tree.Represents done)
    (admits : Represents.Admits tree placed named) (inRange : id < tree.size)
    (parentLt : ∀ parent ∈ (tree.entryAt id).parent, parent < tree.size) :
    BuiltFrom loader firstClass (tree.declare placed.outer named placed.record.name definition)
      id path record := by
  have namedLt := holds.lt_size_of_namedParent admits.resolved
  have parentEq : ((tree.declare placed.outer named placed.record.name definition).entryAt
      id).parent = (tree.entryAt id).parent := by
    rw [entryAt_of_get? (get?_declare_of_get? admits.outer_lt namedLt (get?_entryAt inRange))]
    rfl
  have parentDefinition : ((tree.entryAt id).parent.map fun parent =>
      ((tree.declare placed.outer named placed.record.name definition).entryAt
        parent).definition) =
      (tree.entryAt id).parent.map fun parent => (tree.entryAt parent).definition := by
    apply Option.map_congr
    intro parent parentMem
    exact definition_entryAt_declare admits.outer_lt namedLt (parentLt parent parentMem)
  rcases built with ⟨memory, last, run⟩
  refine ⟨memory, last, ?_⟩
  rw [parentEq, parentDefinition, definition_entryAt_declare admits.outer_lt namedLt inRange]
  exact run

/-- Every parent of an entry is an entry. -/
theorem Represents.parent_lt_size (holds : tree.Represents done) (inRange : id < tree.size) :
    ∀ parent ∈ (tree.entryAt id).parent, parent < tree.size := by
  have size := holds.size_eq
  cases id with
  | zero =>
      have unlinked : (tree.entryAt 0).parent = none :=
        (holds.root_unlinked (get?_entryAt inRange)).1
      rw [unlinked]
      rintro parent ⟨⟩
  | succ index =>
      have inList : index < done.length := by omega
      have listed : done[index]? = some ⟨done[index].outer, done[index].record⟩ :=
        List.getElem?_eq_getElem inList
      have outerLe := holds.outer_le listed
      rcases holds.linked_parent listed with ⟨named, entry, _, namedLe, found, parentEq, _⟩
      rw [entryAt_of_get? found, parentEq]
      rintro parent ⟨⟩
      cases named with
      | none => exact Nat.lt_of_le_of_lt outerLe (by omega)
      | some parent => exact Nat.lt_of_le_of_lt (namedLe parent rfl) (by omega)

theorem Carries.declare {placed : PlacedRecord} {named : Option EntryId}
    {definition : Definition} {memory last : σ}
    (carries : Carries loader firstClass document tree done)
    (admits : Represents.Admits tree placed named)
    (members : ((bareClass firstClass tree placed named).loadMembers loader
      placed.record).run memory = (.ok definition, last)) :
    Carries loader firstClass document
      (tree.declare placed.outer named placed.record.name definition) (done ++ [placed]) := by
  have holds := carries.represents
  have size := holds.size_eq
  have namedLt := holds.lt_size_of_namedParent admits.resolved
  refine ⟨holds.declare admits definition, ?_, ?_⟩
  · have rootLt : rootId < tree.size := size ▸ Nat.succ_pos _
    exact carries.root_built.declare holds admits rootLt (holds.parent_lt_size rootLt)
  · intro index outer record listed
    rcases Represents.getElem?_append_singleton_eq_some_iff.mp listed with before | ⟨rfl, rfl⟩
    · have inList := Represents.index_lt before
      have outerLe := holds.outer_le before
      have inRange : index + 1 < tree.size := by omega
      have outerLt : outer < tree.size := by omega
      have outerPath : ((tree.declare placed.outer named placed.record.name definition).entryAt
          outer).path = (tree.entryAt outer).path :=
        congrArg Definition.type (definition_entryAt_declare admits.outer_lt namedLt outerLt)
      rw [outerPath]
      exact (carries.built before).declare holds admits inRange (holds.parent_lt_size inRange)
    · have outerLt : outer < tree.size := admits.outer_lt
      have parentLt : named.getD outer < tree.size := by
        cases named with
        | none => exact outerLt
        | some parent => exact namedLt parent rfl
      have newFound : (tree.declare outer named record.name definition).get? tree.size =
          some (newEntry outer named definition) := get?_declare_size outerLt namedLt
      have outerPath : ((tree.declare outer named record.name definition).entryAt outer).path =
          (tree.entryAt outer).path :=
        congrArg Definition.type (definition_entryAt_declare outerLt namedLt outerLt)
      refine ⟨memory, last, ?_⟩
      rw [← size, entryAt_of_get? newFound, outerPath]
      simp only [newEntry, Option.map_some]
      rw [definition_entryAt_declare outerLt namedLt parentLt]
      exact members

/-- The bare root, as built from the outermost record, carries no other record. -/
theorem Carries.single {definition : Definition} {memory last : σ}
    (members : ((Definition.below firstClass Path.root none).loadMembers loader document).run
      memory = (.ok definition, last)) :
    Carries loader firstClass document (Tree.single definition) [] where
  represents := .single definition
  root_built := ⟨memory, last, members⟩
  built := by
    intro index outer record listed
    cases listed

/-- The turn of one record carries that record as well. -/
theorem Carries.of_run_loadRecord {placed : PlacedRecord} {next : Tree} {memory last : σ}
    (carries : Carries loader firstClass document tree done) (outerLe : placed.outer ≤ done.length)
    (run : (loadRecord loader firstClass tree placed).run memory = (.ok next, last)) :
    Carries loader firstClass document next (done ++ [placed]) := by
  rcases run_loadRecord_eq_ok run with ⟨named, definition, free, resolved, members, untaken, rfl⟩
  have outerLt : placed.outer < tree.size := by
    rw [carries.represents.size_eq]
    exact Nat.lt_succ_of_le outerLe
  exact carries.declare ⟨outerLt, free, resolved, untaken⟩ members

/-- The next record to be loaded has the next place. -/
theorem within_next {placed : PlacedRecord} {rest : List PlacedRecord}
    (placedEq : document.placedWithin 0 = done ++ placed :: rest) :
    document.Within placed.outer (done.length + 1) placed.record := by
  rw [← ClassRecord.getElem?_placed_eq_some_iff, placedEq,
    List.getElem?_append_right (Nat.le_refl _), Nat.sub_self]
  rfl

/-- The next record to be loaded lies within a record that is loaded. -/
theorem outer_le_length {placed : PlacedRecord} {rest : List PlacedRecord}
    (placedEq : document.placedWithin 0 = done ++ placed :: rest) :
    placed.outer ≤ done.length :=
  Nat.le_of_lt_succ (within_next placedEq).outer_lt

/-- A tree that is built from a document carries all of its records. -/
theorem carries_of_run_ofRecord {memory last : σ}
    (run : (ofRecord loader firstClass document).run memory = (.ok tree, last)) :
    Carries loader firstClass document tree (document.placedWithin 0) := by
  rcases run_ofRecord_eq_ok run with ⟨_, definition, _, members, records⟩
  apply LoadAction.holds_of_run_foldlM_eq_ok
    (fun done state _ => Carries loader firstClass document state done) records
    (.single members)
  intro done placed rest state _ next _ placedEq carries turn
  exact carries.of_run_loadRecord (outer_le_length placedEq) turn

/-- A world that has loaded a document holds a tree that carries its records. -/
theorem carries_of_loadRecord {world next : World} {memory last : σ}
    (loaded : world.loadRecord loader document memory = (.ok (), next, last)) :
    Carries loader world.store.nextClass document next.tree (document.placedWithin 0) := by
  unfold World.loadRecord at loaded
  split at loaded
  · rename_i result middle run
    cases loaded
    rcases LoadAction.run_bind_eq_ok_iff.mp run with ⟨tree, _, treeRun, stored⟩
    cases stored
    exact carries_of_run_ofRecord treeRun
  · cases loaded

end DreamWorld.Tree
