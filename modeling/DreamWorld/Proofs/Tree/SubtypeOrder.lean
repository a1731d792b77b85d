import DreamWorld.Proofs.Tree.PathCoherence
import DreamWorld.Proofs.Tree.Subtypes

/-!
# The order of subtypes

Following parents from an entry leads through ever smaller numbers to the root, and the
definition of its class goes through the classes of exactly these entries.  Where names are
plain no two entries have one path, so to be a subtype of the path of an entry is the same as
to inherit from this entry, and subtypes are partially ordered below the root.
-/

namespace DreamWorld.Tree

open Document (ClassRecord)
open Document.ClassRecord (graveyardDocument)

/-- Following parents from an entry passes the entries of a route, the entry itself first, and
ends at one that has no parent. -/
inductive Ascends (tree : Tree) : EntryId → List EntryId → Prop
  | top {id : EntryId} : (tree.entryAt id).parent = none → Ascends tree id [id]
  | heir {id parent : EntryId} {route : List EntryId} :
      (tree.entryAt id).parent = some parent → Ascends tree parent route →
      Ascends tree id (id :: route)

/-- The class of an entry is a subtype of the path of another entry. -/
def IsSubclass (tree : Tree) (id other : EntryId) : Prop :=
  (tree.entryAt id).definition.isSubtypeOf (tree.entryAt other).path = true

instance (tree : Tree) (id other : EntryId) : Decidable (tree.IsSubclass id other) :=
  inferInstanceAs (Decidable (_ = true))

variable {σ : Type} {loader : ResourceLoader σ} {firstClass : ClassId} {tree : Tree}
  {document : ClassRecord} {place other id : EntryId} {lineage : List (Nat × ClassRecord)}

/-- Inheriting leads to smaller numbers. -/
theorem Represents.le_of_inherits (holds : tree.Represents (document.placedWithin 0))
    (inRange : id < tree.size) (inherits : tree.Inherits id other) : other ≤ id := by
  induction inherits using Relation.ReflTransGen.head_induction_on with
  | refl => exact Nat.le_refl other
  | @head id parent link _ ih =>
      have parentLt := ((holds.inheritsFrom_iff inRange).mpr link).lt
      exact Nat.le_trans (ih (Nat.lt_trans parentLt inRange)) (Nat.le_of_lt parentLt)

namespace Carries

variable (carries : Carries loader firstClass document tree (document.placedWithin 0))

include carries

theorem parent_root : (tree.entryAt rootId).parent = none := by
  have rootLt : rootId < tree.size := tree.nonempty
  exact (carries.represents.root_unlinked (get?_entryAt rootLt)).1

/-- The places of a lineage are the route along parents. -/
theorem ascends_of_lineage (lineal : document.Lineage place lineage) :
    tree.Ascends place (lineage.map Prod.fst) := by
  induction lineal with
  | outermost => exact .top carries.parent_root
  | heir listed inherits _ ih =>
      have inRange := carries.lt_size_of_getElem? listed
      exact .heir ((carries.represents.inheritsFrom_iff inRange).mp inherits) ih

omit carries in
/-- A lineage ends at the outermost record, and has no more members above a record than the
number of its place. -/
theorem lineage_bounds (lineal : document.Lineage place lineage) :
    (lineage.map Prod.fst).getLast? = some rootId ∧ lineage.length ≤ place + 1 := by
  induction lineal with
  | outermost => exact ⟨rfl, Nat.le_refl 1⟩
  | @heir place parent record lineage _ inherits _ ih =>
      constructor
      · rw [List.map_cons, List.getLast?_cons, ih.1]
        rfl
      · exact Nat.succ_le_succ (Nat.le_trans ih.2 inherits.lt)

/-- The definition of a class goes through the classes on the route along parents, which ends
at the root after at most as many steps as the number of the entry. -/
theorem exists_ascends (inRange : id < tree.size) :
    ∃ route, tree.Ascends id route ∧ route.getLast? = some rootId ∧ route.length ≤ id + 1 ∧
      (tree.entryAt id).definition.lineage =
        route.map fun ancestor => (tree.entryAt ancestor).definition.own := by
  rcases carries.exists_lineage inRange with ⟨lineage, lineal⟩
  rcases lineage_bounds lineal with ⟨lastEq, short⟩
  refine ⟨lineage.map Prod.fst, carries.ascends_of_lineage lineal, lastEq, ?_, ?_⟩
  · rwa [List.length_map]
  · rw [carries.lineage_entryAt lineal, List.map_map]
    rfl

theorem inherits_root (inRange : id < tree.size) : tree.Inherits id rootId := by
  rcases carries.exists_lineage inRange with ⟨lineage, lineal⟩
  rw [← carries.mem_lineage_iff lineal]
  exact List.mem_of_getLast? (lineage_bounds lineal).1

/-- Where names are plain, the subclasses of an entry are the classes that inherit from it. -/
theorem isSubclass_iff (plain : ∀ place record, 0 < place →
      document.preorder[place]? = some record → Path.IsPlain record.name)
    (inRange : id < tree.size) (otherLt : other < tree.size) :
    tree.IsSubclass id other ↔ tree.Inherits id other := by
  rw [IsSubclass, carries.isSubtypeOf_entryAt_iff inRange]
  constructor
  · rintro ⟨ancestor, inherits, samePath⟩
    have ancestorLt := carries.lt_size_of_inherits inRange inherits
    have found := carries.entryId_path_of_isPlain plain ancestorLt
    rw [samePath, carries.entryId_path_of_isPlain plain otherLt] at found
    cases found
    exact inherits
  · intro inherits
    exact ⟨other, inherits, rfl⟩

/-- Where names are plain, subclasses are partially ordered. -/
theorem isPartialOrder_isSubclass (plain : ∀ place record, 0 < place →
      document.preorder[place]? = some record → Path.IsPlain record.name) :
    IsPartialOrder (Fin tree.size) fun id other => tree.IsSubclass id other where
  refl id := (carries.isSubclass_iff plain id.isLt id.isLt).mpr .refl
  trans id other ancestor first second := by
    rw [carries.isSubclass_iff plain id.isLt other.isLt] at first
    rw [carries.isSubclass_iff plain other.isLt ancestor.isLt] at second
    exact (carries.isSubclass_iff plain id.isLt ancestor.isLt).mpr (first.trans second)
  antisymm id other up down := by
    rw [carries.isSubclass_iff plain id.isLt other.isLt] at up
    rw [carries.isSubclass_iff plain other.isLt id.isLt] at down
    have holds := carries.represents
    exact Fin.ext (Nat.le_antisymm (holds.le_of_inherits other.isLt down)
      (holds.le_of_inherits id.isLt up))

end Carries

/-- After a load in which all inner records have plain names, a class is a subtype of the path
of an entry exactly if following parents leads to this entry.  Following parents ends at the
root after at most as many steps as the number of the entry where it starts, and passes the
classes that the definition goes through.  So subclasses are partially ordered, with the root
above all of them, and a class is a subtype of the paths of those that it inherits from and of
no other path. -/
theorem isSubclass_loadRecord {world next : World} {memory last : σ}
    (loaded : world.loadRecord loader document memory = (.ok (), next, last))
    (plain : ∀ place record, 0 < place → document.preorder[place]? = some record →
      Path.IsPlain record.name) :
    (∀ id other, id < next.tree.size → other < next.tree.size →
      (next.tree.IsSubclass id other ↔ next.tree.Inherits id other)) ∧
    (∀ id, id < next.tree.size → ∃ route, next.tree.Ascends id route ∧
      route.getLast? = some rootId ∧ route.length ≤ id + 1 ∧
      (next.tree.entryAt id).definition.lineage =
        route.map fun ancestor => (next.tree.entryAt ancestor).definition.own) ∧
    IsPartialOrder (Fin next.tree.size) (fun id other => next.tree.IsSubclass id other) ∧
    (∀ id, id < next.tree.size → next.tree.IsSubclass id rootId) ∧
    ∀ id type, id < next.tree.size →
      ((next.tree.entryAt id).definition.isSubtypeOf type = true ↔
        ∃ ancestor, next.tree.Inherits id ancestor ∧ (next.tree.entryAt ancestor).path = type) := by
  have carries := carries_of_loadRecord loaded
  refine ⟨fun id other => carries.isSubclass_iff plain, fun id => carries.exists_ascends,
    carries.isPartialOrder_isSubclass plain, ?_, ?_⟩
  · intro id inRange
    exact (carries.isSubclass_iff plain inRange next.tree.nonempty).mpr
      (carries.inherits_root inRange)
  · intro id type inRange
    exact carries.isSubtypeOf_entryAt_iff inRange type

/-- In the sample a class that inherits from elsewhere is a subtype of its named parent, but
not of the class that it lies in. -/
theorem isSubclass_loadRecord_graveyardDocument :
    (World.start.loadRecord (fileLoader "res") graveyardDocument {}).1 = .ok () ∧
      (∀ place record, 0 < place → graveyardDocument.preorder[place]? = some record →
        Path.IsPlain record.name) ∧
      let tree := (World.start.loadRecord (fileLoader "res") graveyardDocument {}).2.1.tree
      tree.IsSubclass 3 1 ∧ ¬ tree.IsSubclass 3 2 := by
  have loaded : World.start.loadRecord (fileLoader "res") graveyardDocument {} =
      (.ok (), (World.start.loadRecord (fileLoader "res") graveyardDocument {}).2) := rfl
  have plain : ∀ place record, 0 < place → graveyardDocument.preorder[place]? = some record →
      Path.IsPlain record.name := isPlain_of_preorder_tail (by decide +kernel)
  obtain ⟨subclasses, _⟩ := isSubclass_loadRecord loaded plain
  exact ⟨rfl, plain, (subclasses 3 1 (by decide) (by decide)).mpr (.single rfl),
    by decide +kernel⟩

end DreamWorld.Tree
