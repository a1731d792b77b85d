import DreamWorld.Proofs.Tree.Descendants
import DreamWorld.Proofs.Tree.Lineage

/-!
# Numbers from before a load

The number of an entry does not tell which load it comes from.  After another load, a number
that the new tree is too small for stands for nothing.  A smaller number stands for the class
of the new document whose record has this place, whatever class it stood for before.
-/

namespace DreamWorld.Tree

open Document (ClassRecord)

/-- A number stands for nothing: it has no entry, nothing inherits from it and nothing lies
below it. -/
structure Lacks (tree : Tree) (id : EntryId) : Prop where
  get?_eq_none : tree.get? id = none
  derivedChildren_eq_nil : tree.derivedChildren id = []
  descendants_eq_nil : ∀ withBranches inclusive, tree.descendants id withBranches inclusive = []

variable {tree : Tree} {withBranches : Bool} {id other : EntryId}

/-- If nothing is marked, the pass marks nothing. -/
private theorem getD_foldl_markBelow_of_unmarked (ids : List EntryId) (marks : Array Bool)
    (unmarked : ∀ other, marks.getD other false = false) (other : EntryId) :
    (ids.foldl (tree.markBelow withBranches) marks).getD other false = false := by
  induction ids generalizing marks with
  | nil => exact unmarked other
  | cons id rest ih =>
      have unchanged : tree.markBelow withBranches marks id = marks := by
        rw [markBelow, unmarked id]
        rfl
      rw [List.foldl_cons, unchanged]
      exact ih marks unmarked

/-- The pass marks nothing for a number that the tree does not have. -/
theorem getD_reached_of_size_le (outside : tree.size ≤ id) :
    (tree.reached withBranches id).getD other false = false := by
  rw [reached]
  apply getD_foldl_markBelow_of_unmarked
  intro other
  rw [Array.setIfInBounds_def, dif_neg (by rw [Array.size_replicate]; omega),
    Array.getD_eq_getD_getElem?, Array.getElem?_replicate]
  split <;> rfl

/-- The numbers that stand for nothing are those that the tree is too small for. -/
theorem lacks_iff : tree.Lacks id ↔ tree.size ≤ id := by
  constructor
  · intro lacks
    exact get?_eq_none_iff.mp lacks.get?_eq_none
  · intro outside
    have absent := get?_eq_none_iff.mpr outside
    refine ⟨absent, by rw [derivedChildren, absent], fun withBranches inclusive => ?_⟩
    rw [descendants, List.filter_eq_nil_iff]
    intro other _
    rw [getD_reached_of_size_le outside, Bool.false_and]
    exact Bool.false_ne_true

/-- After a load, a number stands for nothing exactly if the document has no record at this
place.  Otherwise it stands for the class of this record: its entry is built from the record,
its derived children are the classes whose parent it is, and its descendants are what steps
down lead to from it.  This holds of every number, also of those from before the load. -/
theorem lacks_loadRecord_iff {σ : Type} {loader : ResourceLoader σ} {document : ClassRecord}
    {world next : World} {memory last : σ}
    (loaded : world.loadRecord loader document memory = (.ok (), next, last)) :
    (∀ id, next.tree.Lacks id ↔ document.preorder.length ≤ id) ∧
    ∀ id record, document.preorder[id]? = some record →
      (∃ path, next.tree.get? id = some (next.tree.entryAt id) ∧
        BuiltFrom loader world.store.nextClass next.tree id path record) ∧
      (∀ child, child ∈ next.tree.derivedChildren id ↔
        child < next.tree.size ∧ (next.tree.entryAt child).parent = some id) ∧
      ∀ withBranches other, other ∈ next.tree.descendants id withBranches true ↔
        next.tree.LeadsTo withBranches id other := by
  have carries := carries_of_loadRecord loaded
  have holds := carries.represents
  refine ⟨fun id => by rw [lacks_iff, carries.size_eq_length_preorder], ?_⟩
  intro id record listed
  have inRange := carries.lt_size_of_getElem? listed
  rcases carries.exists_builtFrom listed with ⟨path, built⟩
  exact ⟨⟨path, get?_entryAt inRange, built⟩, fun _ => holds.mem_derivedChildren_iff_parent,
    fun _ _ => holds.mem_descendants_inclusive_iff inRange⟩

/-- A document of a single class within the root. -/
def documentOf (name : String) : ClassRecord where
  name := ""
  children := some [{ name }]

/-- The world after a document of a class `obj` was loaded, and then one of a class `mob`. -/
def reloaded : World :=
  ((World.start.loadRecord (fileLoader "res") (documentOf "obj") {}).2.1.loadRecord
    (fileLoader "res") (documentOf "mob") {}).2.1

/-- The number of the class `obj` stands for the class `mob` then, but its successor for
nothing. -/
theorem lacks_loadRecord_iff_documentOf :
    ((World.start.loadRecord (fileLoader "res") (documentOf "obj") {}).2.1.loadRecord
        (fileLoader "res") (documentOf "mob") {}).1 = .ok () ∧
      ¬ reloaded.tree.Lacks 1 ∧ reloaded.tree.Lacks 2 ∧
      (reloaded.tree.entryAt 1).path = ⟨.absolute, ["mob"]⟩ := by
  have loaded : (World.start.loadRecord (fileLoader "res") (documentOf "obj") {}).2.1.loadRecord
      (fileLoader "res") (documentOf "mob") {} = (.ok (), reloaded, {}) := rfl
  obtain ⟨lacks_iff, _⟩ := lacks_loadRecord_iff loaded
  rw [lacks_iff, lacks_iff]
  exact ⟨rfl, by decide, by decide, rfl⟩

/-- Numbers from before a load may stand for something after it. -/
theorem not_forall_lacks :
    ¬ ∀ (first second : ClassRecord) (middle next : World) (memory last : ResourceCache),
      World.start.loadRecord (fileLoader "res") first {} = (.ok (), middle, memory) →
      middle.loadRecord (fileLoader "res") second memory = (.ok (), next, last) →
      ∀ id, 0 < id → id < middle.tree.size → next.tree.Lacks id := by
  intro stale
  have loaded : World.start.loadRecord (fileLoader "res") (documentOf "obj") {} =
      (.ok (), (World.start.loadRecord (fileLoader "res") (documentOf "obj") {}).2) := rfl
  have again : (World.start.loadRecord (fileLoader "res") (documentOf "obj") {}).2.1.loadRecord
      (fileLoader "res") (documentOf "mob") {} = (.ok (), reloaded, {}) := rfl
  have lacks := stale _ _ _ _ _ _ loaded again 1 (by decide) (by decide)
  cases lacks.get?_eq_none

end DreamWorld.Tree
