import DreamWorld.Proofs.Tree.Loaded

/-!
# What paths lead to

After a document has been loaded, a path leads to an entry exactly when it is
absolute and its elements, read as names of records, reach a record of the
document from the outermost one.  The number of the entry is the place of that
record, and the entry is built from it.
-/

namespace DreamWorld.Tree

open Document (ClassRecord)

variable {σ : Type} {loader : ResourceLoader σ} {firstClass : ClassId} {tree : Tree}
  {document record : ClassRecord} {names : List String} {id : Nat}

namespace Carries

variable (carries : Carries loader firstClass document tree (document.placedWithin 0))

include carries

theorem size_eq_length_preorder : tree.size = document.preorder.length := by
  rw [carries.represents.size_eq, document.length_preorder 0]

theorem lt_size_of_reaches (reached : document.Reaches names id record) : id < tree.size := by
  rw [carries.size_eq_length_preorder]
  exact (List.getElem?_eq_some_iff.mp reached.getElem?_preorder).1

/-- Names lead to an entry exactly when they reach a record at its number. -/
theorem find?_eq_some_iff_reaches :
    tree.find? names = some id ↔ ∃ record, document.Reaches names id record := by
  rw [carries.represents.find?_eq_some_iff (List.prefix_refl _)]
  constructor
  · rintro ⟨_, record, reached⟩
    exact ⟨record, reached⟩
  · rintro ⟨record, reached⟩
    exact ⟨carries.lt_size_of_reaches reached, record, reached⟩

theorem find?_eq_none_iff_not_reaches :
    tree.find? names = none ↔ ¬ ∃ id record, document.Reaches names id record := by
  rw [Option.eq_none_iff_forall_ne_some]
  constructor
  · rintro absent ⟨id, record, reached⟩
    exact absent id (carries.find?_eq_some_iff_reaches.mpr ⟨record, reached⟩)
  · intro unreached id found
    exact unreached ⟨id, carries.find?_eq_some_iff_reaches.mp found⟩

end Carries

/-- Paths of a loaded world resolve exactly to the records that their elements
reach.  The entry found has the number of the record in the order of the document
and is built from the record and linked as it says; every other path fails by its
kind, and the tree has one entry for each record. -/
theorem entryId_loadRecord {world next : World} {memory last : σ}
    (loaded : world.loadRecord loader document memory = (.ok (), next, last)) :
    (∀ path id, next.tree.entryId path = .ok id ↔
      path.isAbsolute = true ∧ ∃ record, document.Reaches path.elements id record) ∧
    (∀ names id record, document.Reaches names id record →
      document.preorder[id]? = some record ∧
      BuiltFrom loader world.store.nextClass next.tree id
        (names.foldl Path.resolve Path.root) record ∧
      (id ≠ rootId → LinkedAs document next.tree id record)) ∧
    (∀ path, path.isAbsolute = false →
      next.tree.entryId path = .error (.pathNotAbsolute path)) ∧
    (∀ path, path.isAbsolute = true →
      (¬ ∃ id record, document.Reaches path.elements id record) →
      next.tree.entryId path = .error (.objectDoesNotExist path)) ∧
    (∀ path, next.tree.hasEntry path = true ↔ ∃ id, next.tree.entryId path = .ok id) ∧
    next.tree.size = document.preorder.length := by
  have carries := carries_of_loadRecord loaded
  refine ⟨?_, ?_, ?_, ?_, fun path => hasEntry_iff, carries.size_eq_length_preorder⟩
  · intro path id
    rw [entryId_eq_ok_iff, carries.find?_eq_some_iff_reaches]
  · intro names id record reached
    have inRange := carries.lt_size_of_reaches reached
    refine ⟨reached.getElem?_preorder,
      carries.built_of_reaches (List.prefix_refl _) reached inRange, ?_⟩
    intro notRoot
    rcases reached.cases_place with ⟨_, atRoot, _⟩ | ⟨_, _, _, _, _, within⟩
    · exact absurd atRoot notRoot
    · exact carries.represents.linkedAs (List.prefix_refl _) within inRange
  · intro path relative
    simp [entryId, relative]
  · intro path absolute unreached
    have absent := carries.find?_eq_none_iff_not_reaches.mpr unreached
    simp [entryId, absolute, absent]

/-- A class with another one within it. -/
def mobRecord : ClassRecord where
  name := "mob"
  vars := some [("health", .number "100")]
  children := some [{ name := "player" }]

/-- A class that names an inner class as its parent. -/
def ghostRecord : ClassRecord where
  name := "ghost"
  parent := some "/mob/player"
  vars := some [("health", .number "0")]

/-- A document with classes on two levels. -/
def crewDocument : ClassRecord where
  name := ""
  children := some [mobRecord, ghostRecord]

/-- The path of an inner class of the sample leads to its place. -/
theorem entryId_loadRecord_crewDocument :
    (World.start.loadRecord (fileLoader "res") crewDocument {}).1 = .ok () ∧
      (World.start.loadRecord (fileLoader "res") crewDocument {}).2.1.tree.entryId
        (Path.parse "/mob/player") = .ok 2 := by
  have loaded : World.start.loadRecord (fileLoader "res") crewDocument {} =
      (.ok (), (World.start.loadRecord (fileLoader "res") crewDocument {}).2) := rfl
  have outerInner : crewDocument.inner = [] ++ mobRecord :: [ghostRecord] := rfl
  have mobInner : mobRecord.inner = [] ++ { name := "player" } :: [] := rfl
  have reached : crewDocument.Reaches ["mob", "player"] 2 { name := "player" } :=
    .within (.within .outermost outerInner) mobInner
  exact ⟨rfl, ((entryId_loadRecord loaded).1 _ _).mpr ⟨rfl, _, reached⟩⟩

end DreamWorld.Tree
