import DreamWorld.Proofs.Path
import DreamWorld.Proofs.Tree.Resolution

/-!
# Entries and their own paths

The path of an entry is put together by resolving the names of its record and of
the records around it, while look-up goes by the names as they are written.  A name
that holds a slash, is empty or is a dot segment resolves to something else than
itself, so an entry is found under its own path exactly when all of these names are
plain.  The loader does not check names for this.
-/

namespace DreamWorld.Tree

open Document (ClassRecord)

variable {σ : Type} {loader : ResourceLoader σ} {document record : ClassRecord}
  {names : List String} {id : Nat}

namespace Carries

variable {firstClass : ClassId} {tree : Tree}
  (carries : Carries loader firstClass document tree (document.placedWithin 0))

include carries

/-- The path of an entry leads back to it exactly when the names on the way to it are
plain. -/
theorem entryId_path_iff_isPlain (reached : document.Reaches names id record) :
    tree.entryId (tree.entryAt id).path = .ok id ↔ ∀ name ∈ names, Path.IsPlain name := by
  have inRange := carries.lt_size_of_reaches reached
  rw [carries.path_eq (List.prefix_refl _) reached inRange, entryId_eq_ok_iff,
    carries.find?_eq_some_iff_reaches, ← Path.elements_spelled_eq_iff]
  have absolute : (names.foldl Path.resolve Path.root).isAbsolute = true := by
    rw [Path.isAbsolute, Path.kind_spelled]
    rfl
  constructor
  · rintro ⟨_, other, otherReached⟩
    exact (otherReached.unique reached).1
  · intro spelled
    exact ⟨absolute, record, by rw [spelled]; exact reached⟩

theorem exists_reaches_of_lt_size (inRange : id < tree.size) :
    ∃ names record, document.Reaches names id record := by
  rw [carries.size_eq_length_preorder] at inRange
  rcases ClassRecord.exists_reaches_of_getElem? (List.getElem?_eq_getElem inRange) with
    ⟨names, reached⟩
  exact ⟨names, _, reached⟩

end Carries

/-- What holds of the names of all records but the outermost one holds of the names on the way
to a record. -/
theorem forall_mem_names {holds : String → Prop} (reached : document.Reaches names id record)
    (innerHolds : ∀ place inner, 0 < place → document.preorder[place]? = some inner →
      holds inner.name) : ∀ name ∈ names, holds name := by
  induction reached with
  | outermost =>
      intro name mem
      cases mem
  | within enclosing innerEq ih =>
      intro name mem
      rcases List.mem_append.mp mem with before | last
      · exact ih name before
      · rw [List.mem_singleton.mp last]
        exact innerHolds _ _ (by omega)
          (ClassRecord.Reaches.within enclosing innerEq).getElem?_preorder

/-- The names on the way to a record are plain if all records but the outermost one
have plain names. -/
theorem isPlain_of_mem_names (reached : document.Reaches names id record)
    (plain : ∀ place inner, 0 < place → document.preorder[place]? = some inner →
      Path.IsPlain inner.name) : ∀ name ∈ names, Path.IsPlain name :=
  forall_mem_names reached plain

/-- The inner records of a document are all but the first one in its order. -/
theorem forall_preorder_tail {holds : ClassRecord → Prop}
    (tailHolds : ∀ record ∈ document.preorder.tail, holds record) (place : Nat)
    (inner : ClassRecord) (positive : 0 < place)
    (listed : document.preorder[place]? = some inner) : holds inner := by
  apply tailHolds inner
  cases place with
  | zero => exact absurd positive (Nat.lt_irrefl 0)
  | succ place =>
      rw [List.mem_iff_getElem?]
      exact ⟨place, by rw [List.getElem?_tail, listed]⟩

theorem isPlain_of_preorder_tail
    (plain : ∀ record ∈ document.preorder.tail, Path.IsPlain record.name) :
    ∀ place inner, 0 < place → document.preorder[place]? = some inner →
      Path.IsPlain inner.name :=
  forall_preorder_tail plain

/-- If all inner records have plain names, every entry is found under its own path. -/
theorem Carries.entryId_path_of_isPlain {firstClass : ClassId} {tree : Tree}
    (carries : Carries loader firstClass document tree (document.placedWithin 0))
    (plain : ∀ place inner, 0 < place → document.preorder[place]? = some inner →
      Path.IsPlain inner.name) (inRange : id < tree.size) :
    tree.entryId (tree.entryAt id).path = .ok id := by
  rcases carries.exists_reaches_of_lt_size inRange with ⟨names, record, reached⟩
  exact (carries.entryId_path_iff_isPlain reached).mpr (isPlain_of_mem_names reached plain)

/-- An entry of a loaded document is found under the path that it reports exactly when
the names that lead to its record are plain.  So all entries are found under their own
paths exactly when all records within the document have plain names, and then no two
of them have one path. -/
theorem entryId_path_iff {world next : World} {memory last : σ}
    (loaded : world.loadRecord loader document memory = (.ok (), next, last)) :
    (∀ names id record, document.Reaches names id record →
      (next.tree.entryId (next.tree.entryAt id).path = .ok id ↔
        ∀ name ∈ names, Path.IsPlain name)) ∧
    ((∀ id, id < next.tree.size → next.tree.entryId (next.tree.entryAt id).path = .ok id) ↔
      ∀ place record, 0 < place → document.preorder[place]? = some record →
        Path.IsPlain record.name) ∧
    ((∀ place record, 0 < place → document.preorder[place]? = some record →
        Path.IsPlain record.name) →
      ∀ id other, id < next.tree.size → other < next.tree.size →
        (next.tree.entryAt id).path = (next.tree.entryAt other).path → id = other) := by
  have carries := carries_of_loadRecord loaded
  have found_of_isPlain (plain : ∀ place record, 0 < place →
      document.preorder[place]? = some record → Path.IsPlain record.name) :
      ∀ id, id < next.tree.size → next.tree.entryId (next.tree.entryAt id).path = .ok id := by
    intro id inRange
    rcases carries.exists_reaches_of_lt_size inRange with ⟨names, record, reached⟩
    exact (carries.entryId_path_iff_isPlain reached).mpr (isPlain_of_mem_names reached plain)
  refine ⟨?_, ⟨?_, found_of_isPlain⟩, ?_⟩
  · intro names id record reached
    exact carries.entryId_path_iff_isPlain reached
  · intro coherent place record positive listed
    rcases ClassRecord.exists_reaches_of_getElem? listed with ⟨names, reached⟩
    have plain := (carries.entryId_path_iff_isPlain reached).mp
      (coherent place (carries.lt_size_of_reaches reached))
    rcases reached.cases_place with ⟨_, rfl, _⟩ | ⟨outerNames, _, _, rfl, _, _⟩
    · exact absurd positive (Nat.lt_irrefl 0)
    · exact plain record.name (List.mem_append_right outerNames List.mem_cons_self)
  · intro plain id other inRange otherInRange samePath
    have found := found_of_isPlain plain id inRange
    rw [samePath, found_of_isPlain plain other otherInRange] at found
    cases found
    rfl

/-- An inner class of the sample is found under its own path. -/
theorem entryId_path_iff_crewDocument :
    (World.start.loadRecord (fileLoader "res") crewDocument {}).1 = .ok () ∧
      (World.start.loadRecord (fileLoader "res") crewDocument {}).2.1.tree.entryId
        ((World.start.loadRecord (fileLoader "res") crewDocument {}).2.1.tree.entryAt 2).path =
          .ok 2 := by
  have loaded : World.start.loadRecord (fileLoader "res") crewDocument {} =
      (.ok (), (World.start.loadRecord (fileLoader "res") crewDocument {}).2) := rfl
  have outerInner : crewDocument.inner = [] ++ mobRecord :: [ghostRecord] := rfl
  have mobInner : mobRecord.inner = [] ++ { name := "player" } :: [] := rfl
  have reached : crewDocument.Reaches ["mob", "player"] 2 { name := "player" } :=
    .within (.within .outermost outerInner) mobInner
  refine ⟨rfl, ((entryId_path_iff loaded).1 _ _ _ reached).mpr ?_⟩
  intro name mem
  simp only [List.mem_cons, List.not_mem_nil, or_false] at mem
  rcases mem with rfl | rfl <;> exact ⟨by decide, by decide, by decide, by decide⟩

/-- A document of a class whose name holds a slash. -/
def slashedDocument : ClassRecord where
  name := ""
  children := some [{ name := "a/b" }]

/-- The class of that document is not found under its own path. -/
theorem entryId_path_slashedDocument :
    (World.start.loadRecord (fileLoader "res") slashedDocument {}).2.1.tree.entryId
      ((World.start.loadRecord (fileLoader "res") slashedDocument {}).2.1.tree.entryAt 1).path =
        .error (.objectDoesNotExist ⟨.absolute, ["a", "b"]⟩) := by
  decide +kernel

/-- Entries need not be found under their own paths. -/
theorem not_forall_entryId_path :
    ¬ ∀ (document : ClassRecord) (next : World) (last : ResourceCache),
      World.start.loadRecord (fileLoader "res") document {} = (.ok (), next, last) →
      ∀ id, id < next.tree.size →
        next.tree.entryId (next.tree.entryAt id).path = .ok id := by
  intro coherent
  have loaded : World.start.loadRecord (fileLoader "res") slashedDocument {} =
      (.ok (), (World.start.loadRecord (fileLoader "res") slashedDocument {}).2) := rfl
  have found := coherent slashedDocument _ _ loaded 1 (by decide)
  have clash := entryId_path_slashedDocument.symm.trans found
  cases clash

end DreamWorld.Tree
