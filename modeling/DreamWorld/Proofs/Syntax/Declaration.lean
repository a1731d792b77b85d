import DreamWorld.Proofs.Path.Slicing
import DreamWorld.Syntax.Statement

/-!
# Declarations and the paths that spell them

A declaration of a class variable is spelled by a path: the class, a `var` marker, the
type and the name, with a `global` marker anywhere if the variable is shared.  The parts
are read back from the path, whatever their lengths and wherever that marker stands, as long
as no element of the class can be taken for the `var` marker and none at all for `global`.
-/

namespace DreamWorld

/-! ## Markers among elements -/

section Markers

variable {path : Path} {kind : PathKind} {elements before after : List String}
  {marker : String} {place : Nat}

namespace Path

theorem indexOf?_of_notMem (notMem : marker ∉ path.elements) : path.indexOf? marker = none := by
  rw [indexOf?, List.findIdx?_eq_none_iff]
  intro element mem
  exact beq_eq_false_iff_ne.mpr fun same => notMem (same ▸ mem)

/-- A marker that no element before it equals is found at its place. -/
theorem indexOf?_append_cons (notMem : marker ∉ before) :
    indexOf? ⟨kind, before ++ marker :: after⟩ marker = some before.length := by
  have absent : indexOf? ⟨kind, before⟩ marker = none := indexOf?_of_notMem notMem
  rw [indexOf?] at absent
  rw [indexOf?, List.findIdx?_append, absent, List.findIdx?_cons, beq_self_eq_true, if_pos rfl]
  simp

end Path

theorem insertIdx_eq_append (inRange : place ≤ elements.length) :
    elements.insertIdx place marker = elements.take place ++ marker :: elements.drop place := by
  induction elements generalizing place with
  | nil =>
      have front : place = 0 := Nat.le_zero.mp inRange
      rw [front]
      rfl
  | cons first others ih =>
      cases place with
      | zero => rfl
      | succ place =>
          rw [List.insertIdx_succ_cons, ih (Nat.le_of_succ_le_succ inRange), List.take_succ_cons,
            List.drop_succ_cons, List.cons_append]

theorem Syntax.dropMarker_of_notMem (notMem : marker ∉ path.elements) :
    dropMarker path marker = (path, false) := by
  rw [dropMarker, Path.indexOf?_of_notMem notMem]

/-- A marker is dropped again from wherever it was put among other elements. -/
theorem Syntax.dropMarker_insertIdx (notMem : marker ∉ elements) (inRange : place ≤ elements.length) :
    dropMarker ⟨kind, elements.insertIdx place marker⟩ marker = (⟨kind, elements⟩, true) := by
  have notBefore : marker ∉ elements.take place := fun mem => notMem (List.mem_of_mem_take mem)
  have found : Path.indexOf? ⟨kind, elements.insertIdx place marker⟩ marker = some place := by
    rw [insertIdx_eq_append inRange, Path.indexOf?_append_cons notBefore, List.length_take,
      Nat.min_eq_left inRange]
  rw [dropMarker, found]
  simp only [Path.eraseAt, List.eraseIdx_insertIdx_self]

end Markers

/-! ## Class variables -/

namespace Syntax

/-- What a declaration of a class variable says: the class, by the kind and the elements of
its path, the elements of the type, and the name. -/
structure VarParts where
  kind : PathKind
  object : List String
  type : List String
  name : String

namespace VarParts

/-- The elements that spell the parts, with the `var` marker after the class. -/
def elements (parts : VarParts) : List String :=
  parts.object ++ "var" :: (parts.type ++ [parts.name])

/-- The path that spells the parts, with a `global` marker at a place or without one. -/
def path (parts : VarParts) (place : Option Nat) : Path where
  kind := parts.kind
  elements := place.elim parts.elements (parts.elements.insertIdx · "global")

/-- The declaration that the parts make up. -/
def definition (parts : VarParts) (value : Expr) (isGlobal : Bool) : VarDefinition where
  object := if parts.object = [] then none else some ⟨parts.kind, parts.object⟩
  type := if parts.type = [] then none else some ⟨.relative, parts.type⟩
  name := parts.name
  value
  isGlobal

variable {parts : VarParts}

/-- The `global` marker is dropped from the path, and no other element. -/
theorem dropMarker_path {place : Option Nat} (notMem : "global" ∉ parts.elements)
    (inRange : ∀ index ∈ place, index ≤ parts.elements.length) :
    dropMarker (parts.path place) "global" = (parts.path none, place.isSome) := by
  cases place with
  | none => exact dropMarker_of_notMem notMem
  | some index => exact dropMarker_insertIdx notMem (inRange index rfl)

theorem indexOf?_path (notMem : "var" ∉ parts.object) :
    (parts.path none).indexOf? "var" = some parts.object.length :=
  Path.indexOf?_append_cons notMem

/-- Before the `var` marker stands the class. -/
theorem slice_path_object (parts : VarParts) :
    (parts.path none).slice 0 parts.object.length = ⟨parts.kind, parts.object⟩ := by
  rw [Path.slice_zero]
  simp [path, elements]

/-- After the `var` marker stand the type and the name, and the path of these is relative. -/
theorem sliceTo_path_declared (parts : VarParts) :
    (parts.path none).sliceTo (parts.object.length + 1) (-1) =
      ⟨.relative, parts.type ++ [parts.name]⟩ := by
  have nonempty : (parts.path none).elements ≠ [] := by simp [path, elements]
  have lengthPos : 0 < (parts.path none).length := List.length_pos_iff.mpr nonempty
  have stop : (parts.path none).stopOf (-1) = (parts.path none).length :=
    Path.stopOf_negSucc _ 0
  rw [Path.sliceTo, stop, Path.slice_of_pos _ (Nat.succ_pos _) lengthPos nonempty, Path.length,
    List.take_length]
  have cut : (parts.path none).elements =
      (parts.object ++ ["var"]) ++ (parts.type ++ [parts.name]) := by simp [path, elements]
  rw [cut, List.drop_left' (by simp)]

end VarParts

/-- The parts of a declaration are read back from the path that spells them, and the
variable is shared exactly if a `global` marker was put in. -/
theorem VarDefinition.ofPath_path (parts : VarParts) (place : Option Nat) (value : Expr)
    (objectVar : "var" ∉ parts.object) (objectGlobal : "global" ∉ parts.object)
    (typeGlobal : "global" ∉ parts.type) (nameGlobal : parts.name ≠ "global")
    (inRange : ∀ index ∈ place, index ≤ parts.elements.length) :
    VarDefinition.ofPath (parts.path place) value = parts.definition value place.isSome := by
  have notMem : "global" ∉ parts.elements := by
    simp [VarParts.elements, objectGlobal, typeGlobal, Ne.symm nameGlobal]
  have object : (some parts.object.length).filter (0 < ·) =
      if parts.object = [] then none else some parts.object.length := by
    cases parts.object <;> rfl
  simp only [VarDefinition.ofPath, VarParts.dropMarker_path notMem inRange,
    VarParts.indexOf?_path objectVar, Option.elim_some, parts.sliceTo_path_declared,
    Path.object?_append_singleton, Path.lastName_append_singleton, object,
    VarParts.definition]
  congr 1
  split
  · rfl
  · exact congrArg some parts.slice_path_object

/-- A shared variable `contents` of `/obj/item`, whose type has a `var` element of its own. -/
def contentsParts : VarParts where
  kind := .absolute
  object := ["obj", "item"]
  type := ["list", "var"]
  name := "contents"

/-- Its parts are read back from `/obj/global/item/var/list/var/contents`, where the
`global` marker stands within the class. -/
theorem VarDefinition.ofPath_path_contentsParts :
    "var" ∉ contentsParts.object ∧ "global" ∉ contentsParts.object ∧
      "global" ∉ contentsParts.type ∧ contentsParts.name ≠ "global" ∧
      (∀ index ∈ some 1, index ≤ contentsParts.elements.length) ∧
      VarDefinition.ofPath (Path.parse "/obj/global/item/var/list/var/contents") .null =
        { object := some (Path.parse "/obj/item")
          type := some (Path.parse "list/var")
          name := "contents"
          value := .null
          isGlobal := true } := by
  have objectVar : "var" ∉ contentsParts.object := by decide
  have objectGlobal : "global" ∉ contentsParts.object := by decide
  have typeGlobal : "global" ∉ contentsParts.type := by decide
  have nameGlobal : contentsParts.name ≠ "global" := by decide
  have inRange : ∀ index ∈ some 1, index ≤ contentsParts.elements.length := by decide
  exact ⟨objectVar, objectGlobal, typeGlobal, nameGlobal, inRange,
    ofPath_path contentsParts (some 1) .null objectVar objectGlobal typeGlobal nameGlobal inRange⟩

end Syntax

end DreamWorld
