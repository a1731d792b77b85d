import DreamWorld.Proofs.Syntax.Declaration

/-!
# What declarations keep of their paths

A proc, an override and a parameter are declared by a path that is taken apart into a class
and a name, perhaps after a marker is dropped.  Nothing else of the path is dropped: the class
has its kind, and the elements of the class and the name are those of the path.

A local variable cuts its type out of the path from after the `var` marker on, where a
parameter drops the marker and cuts what is left.  On a relative path with no marker but a
leading one, both declare the same name with the same type.
-/

namespace DreamWorld

/-! ## A path taken apart -/

namespace Path

/-- A path without the first element that equals a name; without such an element, the path
itself. -/
def without (path : Path) (name : String) : Path :=
  { path with elements := path.elements.erase name }

/-- A class and a name that a path is taken apart into: the class has the elements before the
last one, if there are any, and the name is the last one, if there is one.  The elements of
the class and the name make up the path again. -/
structure SplitsInto (path : Path) (object : Option Path) (name : String) : Prop where
  object_eq : object =
    if 2 ≤ path.elements.length then some ⟨path.kind, path.elements.dropLast⟩ else none
  name_eq : name = path.elements.getLast?.getD ""
  reassembles : path.elements ≠ [] → object.elim [] elements ++ [name] = path.elements

theorem splitsInto_object?_lastName (path : Path) :
    path.SplitsInto path.object? path.lastName := by
  rcases path with ⟨kind, elements⟩
  rcases List.eq_nil_or_concat elements with rfl | ⟨before, last, rfl⟩
  · exact ⟨rfl, rfl, fun nonempty => absurd rfl nonempty⟩
  · rw [List.concat_eq_append, object?_append_singleton, lastName_append_singleton]
    refine ⟨?_, by simp, fun _ => ?_⟩
    · rw [List.dropLast_concat]
      cases before with
      | nil => rfl
      | cons first others => simp
    · cases before with
      | nil => rfl
      | cons first others => rfl

/-- What a path is taken apart into is settled by the path. -/
theorem SplitsInto.unique {path : Path} {object otherObject : Option Path}
    {name otherName : String} (splits : path.SplitsInto object name)
    (otherSplits : path.SplitsInto otherObject otherName) :
    name = otherName ∧ object = otherObject :=
  ⟨splits.name_eq.trans otherSplits.name_eq.symm,
    splits.object_eq.trans otherSplits.object_eq.symm⟩

end Path

namespace Syntax

theorem dropMarker_eq (path : Path) (marker : String) :
    dropMarker path marker = (path.without marker, decide (marker ∈ path.elements)) := by
  have erased := List.erase_eq_eraseIdx path.elements marker
  have found : path.indexOf? marker = path.elements.idxOf? marker := rfl
  rw [dropMarker, found, Path.without, erased]
  cases index : path.elements.idxOf? marker with
  | none =>
      rw [decide_eq_false (List.idxOf?_eq_none_iff.mp index)]
  | some index =>
      have mem : marker ∈ path.elements := List.isSome_idxOf?.mp (by rw [index]; rfl)
      rw [decide_eq_true mem]
      rfl

/-! ## Procs, overrides and parameters -/

/-- The path of a proc without its marker: the first `proc`, or the first `verb` where there
is no `proc`. -/
def ProcDefinition.unmarked (path : Path) : Path :=
  if "proc" ∈ path.elements then path.without "proc" else path.without "verb"

theorem ProcDefinition.splitsInto_ofPath (path : Path) (parameters : List Parameter)
    (body : ProcBlock) :
    (unmarked path).SplitsInto (ofPath path parameters body).object
      (ofPath path parameters body).name := by
  unfold ofPath unmarked
  rw [dropMarker_eq, dropMarker_eq]
  by_cases isProc : "proc" ∈ path.elements
  · simp only [isProc, decide_true, if_true]
    exact Path.splitsInto_object?_lastName _
  · simp only [isProc, decide_false, if_false]
    exact Path.splitsInto_object?_lastName _

theorem ProcDefinition.isVerb_ofPath_iff {path : Path} {parameters : List Parameter}
    {body : ProcBlock} :
    (ofPath path parameters body).isVerb = true ↔
      "proc" ∉ path.elements ∧ "verb" ∈ path.elements := by
  unfold ofPath
  rw [dropMarker_eq, dropMarker_eq]
  by_cases isProc : "proc" ∈ path.elements <;> simp [isProc]

theorem Parameter.splitsInto_ofPath (path : Path) (value : Option Expr) (kinds : ValueKinds)
    (possibleValues : Option Expr) :
    (path.without "var").SplitsInto (ofPath path value kinds possibleValues).type
      (ofPath path value kinds possibleValues).name := by
  unfold ofPath
  rw [dropMarker_eq]
  exact Path.splitsInto_object?_lastName _

/-! ## Local variables -/

/-- The relative path of a local variable: a leading `var` marker or none, the type and the
name. -/
def localPath (leading rest : List String) : Path :=
  ⟨.relative, leading ++ rest⟩

section

variable {leading rest type : List String} {name : String}

theorem without_localPath (marked : leading = [] ∨ leading = ["var"]) (notMem : "var" ∉ rest) :
    (localPath leading rest).without "var" = ⟨.relative, rest⟩ := by
  rcases marked with rfl | rfl
  · simp [Path.without, localPath, List.erase_of_not_mem notMem]
  · simp [Path.without, localPath]

/-- The elements between the marker and the name are cut out of the path. -/
theorem sliceTo_localPath (marked : leading = [] ∨ leading = ["var"])
    (notMem : "var" ∉ type ++ [name]) :
    (localPath leading (type ++ [name])).sliceTo
        (((localPath leading (type ++ [name])).indexOf? "var").elim 0 (· + 1)) (-2) =
      ⟨.relative, type⟩ := by
  have stop (path : Path) : path.stopOf (-2) = path.length - 1 := path.stopOf_negSucc 1
  rw [Path.sliceTo, stop]
  rcases marked with rfl | rfl
  · have absent : (localPath [] (type ++ [name])).indexOf? "var" = none :=
      Path.indexOf?_of_notMem notMem
    rw [absent, Option.elim_none, Path.slice_zero]
    simp [localPath, Path.length]
  · have first : (localPath ["var"] (type ++ [name])).indexOf? "var" = some 0 :=
      Path.indexOf?_append_cons List.not_mem_nil
    have stopPos : 0 < (localPath ["var"] (type ++ [name])).length - 1 := by
      simp [localPath, Path.length]
    rw [first, Option.elim_some, Path.slice_of_pos _ Nat.one_pos stopPos (List.cons_ne_nil _ _)]
    simp [localPath, Path.length]

theorem VarDeclaration.splitsInto_ofPath (marked : leading = [] ∨ leading = ["var"])
    (nonempty : rest ≠ []) (notMem : "var" ∉ rest) (value : Option Expr) :
    Path.SplitsInto ⟨.relative, rest⟩ (ofPath (localPath leading rest) value).type
      (ofPath (localPath leading rest) value).name := by
  rcases List.eq_nil_or_concat rest with rfl | ⟨type, name, rfl⟩
  · exact absurd rfl nonempty
  rw [List.concat_eq_append] at *
  have nameEq : (localPath leading (type ++ [name])).lastName = name := by
    rw [localPath, ← List.append_assoc, Path.lastName_append_singleton]
  have typeEq : (ofPath (localPath leading (type ++ [name])) value).type =
      Path.object? ⟨.relative, type ++ [name]⟩ := by
    rw [Path.object?_append_singleton, ofPath, sliceTo_localPath marked notMem]
    simp
  have parts := Path.splitsInto_object?_lastName ⟨.relative, type ++ [name]⟩
  rw [Path.lastName_append_singleton] at parts
  rw [typeEq, ofPath, nameEq]
  exact parts

end

/-! ## All declarations -/

/-- A proc is taken apart as its path without the marker, and it is a verb if a `verb` marker
was dropped; an override is taken apart as its path, and a parameter as its path without the
first `var`.  On a relative path with no `var` but a leading one, a local variable has the name
and the type of the parameter. -/
theorem declarations_splitInto (path : Path) (parameters : List Parameter) (body : ProcBlock)
    (value : Expr) (default : Option Expr) (kinds : ValueKinds) (possibleValues : Option Expr) :
    (ProcDefinition.unmarked path).SplitsInto (ProcDefinition.ofPath path parameters body).object
      (ProcDefinition.ofPath path parameters body).name ∧
    ((ProcDefinition.ofPath path parameters body).isVerb = true ↔
      "proc" ∉ path.elements ∧ "verb" ∈ path.elements) ∧
    path.SplitsInto (VarOverride.ofPath path value).object (VarOverride.ofPath path value).name ∧
    (path.without "var").SplitsInto
      (Parameter.ofPath path default kinds possibleValues).type
      (Parameter.ofPath path default kinds possibleValues).name ∧
    ∀ leading rest : List String, leading = [] ∨ leading = ["var"] → rest ≠ [] → "var" ∉ rest →
      (VarDeclaration.ofPath (localPath leading rest) default).name =
        (Parameter.ofPath (localPath leading rest) default kinds possibleValues).name ∧
      (VarDeclaration.ofPath (localPath leading rest) default).type =
        (Parameter.ofPath (localPath leading rest) default kinds possibleValues).type := by
  refine ⟨ProcDefinition.splitsInto_ofPath path parameters body,
    ProcDefinition.isVerb_ofPath_iff, Path.splitsInto_object?_lastName path,
    Parameter.splitsInto_ofPath path default kinds possibleValues, ?_⟩
  intro leading rest marked nonempty notMem
  have localParts := VarDeclaration.splitsInto_ofPath marked nonempty notMem default
  have parameterParts :=
    Parameter.splitsInto_ofPath (localPath leading rest) default kinds possibleValues
  rw [without_localPath marked notMem] at parameterParts
  exact localParts.unique parameterParts

/-- `/mob/verb/say/verb` declares the verb `verb` of `/mob/say`, as only the first marker is
dropped, and `var/obj/item/held` declares a local variable of the type of the parameter that it
declares. -/
theorem declarations_splitInto_sayPath :
    (["var"] = [] ∨ ["var"] = ["var"]) ∧ ["obj", "item", "held"] ≠ [] ∧
      "var" ∉ ["obj", "item", "held"] ∧
      Path.SplitsInto (Path.parse "/mob/say/verb") (some (Path.parse "/mob/say")) "verb" ∧
      (VarDeclaration.ofPath (Path.parse "var/obj/item/held") none).type =
        (Parameter.ofPath (Path.parse "var/obj/item/held") none .anything none).type := by
  have marked : ["var"] = [] ∨ ["var"] = ["var"] := .inr rfl
  have nonempty : ["obj", "item", "held"] ≠ [] := List.cons_ne_nil _ _
  have notMem : "var" ∉ ["obj", "item", "held"] := by decide
  obtain ⟨proc, _, _, _, locals⟩ := declarations_splitInto (Path.parse "/mob/verb/say/verb") []
    ⟨[]⟩ .null none .anything none
  exact ⟨marked, nonempty, notMem, proc, (locals _ _ marked nonempty notMem).2⟩

end Syntax

end DreamWorld
