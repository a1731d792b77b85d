import DreamWorld.Command.Config
import DreamWorld.Proofs.World.FileComponents
import Mathlib.Data.List.DropRight

/-!
# The directory of a file

The directory of a file is what its path begins with, up to the last component.  Pieces that
stand for no component may follow it, before the last component and after that.  Resources are
looked for in the directory of the compiled file, and if its path has one component or none,
where the command runs.
-/

namespace DreamWorld.Command

/-- What the path of a file begins with, with all of its components but the last.  It does not
go on to a slash, except at the root, nor to a slash and a dot. -/
structure IsDirectoryOf (directory file : String) : Prop where
  begins : directory.toList <+: file.toList
  components_eq : fileComponents directory = (fileComponents file).dropLast
  eq_empty_of_slash : ∀ before, directory = before ++ "/" → before = ""
  ne_dot : ∀ before, directory ≠ before ++ "/."

/-- Where resources are looked for if only the compiled file is given: in its directory, or
where the command runs if the path has one component at most. -/
def IsDefault (compiled resources : String) : Prop :=
  (1 < (fileComponents compiled).length ∧ IsDirectoryOf resources compiled) ∨
    ((fileComponents compiled).length ≤ 1 ∧ resources = ".")

variable {pieces upper tail : List String} {component : FileComponent} {directory file : String}

/-! ## Trimmed pieces -/

theorem isIdle_iff {piece : String} : IsIdle piece ↔ (piece == "" || piece == ".") = true := by
  simp [IsIdle]

theorem exists_trimPieces_append (pieces : List String) :
    ∃ idle, pieces = trimPieces pieces ++ idle ∧ idle.flatMap followedComponents = [] := by
  refine ⟨pieces.rtakeWhile fun piece => piece == "" || piece == ".",
    List.rdropWhile_append_rtakeWhile.symm, List.flatMap_eq_nil_iff.mpr ?_⟩
  intro piece mem
  have idle := List.mem_rtakeWhile_imp mem
  exact followedComponents_of_isIdle (isIdle_iff.mpr idle)

theorem exists_trimPieces_eq (busy : trimPieces pieces ≠ []) :
    ∃ front last, trimPieces pieces = front ++ [last] ∧ ¬ IsIdle last := by
  have lastBusy := List.rdropWhile_last_not (fun piece => piece == "" || piece == ".") pieces busy
  exact ⟨_, _, (List.dropLast_append_getLast busy).symm, fun idle => lastBusy (isIdle_iff.mp idle)⟩

theorem flatMap_of_trimPieces_eq_nil (idle : trimPieces pieces = []) :
    pieces.flatMap followedComponents = [] := by
  rcases exists_trimPieces_append pieces with ⟨rest, split, none⟩
  rw [split, idle, List.nil_append, none]

/-- Behind the pieces of the parent there is one component. -/
theorem exists_parentPieces_append (noSlash : ∀ piece ∈ pieces, '/' ∉ piece.toList)
    (busy : trimPieces pieces ≠ []) :
    ∃ tail component, pieces = parentPieces pieces ++ tail ∧
      tail.flatMap followedComponents = [component] := by
  rcases exists_trimPieces_append pieces with ⟨idle, split, idleNone⟩
  rcases exists_trimPieces_eq busy with ⟨front, last, trimmed, lastBusy⟩
  rcases exists_trimPieces_append front with ⟨gap, frontSplit, gapNone⟩
  have parentEq : parentPieces pieces = trimPieces front := by
    rw [parentPieces, trimmed, List.dropLast_concat]
  rw [trimmed, List.append_assoc] at split
  have lastMem : last ∈ pieces := by
    rw [split]
    exact List.mem_append_right _ List.mem_cons_self
  rcases exists_followedComponents_eq (noSlash last lastMem) lastBusy with ⟨component, one⟩
  refine ⟨gap ++ last :: idle, component, ?_, ?_⟩
  · rw [parentEq, ← List.append_assoc, ← frontSplit]
    exact split
  · rw [List.flatMap_append, List.flatMap_cons, gapNone, one, idleNone]
    rfl

/-! ## Beginnings of paths -/

/-- Pieces that a directory may be spelled with: they end in one that stands for a component,
or are a dot at the start of the path. -/
inductive EndsInComponent : List String → Prop
  | here : EndsInComponent ["."]
  | last {front : List String} {last : String} : ¬ IsIdle last → EndsInComponent (front ++ [last])

namespace EndsInComponent

theorem trimPieces (busy : trimPieces pieces ≠ []) : EndsInComponent (trimPieces pieces) := by
  rcases exists_trimPieces_eq busy with ⟨front, last, trimmed, lastBusy⟩
  rw [trimmed]
  exact .last lastBusy

theorem cons_trimPieces (busy : Command.trimPieces pieces ≠ []) (first : String) :
    EndsInComponent (first :: Command.trimPieces pieces) := by
  rcases exists_trimPieces_eq busy with ⟨front, last, trimmed, lastBusy⟩
  rw [trimmed, ← List.cons_append]
  exact .last lastBusy

theorem ne_nil (ends : EndsInComponent upper) : upper ≠ [] := by
  cases ends with
  | here => exact List.cons_ne_nil _ _
  | last _ => exact List.append_ne_nil_of_right_ne_nil _ (List.cons_ne_nil _ _)

/-- A path that ends in a component has one. -/
theorem fileComponents_ne_nil (ends : EndsInComponent pieces)
    (noSlash : ∀ piece ∈ pieces, '/' ∉ piece.toList) :
    fileComponents (String.intercalate "/" pieces) ≠ [] := by
  rw [fileComponents_intercalate ends.ne_nil noSlash]
  cases ends with
  | here => exact List.cons_ne_nil _ _
  | @last front last busy =>
      rcases exists_followedComponents_eq (noSlash last (by simp)) busy with ⟨component, one⟩
      simp [one]

/-- It does not end in a slash and a piece that stands for no component. -/
theorem not_isIdle_of_slash (ends : EndsInComponent pieces)
    (noSlash : ∀ piece ∈ pieces, '/' ∉ piece.toList) {before last : String}
    (lastNoSlash : '/' ∉ last.toList)
    (split : String.intercalate "/" pieces = before ++ "/" ++ last) : ¬ IsIdle last := by
  have cut := Path.allPieces_intercalate ends.ne_nil noSlash
  have onePiece : Path.allPieces last = [last] := by
    simp [Path.allPieces_eq, List.splitOn_eq_singleton lastNoSlash]
  rw [split, Path.allPieces_append_slash, onePiece] at cut
  cases ends with
  | here =>
      rw [Path.allPieces, List.map_cons, List.cons_append] at cut
      exact absurd (List.cons_eq_cons.mp cut).2 (List.append_ne_nil_of_right_ne_nil _ (by simp))
  | last busy =>
      cases (List.append_inj' cut rfl).2
      exact busy

end EndsInComponent

/-- Pieces before the last component of a path spell its directory. -/
theorem isDirectoryOf_intercalate (ends : EndsInComponent upper)
    (noSlash : ∀ piece ∈ upper ++ tail, '/' ∉ piece.toList)
    (one : tail.flatMap followedComponents = [component]) :
    String.intercalate "/" upper ≠ "" ∧
      1 < (fileComponents (String.intercalate "/" (upper ++ tail))).length ∧
      IsDirectoryOf (String.intercalate "/" upper) (String.intercalate "/" (upper ++ tail)) := by
  have upperNoSlash := (List.forall_mem_append.mp noSlash).1
  have some := ends.fileComponents_ne_nil upperNoSlash
  have nonempty : String.intercalate "/" upper ≠ "" := by
    intro empty
    rw [empty] at some
    exact some rfl
  have tailNonempty : tail ≠ [] := by
    rintro rfl
    cases one
  have joined := String.intercalate_append_of_ne_nil (s := "/") ends.ne_nil tailNonempty
  have oneMore : fileComponents (String.intercalate "/" (upper ++ tail)) =
      fileComponents (String.intercalate "/" upper) ++ [component] := by
    rw [joined, fileComponents_append_slash nonempty, followedComponents_intercalate, one]
  refine ⟨nonempty, ?_, ?_⟩
  · rw [oneMore, List.length_append, List.length_singleton]
    exact Nat.lt_add_of_pos_left (List.length_pos_iff.mpr some)
  constructor
  case begins =>
    rw [joined, String.append_assoc, String.toList_append]
    exact List.prefix_append _ _
  case components_eq => rw [oneMore, List.dropLast_concat]
  case eq_empty_of_slash =>
    intro before split
    have named := ends.not_isIdle_of_slash upperNoSlash List.not_mem_nil
      (split.trans String.append_empty.symm)
    exact absurd (.inl rfl) named
  case ne_dot =>
    intro before split
    have dotPiece : String.intercalate "/" upper = before ++ "/" ++ "." := by
      rw [split, String.append_assoc]
      rfl
    exact absurd (.inr rfl) (ends.not_isIdle_of_slash upperNoSlash (by decide) dotPiece)

/-- The slash of the root is a directory too. -/
theorem isDirectoryOf_slash (one : tail.flatMap followedComponents = [component]) :
    1 < (fileComponents ("/" ++ String.intercalate "/" tail)).length ∧
      IsDirectoryOf "/" ("/" ++ String.intercalate "/" tail) := by
  have root : fileComponents "/" = [.root] := rfl
  have oneMore : fileComponents ("/" ++ String.intercalate "/" tail) =
      fileComponents "/" ++ [component] := by
    have split := fileComponents_slash_append "" (String.intercalate "/" tail)
    rwa [String.empty_append, followedComponents_intercalate, one] at split
  refine ⟨?_, ?_⟩
  · rw [oneMore, root]
    exact Nat.lt_succ_self 1
  constructor
  case begins => simp
  case components_eq => rw [oneMore, List.dropLast_concat]
  case eq_empty_of_slash =>
    intro before split
    have chars := congrArg String.toList split
    rw [String.toList_append] at chars
    exact String.toList_eq_nil_iff.mp (List.append_inj' chars.symm rfl).1
  case ne_dot =>
    intro before split
    have lengths := congrArg String.length split
    rw [String.length_append] at lengths
    have one : "/".length = 1 := rfl
    have two : "/.".length = 2 := rfl
    omega

/-! ## Where resources are looked for -/

/-- What stands for the directory of a file: nothing if the path has one component at most. -/
def IsDirectoryPart (directory file : String) : Prop :=
  (directory = "" ∧ (fileComponents file).length ≤ 1) ∨
    (directory ≠ "" ∧ 1 < (fileComponents file).length ∧ IsDirectoryOf directory file)

section

variable {first : String} {rest : List String}

/-- A path without pieces that stand for components has no directory. -/
theorem isDirectoryPart_of_idle (cut : Path.allPieces file = first :: rest)
    (firstIdle : IsIdle first) (idle : trimPieces rest = []) : IsDirectoryPart "" file := by
  refine .inl ⟨rfl, ?_⟩
  rw [fileComponents_eq_pieces, cut, List.flatMap_cons, followedComponents_of_isIdle firstIdle,
    flatMap_of_trimPieces_eq_nil idle, List.append_nil, List.append_nil]
  exact length_leadOf_le_one _

theorem isDirectoryPart_of_absolute (cut : Path.allPieces file = "" :: rest)
    (goesOn : rest ≠ []) :
    IsDirectoryPart
      (if trimPieces rest = [] then "" else "/" ++ String.intercalate "/" (parentPieces rest))
      file := by
  have noSlash := Path.slash_notMem_of_mem_allPieces file
  have joined := Path.intercalate_allPieces file
  rw [cut] at noSlash joined
  by_cases idle : trimPieces rest = []
  · rw [if_pos idle]
    exact isDirectoryPart_of_idle cut (.inl rfl) idle
  · rw [if_neg idle]
    rcases exists_parentPieces_append (List.forall_mem_cons.mp noSlash).2 idle with
      ⟨tail, component, split, one⟩
    by_cases atRoot : parentPieces rest = []
    · rw [atRoot, List.nil_append] at split
      rw [String.intercalate_cons_of_ne_nil goesOn, String.empty_append, split] at joined
      rw [atRoot, ← joined]
      exact .inr ⟨by decide, isDirectoryOf_slash one⟩
    · have directoryEq : "/" ++ String.intercalate "/" (parentPieces rest) =
          String.intercalate "/" ("" :: parentPieces rest) := by
        rw [String.intercalate_cons_of_ne_nil atRoot, String.empty_append]
      rw [split, ← List.cons_append] at joined noSlash
      rw [directoryEq, ← joined]
      exact .inr (isDirectoryOf_intercalate (.cons_trimPieces atRoot "") noSlash one)

theorem isDirectoryPart_of_here (cut : Path.allPieces file = "." :: rest) :
    IsDirectoryPart
      (if trimPieces rest = [] then "" else String.intercalate "/" ("." :: parentPieces rest))
      file := by
  have noSlash := Path.slash_notMem_of_mem_allPieces file
  have joined := Path.intercalate_allPieces file
  rw [cut] at noSlash joined
  by_cases idle : trimPieces rest = []
  · rw [if_pos idle]
    exact isDirectoryPart_of_idle cut (.inr rfl) idle
  · rw [if_neg idle]
    rcases exists_parentPieces_append (List.forall_mem_cons.mp noSlash).2 idle with
      ⟨tail, component, split, one⟩
    have ends : EndsInComponent ("." :: parentPieces rest) := by
      by_cases alone : parentPieces rest = []
      · rw [alone]
        exact .here
      · exact .cons_trimPieces alone "."
    rw [split, ← List.cons_append] at joined noSlash
    rw [← joined]
    exact .inr (isDirectoryOf_intercalate ends noSlash one)

theorem isDirectoryPart_of_named (cut : Path.allPieces file = first :: rest)
    (relative : ¬ (first = "" ∧ rest ≠ [])) (notHere : first ≠ ".") :
    IsDirectoryPart (String.intercalate "/" (parentPieces (first :: rest))) file := by
  have noSlash := Path.slash_notMem_of_mem_allPieces file
  have joined := Path.intercalate_allPieces file
  have components := fileComponents_eq_pieces file
  have lead : leadOf (first :: rest) = [] := by rw [leadOf, if_neg relative, if_neg notHere]
  rw [cut] at noSlash joined components
  rw [lead, List.nil_append] at components
  by_cases idle : trimPieces (first :: rest) = []
  · refine .inl ⟨by rw [parentPieces, idle]; rfl, ?_⟩
    rw [components, flatMap_of_trimPieces_eq_nil idle]
    decide
  · rcases exists_parentPieces_append noSlash idle with ⟨tail, component, split, one⟩
    by_cases alone : parentPieces (first :: rest) = []
    · rw [alone, List.nil_append] at split
      refine .inl ⟨by rw [alone]; rfl, ?_⟩
      rw [components, split, one]
      exact Nat.le_refl 1
    · rw [split] at joined noSlash
      rw [← joined]
      exact .inr (isDirectoryOf_intercalate (.trimPieces alone) noSlash one)

end

theorem isDirectoryPart_directoryOf (file : String) :
    IsDirectoryPart (directoryOf file) file := by
  unfold directoryOf
  split
  · rename_i cut
    cases cut
  · rename_i first rest cut
    split
    · rename_i absolute
      rcases absolute with ⟨rfl, goesOn⟩
      exact isDirectoryPart_of_absolute cut goesOn
    · rename_i relative
      split
      · rename_i here
        subst here
        exact isDirectoryPart_of_here cut
      · rename_i notHere
        exact isDirectoryPart_of_named cut relative notHere

/-- Resources are looked for in the directory of the compiled file, or where the command runs. -/
theorem isDefault_defaultResources (compiled : String) :
    IsDefault compiled (defaultResources compiled) := by
  unfold defaultResources
  rcases isDirectoryPart_directoryOf compiled with ⟨empty, few⟩ | ⟨nonempty, many, isDirectoryOf⟩
  · exact .inr ⟨few, if_pos empty⟩
  · rw [if_neg nonempty]
    exact .inl ⟨many, isDirectoryOf⟩

end DreamWorld.Command
