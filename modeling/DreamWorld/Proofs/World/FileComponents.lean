import DreamWorld.Proofs.Path.RoundTrip
import DreamWorld.World.Loader
import Mathlib.Data.List.Basic

/-!
# Components of file paths

What a file path begins with may stand for a component, the root or the place that the path is
read from.  From there on each piece between slashes stands for a component, unless it is empty
or a single dot.  So what follows a slash adds its own components to those before it.
-/

namespace DreamWorld

variable {piece : String}

/-! ## What follows a slash -/

/-- The component in front of what the segments of a path ask for, if there is one. -/
def leadingComponents (path : String) : List FileComponent :=
  if Path.startsAtRoot path then [.root]
  else if (Path.allPieces path).head? = some "." then [.here]
  else []

/-- What the segments of a path ask for. -/
def followedComponents (path : String) : List FileComponent :=
  (Path.segments path).filterMap FileComponent.ofSegment?

theorem fileComponents_eq (path : String) :
    fileComponents path = leadingComponents path ++ followedComponents path := by
  unfold fileComponents leadingComponents followedComponents
  split
  · rfl
  · split <;> rfl

theorem followedComponents_append_slash (directory path : String) :
    followedComponents (directory ++ "/" ++ path) =
      followedComponents directory ++ followedComponents path := by
  rw [followedComponents, Path.segments_append_slash, List.filterMap_append]
  rfl

/-- What follows a slash does not change the first piece. -/
theorem head?_allPieces_append_slash (directory path : String) :
    (Path.allPieces (directory ++ "/" ++ path)).head? = (Path.allPieces directory).head? := by
  rw [Path.allPieces_append_slash]
  exact List.head?_append_of_ne_nil _ (List.cons_ne_nil _ _)

theorem leadingComponents_append {directory rest : String} (nonempty : directory ≠ "")
    (samePiece :
      (Path.allPieces (directory ++ rest)).head? = (Path.allPieces directory).head?) :
    leadingComponents (directory ++ rest) = leadingComponents directory := by
  rw [leadingComponents, Path.startsAtRoot_append nonempty, samePiece]
  rfl

/-- After a slash, a path adds what its segments ask for. -/
theorem fileComponents_append_slash {directory : String} (nonempty : directory ≠ "")
    (path : String) :
    fileComponents (directory ++ "/" ++ path) =
      fileComponents directory ++ followedComponents path := by
  have samePiece : (Path.allPieces (directory ++ ("/" ++ path))).head? =
      (Path.allPieces directory).head? := by
    rw [← String.append_assoc, head?_allPieces_append_slash]
  rw [fileComponents_eq, followedComponents_append_slash, String.append_assoc,
    leadingComponents_append nonempty samePiece, fileComponents_eq directory, List.append_assoc]

/-- The same holds for a directory that ends in the slash. -/
theorem fileComponents_slash_append (before path : String) :
    fileComponents (before ++ "/" ++ path) =
      fileComponents (before ++ "/") ++ followedComponents path := by
  have alone : before ++ "/" = before ++ "/" ++ "" := by simp
  have nonempty : before ++ "/" ≠ "" := by simp
  have samePiece : (Path.allPieces (before ++ "/" ++ path)).head? =
      (Path.allPieces (before ++ "/")).head? := by
    rw [head?_allPieces_append_slash, alone, head?_allPieces_append_slash]
  have followed : followedComponents (before ++ "/") = followedComponents before := by
    rw [alone, followedComponents_append_slash]
    exact List.append_nil _
  rw [fileComponents_eq, leadingComponents_append nonempty samePiece,
    followedComponents_append_slash, fileComponents_eq (before ++ "/"), followed,
    List.append_assoc]

/-! ## Pieces -/

/-- A piece between slashes that stands for no component. -/
def IsIdle (piece : String) : Prop :=
  piece = "" ∨ piece = "."

theorem followedComponents_of_isIdle (idle : IsIdle piece) : followedComponents piece = [] := by
  rcases idle with rfl | rfl <;> rfl

theorem exists_followedComponents_eq (noSlash : '/' ∉ piece.toList) (busy : ¬ IsIdle piece) :
    ∃ component, followedComponents piece = [component] := by
  rw [IsIdle, not_or] at busy
  rw [followedComponents, Path.segments_of_slash_notMem busy.1 noSlash]
  unfold FileComponent.ofSegment?
  by_cases up : piece = ".."
  · exact ⟨.up, by simp [up]⟩
  · exact ⟨.name piece, by simp [up, busy.2]⟩

theorem followedComponents_intercalate (pieces : List String) :
    followedComponents (String.intercalate "/" pieces) = pieces.flatMap followedComponents := by
  induction pieces with
  | nil => rfl
  | cons piece rest ih =>
      cases rest with
      | nil => simp
      | cons next rest =>
          rw [String.intercalate_cons_cons, followedComponents_append_slash, ih]
          rfl

/-- The component that a path of these pieces begins with, if there is one. -/
def leadOf : List String → List FileComponent
  | [] => []
  | first :: rest =>
      if first = "" ∧ rest ≠ [] then [.root] else if first = "." then [.here] else []

theorem length_leadOf_le_one (pieces : List String) : (leadOf pieces).length ≤ 1 := by
  cases pieces with
  | nil => exact Nat.zero_le 1
  | cons first rest =>
      rw [leadOf]
      split
      · exact Nat.le_refl 1
      · split
        · exact Nat.le_refl 1
        · exact Nat.zero_le 1

theorem leadingComponents_eq (path : String) :
    leadingComponents path = leadOf (Path.allPieces path) := by
  unfold leadingComponents Path.startsAtRoot Path.allPieces
  cases path.toList with
  | nil => rfl
  | cons c rest =>
      by_cases slash : c = '/'
      · simp [Path.pieces, slash, leadOf]
      · simp [Path.pieces, slash, leadOf]

/-- The components of a path are those of its pieces. -/
theorem fileComponents_eq_pieces (path : String) :
    fileComponents path =
      leadOf (Path.allPieces path) ++ (Path.allPieces path).flatMap followedComponents := by
  rw [fileComponents_eq, leadingComponents_eq, ← followedComponents_intercalate,
    Path.intercalate_allPieces]

theorem fileComponents_intercalate {pieces : List String} (nonempty : pieces ≠ [])
    (noSlash : ∀ piece ∈ pieces, '/' ∉ piece.toList) :
    fileComponents (String.intercalate "/" pieces) =
      leadOf pieces ++ pieces.flatMap followedComponents := by
  rw [fileComponents_eq_pieces, Path.allPieces_intercalate nonempty noSlash]

end DreamWorld
