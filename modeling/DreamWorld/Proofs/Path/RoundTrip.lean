import DreamWorld.Proofs.Path
import DreamWorld.Proofs.Path.Slicing

/-!
# Paths and their texts

A path is well spelled if each of its elements has content and holds no slash.  Exactly
then its text reads as the path again: what is between the slashes are the elements, and
no element can pass for the leading slash of an absolute path.  Reading gives well
spelled paths, and every edit keeps them so.  A path that is edited from a read one is
therefore told by its text.
-/

namespace DreamWorld.Path

variable {path next other : Path} {text rest : String}

/-! ## Joined texts -/

/-- A slash between two texts separates their segments. -/
theorem segments_append_slash (text rest : String) :
    segments (text ++ "/" ++ rest) = segments text ++ segments rest := by
  rw [segments, allPieces_append_slash, List.filter_append]
  rfl

theorem segments_slash_append (text : String) : segments ("/" ++ text) = segments text := by
  have empty : segments "" = [] := rfl
  have split := segments_append_slash "" text
  rwa [String.empty_append, empty, List.nil_append] at split

theorem startsAtRoot_append (nonempty : text ≠ "") (rest : String) :
    startsAtRoot (text ++ rest) = startsAtRoot text := by
  rw [startsAtRoot, startsAtRoot, String.toList_append]
  cases chars : text.toList with
  | nil => exact absurd (String.toList_eq_nil_iff.mp chars) nonempty
  | cons c others => rfl

theorem startsAtRoot_slash_append (text : String) : startsAtRoot ("/" ++ text) = true := by
  have nonempty : "/" ≠ "" := by decide
  rw [startsAtRoot_append nonempty]
  rfl

theorem toText_of_absolute (absolute : path.isAbsolute = true) :
    path.toText = "/" ++ String.intercalate "/" path.elements := by
  simp only [toText, absolute, if_true]

theorem toText_of_relative (relative : path.isAbsolute = false) :
    path.toText = String.intercalate "/" path.elements := by
  simp only [toText, relative, Bool.false_eq_true, if_false]

/-! ## Well spelled paths -/

/-- Every element has content and holds no slash. -/
def WellSpelled (path : Path) : Prop :=
  ∀ element ∈ path.elements, element ≠ "" ∧ '/' ∉ element.toList

instance (path : Path) : Decidable path.WellSpelled :=
  inferInstanceAs (Decidable (∀ element ∈ path.elements, element ≠ "" ∧ '/' ∉ element.toList))

theorem elements_parse (text : String) : (parse text).elements = segments text := by
  rw [parse]

theorem wellSpelled_parse (text : String) : (parse text).WellSpelled := by
  intro element mem
  rw [elements_parse] at mem
  exact ne_empty_of_mem_segments mem

namespace WellSpelled

theorem of_subset (spelled : path.WellSpelled) (subset : next.elements ⊆ path.elements) :
    next.WellSpelled :=
  fun element mem => spelled element (subset mem)

theorem segments_intercalate (spelled : path.WellSpelled) :
    segments (String.intercalate "/" path.elements) = path.elements := by
  have content : (path.elements.filter fun element => !element.isEmpty) = path.elements := by
    rw [List.filter_eq_self]
    intro element mem
    simpa using (spelled element mem).1
  -- Without elements the text still has one piece, the empty one.
  by_cases empty : path.elements = []
  · rw [empty]
    rfl
  · rw [segments, allPieces_intercalate empty fun element mem => (spelled element mem).2]
    exact content

theorem startsAtRoot_intercalate (spelled : path.WellSpelled) :
    startsAtRoot (String.intercalate "/" path.elements) = false := by
  cases elements : path.elements with
  | nil => rfl
  | cons first others =>
      rcases spelled first (elements ▸ List.mem_cons_self) with ⟨nonempty, noSlash⟩
      have begins : startsAtRoot first = false := startsAtRoot_of_slash_notMem noSlash
      cases others with
      | nil => rwa [String.intercalate_singleton]
      | cons second others =>
          rw [String.intercalate_cons_cons, String.append_assoc, startsAtRoot_append nonempty,
            begins]

/-- The segments of the text are the elements. -/
theorem segments_toText (spelled : path.WellSpelled) : segments path.toText = path.elements := by
  cases absolute : path.isAbsolute with
  | true => rw [toText_of_absolute absolute, segments_slash_append, spelled.segments_intercalate]
  | false => rw [toText_of_relative absolute, spelled.segments_intercalate]

/-- The text starts at the root exactly if the path does. -/
theorem startsAtRoot_toText (spelled : path.WellSpelled) :
    startsAtRoot path.toText = path.isAbsolute := by
  cases absolute : path.isAbsolute with
  | true => rw [toText_of_absolute absolute, startsAtRoot_slash_append]
  | false => rw [toText_of_relative absolute, spelled.startsAtRoot_intercalate]

/-- The text of a well spelled path reads as the path. -/
theorem parse_toText (spelled : path.WellSpelled) : parse path.toText = path := by
  ext1
  · rw [parse, kindOf, spelled.startsAtRoot_toText, isAbsolute]
    cases path.kind <;> rfl
  · rw [elements_parse, spelled.segments_toText]

end WellSpelled

/-- Only the text of a well spelled path reads as the path. -/
theorem parse_toText_eq_iff : parse path.toText = path ↔ path.WellSpelled := by
  constructor
  · intro again
    rw [← again]
    exact wellSpelled_parse path.toText
  · exact WellSpelled.parse_toText

theorem WellSpelled.toText_inj (spelled : path.WellSpelled) (otherSpelled : other.WellSpelled) :
    path.toText = other.toText ↔ path = other := by
  constructor
  · intro sameText
    rw [← spelled.parse_toText, sameText, otherSpelled.parse_toText]
  · exact congrArg toText

/-! ## Edited paths -/

/-- One edit of a path. -/
inductive Edit where
  | resolve (text : String)
  | eraseAt (index : Nat)
  | slice (start stop : Nat)
  | sliceTo (start : Nat) (stop : Int)
  | parent

/-- The path after an edit.  Leaving for the parent fails where there is none. -/
def edit? (path : Path) : Edit → Option Path
  | .resolve text => some (path.resolve text)
  | .eraseAt index => some (path.eraseAt index)
  | .slice start stop => some (path.slice start stop)
  | .sliceTo start stop => some (path.sliceTo start stop)
  | .parent => path.parent?

/-- A path that is read from a text, the root or the path of the list class, or edited
from one of these. -/
inductive Derived : Path → Prop
  | parse (text : String) : Derived (parse text)
  | root : Derived root
  | listClass : Derived listClass
  | edit {path next : Path} {change : Edit} :
      Derived path → path.edit? change = some next → Derived next

theorem WellSpelled.resolve (spelled : path.WellSpelled) (text : String) :
    (path.resolve text).WellSpelled := by
  intro element mem
  rcases mem_of_mem_resolve mem with before | ⟨segment, _⟩
  · exact spelled element before
  · exact ne_empty_of_mem_segments segment

theorem WellSpelled.slice (spelled : path.WellSpelled) (start stop : Nat) :
    (path.slice start stop).WellSpelled := by
  apply spelled.of_subset
  rw [elements_slice]
  exact ((List.drop_sublist _ _).trans (List.take_sublist _ _)).subset

/-- Every edit keeps a path well spelled. -/
theorem WellSpelled.edit? {change : Edit} (spelled : path.WellSpelled)
    (edited : path.edit? change = some next) : next.WellSpelled := by
  cases change with
  | resolve text =>
      cases edited
      exact spelled.resolve text
  | eraseAt index =>
      cases edited
      exact spelled.of_subset (List.eraseIdx_sublist _ index).subset
  | slice start stop =>
      cases edited
      exact spelled.slice start stop
  | sliceTo start stop =>
      cases edited
      exact spelled.slice start (path.stopOf stop)
  | parent =>
      rw [Path.edit?, parent?] at edited
      split at edited
      · cases edited
      · cases edited
        exact spelled.slice 0 (path.length - 1)

theorem Derived.wellSpelled (derived : path.Derived) : path.WellSpelled := by
  induction derived with
  | parse text => exact wellSpelled_parse text
  | root => decide
  | listClass => decide
  | edit _ edited ih => exact ih.edit? edited

/-- A path that reading and edits lead to is well spelled and reads again from its text;
so two such paths are the same exactly if their texts are. -/
theorem Derived.reads_again (derived : path.Derived) (otherDerived : other.Derived) :
    (∀ element ∈ path.elements, element ≠ "" ∧ '/' ∉ element.toList) ∧
    Path.parse path.toText = path ∧
    (path.toText = other.toText ↔ path = other) :=
  ⟨derived.wellSpelled, derived.wellSpelled.parse_toText,
    derived.wellSpelled.toText_inj otherDerived.wellSpelled⟩

/-- The relative path `./mob`. -/
def mobPath : Path where
  kind := .relative
  elements := [".", "mob"]

/-- This path can be cut out of one that is read with a dot element.  It reads again, and its
text is not that of the absolute path with the same elements. -/
theorem Derived.reads_again_mobPath :
    mobPath.Derived ∧ (Path.parse "/./mob").Derived ∧
      (∀ element ∈ mobPath.elements, element ≠ "" ∧ '/' ∉ element.toList) ∧
      Path.parse mobPath.toText = mobPath ∧
      (mobPath.toText = (Path.parse "/./mob").toText ↔ mobPath = Path.parse "/./mob") := by
  have resolved : (Path.parse "/obj/./item").edit? (.resolve "../mob//sword/") =
      some ⟨.absolute, ["obj", ".", "mob", "sword"]⟩ := by decide
  have sliced : edit? ⟨.absolute, ["obj", ".", "mob", "sword"]⟩ (.sliceTo 1 (-1)) =
      some ⟨.relative, [".", "mob", "sword"]⟩ := by decide
  have left : edit? ⟨.relative, [".", "mob", "sword"]⟩ .parent = some mobPath := by decide
  have derived : mobPath.Derived :=
    (((Derived.parse "/obj/./item").edit resolved).edit sliced).edit left
  have otherDerived : (Path.parse "/./mob").Derived := .parse "/./mob"
  exact ⟨derived, otherDerived, reads_again derived otherDerived⟩

end DreamWorld.Path
