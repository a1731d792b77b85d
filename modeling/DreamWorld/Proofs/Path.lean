import DreamWorld.Path
import Mathlib.Data.List.Induction

/-!
# Names and the paths that they spell

A text is its pieces with slashes between them, and its segments are the pieces that have
content.  A name is plain if it is its own only segment and no dot segment; resolving a plain
name goes one element deeper, by the name itself.  Resolving any text from a path of plain
elements gives a path of plain elements, so the elements of a path that is spelled from the
root are the names themselves exactly when every name is plain.
-/

namespace DreamWorld.Path

/-- A name that can stand between two slashes and does not stand for a direction. -/
structure IsPlain (name : String) : Prop where
  nonempty : name ≠ ""
  slash_notMem : '/' ∉ name.toList
  ne_stay : name ≠ "."
  ne_leave : name ≠ ".."

instance (name : String) : Decidable (IsPlain name) :=
  decidable_of_iff (name ≠ "" ∧ '/' ∉ name.toList ∧ name ≠ "." ∧ name ≠ "..")
    ⟨fun ⟨nonempty, slash_notMem, ne_stay, ne_leave⟩ =>
      ⟨nonempty, slash_notMem, ne_stay, ne_leave⟩,
      fun ⟨nonempty, slash_notMem, ne_stay, ne_leave⟩ =>
      ⟨nonempty, slash_notMem, ne_stay, ne_leave⟩⟩

variable {path : Path} {name text segment : String} {chars piece : List Char}

/-! ## Pieces and segments -/

/-- The pieces of a text are what its slashes split it into. -/
theorem cons_pieces (chars : List Char) :
    (pieces chars).1 :: (pieces chars).2 = chars.splitOn '/' := by
  induction chars with
  | nil => rfl
  | cons c rest ih =>
      rw [List.splitOn_cons_eq_if_modifyHead, ← ih, pieces]
      by_cases slash : c = '/' <;> simp [slash]

theorem allPieces_eq (text : String) :
    allPieces text = (text.toList.splitOn '/').map String.ofList := by
  rw [allPieces, cons_pieces]

/-- A text is its pieces with slashes between them. -/
theorem intercalate_allPieces (text : String) :
    String.intercalate "/" (allPieces text) = text := by
  have chars : (allPieces text).map String.toList = text.toList.splitOn '/' := by
    simp [allPieces_eq, Function.comp_def]
  rw [← String.toList_inj, String.toList_intercalate, chars]
  exact List.intercalate_splitOn '/'

/-- Pieces without slashes can be read again from the text that they make up. -/
theorem allPieces_intercalate {pieces : List String} (nonempty : pieces ≠ [])
    (noSlash : ∀ piece ∈ pieces, '/' ∉ piece.toList) :
    allPieces (String.intercalate "/" pieces) = pieces := by
  have split : (String.intercalate "/" pieces).toList.splitOn '/' =
      pieces.map String.toList := by
    rw [String.toList_intercalate]
    apply List.splitOn_intercalate
    · exact List.forall_mem_map.mpr noSlash
    · simpa using nonempty
  rw [allPieces_eq, split, List.map_map]
  simp [Function.comp_def]

theorem allPieces_append_slash (text rest : String) :
    allPieces (text ++ "/" ++ rest) = allPieces text ++ allPieces rest := by
  have chars : (text ++ "/" ++ rest).toList = text.toList ++ '/' :: rest.toList := by simp
  rw [allPieces_eq, chars, List.splitOn_append_cons_self, List.map_append, ← allPieces_eq,
    ← allPieces_eq]

theorem segments_eq (text : String) :
    segments text =
      ((text.toList.splitOn '/').map String.ofList).filter fun piece => !piece.isEmpty := by
  rw [segments, allPieces_eq]

theorem slash_notMem_of_mem_pieces (mem : piece ∈ (pieces chars).1 :: (pieces chars).2) :
    '/' ∉ piece := by
  induction chars generalizing piece with
  | nil =>
      rw [pieces, List.mem_singleton] at mem
      simp [mem]
  | cons c rest ih =>
      by_cases slash : c = '/'
      · simp only [pieces, slash, if_true, List.mem_cons] at mem
        rcases mem with rfl | inRest
        · exact List.not_mem_nil
        · exact ih (List.mem_cons.mpr inRest)
      · simp only [pieces, slash, if_false, List.mem_cons] at mem
        rcases mem with rfl | inRest
        · simp [Ne.symm slash, ih List.mem_cons_self]
        · exact ih (List.mem_cons_of_mem _ inRest)

theorem slash_notMem_of_mem_allPieces (text : String) :
    ∀ piece ∈ allPieces text, '/' ∉ piece.toList := by
  intro piece mem
  rcases List.mem_map.mp mem with ⟨chars, charsMem, rfl⟩
  rw [String.toList_ofList]
  exact slash_notMem_of_mem_pieces charsMem

/-- A segment has content and holds no slash. -/
theorem ne_empty_of_mem_segments (mem : segment ∈ segments text) :
    segment ≠ "" ∧ '/' ∉ segment.toList := by
  rcases List.mem_filter.mp mem with ⟨pieceMem, content⟩
  exact ⟨by simpa using content, slash_notMem_of_mem_allPieces text segment pieceMem⟩

theorem segments_of_slash_notMem (nonempty : name ≠ "") (noSlash : '/' ∉ name.toList) :
    segments name = [name] := by
  have content : name.isEmpty = false := by simpa using nonempty
  simp [segments_eq, List.splitOn_eq_singleton noSlash, content]

theorem startsAtRoot_of_slash_notMem (noSlash : '/' ∉ name.toList) :
    startsAtRoot name = false := by
  unfold startsAtRoot
  cases chars : name.toList with
  | nil => rfl
  | cons c rest =>
      rw [chars, List.mem_cons, not_or] at noSlash
      simpa using Ne.symm noSlash.1

/-! ## Resolving -/

theorem resolve_of_isPlain (plain : IsPlain name) :
    path.resolve name = { path with elements := path.elements ++ [name] } := by
  simp [resolve, startsAtRoot_of_slash_notMem plain.slash_notMem,
    segments_of_slash_notMem plain.nonempty plain.slash_notMem, step, plain.ne_stay,
    plain.ne_leave]

theorem mem_of_mem_step {elements : List String} {element : String}
    (mem : element ∈ step elements segment) :
    element ∈ elements ∨ element = segment ∧ segment ≠ "." ∧ segment ≠ ".." := by
  unfold step at mem
  split at mem
  · exact .inl mem
  · rename_i notStay
    split at mem
    · exact .inl ((List.dropLast_sublist elements).subset mem)
    · rename_i notLeave
      rcases List.mem_append.mp mem with before | last
      · exact .inl before
      · exact .inr ⟨List.mem_singleton.mp last, notStay, notLeave⟩

theorem mem_of_mem_foldl_step {elements segments : List String} {element : String}
    (mem : element ∈ segments.foldl step elements) :
    element ∈ elements ∨ element ∈ segments ∧ element ≠ "." ∧ element ≠ ".." := by
  induction segments generalizing elements with
  | nil => exact .inl mem
  | cons first rest ih =>
      rcases ih mem with stepped | ⟨inRest, notDots⟩
      · rcases mem_of_mem_step stepped with before | ⟨rfl, notDots⟩
        · exact .inl before
        · exact .inr ⟨List.mem_cons_self, notDots⟩
      · exact .inr ⟨List.mem_cons_of_mem first inRest, notDots⟩

/-- An element of a resolved path was there before or is a segment of the text. -/
theorem mem_of_mem_resolve {element : String} (mem : element ∈ (path.resolve text).elements) :
    element ∈ path.elements ∨ element ∈ segments text ∧ element ≠ "." ∧ element ≠ ".." := by
  rcases mem_of_mem_foldl_step mem with started | added
  · split at started
    · cases started
    · exact .inl started
  · exact .inr added

/-- Resolving a text keeps the elements plain. -/
theorem isPlain_of_mem_resolve (plain : ∀ element ∈ path.elements, IsPlain element)
    (text : String) : ∀ element ∈ (path.resolve text).elements, IsPlain element := by
  intro element mem
  rcases mem_of_mem_resolve mem with before | ⟨segment, notStay, notLeave⟩
  · exact plain element before
  · rcases ne_empty_of_mem_segments segment with ⟨nonempty, noSlash⟩
    exact ⟨nonempty, noSlash, notStay, notLeave⟩

theorem kind_resolve (absolute : path.kind = .absolute) (text : String) :
    (path.resolve text).kind = .absolute := by
  simp only [resolve]
  split
  · rfl
  · exact absolute

/-! ## Spelling a path from the root -/

theorem kind_spelled (names : List String) :
    (names.foldl resolve root).kind = .absolute := by
  induction names using List.reverseRecOn with
  | nil => rfl
  | append_singleton names last ih =>
      rw [List.foldl_append]
      exact kind_resolve ih last

theorem isPlain_of_mem_spelled (names : List String) :
    ∀ element ∈ (names.foldl resolve root).elements, IsPlain element := by
  induction names using List.reverseRecOn with
  | nil =>
      intro element mem
      cases mem
  | append_singleton names last ih =>
      rw [List.foldl_append]
      exact isPlain_of_mem_resolve ih last

/-- The path that names spell has these names as its elements exactly when all of
them are plain. -/
theorem elements_spelled_eq_iff (names : List String) :
    (names.foldl resolve root).elements = names ↔ ∀ name ∈ names, IsPlain name := by
  constructor
  · intro spelled name mem
    rw [← spelled] at mem
    exact isPlain_of_mem_spelled names name mem
  · intro plain
    induction names using List.reverseRecOn with
    | nil => rfl
    | append_singleton names last ih =>
        have lastPlain := plain last (List.mem_append_right names List.mem_cons_self)
        have before : ∀ name ∈ names, IsPlain name := fun name mem =>
          plain name (List.mem_append_left [last] mem)
        rw [List.foldl_append, List.foldl_cons, List.foldl_nil, resolve_of_isPlain lastPlain,
          ih before]

end DreamWorld.Path
