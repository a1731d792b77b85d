import DreamWorld.Proofs.Path.RoundTrip
import DreamWorld.Proofs.Report

/-!
# What a line of a report shows

A line shows a path, after a colon the named parent, and in brackets the names of procs.  Two
texts that come before a blank are told apart before the blank is reached, since all of their
characters come after it.  So lines are in the order of their paths whatever follows, and a
line can be read in one way only.
-/

namespace DreamWorld

/-- A name whose characters all come after the blank. -/
structure IsVisible (name : String) : Prop where
  nonempty : name ≠ ""
  blank_lt : ∀ c ∈ name.toList, ' ' < c

theorem isVisible_iff {name : String} :
    name ≠ "" ∧ (name.toList.all fun c => decide (' ' < c)) = true ↔ IsVisible name := by
  simp only [List.all_eq_true, decide_eq_true_eq]
  exact ⟨fun ⟨nonempty, blank_lt⟩ => ⟨nonempty, blank_lt⟩,
    fun ⟨nonempty, blank_lt⟩ => ⟨nonempty, blank_lt⟩⟩

-- The characters of the name are gone through, as there are far too many others.
instance (name : String) : Decidable (IsVisible name) :=
  decidable_of_iff _ isVisible_iff

/-! ## Texts before a blank -/

section

variable {first second tail otherTail : List Char}

/-- What goes on with a blank, or ends. -/
def Parted (tail : List Char) : Prop :=
  ∀ c ∈ tail.head?, c = ' '

/-- What follows texts without blanks does not change their order. -/
theorem append_lt_append (before : first < second) (visible : ∀ c ∈ second, ' ' < c)
    (parted : Parted tail) : first ++ tail < second ++ otherTail := by
  induction first generalizing second with
  | nil =>
      cases second with
      | nil => cases before
      | cons c rest =>
          cases tail with
          | nil => exact .nil
          | cons blank more =>
              -- The first text has ended, and the second one goes on past the blank.
              obtain rfl := parted blank rfl
              exact .rel (visible c List.mem_cons_self)
  | cons c rest ih =>
      cases second with
      | nil => cases before
      | cons other more =>
          rcases List.cons_lt_cons_iff.mp before with less | ⟨rfl, restBefore⟩
          · exact .rel less
          · exact .cons (ih restBefore fun c mem => visible c (List.mem_cons_of_mem _ mem))

/-- A text without blanks can be read off what begins with it. -/
theorem append_inj_of_parted (visible : ∀ c ∈ first, ' ' < c)
    (otherVisible : ∀ c ∈ second, ' ' < c) (parted : Parted tail) (otherParted : Parted otherTail)
    (same : first ++ tail = second ++ otherTail) : first = second ∧ tail = otherTail := by
  have notBefore : ¬ first < second := by
    intro before
    have wrong : first ++ tail < second ++ otherTail :=
      append_lt_append before otherVisible parted
    rw [same] at wrong
    exact List.lt_irrefl _ wrong
  have notAfter : ¬ second < first := by
    intro before
    have wrong : second ++ otherTail < first ++ tail :=
      append_lt_append before visible otherParted
    rw [same] at wrong
    exact List.lt_irrefl _ wrong
  obtain rfl := List.le_antisymm (List.not_lt.mp notAfter) (List.not_lt.mp notBefore)
  exact ⟨rfl, List.append_cancel_left same⟩

end

theorem forall_mem_concat {holds : Char → Prop} {chars : List Char} {last : Char}
    (inside : ∀ c ∈ chars, holds c) (atEnd : holds last) : ∀ c ∈ chars ++ [last], holds c := by
  intro c mem
  rcases List.mem_append.mp mem with before | isLast
  · exact inside c before
  · exact List.mem_singleton.mp isLast ▸ atEnd

theorem forall_mem_intercalate {holds : Char → Prop} {separator : List Char}
    {parts : List (List Char)} (between : ∀ c ∈ separator, holds c)
    (inside : ∀ part ∈ parts, ∀ c ∈ part, holds c) :
    ∀ c ∈ separator.intercalate parts, holds c := by
  induction parts with
  | nil =>
      rintro c ⟨⟩
  | cons part rest ih =>
      have partHolds := inside part List.mem_cons_self
      have restHolds := ih fun other mem => inside other (List.mem_cons_of_mem part mem)
      cases rest with
      | nil =>
          rw [List.intercalate_singleton]
          exact partHolds
      | cons next rest =>
          intro c mem
          rw [List.intercalate_cons_cons, List.mem_append, List.mem_append] at mem
          rcases mem with (inPart | inSeparator) | inRest
          · exact partHolds c inPart
          · exact between c inSeparator
          · exact restHolds c inRest

/-! ## Visible paths -/

namespace Path

variable {path : Path}

/-- Every element is visible and holds no slash. -/
def IsVisible (path : Path) : Prop :=
  ∀ element ∈ path.elements, DreamWorld.IsVisible element ∧ '/' ∉ element.toList

theorem IsVisible.wellSpelled (visible : path.IsVisible) : path.WellSpelled :=
  fun element mem => ⟨(visible element mem).1.nonempty, (visible element mem).2⟩

/-- The text of a visible path has no blank. -/
theorem IsVisible.blank_lt (visible : path.IsVisible) : ∀ c ∈ path.toText.toList, ' ' < c := by
  have slash : ∀ c ∈ "/".toList, ' ' < c := List.forall_mem_singleton.mpr (by decide)
  have body : ∀ c ∈ (String.intercalate "/" path.elements).toList, ' ' < c := by
    rw [String.toList_intercalate]
    apply forall_mem_intercalate slash
    intro part mem
    rcases List.mem_map.mp mem with ⟨element, elementMem, rfl⟩
    exact (visible element elementMem).1.blank_lt
  cases absolute : path.isAbsolute with
  | false =>
      rw [toText_of_relative absolute]
      exact body
  | true =>
      rw [toText_of_absolute absolute, String.toList_append]
      intro c mem
      rcases List.mem_append.mp mem with first | inBody
      · exact slash c first
      · exact body c inBody

end Path

/-! ## Lines -/

namespace Report

/-- The names of procs in brackets, if there are any. -/
def procsText : List String → String
  | [] => ""
  | procs => " " ++ bracketed procs

theorem procPart_eq (definition : Definition) :
    procPart definition = procsText definition.localProcNames := by
  rw [procPart]
  cases definition.localProcNames <;> rfl

/-- A parent after a colon, if there is one. -/
def parentText : Option Path → String
  | none => ""
  | some parent => " : " ++ parent.toText

/-- What a line shows. -/
@[ext]
structure LineContent where
  path : Path
  namedParent? : Option Path
  procs : List String
deriving DecidableEq

/-- What follows the path. -/
def LineContent.details (content : LineContent) : String :=
  parentText content.namedParent? ++ procsText content.procs

def LineContent.toText (content : LineContent) : String :=
  content.path.toText ++ content.details

/-- All that a line shows is visible. -/
structure LineContent.IsVisible (content : LineContent) : Prop where
  path : content.path.IsVisible
  parent : ∀ parent ∈ content.namedParent?, parent.IsVisible
  procs : ∀ name ∈ content.procs, DreamWorld.IsVisible name

/-- Names as they stand behind the opening bracket. -/
def closed (names : List (List Char)) : List Char :=
  [',', ' '].intercalate names ++ [']']

theorem toList_procsText_cons (name : String) (rest : List String) :
    (procsText (name :: rest)).toList =
      ' ' :: '[' :: closed ((name :: rest).map String.toList) := by
  have comma : ", ".toList = [',', ' '] := rfl
  have blank : " ".toList = [' '] := rfl
  have opening : "[".toList = ['['] := rfl
  have closing : "]".toList = [']'] := rfl
  simp only [procsText, bracketed, String.toList_append, String.toList_intercalate, comma, blank,
    opening, closing, List.cons_append, List.nil_append, closed]

theorem toList_parentText_some (parent : Path) :
    (parentText (some parent)).toList = ' ' :: ':' :: ' ' :: parent.toText.toList :=
  String.toList_append

theorem parted_procsText (procs : List String) : Parted (procsText procs).toList := by
  cases procs with
  | nil =>
      rintro c ⟨⟩
  | cons name rest =>
      rw [toList_procsText_cons]
      rintro c ⟨⟩
      rfl

namespace LineContent

variable {content other : LineContent}

theorem toList_details (content : LineContent) :
    content.details.toList =
      (parentText content.namedParent?).toList ++ (procsText content.procs).toList :=
  String.toList_append

theorem parted_details (content : LineContent) : Parted content.details.toList := by
  rw [toList_details]
  cases content.namedParent? with
  | none => exact parted_procsText content.procs
  | some parent =>
      rw [toList_parentText_some]
      rintro c ⟨⟩
      rfl

/-- Lines are in the order of their paths, whatever else they show. -/
theorem toText_lt_toText (before : content.path.toText < other.path.toText)
    (visible : other.path.IsVisible) : content.toText < other.toText := by
  rw [String.lt_iff] at before ⊢
  rw [toText, toText, String.toList_append, String.toList_append]
  exact append_lt_append before visible.blank_lt content.parted_details

end LineContent

/-! ## Reading lines -/

/-- What stands right behind a name, before any blank. -/
def markBefore : List (List Char) → Char
  | [] => ']'
  | _ :: _ => ','

/-- The blank and the names after it, if there are more names. -/
def laterNames : List (List Char) → List Char
  | [] => []
  | rest => ' ' :: closed rest

theorem closed_cons (name : List Char) (rest : List (List Char)) :
    closed (name :: rest) = (name ++ [markBefore rest]) ++ laterNames rest := by
  cases rest with
  | nil => simp [closed, markBefore, laterNames]
  | cons next rest => simp [closed, markBefore, laterNames, List.intercalate_cons_cons]

theorem blank_lt_markBefore (rest : List (List Char)) : ' ' < markBefore rest := by
  have closing : ' ' < ']' := by decide
  have comma : ' ' < ',' := by decide
  cases rest with
  | nil => exact closing
  | cons next rest => exact comma

theorem parted_laterNames (rest : List (List Char)) : Parted (laterNames rest) := by
  cases rest with
  | nil =>
      rintro c ⟨⟩
  | cons next rest =>
      rintro c ⟨⟩
      rfl

theorem closed_cons_inj {name other : List Char} {rest more : List (List Char)}
    (visible : ∀ c ∈ name, ' ' < c) (otherVisible : ∀ c ∈ other, ' ' < c)
    (same : closed (name :: rest) = closed (other :: more)) :
    name = other ∧ laterNames rest = laterNames more := by
  rw [closed_cons, closed_cons] at same
  rcases append_inj_of_parted (forall_mem_concat visible (blank_lt_markBefore rest))
    (forall_mem_concat otherVisible (blank_lt_markBefore more)) (parted_laterNames rest)
    (parted_laterNames more) same with ⟨heads, tails⟩
  exact ⟨(List.append_inj' heads rfl).1, tails⟩

/-- Names without blanks can be read from their brackets. -/
theorem closed_inj {name other : List Char} {rest more : List (List Char)}
    (visible : ∀ part ∈ name :: rest, ∀ c ∈ part, ' ' < c)
    (otherVisible : ∀ part ∈ other :: more, ∀ c ∈ part, ' ' < c)
    (same : closed (name :: rest) = closed (other :: more)) : name :: rest = other :: more := by
  induction rest generalizing name other more with
  | nil =>
      rcases closed_cons_inj (visible name List.mem_cons_self)
        (otherVisible other List.mem_cons_self) same with ⟨rfl, later⟩
      cases more with
      | nil => rfl
      | cons following more => cases later
  | cons next rest ih =>
      rcases closed_cons_inj (visible name List.mem_cons_self)
        (otherVisible other List.mem_cons_self) same with ⟨rfl, later⟩
      cases more with
      | nil => cases later
      | cons following more =>
          have restEq := ih (List.forall_mem_cons.mp visible).2
            (List.forall_mem_cons.mp otherVisible).2 (List.cons_eq_cons.mp later).2
          rw [restEq]

theorem forall_mem_map_toList {procs : List String} (visible : ∀ name ∈ procs, IsVisible name) :
    ∀ name ∈ procs.map String.toList, ∀ c ∈ name, ' ' < c := by
  intro chars mem
  rcases List.mem_map.mp mem with ⟨name, nameMem, rfl⟩
  exact (visible name nameMem).blank_lt

theorem procsText_inj {procs others : List String} (visible : ∀ name ∈ procs, IsVisible name)
    (otherVisible : ∀ name ∈ others, IsVisible name) (same : procsText procs = procsText others) :
    procs = others := by
  replace same := congrArg String.toList same
  cases procs with
  | nil =>
      cases others with
      | nil => rfl
      | cons other more =>
          rw [toList_procsText_cons] at same
          cases same
  | cons name rest =>
      rw [toList_procsText_cons] at same
      cases others with
      | nil => cases same
      | cons other more =>
          rw [toList_procsText_cons, List.cons.injEq, List.cons.injEq] at same
          have names := closed_inj (forall_mem_map_toList visible)
            (forall_mem_map_toList otherVisible) same.2.2
          exact List.map_injective_iff.mpr (fun _ _ => String.toList_injective) names

/-- Brackets are told from a colon after the blank. -/
theorem toList_procsText_ne (procs : List String) (parent : Path) (rest : List Char) :
    (procsText procs).toList ≠ (parentText (some parent)).toList ++ rest := by
  rw [toList_parentText_some]
  cases procs with
  | nil =>
      intro same
      cases same
  | cons name more =>
      rw [toList_procsText_cons]
      intro same
      cases same

namespace LineContent

variable {content other : LineContent}

/-- What follows the path can be read in one way only. -/
theorem details_inj (visible : content.IsVisible) (otherVisible : other.IsVisible)
    (same : content.details = other.details) :
    content.namedParent? = other.namedParent? ∧ content.procs = other.procs := by
  rcases content with ⟨path, parent, procs⟩
  rcases other with ⟨otherPath, otherParent, others⟩
  replace same := congrArg String.toList same
  rw [toList_details, toList_details] at same
  cases parent with
  | none =>
      cases otherParent with
      | none =>
          have procsEq := procsText_inj visible.procs otherVisible.procs
            (String.toList_inj.mp same)
          exact ⟨rfl, procsEq⟩
      | some otherParent => exact absurd same (toList_procsText_ne procs otherParent _)
  | some parent =>
      cases otherParent with
      | none => exact absurd same.symm (toList_procsText_ne others parent _)
      | some otherParent =>
          simp only [toList_parentText_some, List.cons_append, List.cons.injEq, true_and] at same
          have parentVisible := visible.parent parent rfl
          have otherParentVisible := otherVisible.parent otherParent rfl
          rcases append_inj_of_parted parentVisible.blank_lt otherParentVisible.blank_lt
            (parted_procsText procs) (parted_procsText others) same with ⟨parents, procTexts⟩
          have parentEq := (parentVisible.wellSpelled.toText_inj otherParentVisible.wellSpelled).mp
            (String.toList_inj.mp parents)
          have procsEq := procsText_inj visible.procs otherVisible.procs
            (String.toList_inj.mp procTexts)
          exact ⟨congrArg some parentEq, procsEq⟩

/-- A line of visible names can be read in one way only. -/
theorem toText_inj (visible : content.IsVisible) (otherVisible : other.IsVisible)
    (same : content.toText = other.toText) : content = other := by
  replace same := congrArg String.toList same
  rw [toText, toText, String.toList_append, String.toList_append] at same
  rcases append_inj_of_parted visible.path.blank_lt otherVisible.path.blank_lt
    content.parted_details other.parted_details same with ⟨paths, details⟩
  rcases details_inj visible otherVisible (String.toList_inj.mp details) with ⟨parents, procs⟩
  have pathEq := (visible.path.wellSpelled.toText_inj otherVisible.path.wellSpelled).mp
    (String.toList_inj.mp paths)
  exact LineContent.ext pathEq parents procs

end LineContent

/-- The report of a tree whose entries, and the procs of each, are listed in some order. -/
def ofListing (tree : Tree) (entries : List Entry) (procNames : Entry → List String) : String :=
  lines (sorted (entries.map fun entry =>
    entry.path.toText ++ parentPart tree entry ++ procsText (sorted (procNames entry))))

/-! ## Lines of a text -/

/-- The lines of a text. -/
def linesOf (text : String) : List String :=
  (text.toList.splitOn '\n').map String.ofList

theorem linesOf_lines {content : List String} (nonempty : content ≠ [])
    (unbroken : ∀ line ∈ content, '\n' ∉ line.toList) : linesOf (lines content) = content := by
  have split : (lines content).toList.splitOn '\n' = content.map String.toList := by
    rw [lines, String.toList_intercalate]
    apply List.splitOn_intercalate
    · intro chars mem
      rcases List.mem_map.mp mem with ⟨line, lineMem, rfl⟩
      exact unbroken line lineMem
    · simpa using nonempty
  rw [linesOf, split, List.map_map]
  simp [Function.comp_def]

/-- No character of a visible line comes before the blank. -/
theorem LineContent.IsVisible.blank_le {content : LineContent} (visible : content.IsVisible) :
    ∀ c ∈ content.toText.toList, ' ' ≤ c := by
  have of_lt {chars : List Char} (all : ∀ c ∈ chars, ' ' < c) : ∀ c ∈ chars, ' ' ≤ c :=
    fun c mem => Std.le_of_lt (all c mem)
  rcases content with ⟨path, parent, procs⟩
  have procsLe : ∀ c ∈ (procsText procs).toList, ' ' ≤ c := by
    cases procs with
    | nil =>
        rintro c ⟨⟩
    | cons name rest =>
        have between : ∀ c ∈ [',', ' '], ' ' ≤ c :=
          List.forall_mem_cons.mpr ⟨by decide, List.forall_mem_singleton.mpr (by decide)⟩
        have closing : ' ' ≤ ']' := by decide
        have inside := forall_mem_intercalate between fun part mem =>
          of_lt (forall_mem_map_toList visible.procs part mem)
        have closedLe : ∀ c ∈ closed ((name :: rest).map String.toList), ' ' ≤ c :=
          forall_mem_concat inside closing
        rw [toList_procsText_cons]
        simpa using closedLe
  have parentLe : ∀ c ∈ (parentText parent).toList, ' ' ≤ c := by
    cases parent with
    | none =>
        rintro c ⟨⟩
    | some parent =>
        rw [toList_parentText_some]
        have inside := of_lt (visible.parent parent rfl).blank_lt
        simpa using inside
  rw [toText, String.toList_append, toList_details]
  intro c mem
  rcases List.mem_append.mp mem with inPath | inDetails
  · exact of_lt visible.path.blank_lt c inPath
  · rcases List.mem_append.mp inDetails with inParent | inProcs
    · exact parentLe c inParent
    · exact procsLe c inProcs

/-- A visible line is one line. -/
theorem LineContent.IsVisible.newline_notMem {content : LineContent}
    (visible : content.IsVisible) : '\n' ∉ content.toText.toList :=
  fun mem => absurd (visible.blank_le _ mem) (by decide)

/-! ## Order of lines -/

/-- Texts that are ascending are sorted. -/
theorem sorted_eq_self {texts : List String} (ascending : texts.Pairwise (· < ·)) :
    sorted texts = texts := by
  apply List.mergeSort_of_pairwise
  apply ascending.imp
  intro first second before
  simpa using String.lt_asymm before

theorem pairwise_lt_sortedBy {α : Type} {key : α → String} {items : List α}
    (distinct : (items.map key).Nodup) :
    ((sortedBy key items).map key).Pairwise (· < ·) := by
  have keysDistinct : ((sortedBy key items).map key).Nodup :=
    ((perm_sortedBy key items).map key).nodup_iff.mpr distinct
  rw [List.pairwise_map]
  apply ((List.pairwise_map.mp keysDistinct).and (pairwise_sortedBy key items)).imp
  rintro first second ⟨different, firstLe⟩
  exact Std.lt_of_le_of_ne firstLe different

/-- Sorted lines are those of the items in the order of their texts, if lines are in the order
of these texts. -/
theorem sorted_map_eq {α : Type} {key line : α → String} {items : List α}
    (distinct : (items.map key).Nodup)
    (refines : ∀ first ∈ items, ∀ second ∈ items, key first < key second →
      line first < line second) :
    sorted (items.map line) = (sortedBy key items).map line := by
  have perm := perm_sortedBy key items
  have ascending : ((sortedBy key items).map line).Pairwise (· < ·) := by
    rw [List.pairwise_map]
    apply (List.pairwise_map.mp (pairwise_lt_sortedBy distinct)).imp_of_mem
    intro first second mem otherMem before
    exact refines first (perm.subset mem) second (perm.subset otherMem) before
  rw [sorted_eq_of_perm (perm.symm.map line), sorted_eq_self ascending]

end Report

end DreamWorld
