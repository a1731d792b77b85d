import DreamWorld.Proofs.Report.Line
import DreamWorld.Proofs.Tree.Subtrees

/-!
# Reports of loaded documents

The report of a loaded document has one line for each record.  The line shows the path of the
class, the path of the parent that the record names, and the procs that the record implements.
If names have no character up to the blank, the lines are in the order of the paths, whatever
follows these on their lines, and each of them can be read in one way only.
-/

namespace DreamWorld

open Document (ClassRecord ProcRecord)
open Report (LineContent)

/-! ## Names in documents -/

namespace Document.ClassRecord

variable {document record : ClassRecord} {name : String}

theorem overloads_ne_nil_iff : record.overloads name ≠ [] ↔
    ∃ entry ∈ record.procs.getD [], entry.1 = name ∧ entry.2 ≠ [] := by
  rw [overloads, ne_eq, List.reverse_eq_nil_iff, List.flatMap_eq_nil_iff]
  constructor
  · intro listed
    by_contra absent
    apply listed
    intro entry mem
    by_cases here : entry.1 = name
    · rw [if_pos here]
      by_contra nonempty
      exact absent ⟨entry, mem, here, nonempty⟩
    · exact if_neg here
  · rintro ⟨entry, mem, rfl, nonempty⟩ unlisted
    exact nonempty ((if_pos rfl).symm.trans (unlisted entry mem))

/-- A record lists procs under the names for which it has implementations. -/
theorem mem_procNames_iff : name ∈ record.procNames ↔ record.overloads name ≠ [] := by
  have written : name ∈ record.procNames ↔
      name ∈ Keyed.names (Document.procPairs (record.procs.getD [])) :=
    Keyed.mem_names_overlay_iff.trans (or_iff_right List.not_mem_nil)
  rw [written, overloads_ne_nil_iff]
  simp only [Keyed.names, procPairs, List.mem_map, List.mem_flatMap]
  constructor
  · rintro ⟨_, ⟨entry, mem, proc, procMem, rfl⟩, rfl⟩
    exact ⟨entry, mem, rfl, List.ne_nil_of_mem procMem⟩
  · rintro ⟨entry, mem, rfl, nonempty⟩
    rcases List.exists_mem_of_ne_nil entry.2 nonempty with ⟨proc, procMem⟩
    exact ⟨_, ⟨entry, mem, proc, procMem, rfl⟩, rfl⟩

/-- The classes within a document have plain and visible names, and procs have visible names. -/
structure HasVisibleNames (document : ClassRecord) : Prop where
  plain : ∀ record ∈ document.preorder.tail, Path.IsPlain record.name
  visible : ∀ record ∈ document.preorder.tail, IsVisible record.name
  procs : ∀ record ∈ document.preorder, ∀ entry ∈ record.procs.getD [], IsVisible entry.1

instance (document : ClassRecord) : Decidable document.HasVisibleNames :=
  decidable_of_iff
    ((∀ record ∈ document.preorder.tail, Path.IsPlain record.name) ∧
      (∀ record ∈ document.preorder.tail, IsVisible record.name) ∧
      ∀ record ∈ document.preorder, ∀ entry ∈ record.procs.getD [], IsVisible entry.1)
    ⟨fun ⟨plain, visible, procs⟩ => ⟨plain, visible, procs⟩,
      fun ⟨plain, visible, procs⟩ => ⟨plain, visible, procs⟩⟩

theorem HasVisibleNames.isVisible_of_overloads (names : document.HasVisibleNames)
    (mem : record ∈ document.preorder) (listed : record.overloads name ≠ []) :
    IsVisible name := by
  rcases overloads_ne_nil_iff.mp listed with ⟨entry, entryMem, rfl, _⟩
  exact names.procs record mem entry entryMem

end Document.ClassRecord

/-! ## Entries and what their lines show -/

/-- What the line of an entry has to show: its path, the path of its parent if that is named,
and in ascending order the procs that its record implements. -/
structure Tree.Shows (document : ClassRecord) (tree : Tree) (id : EntryId)
    (content : LineContent) : Prop where
  path_eq : content.path = (tree.entryAt id).path
  namedParent_eq : content.namedParent? =
    if (tree.entryAt id).hasNamedParent then
      (tree.entryAt id).parent.map fun parent => (tree.entryAt parent).path
    else none
  /-- The path of a named parent is what the record calls it. -/
  parsed_eq : ∀ record, 0 < id → document.preorder[id]? = some record →
    content.namedParent? = record.parent.map Path.parse
  ascending : content.procs.Pairwise (· < ·)
  mem_procs_iff : ∀ record, document.preorder[id]? = some record →
    ∀ name, name ∈ content.procs ↔ record.overloads name ≠ []

/-- What the line of an entry shows. -/
def Tree.lineContent (tree : Tree) (id : EntryId) : LineContent where
  path := (tree.entryAt id).path
  namedParent? :=
    if (tree.entryAt id).hasNamedParent then
      (tree.entryAt id).parent.map fun parent => (tree.entryAt parent).path
    else none
  procs := (tree.entryAt id).definition.localProcNames

namespace Tree

variable {σ : Type} {loader : ResourceLoader σ} {firstClass : ClassId} {tree : Tree}
  {document record : ClassRecord} {id : EntryId}

namespace Carries

variable (carries : Carries loader firstClass document tree (document.placedWithin 0))

include carries

theorem entryLine_entryAt (inRange : id < tree.size) :
    Report.entryLine tree (tree.entryAt id) = (tree.lineContent id).toText := by
  have parentEq : Report.parentPart tree (tree.entryAt id) =
      Report.parentText (tree.lineContent id).namedParent? := by
    rw [carries.represents.parentPart_entryAt inRange, lineContent]
    cases (tree.entryAt id).hasNamedParent with
    | false => rfl
    | true => cases (tree.entryAt id).parent <;> rfl
  rw [Report.entryLine, Report.procPart_eq, parentEq, String.append_assoc]
  rfl

theorem ascending_localProcNames (inRange : id < tree.size) :
    (tree.entryAt id).definition.localProcNames.Pairwise (· < ·) := by
  have listed := List.getElem?_eq_getElem (carries.size_eq_length_preorder ▸ inRange)
  rw [carries.localProcNames_entryAt listed]
  exact Keyed.ordered_ofPairs _

/-- The parent of a class is named by its own path. -/
theorem namedParent?_lineContent (names : document.HasVisibleNames) (positive : 0 < id)
    (listed : document.preorder[id]? = some record) :
    (tree.lineContent id).namedParent? = record.parent.map Path.parse := by
  have inRange := carries.lt_size_of_getElem? listed
  rcases ClassRecord.exists_reaches_of_getElem? listed with ⟨way, reached⟩
  rcases reached.cases_place with ⟨_, rfl, _⟩ | ⟨_, outer, _, _, _, within⟩
  · exact absurd positive (Nat.lt_irrefl 0)
  · obtain ⟨_, named, sameWithin, resolved, parentEq, namedEq⟩ :=
      carries.represents.linkedAs (List.prefix_refl _) within inRange
    rw [lineContent, namedEq, parentEq]
    cases named with
    | none =>
        rw [namedParent_eq_ok_none_iff.mp resolved]
        rfl
    | some parent =>
        rcases namedParent_eq_ok_some_iff.mp resolved with ⟨text, textEq, found⟩
        -- The names that lead to the parent are those that its text spells.
        rcases entryId_eq_ok_iff.mp found with ⟨absolute, parentFound⟩
        rcases carries.find?_eq_some_iff_reaches.mp parentFound with ⟨_, parentReached⟩
        have parentPath := carries.path_eq_of_isPlain (isPlain_of_preorder_tail names.plain)
          parentReached
        have kindEq : (Path.parse text).kind = .absolute := beq_iff_eq.mp absolute
        rw [textEq]
        simp only [Option.isSome_some, if_true, Option.getD_some, Option.map_some, parentPath,
          ← kindEq]

theorem isVisible_path (names : document.HasVisibleNames) (inRange : id < tree.size) :
    (tree.entryAt id).path.IsVisible := by
  rcases carries.exists_reaches_of_lt_size inRange with ⟨way, record, reached⟩
  have plain := isPlain_of_preorder_tail names.plain
  have visible := forall_preorder_tail names.visible
  rw [carries.path_eq_of_isPlain plain reached]
  intro name mem
  exact ⟨forall_mem_names reached visible name mem,
    (isPlain_of_mem_names reached plain name mem).slash_notMem⟩

theorem isVisible_lineContent (names : document.HasVisibleNames) (inRange : id < tree.size) :
    (tree.lineContent id).IsVisible where
  path := carries.isVisible_path names inRange
  parent := by
    intro parent parentMem
    rw [lineContent] at parentMem
    cases named : (tree.entryAt id).hasNamedParent with
    | false =>
        rw [named] at parentMem
        cases parentMem
    | true =>
        rw [named] at parentMem
        rcases Option.map_eq_some_iff.mp parentMem with ⟨parentId, parentEq, rfl⟩
        exact carries.isVisible_path names (carries.represents.parent_lt_size inRange _ parentEq)
  procs := by
    have listed := List.getElem?_eq_getElem (carries.size_eq_length_preorder ▸ inRange)
    intro name mem
    rw [lineContent, carries.localProcNames_entryAt listed, ClassRecord.mem_procNames_iff] at mem
    exact names.isVisible_of_overloads (List.getElem_mem _) mem

theorem shows_lineContent (names : document.HasVisibleNames) (inRange : id < tree.size) :
    Shows document tree id (tree.lineContent id) where
  path_eq := rfl
  namedParent_eq := rfl
  parsed_eq _ := carries.namedParent?_lineContent names
  ascending := carries.ascending_localProcNames inRange
  mem_procs_iff := by
    intro record listed name
    rw [lineContent, carries.localProcNames_entryAt listed, ClassRecord.mem_procNames_iff]

/-- No two entries have paths of one text. -/
theorem nodup_pathTexts (names : document.HasVisibleNames) :
    ((List.range tree.size).map fun id => (tree.entryAt id).path.toText).Nodup := by
  apply List.Nodup.map_on _ List.nodup_range
  intro id mem other otherMem sameText
  have inRange := List.mem_range.mp mem
  have otherInRange := List.mem_range.mp otherMem
  have plain := isPlain_of_preorder_tail names.plain
  have spelled := (carries.isVisible_path names inRange).wellSpelled
  have otherSpelled := (carries.isVisible_path names otherInRange).wellSpelled
  have found := carries.entryId_path_of_isPlain plain inRange
  rw [(spelled.toText_inj otherSpelled).mp sameText,
    carries.entryId_path_of_isPlain plain otherInRange] at found
  cases found
  rfl

/-- Where names are visible, the sorted lines are those of the entries in the order of their
paths. -/
theorem sorted_entryLines (names : document.HasVisibleNames) :
    Report.sorted (tree.entries.toList.map (Report.entryLine tree)) =
      (Report.sortedBy (fun id => (tree.entryAt id).path.toText) (List.range tree.size)).map
        fun id => (tree.lineContent id).toText := by
  have lineEq : tree.entries.toList.map (Report.entryLine tree) =
      (List.range tree.size).map fun id => (tree.lineContent id).toText := by
    rw [toList_entries, List.map_map]
    apply List.map_congr_left
    intro id mem
    exact carries.entryLine_entryAt (List.mem_range.mp mem)
  rw [lineEq]
  apply Report.sorted_map_eq (carries.nodup_pathTexts names)
  intro id _ other otherMem before
  exact LineContent.toText_lt_toText before
    (carries.isVisible_path names (List.mem_range.mp otherMem))

/-- A report has the same text however the entries and the procs of each are listed. -/
theorem ofListing_eq {entries : List Entry} {procNames : Entry → List String}
    (perm : entries.Perm tree.entries.toList)
    (procsPerm : ∀ entry ∈ entries, (procNames entry).Perm entry.definition.localProcNames) :
    Report.ofListing tree entries procNames = Report.ofTree tree := by
  have lineEq : (entries.map fun entry => entry.path.toText ++ Report.parentPart tree entry ++
      Report.procsText (Report.sorted (procNames entry))) =
      entries.map (Report.entryLine tree) := by
    apply List.map_congr_left
    intro entry mem
    have listed := perm.subset mem
    rw [toList_entries] at listed
    rcases List.mem_map.mp listed with ⟨id, idMem, rfl⟩
    have ascending := carries.ascending_localProcNames (List.mem_range.mp idMem)
    rw [Report.sorted_eq_of_perm (procsPerm _ mem), Report.sorted_eq_self ascending,
      Report.entryLine, Report.procPart_eq]
  rw [Report.ofListing, Report.ofTree, lineEq, Report.sorted_eq_of_perm (perm.map _)]

end Carries

/-! ## Loaded documents -/

variable {world next : World} {memory last : σ}

/-- If all names are visible, the report of a loaded document has one line for each record.  A
line shows the path of the class, the path of its parent if that is named, and in ascending
order the procs that the record implements, and it can be read as nothing else.  The lines are
in the order of the paths.  The text is the same in whatever order the entries, and the procs of
each entry, are listed. -/
theorem listing_loadRecord
    (loaded : world.loadRecord loader document memory = (.ok (), next, last))
    (names : document.HasVisibleNames) :
    ∃ (order : List EntryId) (content : EntryId → LineContent),
      order.Perm (List.range document.preorder.length) ∧
      next.tree.size = document.preorder.length ∧
      (∀ id ∈ order, Shows document next.tree id (content id)) ∧
      Report.linesOf (Report.ofTree next.tree) = order.map (fun id => (content id).toText) ∧
      (order.map fun id => (content id).path.toText).Pairwise (· < ·) ∧
      (∀ id ∈ order, ∀ other : LineContent, other.IsVisible →
        other.toText = (content id).toText → other = content id) ∧
      ∀ entries procNames, entries.Perm next.tree.entries.toList →
        (∀ entry ∈ entries, (procNames entry).Perm entry.definition.localProcNames) →
        Report.ofListing next.tree entries procNames = Report.ofTree next.tree := by
  have carries := carries_of_loadRecord loaded
  let order := Report.sortedBy (fun id => (next.tree.entryAt id).path.toText)
    (List.range next.tree.size)
  have perm : order.Perm (List.range next.tree.size) := Report.perm_sortedBy _ _
  have inRange (id : EntryId) (mem : id ∈ order) : id < next.tree.size :=
    List.mem_range.mp (perm.subset mem)
  refine ⟨order, next.tree.lineContent, carries.size_eq_length_preorder ▸ perm,
    carries.size_eq_length_preorder, ?_, ?_, ?_, ?_, ?_⟩
  · intro id mem
    exact carries.shows_lineContent names (inRange id mem)
  · rw [Report.ofTree, carries.sorted_entryLines names]
    apply Report.linesOf_lines
    · have length : order.length = next.tree.size := by rw [perm.length_eq, List.length_range]
      apply List.ne_nil_of_length_pos
      rw [List.length_map, length]
      exact next.tree.nonempty
    · intro line mem
      rcases List.mem_map.mp mem with ⟨id, idMem, rfl⟩
      exact (carries.isVisible_lineContent names (inRange id idMem)).newline_notMem
  · exact Report.pairwise_lt_sortedBy (carries.nodup_pathTexts names)
  · intro id mem other otherVisible sameText
    exact LineContent.toText_inj otherVisible
      (carries.isVisible_lineContent names (inRange id mem)) sameText
  · intro entries procNames perm procsPerm
    exact carries.ofListing_eq perm procsPerm

/-- A class with an implementation, and with one name that it lists no implementation for. -/
def sailorRecord : ClassRecord where
  name := "sailor"
  procs := some [("Sail", [{}, {}]), ("Row", [{}]), ("Sink", [])]
  children := some [{ name := "mate", parent := some "//sailor!/" }]

/-- A document of a class whose name goes on where another name ends. -/
def harborDocument : ClassRecord where
  name := ""
  children := some [{ name := "sailor!" }, sailorRecord]

/-- The named parent of an inner class of the sample is shown by its path, and only the procs
with an implementation are shown. -/
theorem listing_loadRecord_harborDocument :
    (World.start.loadRecord (fileLoader "res") harborDocument {}).1 = .ok () ∧
      harborDocument.HasVisibleNames ∧
      ∃ (order : List EntryId) (content : EntryId → LineContent),
        order.Perm [0, 1, 2, 3] ∧
        Report.linesOf (Report.ofTree
            (World.start.loadRecord (fileLoader "res") harborDocument {}).2.1.tree) =
          order.map (fun id => (content id).toText) ∧
        (content 2).path = ⟨.absolute, ["sailor"]⟩ ∧
        (content 2).namedParent? = none ∧
        "Sail" ∈ (content 2).procs ∧ "Sink" ∉ (content 2).procs ∧
        (content 3).namedParent? = some ⟨.absolute, ["sailor!"]⟩ := by
  have loaded : World.start.loadRecord (fileLoader "res") harborDocument {} =
      (.ok (), (World.start.loadRecord (fileLoader "res") harborDocument {}).2) := rfl
  have names : harborDocument.HasVisibleNames := by decide +kernel
  obtain ⟨order, content, perm, _, shows, linesEq, _⟩ := listing_loadRecord loaded names
  have sailor := shows 2 (perm.symm.subset (by decide))
  have mate := shows 3 (perm.symm.subset (by decide))
  refine ⟨rfl, names, order, content, perm, linesEq, sailor.path_eq.trans rfl,
    sailor.namedParent_eq.trans rfl, ?_, ?_, mate.namedParent_eq.trans rfl⟩
  · exact (sailor.mem_procs_iff sailorRecord rfl "Sail").mpr (by decide)
  · exact fun mem => (sailor.mem_procs_iff sailorRecord rfl "Sink").mp mem rfl

end Tree

end DreamWorld
