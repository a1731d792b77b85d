import DreamWorld.Proofs.Tree.Declared
import DreamWorld.Proofs.Tree.Lineage
import DreamWorld.Report

/-!
# Lines of reports

The line of a class shows its path, the path of the parent that it names and the procs that
it declares.  The names of these procs are those that the record of the class lists.  As the
lines are sorted, a report does not depend on the order of the entries.
-/

namespace DreamWorld

open Document (ClassRecord PlacedRecord ProcRecord)

/-! ## Names of procs -/

/-- The names of a table after a write depend on nothing but the names before. -/
theorem Keyed.names_insert_eq {α β : Type} {table : Keyed α} {other : Keyed β}
    (same : table.names = other.names) (name : String) (value : α) (otherValue : β) :
    (Keyed.insert name value table).names = (Keyed.insert name otherValue other).names := by
  induction table generalizing other with
  | nil =>
      obtain rfl := List.map_eq_nil_iff.mp same.symm
      rfl
  | cons entry rest ih =>
      cases other with
      | nil => cases same
      | cons otherEntry otherRest =>
          rcases List.cons_eq_cons.mp same with ⟨headEq, tailEq⟩
          unfold Keyed.insert
          rw [headEq]
          split
          · exact congrArg (name :: ·) tailEq
          · split
            · exact congrArg (name :: ·) same
            · exact List.cons_eq_cons.mpr ⟨headEq, ih tailEq⟩

/-- The procs that a table of procs lists, one after another, each under its name. -/
def Document.procPairs (procs : Keyed (List ProcRecord)) : List (String × ProcRecord) :=
  procs.flatMap fun entry => entry.2.map fun proc => (entry.1, proc)

/-- The names of the procs that a record lists, in order. -/
def Document.ClassRecord.procNames (record : ClassRecord) : List String :=
  (Keyed.ofPairs (Document.procPairs (record.procs.getD []))).names

namespace Definition

theorem localProcNames_foldl_addProc {definition : Definition} {table : Keyed ProcRecord}
    (same : definition.localProcNames = table.names) (name : String) (records : List ProcRecord) :
    (records.foldl (fun state record => state.addProc name name record)
        definition).localProcNames =
      (Keyed.overlay table (records.map fun proc => (name, proc))).names := by
  induction records generalizing definition table with
  | nil => exact same
  | cons record rest ih => exact ih (Keyed.names_insert_eq same name _ record)

/-- A table of procs adds its names to those of the procs so far. -/
theorem localProcNames_addProcs {definition : Definition} {table : Keyed ProcRecord}
    (same : definition.localProcNames = table.names) (procs : Keyed (List ProcRecord)) :
    (definition.addProcs procs).localProcNames =
      (Keyed.overlay table (Document.procPairs procs)).names := by
  induction procs generalizing definition table with
  | nil => exact same
  | cons entry rest ih =>
      rw [Document.procPairs, List.flatMap_cons, Keyed.overlay, List.foldl_append]
      exact ih (localProcNames_foldl_addProc same entry.1 entry.2)

/-- A class without procs declares those that its record lists. -/
theorem localProcNames_loadMembers {σ : Type} {loader : ResourceLoader σ}
    {definition result : Definition} {record : ClassRecord} {memory last : σ}
    (run : (definition.loadMembers loader record).run memory = (.ok result, last))
    (bare : definition.own.procs = []) : result.localProcNames = record.procNames := by
  rcases run_loadMembers_eq_ok run with ⟨vars, globals, _, _, rfl⟩
  have noNames : (record.initProc.elim (definition.withValues vars globals)
      (definition.withValues vars globals).addInitProc).localProcNames =
        Keyed.names ([] : Keyed ProcRecord) := by
    cases record.initProc <;> exact congrArg Keyed.names bare
  exact localProcNames_addProcs noNames _

end Definition

/-! ## Lines in order -/

namespace Report

/-- Items in the order of texts that are read off them. -/
def sortedBy {α : Type} (key : α → String) (items : List α) : List α :=
  items.mergeSort fun first second => !decide (key second < key first)

theorem perm_sortedBy {α : Type} (key : α → String) (items : List α) :
    (sortedBy key items).Perm items :=
  List.mergeSort_perm items _

theorem pairwise_sortedBy {α : Type} (key : α → String) (items : List α) :
    (sortedBy key items).Pairwise fun first second => key first ≤ key second := by
  have ascending : (sortedBy key items).Pairwise fun first second =>
      (!decide (key second < key first)) = true := by
    apply List.pairwise_mergeSort
    · intro first second third firstLe secondLe
      simp only [Bool.not_eq_true', decide_eq_false_iff_not, String.not_lt] at firstLe secondLe ⊢
      exact String.le_trans firstLe secondLe
    · intro first second
      simp only [Bool.or_eq_true, Bool.not_eq_true', decide_eq_false_iff_not, String.not_lt]
      exact String.le_total (key first) (key second)
  simpa only [Bool.not_eq_true', decide_eq_false_iff_not, String.not_lt] using ascending

/-- Texts in another order are the same texts once they are sorted. -/
theorem sorted_eq_of_perm {texts others : List String} (perm : texts.Perm others) :
    sorted texts = sorted others := by
  refine List.Perm.eq_of_pairwise ?_ (pairwise_sortedBy id texts) (pairwise_sortedBy id others) ?_
  · intro first second _ _ firstLe secondLe
    exact String.le_antisymm firstLe secondLe
  · exact (perm_sortedBy id texts).trans (perm.trans (perm_sortedBy id others).symm)

end Report

/-! ## Entries and their lines -/

namespace Tree

variable {tree : Tree} {id : EntryId}

theorem toList_entries (tree : Tree) :
    tree.entries.toList = (List.range tree.size).map tree.entryAt := by
  apply List.ext_getElem?
  intro id
  rw [Array.getElem?_toList, List.getElem?_map]
  by_cases inRange : id < tree.size
  · rw [List.getElem?_range inRange]
    exact get?_entryAt inRange
  · have outside := Nat.le_of_not_lt inRange
    rw [List.getElem?_eq_none (List.length_range.symm ▸ outside)]
    exact get?_eq_none_iff.mpr outside

/-- The named parent of a class, as a report shows it. -/
theorem Represents.parentPart_entryAt {done : List PlacedRecord} (holds : tree.Represents done)
    (inRange : id < tree.size) :
    Report.parentPart tree (tree.entryAt id) =
      match (tree.entryAt id).hasNamedParent,
        (tree.entryAt id).parent.map fun parent => (tree.entryAt parent).path with
      | true, some path => " : " ++ path.toText
      | _, _ => "" := by
  unfold Report.parentPart
  cases parentEq : (tree.entryAt id).parent with
  | none => cases (tree.entryAt id).hasNamedParent <;> rfl
  | some parent =>
      have parentLt := holds.parent_lt_size inRange parent parentEq
      rw [Option.bind_some, get?_entryAt parentLt]
      cases (tree.entryAt id).hasNamedParent <;> rfl

/-- The class of an entry declares the procs of its record. -/
theorem Carries.localProcNames_entryAt {σ : Type} {loader : ResourceLoader σ}
    {firstClass : ClassId} {document record : ClassRecord}
    (carries : Carries loader firstClass document tree (document.placedWithin 0))
    (listed : document.preorder[id]? = some record) :
    (tree.entryAt id).definition.localProcNames = record.procNames := by
  rcases carries.exists_builtFrom listed with ⟨_, _, _, run⟩
  exact Definition.localProcNames_loadMembers run rfl

end Tree

end DreamWorld
