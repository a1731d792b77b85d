import DreamWorld.Proofs.Tree.Members

/-!
# Loading one record

What the turn of one record does, check by check: the name may be taken, the
named parent may be unknown, the members may be unreadable, and the named parent
may have a branch of that name.  A record that passes all four adds one class.
-/

namespace DreamWorld.Tree

open Document (ClassRecord PlacedRecord)

variable {σ : Type} {loader : ResourceLoader σ} {firstClass : ClassId} {tree : Tree}
  {placed : PlacedRecord} {named : Option EntryId} {memory last : σ}

/-- The path of the class that a record adds. -/
def pathOf (tree : Tree) (placed : PlacedRecord) : Path :=
  (tree.entryAt placed.outer).path.resolve placed.record.name

/-- The class of a record before its members are declared. -/
def bareClass (firstClass : ClassId) (tree : Tree) (placed : PlacedRecord)
    (named : Option EntryId) : Definition :=
  Definition.below (firstClass + tree.size) (tree.pathOf placed)
    (some (tree.entryAt (named.getD placed.outer)).definition)

/-- The name of a record is taken within the enclosing class. -/
def nameTaken (tree : Tree) (placed : PlacedRecord) : Bool :=
  (tree.entryAt placed.outer).children.has placed.record.name

/-- The named parent of a record has a branch of the record's name. -/
def branchTaken (tree : Tree) (placed : PlacedRecord) (named : Option EntryId) : Bool :=
  named.isSome &&
    (tree.entryAt (named.getD placed.outer)).branches.has placed.record.name

theorem run_loadRecord_of_nameTaken (taken : tree.nameTaken placed = true) :
    (loadRecord loader firstClass tree placed).run memory =
      (.error (.duplicateEntry (tree.pathOf placed)), memory) := by
  unfold nameTaken at taken
  simp only [loadRecord, taken, if_true]
  rfl

theorem run_loadRecord_of_unresolved {error : LoadError}
    (free : tree.nameTaken placed = false)
    (unresolved : tree.namedParent placed.record = .error error) :
    (loadRecord loader firstClass tree placed).run memory = (.error error, memory) := by
  unfold nameTaken at free
  simp only [loadRecord, free, Bool.false_eq_true, if_false, unresolved]
  rfl

/-- Past the checks of the name and of the named parent, the members decide, and
then the branches of the named parent. -/
theorem run_loadRecord_of_resolved (free : tree.nameTaken placed = false)
    (resolved : tree.namedParent placed.record = .ok named) :
    (loadRecord loader firstClass tree placed).run memory =
      (do
        let definition ←
          (bareClass firstClass tree placed named).loadMembers loader placed.record
        if tree.branchTaken placed named then throw (.duplicateEntry (tree.pathOf placed))
        return tree.declare placed.outer named placed.record.name definition :
          LoadAction σ Tree).run memory := by
  unfold nameTaken at free
  simp only [loadRecord, free, Bool.false_eq_true, if_false, resolved]
  rfl

theorem run_loadRecord_of_unreadable {error : LoadError} (free : tree.nameTaken placed = false)
    (resolved : tree.namedParent placed.record = .ok named)
    (unreadable : ((bareClass firstClass tree placed named).loadMembers loader
      placed.record).run memory = (.error error, last)) :
    (loadRecord loader firstClass tree placed).run memory = (.error error, last) := by
  rw [run_loadRecord_of_resolved free resolved, LoadAction.run_bind_of_error unreadable]

theorem run_loadRecord_of_branchTaken {definition : Definition}
    (free : tree.nameTaken placed = false)
    (resolved : tree.namedParent placed.record = .ok named)
    (readable : ((bareClass firstClass tree placed named).loadMembers loader
      placed.record).run memory = (.ok definition, last))
    (taken : tree.branchTaken placed named = true) :
    (loadRecord loader firstClass tree placed).run memory =
      (.error (.duplicateEntry (tree.pathOf placed)), last) := by
  rw [run_loadRecord_of_resolved free resolved, LoadAction.run_bind_of_ok readable, if_pos taken]
  rfl

theorem run_loadRecord_of_free {definition : Definition} (free : tree.nameTaken placed = false)
    (resolved : tree.namedParent placed.record = .ok named)
    (readable : ((bareClass firstClass tree placed named).loadMembers loader
      placed.record).run memory = (.ok definition, last))
    (untaken : tree.branchTaken placed named = false) :
    (loadRecord loader firstClass tree placed).run memory =
      (.ok (tree.declare placed.outer named placed.record.name definition), last) := by
  rw [run_loadRecord_of_resolved free resolved, LoadAction.run_bind_of_ok readable, untaken]
  rfl

/-- A record that is loaded has passed every check and has added one class. -/
theorem run_loadRecord_eq_ok {next : Tree}
    (run : (loadRecord loader firstClass tree placed).run memory = (.ok next, last)) :
    ∃ named definition, tree.nameTaken placed = false ∧
      tree.namedParent placed.record = .ok named ∧
      ((bareClass firstClass tree placed named).loadMembers loader placed.record).run memory =
        (.ok definition, last) ∧
      tree.branchTaken placed named = false ∧
      next = tree.declare placed.outer named placed.record.name definition := by
  cases free : tree.nameTaken placed with
  | true =>
      rw [run_loadRecord_of_nameTaken free] at run
      cases run
  | false =>
      cases resolved : tree.namedParent placed.record with
      | error error =>
          rw [run_loadRecord_of_unresolved free resolved] at run
          cases run
      | ok named =>
          rw [run_loadRecord_of_resolved free resolved] at run
          rcases LoadAction.run_bind_eq_ok_iff.mp run with ⟨definition, middle, members, rest⟩
          cases branch : tree.branchTaken placed named with
          | true =>
              rw [branch] at rest
              cases rest
          | false =>
              rw [branch] at rest
              cases rest
              exact ⟨named, definition, rfl, rfl, members, branch, rfl⟩

/-! ## Loading a document -/

variable {document : ClassRecord}

theorem run_ofRecord_of_named (named : document.name ≠ "") :
    (ofRecord loader firstClass document).run memory =
      (.error (.invalidRootName document.name), memory) := by
  simp only [ofRecord, if_pos named]
  rfl

/-- Past the check of the outermost name, the members of the root are declared and
then all other records are loaded. -/
theorem run_ofRecord_of_unnamed (unnamed : document.name = "") :
    (ofRecord loader firstClass document).run memory =
      (do
        let definition ←
          (Definition.below firstClass Path.root none).loadMembers loader document
        (document.placedWithin rootId).foldlM (loadRecord loader firstClass)
          (single definition) : LoadAction σ Tree).run memory := by
  simp only [ofRecord, unnamed, ne_eq, not_true_eq_false, if_false]

/-- A tree is built from a document by building the root and then adding the other
records one after another. -/
theorem run_ofRecord_eq_ok {result : Tree}
    (run : (ofRecord loader firstClass document).run memory = (.ok result, last)) :
    document.name = "" ∧ ∃ definition middle,
      ((Definition.below firstClass Path.root none).loadMembers loader document).run memory =
        (.ok definition, middle) ∧
      ((document.placedWithin rootId).foldlM (loadRecord loader firstClass)
        (single definition)).run middle = (.ok result, last) := by
  by_cases unnamed : document.name = ""
  · rw [run_ofRecord_of_unnamed unnamed] at run
    exact ⟨unnamed, LoadAction.run_bind_eq_ok_iff.mp run⟩
  · rw [run_ofRecord_of_named unnamed] at run
    cases run

/-! ## Named parents -/

theorem namedParent_eq_ok_some_iff {record : ClassRecord} {parent : EntryId} :
    tree.namedParent record = .ok (some parent) ↔
      ∃ text, record.parent = some text ∧ tree.entryId (Path.parse text) = .ok parent := by
  unfold namedParent
  cases record.parent with
  | none => simp
  | some text => cases found : tree.entryId (Path.parse text) <;> simp [found]

theorem namedParent_eq_ok_none_iff {record : ClassRecord} :
    tree.namedParent record = .ok none ↔ record.parent = none := by
  unfold namedParent
  cases record.parent with
  | none => simp
  | some text => cases found : tree.entryId (Path.parse text) <;> simp [found]

theorem isSome_of_namedParent {record : ClassRecord}
    (resolved : tree.namedParent record = .ok named) : named.isSome = record.parent.isSome := by
  cases named with
  | none => rw [namedParent_eq_ok_none_iff.mp resolved]; rfl
  | some parent =>
      rcases namedParent_eq_ok_some_iff.mp resolved with ⟨text, parentEq, _⟩
      rw [parentEq]
      rfl

end DreamWorld.Tree
