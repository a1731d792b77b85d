import DreamWorld.Document.Reader
import DreamWorld.Tree.Basic
import DreamWorld.World.Constant

/-!
# Trees of documents

A document is gone through record by record, each record before the ones within
it.  Every record adds one class, whose number is the record's place in this
order.  A record fails if its name is taken within the enclosing class, if its
named parent has not been declared before, if a value cannot be read, or if a
class of the same name already has the same named parent, in this order.
-/

namespace DreamWorld

/-! ## The order of records -/

namespace Document

/-- A record of a document, with the place of the record that encloses it. -/
structure PlacedRecord where
  outer : Nat
  record : ClassRecord

mutual

/-- The records within a record, each before those within it.  The record itself
has the given place. -/
def ClassRecord.placedWithin (place : Nat) : ClassRecord → List PlacedRecord
  | ⟨_, _, _, _, _, _, children⟩ => placedChildren place children

/-- The records of an optional list, of which the first gets the next place. -/
def placedChildren (outer : Nat) : Option (List ClassRecord) → List PlacedRecord
  | none => []
  | some records => placedRecords outer (outer + 1) records

/-- The records of a list, of which the first gets the place `next`. -/
def placedRecords (outer next : Nat) : List ClassRecord → List PlacedRecord
  | [] => []
  | record :: rest =>
      let within := record.placedWithin next
      { outer, record } :: within ++ placedRecords outer (next + 1 + within.length) rest

end

end Document

/-! ## Members -/

namespace Definition

open Document (ClassRecord ProcRecord)

/-- Declares variables with the values that a document gives them. -/
def loadVariables {σ : Type} (loader : ResourceLoader σ) (definition : Definition)
    (vars : Keyed Json.Value) : LoadAction σ Definition :=
  vars.foldlM
    (fun definition entry => do
      return definition.setVariable entry.1 (← Constant.decode loader entry.2))
    definition

/-- Declares shared variables with the values that a document gives them. -/
def loadGlobals {σ : Type} (loader : ResourceLoader σ) (definition : Definition)
    (globals : Keyed Json.Value) : LoadAction σ Definition :=
  globals.foldlM
    (fun definition entry => do
      return definition.setGlobal entry.1 (← Constant.decode loader entry.2))
    definition

/-- Declares the procs of a record.  Of several procs under one name each
overrides the one before. -/
def addProcs (definition : Definition) (procs : Keyed (List ProcRecord)) : Definition :=
  procs.foldl
    (fun definition entry =>
      entry.2.foldl (fun definition record => definition.addProc entry.1 entry.1 record) definition)
    definition

/-- Declares all members of a record. -/
def loadMembers {σ : Type} (loader : ResourceLoader σ) (definition : Definition)
    (record : ClassRecord) : LoadAction σ Definition := do
  let definition ← definition.loadVariables loader (record.vars.getD [])
  let definition ← definition.loadGlobals loader (record.globals.getD [])
  let definition := record.initProc.elim definition definition.addInitProc
  return definition.addProcs (record.procs.getD [])

end Definition

/-! ## Classes -/

namespace Tree

open Document (ClassRecord PlacedRecord)

/-- The parent that a record names, if it names one. -/
def namedParent (tree : Tree) (record : ClassRecord) : Except LoadError (Option EntryId) :=
  match record.parent with
  | none => .ok none
  | some text =>
      match tree.entryId (Path.parse text) with
      | .ok id => .ok (some id)
      | .error error => .error (.resolution error)

/-- Adds the class of a record.  The classes of the tree are numbered from
`firstClass` on. -/
def loadRecord {σ : Type} (loader : ResourceLoader σ) (firstClass : ClassId) (tree : Tree)
    (placed : PlacedRecord) : LoadAction σ Tree := do
  let record := placed.record
  let outer := tree.entryAt placed.outer
  let path := outer.path.resolve record.name
  if outer.children.has record.name then throw (.duplicateEntry path)
  let named ← liftExcept (tree.namedParent record)
  let parent := tree.entryAt (named.getD placed.outer)
  let definition :=
    Definition.below (firstClass + tree.size) path (some parent.definition)
  let definition ← definition.loadMembers loader record
  if named.isSome && parent.branches.has record.name then throw (.duplicateEntry path)
  return tree.declare placed.outer named record.name definition
where
  liftExcept {α : Type} (outcome : Except LoadError α) : LoadAction σ α :=
    fun memory => (outcome, memory)

/-- The tree of a document, given its outermost record. -/
def ofRecord {σ : Type} (loader : ResourceLoader σ) (firstClass : ClassId)
    (record : ClassRecord) : LoadAction σ Tree := do
  if record.name ≠ "" then throw (.invalidRootName record.name)
  let definition := Definition.below firstClass Path.root none
  let definition ← definition.loadMembers loader record
  (record.placedWithin rootId).foldlM (loadRecord loader firstClass) (single definition)

end Tree

end DreamWorld
