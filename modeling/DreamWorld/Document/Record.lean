import DreamWorld.Json.Basic

/-!
# Compiled documents

A compiled world is one record for each class.  A record names its class, gives
the declared parent where that is not the enclosing class, lists the members that
the class itself declares, and holds the records of the classes within it.  Any
part but the name may be absent, which is kept apart from a part that is present
and empty.
-/

namespace DreamWorld.Document

/-- An argument of a proc: its name and the bits of the kinds it accepts. -/
structure ArgumentRecord where
  name : String
  kinds : UInt32
deriving DecidableEq

/-- A proc: its code and its arguments. -/
structure ProcRecord where
  bytecode : Option (List UInt8) := none
  arguments : Option (List ArgumentRecord) := none
deriving DecidableEq

/-- A class, with the records of the classes within it. -/
structure ClassRecord where
  name : String
  parent : Option String := none
  vars : Option (Keyed Json.Value) := none
  globals : Option (Keyed Json.Value) := none
  procs : Option (Keyed (List ProcRecord)) := none
  initProc : Option ProcRecord := none
  children : Option (List ClassRecord) := none

/-- The records directly within a record. -/
def ClassRecord.inner (record : ClassRecord) : List ClassRecord :=
  record.children.getD []

/-- The keys of a class record, in the order in which they are written. -/
def classKeys : List String :=
  ["name", "parent", "variables", "globalVariables", "procs", "initProc", "children"]

/-- The keys of a proc record, in the order in which they are written. -/
def procKeys : List String :=
  ["bytecode", "arguments"]

/-- The keys of an argument record, in the order in which they are written. -/
def argumentKeys : List String :=
  ["name", "type"]

end DreamWorld.Document
