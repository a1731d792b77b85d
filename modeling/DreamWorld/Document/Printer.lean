import DreamWorld.Document.Record
import DreamWorld.Json.Printer

/-!
# Writing documents

A record is written as an object of the parts that are present, in the order of
their keys.  The kinds of an argument are always written.
-/

namespace DreamWorld.Document

open Json (Value)

/-- A natural number as a JSON number. -/
def numeral (value : Nat) : Value :=
  .number (Nat.repr value)

/-- The member of a part that is present. -/
def present {α : Type} (key : String) (write : α → Value) : Option α → List (String × Value)
  | some part => [(key, write part)]
  | none => []

def ArgumentRecord.toJson (argument : ArgumentRecord) : Value :=
  .object [("name", .text argument.name), ("type", numeral argument.kinds.toNat)]

def ProcRecord.toJson (proc : ProcRecord) : Value :=
  .object <|
    present "bytecode" (fun bytes => .array (bytes.map fun byte => numeral byte.toNat))
      proc.bytecode ++
    present "arguments" (fun arguments => .array (arguments.map ArgumentRecord.toJson))
      proc.arguments

/-- The table of procs, each with its overloads in their order. -/
def procTable (procs : Keyed (List ProcRecord)) : Value :=
  .object (procs.map fun entry => (entry.1, .array (entry.2.map ProcRecord.toJson)))

mutual

/-- A class record as a JSON value. -/
def ClassRecord.toJson : ClassRecord → Value
  | ⟨name, parent, vars, globals, procs, initProc, children⟩ =>
      .object <|
        ("name", .text name) ::
        present "parent" .text parent ++
        present "variables" .object vars ++
        present "globalVariables" .object globals ++
        present "procs" procTable procs ++
        present "initProc" ProcRecord.toJson initProc ++
        childrenMember children

/-- The member of the records within a record. -/
def childrenMember : Option (List ClassRecord) → List (String × Value)
  | none => []
  | some children => [("children", .array (toJsonAll children))]

/-- Several class records as JSON values. -/
def toJsonAll : List ClassRecord → List Value
  | [] => []
  | record :: rest => record.toJson :: toJsonAll rest

end

/-- The compact text of a class record. -/
def ClassRecord.toText (record : ClassRecord) : String :=
  record.toJson.toText

end DreamWorld.Document
