import DreamWorld.Tree.Basic
import DreamWorld.World.Object

/-!
# Reports

Texts that show a tree or an object to people, and the one-line descriptions of
definitions and objects.
-/

namespace DreamWorld

namespace Report

/-- The lines of a text, joined. -/
def lines (content : List String) : String :=
  String.intercalate "\n" content

/-- Items in square brackets. -/
def bracketed (items : List String) : String :=
  "[" ++ String.intercalate ", " items ++ "]"

/-- Texts in ascending order. -/
def sorted (texts : List String) : List String :=
  texts.mergeSort fun a b => !decide (b < a)

/-! ## Trees -/

/-- The named parent of an entry, after a colon. -/
def parentPart (tree : Tree) (entry : Entry) : String :=
  match entry.hasNamedParent, entry.parent.bind tree.get? with
  | true, some parent => " : " ++ parent.path.toText
  | _, _ => ""

/-- The procs that a class declares, in brackets. -/
def procPart (definition : Definition) : String :=
  match definition.localProcNames with
  | [] => ""
  | names => " " ++ bracketed names

/-- The line of an entry. -/
def entryLine (tree : Tree) (entry : Entry) : String :=
  entry.path.toText ++ parentPart tree entry ++ procPart entry.definition

/-- The lines of all entries, in ascending order. -/
def ofTree (tree : Tree) : String :=
  lines (sorted (tree.entries.toList.map (entryLine tree)))

/-! ## Objects -/

/-- The line of a variable, which is read as the object gives it. -/
def variableLine (ref : ObjectRef) (name : String) : Action String := do
  let value ← Object.getVariable ref name
  return "  " ++ name ++ " = " ++ value.toText

/-- The contents of a list, on one line. -/
def contentsLine (list : ListStore) : String :=
  "  contents = " ++ bracketed (list.values.map Value.toText)

/-- The class of an object, its variables and, if it is a list, its contents. -/
def ofObject (ref : ObjectRef) : Action String := do
  let variableLines ← (← Object.variableNames ref).mapM (variableLine ref)
  let contents := ((← get).list? ref).elim [] fun list => [contentsLine list]
  return lines (ref.type.toText :: variableLines ++ contents)

/-! ## Descriptions -/

/-- A path as a description shows it. -/
def describePath (path : Path) : String :=
  "DreamPath(" ++ path.toText ++ ")"

def describeFlag (flag : Bool) : String :=
  if flag then "true" else "false"

/-- The fields that a description shows, of possibly more. -/
def describeFields (type : String) (fields : List (String × String)) : String :=
  type ++ " \x7b " ++
    String.intercalate ", " (fields.map fun field => field.1 ++ ": " ++ field.2) ++
    ", .. \x7d"

/-- The description of a definition. -/
def describeDefinition (definition : Definition) (hooked : Bool) : String :=
  describeFields "ObjectDefinition"
    [("ty", describePath definition.type),
      ("parent",
        match definition.parent? with
        | some parent => "Some(" ++ describePath parent.type ++ ")"
        | none => "None"),
      ("variables", Nat.repr definition.own.vars.length),
      ("global_variables", Nat.repr definition.own.globals.length),
      ("procs", Nat.repr definition.own.procs.length),
      ("meta_object", describeFlag hooked)]

/-- The description of an object. -/
def describeObject (ref : ObjectRef) (deleted : Bool) : String :=
  describeFields "DreamObject"
    [("ty", describePath ref.type), ("deleted", describeFlag deleted)]

end Report

end DreamWorld
