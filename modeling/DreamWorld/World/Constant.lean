import DreamWorld.Json.Basic
import DreamWorld.World.Loader

/-!
# Constants of documents

A document writes the value of a variable as a string, as a number, or as an
object with a numeric tag for everything else.  A number is a float exactly when
its literal has a decimal point; any other number is an integer, and one that is
not the plain text of an integer in range becomes the greatest integer.
-/

namespace DreamWorld

/-- A computation that loads a document with a resource loader.  What the loader
remembers outlasts a failure. -/
abbrev LoadAction (σ : Type) (α : Type) : Type :=
  ExceptT LoadError (StateM σ) α

/-- The outcome of a computation that asks no loader. -/
def LoadAction.ofExcept {σ α : Type} (outcome : Except LoadError α) : LoadAction σ α :=
  fun memory => (outcome, memory)

namespace Constant

/-- Tags of structured constants. -/
def resourceTag : Nat :=
  0

def nullTag : Nat :=
  1

def pathTag : Nat :=
  2

/-- The integer that a literal without a decimal point stands for. -/
def integerOfLiteral (literal : List Char) : Int32 :=
  ((Numeral.readInteger? literal).bind Integer.ofInt?).getD (Int32.ofInt Integer.greatest)

/-- The value of a number literal.  One with a decimal point has to read as a numeral. -/
def ofLiteral (literal : String) : Except LoadError Value :=
  if literal.toList.contains '.' then
    match Numeral.read? literal.toList with
    | some numeral => .ok (.float numeral.toSingle)
    | none => .error (.invalidValueKind "number")
  else .ok (.integer (integerOfLiteral literal.toList))

/-- The number of words of 64 bits. -/
def tagWords : Nat :=
  18446744073709551616

/-- A tag counts only when it is written as a plain natural number of 64 bits. -/
def tag? : Json.Value → Option Nat
  | .number literal => (Numeral.readNatural? literal.toList).filter (· < tagWords)
  | _ => none

/-- Asks a loader for a resource. -/
def loadResource {σ : Type} (loader : ResourceLoader σ) (path : String) :
    LoadAction σ Resource :=
  fun memory =>
    match loader.load path memory with
    | (.ok resource, memory) => (.ok resource, memory)
    | (.error error, memory) => (.error (.resource error), memory)

/-- The value of a tagged object. -/
def ofMembers {σ : Type} (loader : ResourceLoader σ) (members : Keyed Json.Value) :
    LoadAction σ Value :=
  match (members.find? "type").bind tag? with
  | none => throw (.missingProperty "type")
  | some tag =>
      if tag = resourceTag then
        match members.find? "resourcePath" with
        | some (.text path) => return .resource (← loadResource loader path)
        | some .null => return .null
        | some _ => throw .invalidResourcePath
        | none => throw (.missingProperty "resourcePath")
      else if tag = nullTag then return .null
      else if tag = pathTag then
        match members.find? "value" with
        | some (.text path) => return .path (Path.parse path)
        | _ => throw (.missingProperty "value")
      else throw (.invalidVariableType tag)

/-- The value of a constant. -/
def decode {σ : Type} (loader : ResourceLoader σ) : Json.Value → LoadAction σ Value
  | .text content => return .text content
  | .number literal => LoadAction.ofExcept (ofLiteral literal)
  | .object members => ofMembers loader members
  | .null => throw (.invalidValueKind "null")
  | .bool _ => throw (.invalidValueKind "bool")
  | .array _ => throw (.invalidValueKind "array")

end Constant

end DreamWorld
