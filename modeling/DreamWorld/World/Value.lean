import DreamWorld.Number.Decimal
import DreamWorld.Number.Integer
import DreamWorld.Path
import DreamWorld.ValueKinds

/-!
# Values of a running world

A value is a scalar, a path, a resource, a reference to an object or a proc.
Scalars and paths are the same when they are written alike, floats by their bits;
resources are the same when their paths are; objects and procs are the same when
they are one and the same thing.  Each value has a key that says which it is, and
equality is equality of keys.
-/

namespace DreamWorld

/-- A file that a world refers to: its path as written, and where it is kept. -/
structure Resource where
  path : String
  file : String
deriving DecidableEq

/-- A class keeps its number for as long as the world runs. -/
abbrev ClassId : Type :=
  Nat

/-- A proc is known by the class that declares it and its turn there. -/
structure ProcId where
  owner : ClassId
  turn : Nat
deriving DecidableEq

/-- One implementation of a proc. -/
structure Overload where
  id : ProcId
  name : String
  bytecode : List UInt8
  argumentNames : List String
  argumentKinds : List ValueKinds
deriving DecidableEq

/-- The kinds that an argument accepts.  An argument past the last accepts
anything. -/
def Overload.kindsAt (overload : Overload) (index : Nat) : ValueKinds :=
  overload.argumentKinds.getD index .anything

/-- A proc: its implementation and those that it overrides, nearest first. -/
structure Proc where
  top : Overload
  overridden : List Overload
deriving DecidableEq

/-- All implementations of a proc, the one that runs first. -/
def Proc.chain (proc : Proc) : List Overload :=
  proc.top :: proc.overridden

/-- A reference to an object.  It carries the object's class path, which never
changes. -/
structure ObjectRef where
  id : Nat
  type : Path
deriving DecidableEq

/-- A value. -/
inductive Value where
  | null
  | integer (value : Int32)
  | float (value : Single)
  | text (value : String)
  | path (value : Path)
  | resource (value : Resource)
  | object (ref : ObjectRef)
  | proc (value : Proc)
deriving DecidableEq

instance : Inhabited Value :=
  ⟨.null⟩

/-- What makes a value the value that it is. -/
inductive ValueKey where
  | null
  | integer (value : Int32)
  | float (bits : UInt32)
  | text (value : String)
  | path (value : Path)
  | resource (path : String)
  | object (id : Nat)
  | proc (id : ProcId)
deriving DecidableEq

namespace Value

def key : Value → ValueKey
  | .null => .null
  | .integer value => .integer value
  | .float value => .float value.bits
  | .text value => .text value
  | .path value => .path value
  | .resource value => .resource value.path
  | .object ref => .object ref.id
  | .proc value => .proc value.top.id

/-- Two values are the same. -/
def same (a b : Value) : Bool :=
  a.key == b.key

/-- Each value of a list, with whether it differs from all before it. -/
def distinct (values : List Value) : List Bool :=
  (values.foldl
    (fun (found : List ValueKey × List Bool) value =>
      (value.key :: found.1, (!found.1.contains value.key) :: found.2))
    ([], [])).2.reverse

/-- The name of a value's kind in messages; an object goes by its class. -/
def typeName : Value → String
  | .null => "null"
  | .integer _ | .float _ => "num"
  | .text _ => "text"
  | .path _ => "path"
  | .resource _ => "resource"
  | .object ref => ref.type.toText
  | .proc _ => "proc"

/-- The text of a value, as it is shown to people. -/
def toText : Value → String
  | .null => "null"
  | .integer value => Integer.toText value
  | .float value => value.toText
  | .text value => "\"" ++ value ++ "\""
  | .path value => value.toText
  | .resource value => "'" ++ value.path ++ "'"
  | .object ref => ref.type.toText
  | .proc value => "proc " ++ value.top.name

def isNull : Value → Bool
  | .null => true
  | _ => false

/-- The integer that a number is as a position in a list: an integer itself, or a
float that is a whole number in the range of integers. -/
def listPosition? : Value → Option Int
  | .integer value => some value.toInt
  | .float value => value.toInt?.filter fun position =>
      Integer.least ≤ position ∧ position ≤ Integer.greatest
  | _ => none

end Value

end DreamWorld
