import DreamWorld.World.Operator
import DreamWorld.World.Value

/-!
# Failures

What can go wrong while a world runs, while a document is loaded, and where
resources are looked up.  Every failure is a cause, and each kind of failure has
one function that words it.
-/

namespace DreamWorld

/-- Failures of a running world. -/
inductive RuntimeError where
  | pathNotAbsolute (path : Path)
  | objectDoesNotExist (path : Path)
  | undefinedVariable (name : String)
  | undefinedProc (name : String) (type : Path)
  | localOutOfRange (index count : Nat)
  | cannotAssignProc (name : String)
  | notAList (type : Path)
  | listIndexOutOfRange (index : Int) (length : Nat)
  | invalidListIndex (index : String)
  | unsupportedOperator (operator : Operator) (typeName : String)
  | typeMismatch (expected got : String)
  | objectDeleted (type : Path)
deriving DecidableEq

def RuntimeError.message : RuntimeError → String
  | .pathNotAbsolute path => "path '" ++ path.toText ++ "' must be an absolute path"
  | .objectDoesNotExist path => "object '" ++ path.toText ++ "' does not exist"
  | .undefinedVariable name => "value '" ++ name ++ "' doesn't exist"
  | .undefinedProc name type => "proc '" ++ name ++ "' doesn't exist on " ++ type.toText
  | .localOutOfRange index count =>
      "local variable " ++ Nat.repr index ++ " is out of range (proc has " ++
        Nat.repr count ++ " locals)"
  | .cannotAssignProc name => "cannot assign to a proc ('" ++ name ++ "')"
  | .notAList type => type.toText ++ " is not a list"
  | .listIndexOutOfRange index length =>
      "list index " ++ Int.repr index ++ " is out of range (list has " ++
        Nat.repr length ++ " entries)"
  | .invalidListIndex index => "invalid list index " ++ index
  | .unsupportedOperator operator typeName =>
      "operator '" ++ operator.symbol ++ "' is not supported on " ++ typeName
  | .typeMismatch expected got => "type mismatch: expected " ++ expected ++ ", got " ++ got
  | .objectDeleted type => "object of type " ++ type.toText ++ " has been deleted"

/-- Failures to look up or read a resource. -/
inductive ResourceError where
  | outsideRoot (path : String)
  | unreadable (file : String)
deriving DecidableEq

def ResourceError.message : ResourceError → String
  | .outsideRoot path => "resource '" ++ path ++ "' is outside the resource root"
  | .unreadable file => "failed to read resource '" ++ file ++ "'"

/-- Failures to load a document. -/
inductive LoadError where
  | invalidRootName (name : String)
  | invalidValueKind (kind : String)
  | invalidVariableType (tag : Nat)
  | invalidResourcePath
  | missingProperty (property : String)
  | duplicateEntry (path : Path)
  | malformed
  | resolution (error : RuntimeError)
  | resource (error : ResourceError)
deriving DecidableEq

def LoadError.message : LoadError → String
  | .invalidRootName name =>
      "root object should have an empty name, found '" ++ name ++ "'"
  | .invalidValueKind kind => "invalid value kind for dream value (" ++ kind ++ ")"
  | .invalidVariableType tag => "invalid variable type (" ++ Nat.repr tag ++ ")"
  | .invalidResourcePath => "property 'resourcePath' must be a string or null"
  | .missingProperty property => "missing property '" ++ property ++ "'"
  | .duplicateEntry path => "object '" ++ path.toText ++ "' is defined twice"
  | .malformed => "malformed compiled definitions"
  | .resolution error => error.message
  | .resource error => error.message

/-! ## Values of one kind -/

namespace Value

/-- The failure of a value that is not of the expected kind. -/
def mismatch (expected : String) (value : Value) : RuntimeError :=
  .typeMismatch expected value.typeName

def asInteger : Value → Except RuntimeError Int32
  | .integer value => .ok value
  | value => .error (mismatch "integer" value)

/-- The numeric value, integers being rounded to singles. -/
def asSingle : Value → Except RuntimeError Single
  | .integer value => .ok (Single.ofInt value.toInt)
  | .float value => .ok value
  | value => .error (mismatch "num" value)

def asText : Value → Except RuntimeError String
  | .text value => .ok value
  | value => .error (mismatch "text" value)

def asObject : Value → Except RuntimeError ObjectRef
  | .object ref => .ok ref
  | value => .error (mismatch "object" value)

def asPath : Value → Except RuntimeError Path
  | .path value => .ok value
  | value => .error (mismatch "path" value)

end Value

end DreamWorld
