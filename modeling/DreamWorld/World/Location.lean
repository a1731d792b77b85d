import DreamWorld.World.Object

/-!
# Frames and locations

A running proc has a frame: its local variables and the value it is going to
return.  A location names a place that can be read and, unless it is a proc,
assigned to: a variable of an object, a local variable, a place in a list, or the
return value.  A variable that an object does not have is the shared variable of
its class.
-/

namespace DreamWorld

/-- The state of a proc that runs. -/
structure Frame where
  proc : Proc
  instance? : Option ObjectRef
  locals : List Value
  returnValue : Value := .null
deriving DecidableEq

/-- A frame at its start: every local variable is null. -/
def Frame.start (proc : Proc) (instance? : Option ObjectRef) (localCount : Nat) : Frame :=
  { proc, instance?, locals := List.replicate localCount .null }

/-- A place that a running proc can name. -/
inductive Location where
  | variable (object : ObjectRef) (name : String)
  | localVariable (index : Nat)
  | proc (item : Proc) (instance? : Option ObjectRef) (name : String)
  | listIndex (list : ObjectRef) (index : Value)
  | returnValue
deriving DecidableEq

namespace Location

/-- The location of a proc that an object must have. -/
def ofProc (ref : ObjectRef) (name : String) : Action Location := do
  return .proc (← Object.getProc ref name) (some ref) name

/-- The location of a place in a list.  The object must be one. -/
def ofListIndex (ref : ObjectRef) (index : Value) : Action Location := do
  let object ← theObject ref
  if object.definition.isSubtypeOf Path.listClass && object.list.isSome then
    return .listIndex ref index
  else throw (.notAList ref.type)

/-- Deleted objects have no variables to read or assign to. -/
def ensureLive (ref : ObjectRef) : Action Unit := do
  if (← get).isDeleted ref then throw (.objectDeleted ref.type)

/-- The shared variable that a class must have. -/
def theGlobal (ref : ObjectRef) (name : String) : Action GlobalVariable := do
  match (← theObject ref).definition.globalVariable? name with
  | some global => return global
  | none => throw (.undefinedVariable name)

/-- The failure of a local variable that a frame does not have. -/
def outOfRange (frame : Frame) (index : Nat) : RuntimeError :=
  .localOutOfRange index frame.locals.length

/-- Reads a location. -/
def read (frame : Frame) : Location → Action Value
  | .variable ref name => do
      ensureLive ref
      match ← Object.getVariable? ref name with
      | some value => return value
      | none =>
          let global ← theGlobal ref name
          global.read
  | .localVariable index =>
      match frame.locals[index]? with
      | some value => return value
      | none => throw (outOfRange frame index)
  | .proc item _ _ => return Value.proc item
  | .listIndex ref index => do
      let list ← theList ref
      Action.ofExcept (list.get index)
  | .returnValue => return frame.returnValue

/-- Assigns to a location, and answers the frame afterwards. -/
def assign (frame : Frame) (value : Value) : Location → Action Frame
  | .variable ref name => do
      ensureLive ref
      if ← Object.hasVariable ref name then
        let _ ← Object.setVariable ref name value
        return frame
      else
        let global ← theGlobal ref name
        let _ ← global.write value
        return frame
  | .localVariable index =>
      if index < frame.locals.length then
        return { frame with locals := frame.locals.set index value }
      else throw (outOfRange frame index)
  | .proc _ _ name => throw (.cannotAssignProc name)
  | .listIndex ref index => do
      let list ← theList ref
      setList ref (← Action.ofExcept (list.set index value))
      return frame
  | .returnValue => return { frame with returnValue := value }

end Location

end DreamWorld
