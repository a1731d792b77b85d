import DreamWorld.World.Hook

/-!
# Objects

Objects are created from definitions, hold variables, and are deleted once.
Every step asks the hook of the object's class.  A write that the hook rejects is
taken back, so that it leaves the object as it was.
-/

namespace DreamWorld

namespace Object

/-- The class of list objects, itself included, is what makes an object a list. -/
def listStorage (definition : Definition) : Option ListStore :=
  if definition.isSubtypeOf Path.listClass then some {} else none

/-- Creates an object of a class. -/
def create (definition : Definition) (arguments : Arguments) : Action ObjectRef := do
  let ref ← (fun store =>
    match store.addObject (Object.fresh definition (listStorage definition)) with
    | (ref, store) => (.ok ref, store) : Action ObjectRef)
  match (← get).hook? definition.id with
  | some hook => hook.onCreated ref arguments
  | none => pure ()
  return ref

/-- The object has a variable of the name. -/
def hasVariable (ref : ObjectRef) (name : String) : Action Bool := do
  return (← theObject ref).vars.has name

/-- The value of a variable, if the object has it. -/
def getVariable? (ref : ObjectRef) (name : String) : Action (Option Value) := do
  let object ← theObject ref
  match object.vars.find? name with
  | none => return none
  | some value =>
      match (← get).hook? object.definition.id with
      | some hook => return some (← hook.onGet ref name value)
      | none => return some value

/-- The value of a variable that the object must have. -/
def getVariable (ref : ObjectRef) (name : String) : Action Value := do
  match ← getVariable? ref name with
  | some value => return value
  | none => throw (.undefinedVariable name)

/-- Puts a variable back to what it was. -/
def restoreVariable (ref : ObjectRef) (name : String) (previous : Option Value) : Action Unit :=
  modify fun store => store.modifyObject ref fun object =>
    { object with
      vars :=
        match previous with
        | some value => object.vars.insert name value
        | none => object.vars.erase name }

/-- Writes a variable, which the object need not have had, and answers its value
so far.  If the hook rejects the new value, the variable is as before. -/
def setVariable (ref : ObjectRef) (name : String) (value : Value) : Action Value := do
  let object ← theObject ref
  let previous := object.vars.find? name
  let old := previous.getD .null
  modify fun store => store.modifyObject ref fun object =>
    { object with vars := object.vars.insert name value }
  match (← get).hook? object.definition.id with
  | none => return old
  | some hook =>
      tryCatch (hook.onSet ref name value old) fun error => do
        restoreVariable ref name previous
        throw error
      return old

/-- The names of the variables of an object, in order. -/
def variableNames (ref : ObjectRef) : Action (List String) := do
  return (← theObject ref).vars.names

/-- The proc of a name, which the object's class must have. -/
def getProc (ref : ObjectRef) (name : String) : Action Proc := do
  match (← theObject ref).definition.proc? name with
  | some proc => return proc
  | none => throw (.undefinedProc name ref.type)

/-- Deletes an object.  Only the first deletion does anything. -/
def delete (ref : ObjectRef) : Action Unit := do
  let object ← theObject ref
  if object.deleted then return ()
  modify fun store => store.modifyObject ref fun object => { object with deleted := true }
  match (← get).hook? object.definition.id with
  | some hook => hook.onDeleted ref
  | none => pure ()

end Object

end DreamWorld
