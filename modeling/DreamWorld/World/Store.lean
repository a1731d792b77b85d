import DreamWorld.World.Definition
import DreamWorld.World.ListStore

/-!
# The state of a running world

The store holds everything that changes while a world runs: the hooks attached to
classes, the shared variables that have been written, the objects, and the events
that recording hooks have noted.  An operation on a world is an action on the
store; what it has done stays done when it fails.
-/

namespace DreamWorld

/-- A hook gives the objects of a class behaviour of their own. -/
inductive Hook where
  /-- Makes the objects of a class lists, with list operators and a length. -/
  | lists
  /-- Changes nothing. -/
  | inert
  /-- Answers every operator with its symbol. -/
  | echo
  /-- Notes what happens to objects, and reads integers doubled. -/
  | recorder
  /-- Lets only integers be stored, and takes no named arguments. -/
  | integersOnly
deriving DecidableEq

/-- What a recording hook notes. -/
inductive Event where
  | created (type : Path) (argumentCount : Nat)
  | deleted (type : Path)
  | set (type : Path) (name : String) (old new : Value)
  | get (name : String) (value : Value)
deriving DecidableEq

def Event.message : Event → String
  | .created type count => "created " ++ type.toText ++ " with " ++ Nat.repr count
  | .deleted type => "deleted " ++ type.toText ++ " true"
  | .set type name old new =>
      "set " ++ type.toText ++ " " ++ name ++ " " ++ old.toText ++ " -> " ++ new.toText
  | .get name value => "get " ++ name ++ " " ++ value.toText

/-- An object: its class, its variables, and its contents if it is a list. -/
structure Object where
  definition : Definition
  vars : Keyed Value
  list : Option ListStore := none
  deleted : Bool := false
deriving DecidableEq

/-- The changing state of a world. -/
structure Store where
  /-- The hook of each class, by its number. -/
  hooks : Array (Option Hook) := #[]
  /-- The shared variables that have been written, with their values. -/
  globals : List ((ClassId × String) × Value) := []
  objects : Array Object := #[]
  events : Array Event := #[]

/-- An operation on a world.  The state outlasts a failure. -/
abbrev Action (α : Type) : Type :=
  ExceptT RuntimeError (StateM Store) α

namespace Store

/-! ## Hooks of classes -/

/-- The hook of a class, if it has one. -/
def hook? (store : Store) (id : ClassId) : Option Hook :=
  store.hooks[id]?.join

/-- Attaches a hook to a class, or takes it away. -/
def setHook (store : Store) (id : ClassId) (hook : Option Hook) : Store :=
  { store with hooks := store.hooks.setIfInBounds id hook }

/-- The number of the next new class. -/
def nextClass (store : Store) : ClassId :=
  store.hooks.size

/-- Makes room for new classes, which have no hooks. -/
def addClasses (store : Store) (count : Nat) : Store :=
  { store with hooks := store.hooks ++ Array.replicate count none }

/-! ## Shared variables -/

/-- The value of a shared variable. -/
def readGlobal (store : Store) (global : GlobalVariable) : Value :=
  (store.globals.lookup global.cell).getD global.initial

/-- Writes a shared variable. -/
def writeGlobal (store : Store) (global : GlobalVariable) (value : Value) : Store :=
  { store with
    globals := (global.cell, value) :: store.globals.filter fun entry =>
      !(entry.1 == global.cell) }

/-! ## Objects -/

def object? (store : Store) (ref : ObjectRef) : Option Object :=
  store.objects[ref.id]?

/-- Adds an object.  Its reference is the next number. -/
def addObject (store : Store) (object : Object) : ObjectRef × Store :=
  (⟨store.objects.size, object.definition.type⟩,
    { store with objects := store.objects.push object })

/-- Changes an object. -/
def modifyObject (store : Store) (ref : ObjectRef) (change : Object → Object) : Store :=
  { store with objects := store.objects.modify ref.id change }

/-- An object is deleted once it has been deleted, and so is one that the store
does not hold. -/
def isDeleted (store : Store) (ref : ObjectRef) : Bool :=
  (store.object? ref).elim true Object.deleted

/-- The contents of an object that is a list. -/
def list? (store : Store) (ref : ObjectRef) : Option ListStore :=
  (store.object? ref).bind Object.list

/-- Null, zero, the empty text and deleted objects are false. -/
def isTruthy (store : Store) : Value → Bool
  | .null => false
  | .integer value => value != 0
  | .float value => !value.isZero
  | .text value => !value.isEmpty
  | .object ref => !store.isDeleted ref
  | .path _ | .resource _ | .proc _ => true

/-- Notes an event. -/
def note (store : Store) (event : Event) : Store :=
  { store with events := store.events.push event }

end Store

/-! ## Actions -/

/-- Runs an action on a store. -/
def Action.runOn {α : Type} (action : Action α) (store : Store) :
    Except RuntimeError α × Store :=
  action store

/-- The outcome of a computation that does not need the store. -/
def Action.ofExcept {α : Type} (outcome : Except RuntimeError α) : Action α :=
  fun store => (outcome, store)

/-- The number for a new class, which has no hook. -/
def newClass : Action ClassId :=
  fun store => (.ok store.nextClass, store.addClasses 1)

/-- Attaches a hook to a class, or takes it away. -/
def attachHookTo (id : ClassId) (hook : Option Hook) : Action Unit :=
  modify (·.setHook id hook)

/-- The value of a shared variable. -/
def GlobalVariable.read (global : GlobalVariable) : Action Value := do
  return (← get).readGlobal global

/-- Writes a shared variable, and answers its value so far. -/
def GlobalVariable.write (global : GlobalVariable) (value : Value) : Action Value := do
  let old ← global.read
  modify (·.writeGlobal global value)
  return old

/-- The object behind a reference. -/
def theObject (ref : ObjectRef) : Action Object :=
  fun store =>
    match store.object? ref with
    | some object => (.ok object, store)
    | none => (.error (.objectDeleted ref.type), store)

/-- The contents of an object that must be a list. -/
def theList (ref : ObjectRef) : Action ListStore :=
  fun store =>
    match store.list? ref with
    | some list => (.ok list, store)
    | none => (.error (.notAList ref.type), store)

/-- Replaces the contents of a list. -/
def setList (ref : ObjectRef) (list : ListStore) : Action Unit :=
  modify fun store => store.modifyObject ref fun object => { object with list := some list }

/-- Changes the contents of an object that must be a list. -/
def modifyList (ref : ObjectRef) (change : ListStore → ListStore) : Action Unit := do
  setList ref (change (← theList ref))

/-- The hook of an object's class. -/
def hookOf (ref : ObjectRef) : Action (Option Hook) := do
  let object ← theObject ref
  return (← get).hook? object.definition.id

end DreamWorld
