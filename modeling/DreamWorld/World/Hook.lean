import DreamWorld.World.Arguments
import DreamWorld.World.Store

/-!
# What hooks do

A hook is asked when an object is created or deleted, when one of its variables
is read or written, and for the meaning of an operator whose left operand is such
an object.  A hook that has nothing to say lets the first four pass and supports
no operator.

The list hook gives lists their length, which is read from and written through to
the contents, and their operators.  Addition and subtraction make new lists; the
others change the left operand and answer it.
-/

namespace DreamWorld

/-- The failure of an operator that a value does not support. -/
def unsupported (operator : Operator) (value : Value) : RuntimeError :=
  .unsupportedOperator operator value.typeName

/-- The variable that stands for the length of a list. -/
def lengthName : String :=
  "len"

/-- A new object of a class: its variables have their defaults, and a list has a
length of zero besides, unless its class declares one. -/
def Object.fresh (definition : Definition) (list : Option ListStore) : Object :=
  let defaults := definition.variableDefaults
  { definition
    vars :=
      if list.isSome && !defaults.has lengthName then defaults.insert lengthName (.integer 0)
      else defaults
    list }

/-- Adds a list with the given contents, without asking the hook of its class. -/
def createListLike (definition : Definition) (list : ListStore) : Action ObjectRef :=
  fun store =>
    match store.addObject (Object.fresh definition (some list)) with
    | (ref, store) => (.ok ref, store)

namespace Hook

/-! ## Lists -/

/-- The contents that an operand contributes to a list operator: those of a list,
or the value itself. -/
def operandValues (store : Store) : Value → List Value
  | .object ref => ((store.list? ref).map ListStore.values).getD [.object ref]
  | value => [value]

/-- The list that an operator of the list hook acts on. -/
def receiver (operator : Operator) (value : Value) : Action ObjectRef :=
  fun store =>
    match value with
    | .object ref =>
        if (store.list? ref).isSome then (.ok ref, store)
        else (.error (unsupported operator value), store)
    | _ => (.error (unsupported operator value), store)

/-- A new list of the receiver's class, with its changed contents. -/
def listResult (ref : ObjectRef) (change : ListStore → ListStore) : Action Value := do
  let object ← theObject ref
  let list ← theList ref
  return .object (← createListLike object.definition (change list))

/-- The operators of lists. -/
def listOperator (operator : Operator) (a b : Value) : Action Value := do
  match operator with
  | .output => throw (unsupported operator a)
  | .add =>
      let ref ← receiver operator a
      listResult ref (·.addAll (operandValues (← get) b))
  | .subtract =>
      let ref ← receiver operator a
      listResult ref (·.removeAll (operandValues (← get) b))
  | .append =>
      let ref ← receiver operator a
      modifyList ref (·.addAll (operandValues (← get) b))
      return a
  | .remove =>
      let ref ← receiver operator a
      modifyList ref (·.removeAll (operandValues (← get) b))
      return a
  | .combine =>
      let ref ← receiver operator a
      modifyList ref (·.combine (operandValues (← get) b))
      return a
  | .mask =>
      let ref ← receiver operator a
      modifyList ref (·.mask (operandValues (← get) b))
      return a

/-- The length that an integer asks for; a negative one asks for none. -/
def requestedLength (value : Int32) : Nat :=
  value.toInt.toNat

/-! ## The hooks -/

/-- An object has been created.  A list takes a single ordered integer as its
length. -/
def onCreated (hook : Hook) (ref : ObjectRef) (arguments : Arguments) : Action Unit :=
  match hook with
  | .lists =>
      match arguments.ordered, arguments.named with
      | [.integer length], [] => modifyList ref (·.resize (requestedLength length))
      | _, _ => pure ()
  | .recorder => modify (·.note (.created ref.type arguments.count))
  | .integersOnly =>
      match arguments.named with
      | [] => pure ()
      | (name, _) :: _ => throw (.undefinedVariable name)
  | .inert | .echo => pure ()

/-- An object has been deleted. -/
def onDeleted (hook : Hook) (ref : ObjectRef) : Action Unit :=
  match hook with
  | .recorder => modify (·.note (.deleted ref.type))
  | _ => pure ()

/-- A variable has been written. -/
def onSet (hook : Hook) (ref : ObjectRef) (name : String) (new old : Value) : Action Unit :=
  match hook with
  | .lists =>
      if name = lengthName then do
        let length ← Action.ofExcept new.asInteger
        modifyList ref (·.resize (requestedLength length))
      else pure ()
  | .recorder => modify (·.note (.set ref.type name old new))
  | .integersOnly => do
      let _ ← Action.ofExcept new.asInteger
      return ()
  | .inert | .echo => pure ()

/-- A variable is read; the hook answers the value to give. -/
def onGet (hook : Hook) (ref : ObjectRef) (name : String) (value : Value) : Action Value :=
  match hook with
  | .lists =>
      if name = lengthName then do
        let list ← theList ref
        return .integer ((Integer.ofInt? list.length).getD (Int32.ofInt Integer.greatest))
      else pure value
  | .recorder => do
      modify (·.note (.get name value))
      match value with
      | .integer number => return .integer (number + number)
      | _ => return value
  | .inert | .echo | .integersOnly => pure value

/-- The meaning of an operator. -/
def applyOperator (hook : Hook) (operator : Operator) (a b : Value) : Action Value :=
  match hook with
  | .lists => listOperator operator a b
  | .echo => return .text operator.symbol
  | .inert | .recorder | .integersOnly => throw (unsupported operator a)

end Hook

end DreamWorld
