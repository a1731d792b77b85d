import DreamWorld.World.Error

/-!
# List storage

A list is a sequence of values and a table of associations.  A number addresses
the sequence, counting from one; any other key but null addresses the table.
Storing under a new key also appends the key to the sequence, so that going
through the sequence meets the keys in the order in which they came.
-/

namespace DreamWorld

/-- The contents of a list. -/
structure ListStore where
  values : List Value := []
  associations : List (Value × Value) := []
deriving DecidableEq

namespace ListStore

def length (list : ListStore) : Nat :=
  list.values.length

/-- The list has an association. -/
def isAssociative (list : ListStore) : Bool :=
  !list.associations.isEmpty

/-- Some element is the given value. -/
def contains (list : ListStore) (value : Value) : Bool :=
  list.values.any value.same

/-- The value that a key is associated with. -/
def associated? (list : ListStore) (key : Value) : Option Value :=
  (list.associations.find? fun entry => key.same entry.1).map Prod.snd

/-- The place in the sequence that an index means.  Keys of the table mean no
place; null and numbers that are not whole mean nothing at all. -/
def position? (list : ListStore) (index : Value) : Except RuntimeError (Option Nat) :=
  match index with
  | .null => .error (.invalidListIndex index.toText)
  | .integer _ | .float _ =>
      match index.listPosition? with
      | none => .error (.invalidListIndex index.toText)
      | some number =>
          if 1 ≤ number ∧ number ≤ list.length then .ok (some (number - 1).toNat)
          else .error (.listIndexOutOfRange number list.length)
  | _ => .ok none

/-- The value at an index: an element, an associated value, or null for a key
without one. -/
def get (list : ListStore) (index : Value) : Except RuntimeError Value :=
  match list.position? index with
  | .error error => .error error
  | .ok (some place) => .ok (list.values.getD place .null)
  | .ok none => .ok ((list.associated? index).getD .null)

/-- Associates a key with a value in a table. -/
def associate (key value : Value) : List (Value × Value) → List (Value × Value)
  | [] => [(key, value)]
  | entry :: rest =>
      if key.same entry.1 then (entry.1, value) :: rest
      else entry :: associate key value rest

/-- Stores a value at an index.  A key that is neither associated nor an element
becomes the last element. -/
def set (list : ListStore) (index value : Value) : Except RuntimeError ListStore :=
  match list.position? index with
  | .error error => .error error
  | .ok (some place) => .ok { list with values := list.values.set place value }
  | .ok none =>
      let known := (list.associated? index).isSome || list.contains index
      .ok
        { values := if known then list.values else list.values ++ [index]
          associations := associate index value list.associations }

/-- Appends a value. -/
def add (list : ListStore) (value : Value) : ListStore :=
  { list with values := list.values ++ [value] }

/-- Appends several values in their order. -/
def addAll (list : ListStore) (values : List Value) : ListStore :=
  { list with values := list.values ++ values }

/-- Removes the first element that is the given value.  When no such element is
left, its association goes too. -/
def remove (list : ListStore) (value : Value) : ListStore :=
  if list.contains value then
    let values := list.values.eraseP value.same
    { values
      associations :=
        if values.any value.same then list.associations
        else list.associations.filter fun entry => !value.same entry.1 }
  else list

/-- Removes several values, one after another. -/
def removeAll (list : ListStore) (values : List Value) : ListStore :=
  values.foldl remove list

/-- Appends the values that are not yet elements, each once. -/
def combine (list : ListStore) (values : List Value) : ListStore :=
  values.foldl (fun list value => if list.contains value then list else list.add value) list

/-- Keeps the elements that are among the given values.  The others are removed
one after another. -/
def mask (list : ListStore) (values : List Value) : ListStore :=
  list.removeAll (list.values.filter fun element => !values.any element.same)

/-- Cuts a list to a length, or fills it up with nulls.  Keys that are no longer
elements lose their associations. -/
def resize (list : ListStore) (length : Nat) : ListStore :=
  let values := list.values.take length ++ List.replicate (length - list.length) .null
  { values
    associations := list.associations.filter fun entry => values.any entry.1.same }

/-- Two lists hold the same values in the same order and the same associations,
in whatever order these came. -/
def same (a b : ListStore) : Bool :=
  a.values.map Value.key == b.values.map Value.key &&
    a.associations.length == b.associations.length &&
    a.associations.all fun entry => (b.associated? entry.1).any entry.2.same

end ListStore

end DreamWorld
