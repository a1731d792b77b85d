import DreamWorld.Json.Raw
import DreamWorld.Keyed

/-!
# JSON values

The third stage of reading: a written value becomes a value.  Objects are tables
in the order of their keys, of a repeated key the last value counts, and a string
must have content.  Containers nest at most 127 deep.

A number stays the literal that it was written with.  One spelling of a number
is an object of one reserved key, whose string is the literal.
-/

namespace DreamWorld.Json

/-- A JSON value.  Members of an object are in the order that a printer writes
them; reading puts them in the order of their keys. -/
inductive Value where
  | null
  | bool (value : Bool)
  | number (literal : String)
  | text (content : String)
  | array (items : List Value)
  | object (members : List (String × Value))

/-- How deep containers may nest. -/
def depthLimit : Nat :=
  127

/-- The key that marks an object as a number. -/
def numberKey : String :=
  "$serde_json::private::Number"

namespace Value

/-- The number that an object of the reserved key spells. -/
def markedNumber? : List (Option String × Raw) → Option Value
  | [(_, .text (some literal))] => (Token.wholeNumber? literal.toList).map .number
  | _ => none

/-- The first member of an object has the reserved key. -/
def startsWithNumberKey : List (Option String × Raw) → Bool
  | (some key, _) :: _ => key == numberKey
  | _ => false

/-- The value that is written, with room for containers of `depth` levels. -/
def ofRaw? (depth : Nat) (raw : Raw) : Option Value :=
  match raw with
  | .null => some .null
  | .bool value => some (.bool value)
  | .number literal => some (.number literal)
  | .text content => content.map .text
  | .array items =>
      match depth with
      | 0 => none
      | depth + 1 => (items.mapM (ofRaw? depth)).map .array
  | .object members =>
      match depth with
      | 0 => none
      | depth + 1 =>
          if startsWithNumberKey members then markedNumber? members
          else
            (members.mapM fun (member : Option String × Raw) => do
              return (← member.1, ← ofRaw? depth member.2)).map fun pairs =>
                .object (Keyed.ofPairs pairs)
termination_by structural depth

/-- The value of a text. -/
def parse? (text : String) : Option Value :=
  (Raw.parse? text).bind (ofRaw? depthLimit)

end Value

end DreamWorld.Json
