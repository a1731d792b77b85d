import DreamWorld.Json.Token

/-!
# Written JSON values

The second stage of reading: tokens become a tree of values as they are written.
Members of an object keep their order and their repetitions, and a string whose
escapes name no characters stays without content, because nobody has asked for
it yet.  The tree may be nested to any depth: it is built by a machine whose
stack holds the containers that are still open.
-/

namespace DreamWorld.Json

/-- A value as it is written. -/
inductive Raw where
  | null
  | bool (value : Bool)
  | number (literal : String)
  | text (content : Option String)
  | array (items : List Raw)
  | object (members : List (Option String × Raw))

namespace Raw

/-- A container that is still open, with what it holds so far in reverse.  An
open object waits for the value of a key. -/
inductive Frame where
  | array (items : List Raw)
  | object (members : List (Option String × Raw)) (key : Option String)

/-- What may come next, with the open containers, innermost first. -/
inductive State where
  | value (stack : List Frame)
  | firstItem (stack : List Frame)
  | firstKey (stack : List Frame)
  | key (members : List (Option String × Raw)) (stack : List Frame)
  | colon (members : List (Option String × Raw)) (key : Option String) (stack : List Frame)
  | afterItem (items : List Raw) (stack : List Frame)
  | afterMember (members : List (Option String × Raw)) (stack : List Frame)
  | complete (value : Raw)

/-- Puts a finished value into the innermost open container. -/
def place (value : Raw) : List Frame → State
  | [] => .complete value
  | .array items :: stack => .afterItem (value :: items) stack
  | .object members key :: stack => .afterMember ((key, value) :: members) stack

/-- Begins a value. -/
def start? (stack : List Frame) : Token → Option State
  | .null => some (place .null stack)
  | .bool value => some (place (.bool value) stack)
  | .number literal => some (place (.number literal) stack)
  | .text content => some (place (.text content) stack)
  | .openArray => some (.firstItem stack)
  | .openObject => some (.firstKey stack)
  | _ => none

/-- Takes one token. -/
def step? : State → Token → Option State
  | .value stack, token => start? stack token
  | .firstItem stack, .closeArray => some (place (.array []) stack)
  | .firstItem stack, token => start? (.array [] :: stack) token
  | .firstKey stack, .closeObject => some (place (.object []) stack)
  | .firstKey stack, .text content => some (.colon [] content stack)
  | .key members stack, .text content => some (.colon members content stack)
  | .colon members key stack, .colon => some (.value (.object members key :: stack))
  | .afterItem items stack, .comma => some (.value (.array items :: stack))
  | .afterItem items stack, .closeArray => some (place (.array items.reverse) stack)
  | .afterMember members stack, .comma => some (.key members stack)
  | .afterMember members stack, .closeObject => some (place (.object members.reverse) stack)
  | _, _ => none

/-- Takes tokens one after another. -/
def run? (state : State) : List Token → Option State
  | [] => some state
  | token :: rest =>
      match step? state token with
      | some state => run? state rest
      | none => none

/-- The one value that tokens spell. -/
def ofTokens? (tokens : List Token) : Option Raw :=
  match run? (.value []) tokens with
  | some (.complete value) => some value
  | _ => none

/-- The value that a text spells. -/
def parse? (text : String) : Option Raw :=
  (Token.scan? text).bind ofTokens?

end Raw

end DreamWorld.Json
