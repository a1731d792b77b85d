import DreamWorld.Json.Basic

/-!
# Writing JSON

Values are written compactly, without blanks.  In strings only quotes,
backslashes and control characters are escaped, each in its shortest form.
-/

namespace DreamWorld.Json

/-- The digits of hexadecimal numbers, as they are written. -/
def hexDigit (value : Nat) : Char :=
  (Nat.toDigits 16 value).headD '0'

/-- The written form of one character of a string. -/
def escape (c : Char) : List Char :=
  if c = '"' then ['\\', '"']
  else if c = '\\' then ['\\', '\\']
  else if c = '\x08' then ['\\', 'b']
  else if c = '\x0c' then ['\\', 'f']
  else if c = '\n' then ['\\', 'n']
  else if c = '\r' then ['\\', 'r']
  else if c = '\t' then ['\\', 't']
  else if c.toNat < 32 then
    ['\\', 'u', '0', '0', hexDigit (c.toNat / 16), hexDigit (c.toNat % 16)]
  else [c]

/-- A string with its quotes. -/
def quote (content : String) : String :=
  String.ofList ('"' :: content.toList.flatMap escape ++ ['"'])

/-- The elements of a container, separated by commas. -/
def commaSeparated (parts : List String) : String :=
  String.intercalate "," parts

mutual

/-- The compact text of a value. -/
def Value.toText : Value → String
  | .null => "null"
  | .bool true => "true"
  | .bool false => "false"
  | .number literal => literal
  | .text content => quote content
  | .array items => "[" ++ commaSeparated (textsOf items) ++ "]"
  | .object members => "\x7b" ++ commaSeparated (memberTexts members) ++ "\x7d"

/-- The texts of several values. -/
def textsOf : List Value → List String
  | [] => []
  | item :: rest => item.toText :: textsOf rest

/-- The texts of the members of an object. -/
def memberTexts : List (String × Value) → List String
  | [] => []
  | (key, value) :: rest => (quote key ++ ":" ++ value.toText) :: memberTexts rest

end

end DreamWorld.Json
