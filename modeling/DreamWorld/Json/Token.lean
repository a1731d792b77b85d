/-!
# Tokens of JSON text

The first stage of reading: a text is cut into brackets, separators and scalars.
Blanks between tokens are dropped.  A number keeps its literal, except that its
exponent is written with a small mark and a sign, so that equal numerals of one
text stay equal.  A string keeps its content if its escapes name characters; a
surrogate that stands alone leaves it without content, which matters only where
the string is used.
-/

namespace DreamWorld.Json

/-- A token of JSON text. -/
inductive Token where
  | openObject
  | closeObject
  | openArray
  | closeArray
  | colon
  | comma
  | null
  | bool (value : Bool)
  | number (literal : String)
  | text (content : Option String)
deriving DecidableEq

namespace Token

/-! ## Strings -/

/-- One written unit of a string: a character, or an escaped 16-bit code. -/
inductive TextUnit where
  | char (value : Char)
  | code (value : Nat)
deriving DecidableEq

/-- The character that a one-letter escape stands for. -/
def escaped? : Char → Option Char
  | '"' => some '"'
  | '\\' => some '\\'
  | '/' => some '/'
  | 'b' => some '\x08'
  | 'f' => some '\x0c'
  | 'n' => some '\n'
  | 'r' => some '\r'
  | 't' => some '\t'
  | _ => none

/-- The value of a hexadecimal digit. -/
def hexDigit? (c : Char) : Option Nat :=
  if '0' ≤ c ∧ c ≤ '9' then some (c.toNat - '0'.toNat)
  else if 'a' ≤ c ∧ c ≤ 'f' then some (c.toNat - 'a'.toNat + 10)
  else if 'A' ≤ c ∧ c ≤ 'F' then some (c.toNat - 'A'.toNat + 10)
  else none

/-- The value of four hexadecimal digits. -/
def hexCode? (a b c d : Char) : Option Nat := do
  let high := (← hexDigit? a) * 16 + (← hexDigit? b)
  let low := (← hexDigit? c) * 16 + (← hexDigit? d)
  return high * 256 + low

/-- Reads the units of a string up to its closing quote.  The units found so far
are kept in reverse. -/
def scanUnits : List Char → List TextUnit → Option (List TextUnit × List Char)
  | [], _ => none
  | '"' :: rest, found => some (found.reverse, rest)
  | '\\' :: 'u' :: a :: b :: c :: d :: rest, found =>
      match hexCode? a b c d with
      | some code => scanUnits rest (.code code :: found)
      | none => none
  | '\\' :: c :: rest, found =>
      match escaped? c with
      | some value => scanUnits rest (.char value :: found)
      | none => none
  | c :: rest, found =>
      if c.toNat < 32 ∨ c = '\\' then none else scanUnits rest (.char c :: found)

/-- The first half of a surrogate pair. -/
def isHighSurrogate (code : Nat) : Bool :=
  0xD800 ≤ code && code ≤ 0xDBFF

/-- The second half of a surrogate pair. -/
def isLowSurrogate (code : Nat) : Bool :=
  0xDC00 ≤ code && code ≤ 0xDFFF

/-- The character that the two halves of a surrogate pair stand for. -/
def pairedChar (high low : Nat) : Char :=
  Char.ofNat (0x10000 + (high - 0xD800) * 0x400 + (low - 0xDC00))

/-- The characters that units stand for, if no surrogate stands alone. -/
def decodeUnits : List TextUnit → List Char → Option (List Char)
  | [], found => some found.reverse
  | .char c :: rest, found => decodeUnits rest (c :: found)
  | .code high :: .code low :: rest, found =>
      if isHighSurrogate high then
        if isLowSurrogate low then decodeUnits rest (pairedChar high low :: found) else none
      else if isLowSurrogate high then none
      else decodeUnits (.code low :: rest) (Char.ofNat high :: found)
  | .code code :: rest, found =>
      if isHighSurrogate code || isLowSurrogate code then none
      else decodeUnits rest (Char.ofNat code :: found)

/-- The content of a string, by its units. -/
def content? (units : List TextUnit) : Option String :=
  (decodeUnits units []).map String.ofList

/-! ## Numbers -/

/-- A run of at least one digit, and the rest. -/
def scanDigits? (input : List Char) : Option (List Char × List Char) :=
  match input.takeWhile Char.isDigit with
  | [] => none
  | digits => some (digits, input.dropWhile Char.isDigit)

/-- The whole part of a number: a zero alone, or digits that do not begin with
one. -/
def scanWhole? : List Char → Option (List Char × List Char)
  | '0' :: rest => some (['0'], rest)
  | input => scanDigits? input

/-- The fraction of a number, if a point begins one. -/
def scanFraction? : List Char → Option (List Char × List Char)
  | '.' :: rest => (scanDigits? rest).map fun (digits, rest) => ('.' :: digits, rest)
  | input => some ([], input)

/-- The exponent of a number after its mark, written with a sign. -/
def scanSignedDigits? : List Char → Option (List Char × List Char)
  | '-' :: rest => (scanDigits? rest).map fun (digits, rest) => ('-' :: digits, rest)
  | '+' :: rest => (scanDigits? rest).map fun (digits, rest) => ('+' :: digits, rest)
  | input => (scanDigits? input).map fun (digits, rest) => ('+' :: digits, rest)

/-- The exponent of a number, if a mark begins one. -/
def scanExponent? : List Char → Option (List Char × List Char)
  | c :: rest =>
      if c = 'e' ∨ c = 'E' then
        (scanSignedDigits? rest).map fun (exponent, rest) => ('e' :: exponent, rest)
      else some ([], c :: rest)
  | [] => some ([], [])

/-- A number without its sign: the literal to keep, and the rest. -/
def scanUnsigned? (input : List Char) : Option (List Char × List Char) :=
  match scanWhole? input with
  | none => none
  | some (whole, rest) =>
      match scanFraction? rest with
      | none => none
      | some (fraction, rest) =>
          match scanExponent? rest with
          | none => none
          | some (exponent, rest) => some (whole ++ fraction ++ exponent, rest)

/-- A number: the literal to keep, and the rest. -/
def scanNumber? : List Char → Option (List Char × List Char)
  | '-' :: rest => (scanUnsigned? rest).map fun (literal, rest) => ('-' :: literal, rest)
  | input => scanUnsigned? input

/-- A text that is one number and nothing else, by the literal to keep. -/
def wholeNumber? (input : List Char) : Option String :=
  match scanNumber? input with
  | some (literal, []) => some (String.ofList literal)
  | _ => none

/-! ## Tokens -/

/-- The first token of a text that does not begin with a blank, and the rest. -/
def next? : List Char → Option (Token × List Char)
  | '\x7b' :: rest => some (.openObject, rest)
  | '\x7d' :: rest => some (.closeObject, rest)
  | '[' :: rest => some (.openArray, rest)
  | ']' :: rest => some (.closeArray, rest)
  | ':' :: rest => some (.colon, rest)
  | ',' :: rest => some (.comma, rest)
  | 'n' :: 'u' :: 'l' :: 'l' :: rest => some (.null, rest)
  | 't' :: 'r' :: 'u' :: 'e' :: rest => some (.bool true, rest)
  | 'f' :: 'a' :: 'l' :: 's' :: 'e' :: rest => some (.bool false, rest)
  | '"' :: rest => (scanUnits rest []).map fun (units, rest) => (.text (content? units), rest)
  | input => (scanNumber? input).map fun (literal, rest) => (.number (String.ofList literal), rest)

/-- The blanks that may stand between tokens. -/
def isBlank (c : Char) : Bool :=
  c == ' ' || c == '\t' || c == '\n' || c == '\r'

/-! ### What a token leaves is shorter -/

private theorem scanUnits_length {input : List Char} {found units : List TextUnit}
    {rest : List Char} (scanned : scanUnits input found = some (units, rest)) :
    rest.length < input.length := by
  fun_induction scanUnits input found with
  | case1 => simp at scanned
  | case2 => simp_all
  | case3 _ _ _ _ _ _ _ _ ih => have := ih scanned; simp; omega
  | case4 => simp at scanned
  | case5 _ _ _ _ _ _ ih => have := ih scanned; simp; omega
  | case6 => simp at scanned
  | case7 => simp at scanned
  | case8 _ _ _ _ _ _ _ ih => have := ih scanned; simp; omega

private theorem scanDigits?_length {input digits rest : List Char}
    (scanned : scanDigits? input = some (digits, rest)) : rest.length < input.length := by
  unfold scanDigits? at scanned
  split at scanned
  · simp at scanned
  · next runNonempty =>
    simp only [Option.some.injEq, Prod.mk.injEq] at scanned
    obtain ⟨rfl, rfl⟩ := scanned
    have joined :=
      congrArg List.length (List.takeWhile_append_dropWhile (p := Char.isDigit) (l := input))
    cases run : input.takeWhile Char.isDigit with
    | nil => exact absurd run (by simpa using runNonempty)
    | cons => rw [run] at joined; simp at joined; omega

private theorem scanWhole?_length {input whole rest : List Char}
    (scanned : scanWhole? input = some (whole, rest)) : rest.length < input.length := by
  unfold scanWhole? at scanned
  split at scanned
  · simp_all
  · exact scanDigits?_length scanned

private theorem scanFraction?_length {input fraction rest : List Char}
    (scanned : scanFraction? input = some (fraction, rest)) : rest.length ≤ input.length := by
  unfold scanFraction? at scanned
  split at scanned
  · obtain ⟨⟨digits, left⟩, digitsScanned, same⟩ := Option.map_eq_some_iff.mp scanned
    have := scanDigits?_length digitsScanned
    simp only [Prod.mk.injEq] at same
    obtain ⟨_, rfl⟩ := same
    simp
    omega
  · simp_all

private theorem scanSignedDigits?_length {input exponent rest : List Char}
    (scanned : scanSignedDigits? input = some (exponent, rest)) : rest.length < input.length := by
  unfold scanSignedDigits? at scanned
  split at scanned
  all_goals
    obtain ⟨⟨digits, left⟩, digitsScanned, same⟩ := Option.map_eq_some_iff.mp scanned
    have := scanDigits?_length digitsScanned
    simp only [Prod.mk.injEq] at same
    obtain ⟨_, rfl⟩ := same
    simp
    omega

private theorem scanExponent?_length {input exponent rest : List Char}
    (scanned : scanExponent? input = some (exponent, rest)) : rest.length ≤ input.length := by
  unfold scanExponent? at scanned
  split at scanned
  · split at scanned
    · obtain ⟨⟨digits, left⟩, digitsScanned, same⟩ := Option.map_eq_some_iff.mp scanned
      have := scanSignedDigits?_length digitsScanned
      simp only [Prod.mk.injEq] at same
      obtain ⟨_, rfl⟩ := same
      simp
      omega
    · simp_all
  · simp_all

private theorem scanUnsigned?_length {input literal rest : List Char}
    (scanned : scanUnsigned? input = some (literal, rest)) : rest.length < input.length := by
  unfold scanUnsigned? at scanned
  split at scanned
  · simp at scanned
  · next whole left wholeScanned =>
    split at scanned
    · simp at scanned
    · next fraction left fractionScanned =>
      split at scanned
      · simp at scanned
      · next exponent left exponentScanned =>
        have := scanWhole?_length wholeScanned
        have := scanFraction?_length fractionScanned
        have := scanExponent?_length exponentScanned
        simp only [Option.some.injEq, Prod.mk.injEq] at scanned
        obtain ⟨_, rfl⟩ := scanned
        omega

private theorem scanNumber?_length {input literal rest : List Char}
    (scanned : scanNumber? input = some (literal, rest)) : rest.length < input.length := by
  unfold scanNumber? at scanned
  split at scanned
  · obtain ⟨⟨digits, left⟩, digitsScanned, same⟩ := Option.map_eq_some_iff.mp scanned
    have := scanUnsigned?_length digitsScanned
    simp only [Prod.mk.injEq] at same
    obtain ⟨_, rfl⟩ := same
    simp
    omega
  · exact scanUnsigned?_length scanned

/-- What follows a token is shorter than what it was read from. -/
theorem next?_length {input rest : List Char} {token : Token}
    (found : next? input = some (token, rest)) : rest.length < input.length := by
  unfold next? at found
  split at found
  case h_10 =>
    obtain ⟨⟨units, left⟩, unitsScanned, same⟩ := Option.map_eq_some_iff.mp found
    have := scanUnits_length unitsScanned
    simp only [Prod.mk.injEq] at same
    obtain ⟨_, rfl⟩ := same
    simp
    omega
  case h_11 =>
    obtain ⟨⟨literal, left⟩, numberScanned, same⟩ := Option.map_eq_some_iff.mp found
    have := scanNumber?_length numberScanned
    simp only [Prod.mk.injEq] at same
    obtain ⟨_, rfl⟩ := same
    exact this
  all_goals
    simp only [Option.some.injEq, Prod.mk.injEq] at found
    obtain ⟨_, rfl⟩ := found
    simp
    try omega

/-! ## Whole texts -/

/-- The tokens of a text, after those found so far, which are kept in reverse. -/
def scanFrom (input : List Char) (found : List Token) : Option (List Token) :=
  match input with
  | [] => some found.reverse
  | c :: rest =>
      if isBlank c then scanFrom rest found
      else
        match _next : next? (c :: rest) with
        | some (token, rest) => scanFrom rest (token :: found)
        | none => none
termination_by input.length
decreasing_by
  · simp
  · exact next?_length _next

/-- The tokens of a text, if it has no other parts. -/
def scan? (text : String) : Option (List Token) :=
  scanFrom text.toList []

end Token

end DreamWorld.Json
