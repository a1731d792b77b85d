import DreamWorld.Number.Single

/-!
# Decimal numerals and singles

Reading rounds the exact value of a numeral once.  Writing takes the coarsest
decimal grid that has a point within the interval of values that round to the
number, and of two such points the nearer, so the text has the fewest digits
that read back.
-/

namespace DreamWorld

/-- A decimal numeral: a sign, its digits as one whole number, and the power of
ten that they count. -/
structure Numeral where
  negative : Bool
  digits : Nat
  exponent : Int
deriving DecidableEq

namespace Numeral

/-! ## Reading -/

/-- The single nearest to a numeral.  Exponents far outside the range of singles
are settled without writing their powers of ten out. -/
def toSingle (numeral : Numeral) : Single :=
  if numeral.digits = 0 then Single.zero numeral.negative
  else if 60 < numeral.exponent then Single.infinity numeral.negative
  else if numeral.exponent < -(numeral.digits.log2 + 61 : Int) then
    Single.zero numeral.negative
  else if 0 ≤ numeral.exponent then
    Single.nearest numeral.negative
      (numeral.digits * Nat.pow 10 numeral.exponent.toNat * Single.unit) 1
  else
    Single.nearest numeral.negative (numeral.digits * Single.unit)
      (Nat.pow 10 (-numeral.exponent).toNat)

/-- The value of a run of decimal digits. -/
def ofDigits (digits : List Char) : Nat :=
  digits.foldl (fun value digit => 10 * value + (digit.toNat - '0'.toNat)) 0

/-- Reads a run of decimal digits, of which there must be one at least. -/
def readDigits? (text : List Char) : Option Nat :=
  if !text.isEmpty && text.all Char.isDigit then some (ofDigits text) else none

/-- Reads a natural number: digits after a plus sign or none. -/
def readNatural? : List Char → Option Nat
  | '+' :: digits => readDigits? digits
  | digits => readDigits? digits

/-- Reads an integer: digits after a sign or none. -/
def readInteger? : List Char → Option Int
  | '-' :: digits => (readDigits? digits).map fun value : Nat => -(value : Int)
  | digits => (readNatural? digits).map Int.ofNat

/-- A text without its sign, and whether the sign is a minus. -/
def splitSign : List Char → Bool × List Char
  | '-' :: rest => (true, rest)
  | '+' :: rest => (false, rest)
  | rest => (false, rest)

/-- The digits after a point, if a point begins the text, and the rest. -/
def splitFraction : List Char → List Char × List Char
  | '.' :: rest => (rest.takeWhile Char.isDigit, rest.dropWhile Char.isDigit)
  | rest => ([], rest)

/-- Reads the exponent of a numeral: an integer after a mark, or nothing at all. -/
def readExponent? : List Char → Option Int
  | [] => some 0
  | mark :: rest => if mark = 'e' ∨ mark = 'E' then readInteger? rest else none

/-- Reads a numeral: a sign or none, digits with at most one point among them, and an
exponent or none.  There must be a digit, but it may stand on either side of the point. -/
def read? (text : List Char) : Option Numeral :=
  let (negative, unsigned) := splitSign text
  let whole := unsigned.takeWhile Char.isDigit
  let (fraction, rest) := splitFraction (unsigned.dropWhile Char.isDigit)
  if (whole ++ fraction).isEmpty then none
  else
    (readExponent? rest).map fun exponent =>
      { negative, digits := ofDigits (whole ++ fraction), exponent := exponent - fraction.length }

/-! ## Writing -/

/-- The point of the decimal grid of step `10 ^ exponent` that stands for a
magnitude word: it lies in the interval that rounds to the word, and is the
nearer of two such points, the upper one on a tie. -/
def gridPoint? (word : Nat) (exponent : Int) : Option Nat :=
  let finer := Nat.pow 10 (-exponent).toNat
  let step := Nat.pow 10 exponent.toNat * Single.unit
  let value := Single.unitsOfWord word * finer
  let lowest := (Single.unitsOfWord (word - 1) + Single.unitsOfWord word) * finer
  let highest := (Single.unitsOfWord word + Single.unitsOfWord (word + 1)) * finer
  let within (point : Nat) : Bool :=
    if word % 2 = 0 then
      decide (lowest ≤ 2 * (point * step) ∧ 2 * (point * step) ≤ highest)
    else
      decide (lowest < 2 * (point * step) ∧ 2 * (point * step) < highest)
  let below := value / step
  let upperIsNearer : Bool := decide ((2 * below + 1) * step ≤ 2 * value)
  if within (below + 1) && (upperIsNearer || !within below) then some (below + 1)
  else if within below then some below
  else none

/-- The exponents of ten that a grid of a single may need, coarsest first. -/
def gridExponents : List Int :=
  (List.range 100).map fun place : Nat => 39 - Int.ofNat place

/-- The shortest numeral that reads back as a finite single. -/
def shortest (x : Single) : Numeral :=
  let found := gridExponents.findSome? fun exponent =>
    (gridPoint? x.magnitude exponent).map fun point => (point, exponent)
  match found with
  | some (digits, exponent) => ⟨x.isNegative, digits, exponent⟩
  | none => ⟨x.isNegative, 0, 0⟩

/-- The digits of a whole number, padded with zeros in front to a least length. -/
def paddedDigits (length value : Nat) : List Char :=
  let digits := (Nat.repr value).toList
  List.replicate (length - digits.length) '0' ++ digits

/-- A numeral in positional notation: no exponent, and a point only before a
fraction. -/
def toText (numeral : Numeral) : String :=
  let sign := if numeral.negative then "-" else ""
  if 0 ≤ numeral.exponent then
    sign ++ Nat.repr (numeral.digits * Nat.pow 10 numeral.exponent.toNat)
  else
    let places := (-numeral.exponent).toNat
    let digits := paddedDigits (places + 1) numeral.digits
    let whole := digits.take (digits.length - places)
    let fraction := digits.drop (digits.length - places)
    sign ++ String.ofList whole ++ "." ++ String.ofList fraction

end Numeral

/-- The text of a single: the shortest digits that read back, in positional
notation, and words for infinities and not-a-number. -/
def Single.toText (x : Single) : String :=
  if x.isNaN then "NaN"
  else if x.isInfinite then (if x.isNegative then "-inf" else "inf")
  else if x.isZero then (if x.isNegative then "-0" else "0")
  else (Numeral.shortest x).toText

/-- The bits of a single as eight hexadecimal digits; every not-a-number is
written alike. -/
def Single.toHex (x : Single) : String :=
  if x.isNaN then "nan"
  else
    let digits := Nat.toDigits 16 x.bits.toNat
    String.ofList (List.replicate (8 - digits.length) '0' ++ digits)

end DreamWorld
