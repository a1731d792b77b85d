/-!
# Single-precision numbers

A single is a word of 32 bits in the binary interchange format: a sign, eight
bits of exponent and 23 bits of fraction.  Every finite single is a whole number
of units of 2^-149, so the file computes with exact integers of units and rounds
each result once, to the nearest single, a tie to the even one.

The magnitude word of a nonnegative single grows with its value, which makes the
nearest word a quotient: dropping `k` binary places from a count of units adds
`k` times 2^23 to the word.
-/

namespace DreamWorld

/-- A single-precision number, by its bits.  Not-a-number words stay apart. -/
structure Single where
  bits : UInt32
deriving DecidableEq

namespace Single

/-- The least word with its sign bit set. -/
def signWord : Nat :=
  2147483648

/-- The number of words that share an exponent. -/
def fractionWords : Nat :=
  8388608

/-- The word without its sign. -/
def magnitude (x : Single) : Nat :=
  x.bits.toNat % signWord

def isNegative (x : Single) : Bool :=
  signWord ≤ x.bits.toNat

/-- The magnitude word of infinity. -/
def infinityWord : Nat :=
  255 * fractionWords

def isNaN (x : Single) : Bool :=
  infinityWord < x.magnitude

def isInfinite (x : Single) : Bool :=
  x.magnitude == infinityWord

def isFinite (x : Single) : Bool :=
  x.magnitude < infinityWord

def isZero (x : Single) : Bool :=
  x.magnitude == 0

/-- The single of a sign and a magnitude word. -/
def ofMagnitude (negative : Bool) (word : Nat) : Single :=
  ⟨UInt32.ofNat (if negative then signWord + word else word)⟩

def zero (negative : Bool) : Single :=
  ofMagnitude negative 0

def infinity (negative : Bool) : Single :=
  ofMagnitude negative infinityWord

/-- The word that an operation without a meaningful result gives. -/
def invalid : Single :=
  ⟨0xffc00000⟩

/-- A not-a-number word with its quiet bit set. -/
def quiet (x : Single) : Single :=
  ⟨x.bits ||| 0x00400000⟩

/-! ## Exact values -/

/-- The number of units of 2^-149 that a magnitude word stands for. -/
def unitsOfWord (word : Nat) : Nat :=
  if word < fractionWords then word
  else (fractionWords + word % fractionWords) * Nat.pow 2 (word / fractionWords - 1)

/-- The value of a finite single, in units of 2^-149. -/
def units (x : Single) : Int :=
  if x.isNegative then -(unitsOfWord x.magnitude : Int) else unitsOfWord x.magnitude

/-- The number of units in one. -/
def unit : Nat :=
  Nat.pow 2 149

/-- The quotient rounded to the nearest integer, a tie to the even one. -/
def roundQuotient (numerator denominator : Nat) : Nat :=
  let quotient := numerator / denominator
  let twice := 2 * (numerator % denominator)
  if denominator < twice ∨ (twice = denominator ∧ quotient % 2 = 1) then quotient + 1
  else quotient

/-- The magnitude word nearest to a quotient of units.  Values past the greatest
finite single become infinity. -/
def nearestWord (numerator denominator : Nat) : Nat :=
  let places := (numerator / denominator).log2 - 23
  min infinityWord
    (places * fractionWords + roundQuotient numerator (denominator * Nat.pow 2 places))

/-- The single nearest to a signed quotient of units. -/
def nearest (negative : Bool) (numerator denominator : Nat) : Single :=
  ofMagnitude negative (nearestWord numerator denominator)

/-- The single nearest to a whole number of units; `zeroSign` is the sign of an
exact zero. -/
def ofUnits (zeroSign : Bool) (value : Int) : Single :=
  if value = 0 then zero zeroSign else nearest (value < 0) value.natAbs 1

/-- The single nearest to an integer. -/
def ofInt (value : Int) : Single :=
  ofUnits false (value * unit)

/-- The integer that a single equals, if it is finite and whole. -/
def toInt? (x : Single) : Option Int :=
  if x.isFinite ∧ x.units % unit = 0 then some (x.units / unit) else none

/-! ## Arithmetic -/

/-- The result that a not-a-number operand forces: the first such operand. -/
def propagated? (a b : Single) : Option Single :=
  if a.isNaN then some a.quiet else if b.isNaN then some b.quiet else none

def negate (x : Single) : Single :=
  ⟨x.bits ^^^ 0x80000000⟩

/-- The sum of two singles that are numbers. -/
private def addNumbers (a b : Single) : Single :=
  if a.isInfinite then
    if b.isInfinite && a.isNegative != b.isNegative then invalid else a
  else if b.isInfinite then b
  else ofUnits (a.isNegative && b.isNegative) (a.units + b.units)

def add (a b : Single) : Single :=
  (propagated? a b).getD (addNumbers a b)

def subtract (a b : Single) : Single :=
  (propagated? a b).getD (addNumbers a b.negate)

def multiply (a b : Single) : Single :=
  let negative := a.isNegative != b.isNegative
  (propagated? a b).getD <|
    if a.isInfinite || b.isInfinite then
      if a.isZero || b.isZero then invalid else infinity negative
    else nearest negative (a.units.natAbs * b.units.natAbs) unit

def divide (a b : Single) : Single :=
  let negative := a.isNegative != b.isNegative
  (propagated? a b).getD <|
    if a.isInfinite then
      if b.isInfinite then invalid else infinity negative
    else if b.isInfinite then zero negative
    else if b.isZero then
      if a.isZero then invalid else infinity negative
    else nearest negative (a.units.natAbs * unit) b.units.natAbs

/-- The remainder of division toward zero.  It is exact, and a zero takes the
sign of the dividend. -/
def remainder (a b : Single) : Single :=
  (propagated? a b).getD <|
    if a.isInfinite || b.isZero then invalid
    else if b.isInfinite then a
    else ofUnits a.isNegative (a.units.tmod b.units)

/-- The power of two singles, as the machine computes it. -/
def power (a b : Single) : Single :=
  ⟨(Float32.pow (Float32.ofBits a.bits) (Float32.ofBits b.bits)).toBits⟩

/-! ## Comparison -/

/-- The place of a number on the line.  The two zeros share a place. -/
def place (x : Single) : Int :=
  if x.isNegative then -(x.magnitude : Int) else x.magnitude

/-- How two singles compare.  Not-a-number compares with nothing. -/
def compare? (a b : Single) : Option Ordering :=
  if a.isNaN || b.isNaN then none else some (compare a.place b.place)

/-- Equality of numbers: the two zeros are equal, not-a-number equals nothing. -/
def sameNumber (a b : Single) : Bool :=
  compare? a b == some .eq

end Single

end DreamWorld
