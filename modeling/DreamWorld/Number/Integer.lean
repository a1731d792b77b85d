/-!
# Exact integers of 32 bits

Integers of a world have 32 bits and a sign.  An operation on them is exact or
has no result: nothing here wraps around.
-/

namespace DreamWorld.Integer

/-- The least integer. -/
def least : Int :=
  -2147483648

/-- The greatest integer. -/
def greatest : Int :=
  2147483647

/-- The integer of an exact value, if the value is in range. -/
def ofInt? (value : Int) : Option Int32 :=
  if least ≤ value ∧ value ≤ greatest then some (Int32.ofInt value) else none

def add? (a b : Int32) : Option Int32 :=
  ofInt? (a.toInt + b.toInt)

def subtract? (a b : Int32) : Option Int32 :=
  ofInt? (a.toInt - b.toInt)

def multiply? (a b : Int32) : Option Int32 :=
  ofInt? (a.toInt * b.toInt)

def negate? (a : Int32) : Option Int32 :=
  ofInt? (-a.toInt)

/-- The quotient, when the divisor is not zero and divides exactly. -/
def divide? (a b : Int32) : Option Int32 :=
  if b.toInt ≠ 0 ∧ a.toInt.tmod b.toInt = 0 then ofInt? (a.toInt.tdiv b.toInt) else none

/-- The remainder of division toward zero.  It has no result where the quotient
is out of range. -/
def remainder? (a b : Int32) : Option Int32 :=
  if b.toInt ≠ 0 ∧ (ofInt? (a.toInt.tdiv b.toInt)).isSome then
    ofInt? (a.toInt.tmod b.toInt)
  else none

/-- The exact value of a power whose base is -1, 0 or 1, by the parity of the
exponent; other bases have no value here. -/
def unitPower? (a : Int) (exponent : Nat) : Option Int :=
  if a = 0 then some 0
  else if a = 1 then some 1
  else if a = -1 then some (if exponent % 2 = 0 then 1 else -1)
  else none

/-- A power with an exponent that is not negative.  Beyond the exponent 31 only
the bases -1, 0 and 1 stay in range. -/
def power? (a b : Int32) : Option Int32 :=
  if b.toInt < 0 then none
  else if b.toInt ≤ 31 then ofInt? (Int.pow a.toInt b.toInt.toNat)
  else (unitPower? a.toInt b.toInt.toNat).bind ofInt?

/-- Shifts the bits of `a` to the left.  The distance must be from 0 to 31, and
bits that leave the word are lost. -/
def shiftLeft? (a b : Int32) : Option Int32 :=
  if 0 ≤ b.toInt ∧ b.toInt ≤ 31 then some (a <<< b) else none

/-- Shifts the bits of `a` to the right, keeping its sign.  The distance must be
from 0 to 31. -/
def shiftRight? (a b : Int32) : Option Int32 :=
  if 0 ≤ b.toInt ∧ b.toInt ≤ 31 then some (a >>> b) else none

/-- The decimal text of an integer. -/
def toText (a : Int32) : String :=
  if a.toInt < 0 then "-" ++ Nat.repr a.toInt.natAbs else Nat.repr a.toInt.natAbs

end DreamWorld.Integer
