/-!
# Sets of value kinds

A parameter may restrict the kinds of value it accepts.  There are thirteen
kinds, each named by a keyword, and a restriction is a set of them.  The empty
set restricts nothing.
-/

namespace DreamWorld

/-- A set of value kinds, one bit for each kind. -/
structure ValueKinds where
  bits : BitVec 13
deriving DecidableEq

namespace ValueKinds

/-- The empty set, which accepts every value. -/
def anything : ValueKinds :=
  ⟨0⟩

/-- The set of one kind, by the position of its bit. -/
def single (position : Nat) : ValueKinds :=
  ⟨BitVec.twoPow 13 position⟩

/-- The set that a word of bits stands for.  Bits beyond the known kinds are
dropped. -/
def ofBits (bits : UInt32) : ValueKinds :=
  ⟨bits.toBitVec.setWidth 13⟩

/-- The word of bits of a set. -/
def toBits (kinds : ValueKinds) : Nat :=
  kinds.bits.toNat

/-- The keywords of the kinds, in the order of their bits. -/
def keywords : List String :=
  ["null", "text", "obj", "mob", "turf", "num", "message", "area", "color",
    "file", "command_text", "sound", "icon"]

/-- The set that a single keyword names; `anything` names the empty set. -/
def ofKeyword? (keyword : String) : Option ValueKinds :=
  if keyword = "anything" then some anything
  else (keywords.findIdx? (· == keyword)).map single

def union (first second : ValueKinds) : ValueKinds :=
  ⟨first.bits ||| second.bits⟩

/-- The union of a set with everything that a list of keywords names. -/
def withKeywords (kinds : ValueKinds) (words : List String) : ValueKinds :=
  (words.filterMap ofKeyword?).foldl union kinds

/-- Every kind of `part` belongs to `whole`. -/
def contains (whole part : ValueKinds) : Bool :=
  whole.bits &&& part.bits == part.bits

def isAnything (kinds : ValueKinds) : Bool :=
  kinds == anything

end ValueKinds

end DreamWorld
