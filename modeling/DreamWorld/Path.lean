/-!
# Class paths

A class of a world is named by a path such as `/obj/item`.  A path is rooted
or relative and lists its elements from the outside in.  The file reads paths
from text, writes them back, cuts and joins them.  Two paths are equal exactly
when their kinds and their elements are equal.
-/

namespace DreamWorld

/-- Whether a path starts at the root or is read relative to another path. -/
inductive PathKind where
  | absolute
  | relative
deriving DecidableEq

/-- A class path: its kind and its elements, outermost first. -/
structure Path where
  kind : PathKind
  elements : List String
deriving DecidableEq

namespace Path

/-- The piece before the first slash of a text, and the pieces after each of
its slashes.  Pieces may be empty. -/
def pieces : List Char → List Char × List (List Char)
  | [] => ([], [])
  | c :: rest =>
      match pieces rest with
      | (first, others) =>
          if c = '/' then ([], first :: others) else (c :: first, others)

/-- All pieces of a text between its slashes, empty ones included. -/
def allPieces (text : String) : List String :=
  let cut := pieces text.toList
  (cut.1 :: cut.2).map String.ofList

/-- The nonempty pieces of a text between its slashes. -/
def segments (text : String) : List String :=
  (allPieces text).filter fun piece => !piece.isEmpty

/-- A text that begins with a slash is read from the root. -/
def startsAtRoot (text : String) : Bool :=
  text.toList.head? == some '/'

/-- The kind that a text asks for by its first character. -/
def kindOf (text : String) : PathKind :=
  if startsAtRoot text then .absolute else .relative

/-- Reads a path.  A leading slash makes it absolute, and empty segments are
skipped, so `/obj//item/` reads as `/obj/item`. -/
def parse (text : String) : Path :=
  ⟨kindOf text, segments text⟩

/-- The root path `/`. -/
def root : Path :=
  ⟨.absolute, []⟩

/-- The path of the built-in list class. -/
def listClass : Path :=
  ⟨.absolute, ["list"]⟩

def isAbsolute (path : Path) : Bool :=
  path.kind == .absolute

def isRoot (path : Path) : Bool :=
  path.isAbsolute && path.elements.isEmpty

def length (path : Path) : Nat :=
  path.elements.length

/-- The innermost element, if there is one. -/
def last? (path : Path) : Option String :=
  path.elements.getLast?

/-- The innermost element, or the empty text of an empty path. -/
def lastName (path : Path) : String :=
  path.last?.getD ""

/-- Position of the first element equal to `name`. -/
def indexOf? (path : Path) (name : String) : Option Nat :=
  path.elements.findIdx? (· == name)

/-- The path without the element at `index`; a position outside the path
changes nothing. -/
def eraseAt (path : Path) (index : Nat) : Path :=
  { path with elements := path.elements.eraseIdx index }

/-- The elements from `start` up to but not including `stop`, both clamped to
the path.  Only a slice that begins at the first element keeps the kind. -/
def slice (path : Path) (start stop : Nat) : Path :=
  let stop := min stop path.length
  let start := min start stop
  { kind := if start = 0 then path.kind else .relative
    elements := (path.elements.take stop).drop start }

/-- The stop position that a signed one stands for: `-1` runs through the last
element, `-2` stops before it, and so on down to the front. -/
def stopOf (path : Path) (stop : Int) : Nat :=
  if 0 ≤ stop then stop.toNat else (path.length + 1 + stop).toNat

/-- A slice whose stop may count from the back. -/
def sliceTo (path : Path) (start : Nat) (stop : Int) : Path :=
  path.slice start (path.stopOf stop)

/-- The path without its last element, when it has an element to leave. -/
def object? (path : Path) : Option Path :=
  if 1 < path.length then some (path.sliceTo 0 (-2)) else none

/-- Follows one segment: `.` stays, `..` leaves the last element, and any other
segment goes one element deeper. -/
def step (elements : List String) (segment : String) : List String :=
  if segment = "." then elements
  else if segment = ".." then elements.dropLast
  else elements ++ [segment]

/-- Follows a text of several segments from a path.  A leading slash restarts
at the root. -/
def resolve (path : Path) (text : String) : Path :=
  let start := if startsAtRoot text then root else path
  { start with elements := (segments text).foldl step start.elements }

/-- The enclosing path; the root and an empty relative path have none. -/
def parent? (path : Path) : Option Path :=
  if path.elements.isEmpty then none else some (path.slice 0 (path.length - 1))

/-- The path lies at or below `ancestor`, by its spelling alone. -/
def liesBelow (path ancestor : Path) : Bool :=
  path.kind == ancestor.kind && ancestor.elements.isPrefixOf path.elements

/-- The text of a path: its elements between slashes, after a leading slash if
it is absolute. -/
def toText (path : Path) : String :=
  let body := String.intercalate "/" path.elements
  if path.isAbsolute then "/" ++ body else body

end Path

end DreamWorld
