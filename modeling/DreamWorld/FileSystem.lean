import DreamWorld.World.Loader

/-!
# Files

The files below a top directory.  A path is followed piece by piece: each piece
asks for a directory to be in, empty pieces and dots stay, two dots go up, and
every other piece goes down.  So a path that ends in a slash names no file, and a
path through something that is not a directory leads nowhere.
-/

namespace DreamWorld

/-- Files by their places, each a list of names from the top directory down. -/
structure FileSystem where
  files : List (List String × String)

namespace FileSystem

/-- Files that are given by their relative names. -/
def ofNames (files : List (String × String)) : FileSystem :=
  ⟨files.map fun file => ((Path.segments file.1).filter (· != "."), file.2)⟩

/-- The content of the file at a place. -/
def file? (system : FileSystem) (place : List String) : Option String :=
  system.files.lookup place

/-- The place is the top directory or has a file below it. -/
def isDirectory (system : FileSystem) (place : List String) : Bool :=
  place.isEmpty ||
    system.files.any fun file => place.isPrefixOf file.1 && place.length < file.1.length

/-- Follows one piece of a path.  The top directory cannot be left. -/
def step (system : FileSystem) (place : List String) (piece : String) : Option (List String) :=
  if !system.isDirectory place then none
  else if piece = "" ∨ piece = "." then some place
  else if piece = ".." then if place.isEmpty then none else some place.dropLast
  else some (place ++ [piece])

/-- The place that a relative path leads to. -/
def place? (system : FileSystem) (path : String) : Option (List String) :=
  if Path.startsAtRoot path then none
  else (Path.allPieces path).foldlM system.step []

/-- The content of the file at a path. -/
def read? (system : FileSystem) (path : String) : Option String :=
  (system.place? path).bind system.file?

end FileSystem

namespace Resource

/-- The resource is kept in a file that is there. -/
def isFile (resource : Resource) (system : FileSystem) : Bool :=
  (system.read? resource.file).isSome

/-- The bytes of a resource. -/
def bytes (resource : Resource) (system : FileSystem) : Except ResourceError (List UInt8) :=
  match system.read? resource.file with
  | some content => .ok content.toUTF8.toList
  | none => .error (.unreadable resource.file)

end Resource

end DreamWorld
