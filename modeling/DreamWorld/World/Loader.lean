import DreamWorld.Keyed
import DreamWorld.World.Error

/-!
# Looking resources up

A loader turns the path of a resource into a handle, and may remember what it
was asked.  The loader of a world keeps its files below a root directory, so it
refuses every path that could leave it.  It remembers the handle of each path that it
accepted.
-/

namespace DreamWorld

/-- A loader whose memory is a state of type `σ`. -/
structure ResourceLoader (σ : Type) where
  load : String → σ → Except ResourceError Resource × σ

/-- A directory path extended by a relative path, as files are named. -/
def joinFilePath (directory file : String) : String :=
  if directory.isEmpty then file
  else if directory.toList.getLast? == some '/' then directory ++ file
  else directory ++ "/" ++ file

/-! ## Components of file paths -/

/-- What a file path asks for on its way: the root of all files, the directory it is read
from, the directory above, or something of a name. -/
inductive FileComponent where
  | root
  | here
  | up
  | name (text : String)
deriving DecidableEq

/-- The component does not lead out of a directory. -/
def FileComponent.isInside : FileComponent → Bool
  | .here | .name _ => true
  | .root | .up => false

/-- The component that a segment of a file path stands for; a dot stands for none. -/
def FileComponent.ofSegment? (segment : String) : Option FileComponent :=
  if segment = "." then none else if segment = ".." then some .up else some (.name segment)

/-- The components of a file path.  Repeated slashes count once, and dots not at all, except
for one in front of a relative path. -/
def fileComponents (path : String) : List FileComponent :=
  let followed := (Path.segments path).filterMap FileComponent.ofSegment?
  if Path.startsAtRoot path then .root :: followed
  else if (Path.allPieces path).head? = some "." then .here :: followed
  else followed

/-! ## The loader of files -/

/-- A handle to a resource.  It is one thing in memory, which its number tells from all
others. -/
structure ResourceHandle where
  number : Nat
  resource : Resource
deriving DecidableEq

/-- The memory of a loader of files: the handles that it gave out, by the paths of their
resources as written. -/
structure ResourceCache where
  handles : Keyed ResourceHandle := []

namespace ResourceCache

/-- How many handles are remembered. -/
def count (cache : ResourceCache) : Nat :=
  cache.handles.length

/-- A path that stays below the directory that it is read from. -/
def staysBelow (path : String) : Bool :=
  (fileComponents path).all FileComponent.isInside

/-- Looks a path up below a root.  A path that was accepted before gives the same
handle again. -/
def loadHandle (root path : String) (cache : ResourceCache) :
    Except ResourceError ResourceHandle × ResourceCache :=
  match cache.handles.find? path with
  | some handle => (.ok handle, cache)
  | none =>
      if staysBelow path then
        let handle : ResourceHandle := ⟨cache.count, path, joinFilePath root path⟩
        (.ok handle, { cache with handles := cache.handles.insert path handle })
      else (.error (.outsideRoot path), cache)

/-- The resource of a path below a root. -/
def load (root path : String) (cache : ResourceCache) :
    Except ResourceError Resource × ResourceCache :=
  match cache.loadHandle root path with
  | (outcome, cache) => (outcome.map ResourceHandle.resource, cache)

end ResourceCache

/-- The loader of files below a root directory. -/
def fileLoader (root : String) : ResourceLoader ResourceCache where
  load := ResourceCache.load root

end DreamWorld
