import DreamWorld.World.Definition
import DreamWorld.World.Error

/-!
# The tree of classes

A tree holds an entry for each class, numbered in the order in which the classes
were declared, the root first.  Two relations join the entries.  A class lies
within the class that encloses it, and paths follow this relation.  A class
inherits from its parent, which is the enclosing class unless another one was
named; then the class is also listed as a branch of that parent.
-/

namespace DreamWorld

/-- The number of an entry. -/
abbrev EntryId : Type :=
  Nat

/-- A class of a tree, with its place. -/
structure Entry where
  definition : Definition
  /-- The classes directly within this one, by the names they were declared under. -/
  children : Keyed EntryId := []
  /-- The classes that name this one as their parent, by their names. -/
  branches : Keyed EntryId := []
  /-- The class that this one inherits from; only the root has none. -/
  parent : Option EntryId := none
  /-- The parent was named, rather than being the enclosing class. -/
  hasNamedParent : Bool := false
deriving DecidableEq

/-- The path of a class. -/
def Entry.path (entry : Entry) : Path :=
  entry.definition.type

/-- The classes of a world.  There is always a root. -/
structure Tree where
  entries : Array Entry
  nonempty : 0 < entries.size

namespace Tree

/-- A tree of a root alone. -/
def single (definition : Definition) : Tree :=
  ⟨#[{ definition }], Nat.zero_lt_one⟩

def size (tree : Tree) : Nat :=
  tree.entries.size

/-- The number of the root. -/
def rootId : EntryId :=
  0

def root (tree : Tree) : Entry :=
  have nonempty := tree.nonempty
  tree.entries[0]

/-- The entry of a number, if the tree has it. -/
def get? (tree : Tree) (id : EntryId) : Option Entry :=
  tree.entries[id]?

/-- The entry of a number.  A number that the tree does not have stands for the
root. -/
def entryAt (tree : Tree) (id : EntryId) : Entry :=
  (tree.get? id).getD tree.root

/-! ## Following paths -/

/-- Goes from an entry to the one within it that has the given name. -/
def child? (tree : Tree) (id : EntryId) (name : String) : Option EntryId :=
  (tree.get? id).bind fun entry => entry.children.find? name

/-- The entry that a list of names leads to from the root. -/
def find? (tree : Tree) (elements : List String) : Option EntryId :=
  elements.foldlM tree.child? rootId

/-- The entry of a path, which must be absolute. -/
def entryId (tree : Tree) (path : Path) : Except RuntimeError EntryId :=
  if path.isAbsolute then
    match tree.find? path.elements with
    | some id => .ok id
    | none => .error (.objectDoesNotExist path)
  else .error (.pathNotAbsolute path)

/-- The path is absolute and leads to an entry. -/
def hasEntry (tree : Tree) (path : Path) : Bool :=
  path.isAbsolute && (tree.find? path.elements).isSome

/-- The class of a path. -/
def definitionOf (tree : Tree) (path : Path) : Except RuntimeError Definition :=
  (tree.entryId path).map fun id => (tree.entryAt id).definition

/-! ## Adding classes -/

/-- Adds an entry under the next number. -/
def push (tree : Tree) (entry : Entry) : Tree :=
  ⟨tree.entries.push entry, by simp⟩

/-- Changes the entry of a number. -/
def update (tree : Tree) (id : EntryId) (change : Entry → Entry) : Tree :=
  ⟨tree.entries.modify id change, by simpa using tree.nonempty⟩

/-- Adds a class within `outer` under a name.  If `named` is given, the class
inherits from it; otherwise it inherits from `outer`. -/
def declare (tree : Tree) (outer : EntryId) (named : Option EntryId) (name : String)
    (definition : Definition) : Tree :=
  let id := tree.size
  let entry : Entry :=
    { definition
      parent := some (named.getD outer)
      hasNamedParent := named.isSome }
  let placed :=
    (tree.push entry).update outer fun entry =>
      { entry with children := entry.children.insert name id }
  match named with
  | none => placed
  | some parent =>
      placed.update parent fun entry =>
        { entry with branches := entry.branches.insert name id }

end Tree

end DreamWorld
