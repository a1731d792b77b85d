import DreamWorld.Tree.Basic

/-!
# Relations between classes

The classes that inherit directly from a class, and the classes that lie below
it.  A class is declared after the classes that it lies within and inherits from,
so every step down leads to a greater number, and one pass over the numbers in
their order reaches everything below an entry.
-/

namespace DreamWorld.Tree

/-- The entries that inherit directly from an entry, in the order of their
numbers.  They are the classes within it that name no parent, and its branches. -/
def derivedChildren (tree : Tree) (id : EntryId) : List EntryId :=
  match tree.get? id with
  | none => []
  | some entry =>
      let within := (entry.children.map Prod.snd).filter fun child =>
        !(tree.entryAt child).hasNamedParent
      (within ++ entry.branches.map Prod.snd).mergeSort

/-- The entries one step below an entry: those within it and, if asked for, its
branches. -/
def below (tree : Tree) (withBranches : Bool) (id : EntryId) : List EntryId :=
  match tree.get? id with
  | none => []
  | some entry =>
      entry.children.map Prod.snd ++
        if withBranches then entry.branches.map Prod.snd else []

/-- Marks everything one step below an entry that is marked itself. -/
def markBelow (tree : Tree) (withBranches : Bool) (marks : Array Bool) (id : EntryId) :
    Array Bool :=
  if marks.getD id false then
    (tree.below withBranches id).foldl (fun marks child => marks.setIfInBounds child true) marks
  else marks

/-- A mark for each entry that some number of steps down reaches from an entry. -/
def reached (tree : Tree) (withBranches : Bool) (id : EntryId) : Array Bool :=
  (List.range tree.size).foldl (tree.markBelow withBranches)
    ((Array.replicate tree.size false).setIfInBounds id true)

/-- The entries below an entry, in the order of their numbers.  The entry itself
counts only if `inclusive` is set. -/
def descendants (tree : Tree) (id : EntryId) (withBranches inclusive : Bool) : List EntryId :=
  let marks := tree.reached withBranches id
  (List.range tree.size).filter fun other =>
    marks.getD other false && (inclusive || other != id)

end DreamWorld.Tree
