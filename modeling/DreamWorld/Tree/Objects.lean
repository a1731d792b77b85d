import DreamWorld.Tree.Relations
import DreamWorld.World.Object

/-!
# Objects and hooks by path

Objects are created by the path of their class, and hooks are attached to a class
and to everything below it, be it within the class or a branch of it.  Lists can
always be created: a world that does not declare the list class has a bare one.
-/

namespace DreamWorld.Tree

/-- A list class for a world that does not declare one. -/
def bareListClass : Action Definition := do
  let id ← newClass
  attachHookTo id (some .lists)
  return Definition.below id Path.listClass none

/-- The class of a path that objects are created from. -/
def classFor (tree : Tree) (path : Path) : Action Definition :=
  match tree.definitionOf path with
  | .ok definition => return definition
  | .error (.objectDoesNotExist missing) =>
      if path = Path.listClass then bareListClass else throw (.objectDoesNotExist missing)
  | .error error => throw error

/-- Creates an object of the class of a path. -/
def create (tree : Tree) (path : Path) (arguments : Arguments) : Action ObjectRef := do
  Object.create (← tree.classFor path) arguments

/-- Attaches a hook to the classes of some entries. -/
def hookEntries (tree : Tree) (hook : Hook) (ids : List EntryId) (store : Store) : Store :=
  ids.foldl (fun store id => store.setHook (tree.entryAt id).definition.id (some hook)) store

/-- Attaches a hook to the class of a path and to everything below it, and
answers to how many classes. -/
def attachHook (tree : Tree) (path : Path) (hook : Hook) : Action Nat := do
  let id ← Action.ofExcept (tree.entryId path)
  let ids := tree.descendants id true true
  modify (tree.hookEntries hook ids)
  return ids.length

/-- Makes the declared list class, and everything below it, lists. -/
def attachBuiltins (tree : Tree) : Action Unit := do
  if tree.hasEntry Path.listClass then
    let _ ← tree.attachHook Path.listClass .lists
    return ()

end DreamWorld.Tree
