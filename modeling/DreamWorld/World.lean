import DreamWorld.Tree.Load
import DreamWorld.Tree.Objects

/-!
# Worlds

A world is a tree of classes and a store.  It starts as a root without members.
Loading a document replaces the tree, while classes and objects from before live
on; a document that cannot be loaded leaves the world as it was.
-/

namespace DreamWorld

structure World where
  tree : Tree
  store : Store

namespace World

/-- The world before anything is loaded. -/
def start : World :=
  { tree := Tree.single (Definition.below 0 Path.root none)
    store := Store.addClasses {} 1 }

/-- Runs an action.  What it has done to the store stays done when it fails. -/
def run {α : Type} (world : World) (action : Action α) : Except RuntimeError α × World :=
  match action.runOn world.store with
  | (outcome, store) => (outcome, { world with store })

/-- The events noted so far, which are then forgotten. -/
def takeEvents (world : World) : Array Event × World :=
  (world.store.events, { world with store := { world.store with events := #[] } })

/-- The world with the tree of a document. -/
def loaded {σ : Type} (world : World) (loader : ResourceLoader σ)
    (record : Document.ClassRecord) : LoadAction σ World := do
  let tree ← Tree.ofRecord loader world.store.nextClass record
  return { tree, store := world.store.addClasses tree.size }

/-- Replaces the tree by that of a document, if it can be loaded. -/
def loadRecord {σ : Type} (world : World) (loader : ResourceLoader σ)
    (record : Document.ClassRecord) (memory : σ) : Except LoadError Unit × World × σ :=
  match (world.loaded loader record).run memory with
  | (.ok world, memory) => (.ok (), world, memory)
  | (.error error, memory) => (.error error, world, memory)

/-- Replaces the tree by that of the document that a text holds. -/
def loadText {σ : Type} (world : World) (loader : ResourceLoader σ) (text : String)
    (memory : σ) : Except LoadError Unit × World × σ :=
  match Document.ClassRecord.parse? text with
  | some record => world.loadRecord loader record memory
  | none => (.error .malformed, world, memory)

end World

end DreamWorld
