import DreamWorld.Proofs.Tree.ListClasses
import DreamWorld.Proofs.Tree.StepChanges
import DreamWorld.Proofs.World.Kinds

/-!
# Lists over whole runs

From the start on, whatever is loaded and done in between, the objects of a world have contents
exactly if their classes are ones of lists.  So the places of an object can be named exactly if
the object is a list, and once they are named it never fails to be one.
-/

namespace DreamWorld

open Document (ClassRecord)

/-! ## Failures of list access -/

namespace ListStore

variable (list : ListStore) (index value : Value) (type : Path)

theorem position?_ne_notAList : list.position? index ≠ .error (.notAList type) := by
  unfold position?
  split
  case h_1 | h_4 => simp
  case h_2 | h_3 =>
    split
    · simp
    · split <;> simp

theorem get_ne_notAList : list.get index ≠ .error (.notAList type) := by
  have position := list.position?_ne_notAList index type
  unfold get
  split
  · rename_i error failed
    rw [failed] at position
    simpa using position
  · simp
  · simp

theorem set_ne_notAList : list.set index value ≠ .error (.notAList type) := by
  have position := list.position?_ne_notAList index type
  unfold set
  split
  · rename_i error failed
    rw [failed] at position
    simpa using position
  · simp
  · simp

end ListStore

namespace Location

variable {store : Store} {ref : ObjectRef} {object : Object} {type : Path}

/-- A place in a list may not be there, but the list is. -/
theorem ne_notAList_of_isSome_list (found : store.object? ref = some object)
    (isList : object.list.isSome = true) (frame : Frame) (index value : Value) (type : Path) :
    ((read frame (.listIndex ref index)).runOn store).1 ≠ .error (.notAList type) ∧
      ((assign frame value (.listIndex ref index)).runOn store).1 ≠ .error (.notAList type) := by
  rcases Option.isSome_iff_exists.mp isList with ⟨list, listEq⟩
  have listed : store.list? ref = some list := by
    rw [Store.list?, found]
    exact listEq
  unfold read assign
  rw [Action.runOn_bind_of_ok (runOn_theList_of_some listed),
    Action.runOn_bind_of_ok (runOn_theList_of_some listed), Action.runOn_ofExcept]
  refine ⟨list.get_ne_notAList index type, ?_⟩
  have accepted := list.set_ne_notAList index value type
  cases changed : list.set index value with
  | error error =>
      rw [changed] at accepted
      rw [Action.runOn_bind_of_error (Action.runOn_ofExcept _ _)]
      simpa using accepted
  | ok changed =>
      rw [Action.runOn_bind_of_ok (Action.runOn_ofExcept _ _)]
      intro failed
      cases failed

end Location

/-- Whatever a step does, objects live on, and those that it adds match their classes. -/
theorem Tree.develops_after (tree : Tree) (store : Store) (step : Tree.Step) :
    store.Develops (tree.after store step) :=
  related_after Store.permits_develops tree store
    fun ref name value _ => Action.develops_setVariable ref name value store

namespace World

/-- What may become of a world: a document is loaded, be it with success or not, the list class
of the tree is given its hook, the events are taken, or something is done without a change to
the tree. -/
inductive Next (world : World) : World → Prop
  | load {σ : Type} (loader : ResourceLoader σ) (document : ClassRecord) (memory : σ) :
      Next world (world.loadRecord loader document memory).2.1
  | builtins : Next world (world.run world.tree.attachBuiltins).2
  | takeEvents : Next world world.takeEvents.2
  | step (step : Tree.Step) :
      Next world { world with store := world.tree.after world.store step }

/-- One world becomes another after any number of steps and loads. -/
def Becomes : World → World → Prop :=
  Relation.ReflTransGen Next

variable {world later : World}

theorem objects_loadRecord {σ : Type} (world : World) (loader : ResourceLoader σ)
    (document : ClassRecord) (memory : σ) :
    (world.loadRecord loader document memory).2.1.store.objects = world.store.objects := by
  rcases run : world.loadRecord loader document memory with ⟨error | _, next, last⟩
  · unfold loadRecord at run
    split at run <;> cases run
    rfl
  · rw [store_loadRecord run]
    rfl

theorem Next.develops (next : world.Next later) : world.store.Develops later.store := by
  cases next with
  | load loader document memory => exact .of_objects_eq (world.objects_loadRecord _ _ _)
  | builtins => exact Tree.respects_attachBuiltins Store.permits_develops world.tree world.store
  | takeEvents => exact .of_objects_eq rfl
  | step step => exact world.tree.develops_after world.store step

/-- A whole run of steps with one tree. -/
theorem Becomes.afterAll (becomes : world.Becomes later) (steps : List Tree.Step) :
    world.Becomes { later with store := later.tree.afterAll later.store steps } := by
  induction steps generalizing later with
  | nil => exact becomes
  | cons step rest ih => exact ih (becomes.tail (.step step))

theorem Becomes.develops (becomes : world.Becomes later) : world.store.Develops later.store := by
  induction becomes with
  | refl => exact refl_of Store.Develops world.store
  | tail _ next ih => exact trans_of Store.Develops ih next.develops

theorem matched_start : World.start.store.Matched := by
  intro ref object found
  cases found

end World

/-- In any world that comes about, every object has contents exactly if its class is one of
lists, and its places can be named exactly then.  A place of a list that has been named is one
of a list in every later world: reading it or assigning to it may fail, but never for the
reason that there is no list. -/
theorem matched_of_becomes {world : World} (becomes : World.start.Becomes world) :
    (∀ ref object, world.store.object? ref = some object →
      object.list.isSome = object.definition.isSubtypeOf Path.listClass ∧
      ∀ index, (Location.ofListIndex ref index).runOn world.store =
        (if object.list.isSome then .ok (.listIndex ref index) else .error (.notAList ref.type),
          world.store)) ∧
    ∀ ref index location, ((Location.ofListIndex ref index).runOn world.store).1 = .ok location →
      ∀ later, world.Becomes later → ∀ frame value type,
        ((location.read frame).runOn later.store).1 ≠ .error (.notAList type) ∧
        ((location.assign frame value).runOn later.store).1 ≠ .error (.notAList type) := by
  constructor
  · intro ref object found
    have matched := becomes.develops.matched World.matched_start ref object found
    exact ⟨matched, Location.runOn_ofListIndex found matched⟩
  · intro ref index location named later after frame value type
    obtain ⟨rfl, object, found, isList⟩ := Location.isSome_list?_of_ofListIndex named
    rcases after.develops.lives ref object found with ⟨known, knownFound, same⟩
    rw [← same.isSome_list_eq] at isList
    exact Location.ne_notAList_of_isSome_list knownFound isList frame index value type

/-- The world of the sample after its classes of lists have got their hook. -/
def hookedInventory : World :=
  let loaded := (World.start.loadRecord (fileLoader "res") Tree.inventoryDocument {}).2.1
  (loaded.run loaded.tree.attachBuiltins).2

/-- A list of a class of lists is made, and then added to. -/
def stackingSteps : List Tree.Step :=
  [.create (Path.parse "/stack") {},
    .operate .add (.object ⟨0, Path.parse "/stack"⟩) (.integer 5)]

/-- The sum is a list of the same class. -/
theorem matched_of_becomes_hookedInventory :
    let world : World := { hookedInventory with
      store := hookedInventory.tree.afterAll hookedInventory.store stackingSteps }
    World.start.Becomes world ∧
      (world.store.object? ⟨1, Path.parse "/stack"⟩).map
        (fun object => object.definition.isSubtypeOf Path.listClass) = some true ∧
      (Location.ofListIndex ⟨1, Path.parse "/stack"⟩ (.integer 1)).runOn world.store =
        (.ok (.listIndex ⟨1, Path.parse "/stack"⟩ (.integer 1)), world.store) := by
  intro world
  have hooked : World.start.Becomes hookedInventory :=
    .tail (.single (.load (fileLoader "res") Tree.inventoryDocument {})) .builtins
  have becomes : World.start.Becomes world := hooked.afterAll stackingSteps
  have isOfLists : (world.store.object? ⟨1, Path.parse "/stack"⟩).map
      (fun object => object.definition.isSubtypeOf Path.listClass) = some true := by
    decide +kernel
  rcases Option.map_eq_some_iff.mp isOfLists with ⟨object, found, isClass⟩
  rcases (matched_of_becomes becomes).1 _ object found with ⟨matched, named⟩
  refine ⟨becomes, isOfLists, ?_⟩
  rw [named, matched, isClass]
  rfl

end DreamWorld
