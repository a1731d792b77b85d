import DreamWorld.Proofs.Tree.SharedOwners
import DreamWorld.Proofs.Tree.Steps

/-!
# Numbers of classes

No class that a world uses has a number that is still free.  This holds at the start and
is kept by loading and by every step.  So the classes of a newly loaded tree have
numbers that no older object and no shared variable written before knows of, and an
object that is not of a class of the tree never comes to know of them either.
-/

namespace DreamWorld

open Document (ClassRecord)

/-- All classes that a definition goes through have numbers below a bound. -/
def Definition.BoundedBy (bound : ClassId) (definition : Definition) : Prop :=
  ∀ body ∈ definition.lineage, body.id < bound

/-- The owner of a shared variable is one of the classes that a definition goes
through. -/
theorem Definition.exists_owner {definition : Definition} {name : String}
    {global : GlobalVariable} (found : definition.globalVariable? name = some global) :
    global.name = name ∧ ∃ body ∈ definition.lineage, global.owner = body.id := by
  rcases List.exists_of_findSome?_eq_some found with ⟨body, mem, shared⟩
  rcases Option.map_eq_some_iff.mp shared with ⟨initial, _, rfl⟩
  exact ⟨rfl, body, mem, rfl⟩

/-- The numbers of all classes that a world uses are below that of its next class. -/
structure World.Closed (world : World) : Prop where
  written_lt : ∀ cell ∈ world.store.globals.map Prod.fst, cell.1 < world.store.nextClass
  objects_lt : ∀ definition ∈ world.store.definitions, definition.BoundedBy world.store.nextClass
  entries_lt : ∀ id, id < world.tree.size →
    (world.tree.entryAt id).definition.BoundedBy world.store.nextClass

namespace Tree

variable {tree : Tree} {store next : Store}

theorem Grows.nextClass_le (grows : tree.Grows store next) : store.nextClass ≤ next.nextClass := by
  cases grows with
  | keeps kept => exact Nat.le_of_eq kept.nextClass_eq.symm
  | made _ _ same | copied _ _ same => exact Nat.le_of_eq same.symm
  | bare _ more => exact more ▸ Nat.le_succ _

/-- What holds of all classes of a tree, of new bare classes and of the objects before
a step, holds of the objects after the step. -/
theorem Grows.forall_definitions {good : Definition → Prop} (grows : tree.Grows store next)
    (entries : ∀ id, id < tree.size → good (tree.entryAt id).definition)
    (bare : next.nextClass = store.nextClass + 1 →
      good (Definition.below store.nextClass Path.listClass none))
    (before : ∀ definition ∈ store.definitions, good definition) :
    ∀ definition ∈ next.definitions, good definition := by
  intro definition mem
  cases grows with
  | keeps kept => exact before definition (kept.definitions_eq ▸ mem)
  | made inRange definitionsEq _ =>
      rw [definitionsEq, Array.mem_push] at mem
      rcases mem with older | rfl
      · exact before definition older
      · exact entries _ inRange
  | copied known definitionsEq _ =>
      rw [definitionsEq, Array.mem_push] at mem
      rcases mem with older | rfl
      · exact before definition older
      · exact before definition known
  | bare definitionsEq more =>
      rw [definitionsEq, Array.mem_push] at mem
      rcases mem with older | rfl
      · exact before definition older
      · exact bare more

end Tree

/-- A shared variable that is written belongs to a class of some object. -/
theorem Tree.Step.Writes.exists_owner {store : Store} {step : Tree.Step} {global : GlobalVariable}
    {value : Value} (writes : step.Writes store global value) :
    ∃ definition ∈ store.definitions, ∃ body ∈ definition.lineage, global.owner = body.id := by
  rcases writes with ⟨_, _, object, _, _, alive, _, found⟩
  refine ⟨object.definition, ?_, (Definition.exists_owner found).2⟩
  exact Array.mem_map_of_mem (Array.mem_of_getElem? alive.found)

namespace World

theorem closed_start : World.start.Closed where
  written_lt := by
    intro cell mem
    cases mem
  objects_lt := by
    intro definition mem
    simp [start, Store.addClasses, Store.definitions] at mem
  entries_lt := by
    intro id inRange body mem
    obtain rfl : id = 0 := Nat.lt_one_iff.mp inRange
    cases List.mem_singleton.mp mem
    exact Nat.zero_lt_one

/-- A step keeps all numbers in use below the next one. -/
theorem Closed.after {world : World} (closed : world.Closed) (step : Tree.Step) :
    Closed { world with store := world.tree.after world.store step } := by
  have grows := world.tree.grows_after world.store step
  have nextLe := grows.nextClass_le
  have raise {definition : Definition} (bounded : definition.BoundedBy world.store.nextClass) :
      definition.BoundedBy (world.tree.after world.store step).nextClass :=
    fun body mem => Nat.lt_of_lt_of_le (bounded body mem) nextLe
  refine ⟨?_, ?_, fun id inRange => raise (closed.entries_lt id inRange)⟩
  · intro cell mem
    rcases world.tree.after_cases world.store step with
      ⟨global, value, writes, written⟩ | ⟨_, _, unwritten⟩
    · rw [written] at mem
      rcases List.mem_cons.mp mem with rfl | older
      · rcases writes.exists_owner with ⟨definition, used, body, bodyMem, ownerEq⟩
        change global.owner < _
        rw [ownerEq]
        exact raise (closed.objects_lt definition used) body bodyMem
      · have kept := (List.filter_sublist.map Prod.fst).subset older
        exact Nat.lt_of_lt_of_le (closed.written_lt cell kept) nextLe
    · rw [unwritten] at mem
      exact Nat.lt_of_lt_of_le (closed.written_lt cell mem) nextLe
  · apply grows.forall_definitions (fun id inRange => raise (closed.entries_lt id inRange))
    · intro more body mem
      cases List.mem_singleton.mp mem
      exact more ▸ Nat.lt_succ_self _
    · exact fun definition mem => raise (closed.objects_lt definition mem)

theorem Closed.afterAll {world : World} (closed : world.Closed) (steps : List Tree.Step) :
    Closed { world with store := world.tree.afterAll world.store steps } := by
  induction steps generalizing world with
  | nil => exact closed
  | cons step rest ih => exact ih (closed.after step)

end World

/-! ## Loading -/

variable {σ : Type} {loader : ResourceLoader σ} {document : ClassRecord}

/-- The classes that a class of a loaded tree goes through are classes of this tree. -/
theorem Tree.Carries.exists_place {firstClass : ClassId} {tree : Tree} {id : EntryId}
    (carries : Carries loader firstClass document tree (document.placedWithin 0))
    (inRange : id < tree.size) :
    ∀ body ∈ (tree.entryAt id).definition.lineage,
      ∃ place, place < tree.size ∧ body.id = firstClass + place := by
  rcases carries.exists_lineage inRange with ⟨lineage, lineal⟩
  rw [carries.lineage_entryAt lineal]
  intro body mem
  rcases List.mem_map.mp mem with ⟨member, memberMem, rfl⟩
  have listed := lineal.getElem?_preorder member memberMem
  exact ⟨member.1, carries.lt_size_of_getElem? listed, carries.id_entryAt listed⟩

/-- A load that succeeds makes room for the classes of the new tree, and does nothing
else to the store. -/
theorem World.store_loadRecord {world next : World} {memory last : σ}
    (loaded : world.loadRecord loader document memory = (.ok (), next, last)) :
    next.store = world.store.addClasses next.tree.size := by
  unfold World.loadRecord at loaded
  split at loaded
  · rename_i result middle run
    cases loaded
    rcases LoadAction.run_bind_eq_ok_iff.mp run with ⟨tree, _, _, stored⟩
    cases stored
    rfl
  · cases loaded

theorem Store.nextClass_addClasses (store : Store) (count : Nat) :
    (store.addClasses count).nextClass = store.nextClass + count := by
  simp [nextClass, addClasses]

/-- A load that succeeds takes one number for each entry of the new tree. -/
theorem World.nextClass_loadRecord {world next : World} {memory last : σ}
    (loaded : world.loadRecord loader document memory = (.ok (), next, last)) :
    next.store.nextClass = world.store.nextClass + next.tree.size := by
  rw [World.store_loadRecord loaded, Store.nextClass_addClasses]

/-- Loading keeps all numbers in use below the next one, whether it succeeds or not. -/
theorem World.Closed.loadRecord {world next : World} {memory last : σ}
    {outcome : Except LoadError Unit} (closed : world.Closed)
    (loaded : world.loadRecord loader document memory = (outcome, next, last)) : next.Closed := by
  cases outcome with
  | error error =>
      unfold World.loadRecord at loaded
      split at loaded
      · cases loaded
      · cases loaded
        exact closed
  | ok =>
      have carries := Tree.carries_of_loadRecord loaded
      have nextEq := World.nextClass_loadRecord loaded
      have nextLe : world.store.nextClass ≤ next.store.nextClass :=
        nextEq ▸ Nat.le_add_right _ _
      refine ⟨?_, ?_, ?_⟩
      · intro cell mem
        rw [World.store_loadRecord loaded] at mem
        exact Nat.lt_of_lt_of_le (closed.written_lt cell mem) nextLe
      · intro definition mem body bodyMem
        rw [World.store_loadRecord loaded] at mem
        exact Nat.lt_of_lt_of_le (closed.objects_lt definition mem body bodyMem) nextLe
      · intro id inRange body mem
        rcases carries.exists_place inRange body mem with ⟨place, placeLt, idEq⟩
        rw [idEq, nextEq]
        exact Nat.add_lt_add_left placeLt _

end DreamWorld
