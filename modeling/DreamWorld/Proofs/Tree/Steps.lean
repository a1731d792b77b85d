import DreamWorld.Proofs.Tree.Declare
import DreamWorld.Proofs.World.Creation
import DreamWorld.World
import DreamWorld.World.Operator.Apply

/-!
# Steps in a world with a fixed tree

Between two loads objects are created, changed and deleted, hooks are attached, operators
are applied, and locations are read and assigned to.  No step but an assignment to a name
that stands for a shared variable changes a shared variable, and that one changes nothing
else.  A step adds at most one object, which is of a class of the tree, of the class of
another object, or of a new class that declares nothing.
-/

namespace DreamWorld.Tree

/-- What may be done to a world while its tree stays as it is. -/
inductive Step where
  | create (path : Path) (arguments : Arguments)
  | attachHook (path : Path) (hook : Hook)
  /-- Attaches a hook to one class alone, or takes it away. -/
  | attachHookTo (id : ClassId) (hook : Option Hook)
  | delete (ref : ObjectRef)
  /-- Writes a variable of the object itself, which need not have had it. -/
  | setVariable (ref : ObjectRef) (name : String) (value : Value)
  | changeList (ref : ObjectRef) (change : ListStore → ListStore)
  | operate (operator : Operator) (a b : Value)
  | read (frame : Frame) (location : Location)
  | assign (frame : Frame) (location : Location) (value : Value)

/-- The store after a step, whether the step succeeds or fails. -/
def after (tree : Tree) (store : Store) : Step → Store
  | .create path arguments => ((tree.create path arguments).runOn store).2
  | .attachHook path hook => ((tree.attachHook path hook).runOn store).2
  | .attachHookTo id hook => ((DreamWorld.attachHookTo id hook).runOn store).2
  | .delete ref => ((Object.delete ref).runOn store).2
  | .setVariable ref name value => ((Object.setVariable ref name value).runOn store).2
  | .changeList ref change => ((modifyList ref change).runOn store).2
  | .operate operator a b => ((operator.apply a b).runOn store).2
  | .read frame location => ((Location.read frame location).runOn store).2
  | .assign frame location value => ((Location.assign frame value location).runOn store).2

/-- The store after some steps, one after another. -/
def afterAll (tree : Tree) (store : Store) (steps : List Step) : Store :=
  steps.foldl tree.after store

theorem afterAll_append_singleton (tree : Tree) (store : Store) (steps : List Step)
    (step : Step) :
    tree.afterAll store (steps ++ [step]) = tree.after (tree.afterAll store steps) step :=
  List.foldl_append

/-- The step assigns a value to a shared variable: to its name, through an object that
is not deleted and has no variable of this name. -/
def Step.Writes (store : Store) (step : Step) (global : GlobalVariable) (value : Value) : Prop :=
  ∃ frame ref object name, step = .assign frame (.variable ref name) value ∧
    Location.Alive store ref object ∧ object.vars.has name = false ∧
    object.definition.globalVariable? name = some global

/-- The step adds at most one object.  It is of a class of the tree, of the class of an
object that there was before, or of a bare class of lists that is new. -/
inductive Grows (tree : Tree) (before next : Store) : Prop
  | keeps : before.Keeps next → Grows tree before next
  | made {id : EntryId} : id < tree.size →
      next.definitions = before.definitions.push (tree.entryAt id).definition →
      next.nextClass = before.nextClass → Grows tree before next
  | copied {definition : Definition} : definition ∈ before.definitions →
      next.definitions = before.definitions.push definition →
      next.nextClass = before.nextClass → Grows tree before next
  | bare :
      next.definitions =
        before.definitions.push (Definition.below before.nextClass Path.listClass none) →
      next.nextClass = before.nextClass + 1 → Grows tree before next

/-- An action writes no shared variable and adds at most one object. -/
def Unshared {α : Type} (tree : Tree) (action : Action α) : Prop :=
  ∀ store, tree.Grows store (action.runOn store).2 ∧
    (action.runOn store).2.globals = store.globals

section

variable {α β : Type} {tree : Tree} {action : Action α} {next : α → Action β}

theorem Grows.after_keeps {before middle next : Store} (kept : before.Keeps middle)
    (grows : tree.Grows middle next) : tree.Grows before next := by
  cases grows with
  | keeps more => exact .keeps (kept.trans more)
  | made inRange definitionsEq same =>
      exact .made inRange (kept.definitions_eq ▸ definitionsEq) (same.trans kept.nextClass_eq)
  | copied known definitionsEq same =>
      exact .copied (kept.definitions_eq ▸ known) (kept.definitions_eq ▸ definitionsEq)
        (same.trans kept.nextClass_eq)
  | bare definitionsEq more =>
      rw [kept.definitions_eq, kept.nextClass_eq] at definitionsEq
      exact .bare definitionsEq (kept.nextClass_eq ▸ more)

theorem unshared_of_private (isPrivate : Action.Private action) : tree.Unshared action :=
  fun store => ⟨.keeps (isPrivate.keeps store), isPrivate.globals_eq store⟩

theorem unshared_bind (first : Action.Private action)
    (second : ∀ value, tree.Unshared (next value)) : tree.Unshared (action >>= next) := by
  intro store
  have kept := first.keeps store
  have same := first.globals_eq store
  rcases run : action.runOn store with ⟨error | value, middle⟩
  · rw [run] at kept same
    rw [Action.runOn_bind_of_error run]
    exact ⟨.keeps kept, same⟩
  · rw [run] at kept same
    rw [Action.runOn_bind_of_ok run]
    rcases second value middle with ⟨grows, globalsEq⟩
    exact ⟨grows.after_keeps kept, globalsEq.trans same⟩

theorem unshared_get_bind {next : Store → Action β} (rest : ∀ store, tree.Unshared (next store)) :
    tree.Unshared (get >>= next) :=
  fun store => rest store store

end

variable (tree : Tree) (store : Store)

/-! ## Creating objects -/

/-- A number that the tree does not have stands for the root, which it has. -/
theorem exists_entryAt_eq (tree : Tree) (id : EntryId) :
    ∃ other, other < tree.size ∧ tree.entryAt id = tree.entryAt other := by
  by_cases inRange : id < tree.size
  · exact ⟨id, inRange, rfl⟩
  · refine ⟨rootId, tree.nonempty, ?_⟩
    have absent : tree.get? id = none := get?_eq_none_iff.mpr (Nat.le_of_not_lt inRange)
    have rootFound : tree.get? rootId = some tree.root :=
      Array.getElem?_eq_getElem tree.nonempty
    rw [entryAt, absent, entryAt_of_get? rootFound]
    rfl

/-- Creating an object adds one of the class, whatever its hook does. -/
theorem runOn_create (definition : Definition) (arguments : Arguments) :
    ((Object.create definition arguments).runOn store).2.definitions =
        store.definitions.push definition ∧
      ((Object.create definition arguments).runOn store).2.nextClass = store.nextClass ∧
      ((Object.create definition arguments).runOn store).2.globals = store.globals := by
  have hooked (ref : ObjectRef) : Action.Private (do
      (store.hook? definition.id).elim (pure ()) fun hook => hook.onCreated ref arguments
      return ref) := by
    apply Action.Private.bind _ fun _ => Action.private_pure ref
    cases store.hook? definition.id with
    | none => exact Action.private_pure ()
    | some hook => exact Action.private_onCreated hook ref arguments
  rw [Object.runOn_create_eq]
  have kept := (hooked ⟨store.objects.size, definition.type⟩).keeps
    (store.addObject (Object.newborn definition)).2
  have sameGlobals := (hooked ⟨store.objects.size, definition.type⟩).globals_eq
    (store.addObject (Object.newborn definition)).2
  exact ⟨kept.definitions_eq.trans Array.map_push, kept.nextClass_eq, sameGlobals⟩

/-- The class of a path is one of the tree, or a bare class of lists that is new. -/
theorem runOn_classFor (path : Path) :
    (∃ id, id < tree.size ∧
      (tree.classFor path).runOn store = (.ok (tree.entryAt id).definition, store)) ∨
    (tree.classFor path).runOn store =
      (.ok (Definition.below store.nextClass Path.listClass none),
        (store.addClasses 1).setHook store.nextClass (some .lists)) ∨
    ∃ error, (tree.classFor path).runOn store = (.error error, store) := by
  unfold classFor
  split
  · rename_i definition found
    rcases resolved : tree.entryId path with error | id
    · rw [definitionOf, resolved] at found
      cases found
    · rw [definitionOf, resolved] at found
      cases found
      rcases tree.exists_entryAt_eq id with ⟨other, otherLt, same⟩
      exact .inl ⟨other, otherLt, by rw [← same]; rfl⟩
  · split
    · exact .inr (.inl rfl)
    · exact .inr (.inr ⟨_, rfl⟩)
  · exact .inr (.inr ⟨_, rfl⟩)

theorem unshared_create (path : Path) (arguments : Arguments) :
    tree.Unshared (tree.create path arguments) := by
  intro store
  unfold create
  rcases tree.runOn_classFor store path with ⟨id, inRange, run⟩ | run | ⟨error, run⟩
  · rw [Action.runOn_bind_of_ok run]
    rcases runOn_create store (tree.entryAt id).definition arguments with
      ⟨definitionsEq, nextEq, globalsEq⟩
    exact ⟨.made inRange definitionsEq nextEq, globalsEq⟩
  · rw [Action.runOn_bind_of_ok run]
    obtain ⟨definitionsEq, nextEq, globalsEq⟩ :=
      runOn_create ((store.addClasses 1).setHook store.nextClass (some .lists))
        (Definition.below store.nextClass Path.listClass none) arguments
    refine ⟨.bare definitionsEq ?_, globalsEq⟩
    rw [nextEq]
    simp [Store.setHook, Store.addClasses, Store.nextClass]
  · rw [Action.runOn_bind_of_error run]
    exact ⟨.keeps (.refl store), rfl⟩

/-! ## Attaching hooks -/

theorem private_attachHook (path : Path) (hook : Hook) :
    Action.Private (tree.attachHook path hook) := by
  have keeps (ids : List EntryId) (store : Store) :
      store.Keeps (tree.hookEntries hook ids store) := by
    unfold hookEntries
    induction ids generalizing store with
    | nil => exact .refl store
    | cons id rest ih => exact (Store.Keeps.setHook store _ _).trans (ih _)
  have blind (ids : List EntryId) (store : Store) (globals : List ((ClassId × String) × Value)) :
      tree.hookEntries hook ids { store with globals } =
        { tree.hookEntries hook ids store with globals } := by
    unfold hookEntries
    induction ids generalizing store with
    | nil => rfl
    | cons id rest ih => exact ih (store.setHook (tree.entryAt id).definition.id (some hook))
  unfold attachHook
  apply (Action.private_ofExcept _).bind
  intro id
  apply Action.Private.bind
  · exact Action.private_modify (blind _) (keeps _)
  · exact fun _ => Action.private_pure _

/-! ## Operators -/

/-- A new list is of the class of the list that it is made from. -/
theorem unshared_listResult (ref : ObjectRef) (change : ListStore → ListStore) :
    tree.Unshared (Hook.listResult ref change) := by
  intro store
  unfold Hook.listResult
  cases found : store.object? ref with
  | none =>
      rw [Action.runOn_bind_of_error (runOn_theObject_of_none found)]
      exact ⟨.keeps (.refl store), rfl⟩
  | some object =>
      have known : object.definition ∈ store.definitions :=
        Array.mem_map_of_mem (Array.mem_of_getElem? found)
      rw [Action.runOn_bind_of_ok (runOn_theObject_of_some found)]
      cases listed : store.list? ref with
      | none =>
          rw [Action.runOn_bind_of_error (runOn_theList_of_none listed)]
          exact ⟨.keeps (.refl store), rfl⟩
      | some list =>
          rw [Action.runOn_bind_of_ok (runOn_theList_of_some listed)]
          exact ⟨.copied known Array.map_push rfl, rfl⟩

theorem unshared_listOperator (operator : Operator) (a b : Value) :
    tree.Unshared (Hook.listOperator operator a b) := by
  have found := Action.private_receiver operator a
  cases operator with
  | output => exact unshared_of_private (Action.private_throw _)
  | add | subtract =>
      apply unshared_bind found
      intro ref
      exact unshared_get_bind fun _ => tree.unshared_listResult ref _
  | append | remove | combine | mask =>
      apply unshared_bind found
      intro ref
      apply unshared_get_bind
      intro store
      apply unshared_bind (Action.private_modifyList ref _)
      exact fun _ => unshared_of_private (Action.private_pure a)

theorem unshared_apply (operator : Operator) (a b : Value) :
    tree.Unshared (operator.apply a b) := by
  cases a with
  | object ref =>
      have hooked : Action.Private (hookOf ref) :=
        (Action.private_theObject ref).bind fun _ =>
          Action.private_get_bind (fun _ _ => rfl) fun _ => Action.private_pure _
      apply unshared_bind hooked
      intro hook?
      cases hook? with
      | none => exact unshared_of_private (Action.private_throw _)
      | some hook =>
          cases hook with
          | lists => exact tree.unshared_listOperator operator _ b
          | echo => exact unshared_of_private (Action.private_pure _)
          | inert | recorder | integersOnly => exact unshared_of_private (Action.private_throw _)
  | null | integer | float | text | path | resource | proc =>
      exact unshared_of_private (Action.private_ofExcept _)

/-! ## What a step does -/

/-- A step writes at most one shared variable. -/
theorem Step.Writes.unique {store : Store} {step : Step} {global other : GlobalVariable}
    {value otherValue : Value} (first : step.Writes store global value)
    (second : step.Writes store other otherValue) : global = other ∧ value = otherValue := by
  rcases first with ⟨_, _, object, _, rfl, alive, _, found⟩
  rcases second with ⟨_, _, otherObject, _, stepEq, otherAlive, _, otherFound⟩
  cases stepEq
  cases alive.found.symm.trans otherAlive.found
  exact ⟨Option.some.inj (found.symm.trans otherFound), rfl⟩

theorem unshared_read (frame : Frame) (location : Location) :
    tree.Unshared (Location.read frame location) := by
  by_cases isVariable : ∃ ref name, location = .variable ref name
  · rcases isVariable with ⟨ref, name, rfl⟩
    intro store
    by_cases alive : ∃ object, Location.Alive store ref object
    · rcases alive with ⟨object, alive⟩
      cases has : object.vars.has name with
      | true =>
          rw [alive.runOn_read_of_has frame has]
          exact unshared_of_private (Action.private_getVariable ref name) store
      | false =>
          rw [alive.runOn_read_of_lacks frame has]
          exact ⟨.keeps (.refl store), rfl⟩
    · have dead := Location.runOn_ensureLive_of_not_alive (not_exists.mp alive)
      have run : (Location.read frame (.variable ref name)).runOn store =
          (.error (.objectDeleted ref.type), store) := by
        unfold Location.read
        exact Action.runOn_bind_of_error dead _
      rw [run]
      exact ⟨.keeps (.refl store), rfl⟩
  · apply unshared_of_private
    apply Action.private_read frame
    intro ref name same
    exact isVariable ⟨ref, name, same⟩

/-- An assignment writes the shared variable that its name stands for and does nothing
else, or it leaves all shared variables as they are. -/
theorem after_assign_cases (frame : Frame) (location : Location) (value : Value) :
    (∃ global, Step.Writes store (.assign frame location value) global value ∧
      tree.after store (.assign frame location value) = store.writeGlobal global value) ∨
    (∀ global, ¬ Step.Writes store (.assign frame location value) global value) ∧
    tree.Grows store (tree.after store (.assign frame location value)) ∧
      (tree.after store (.assign frame location value)).globals = store.globals := by
  by_cases isVariable : ∃ ref name, location = .variable ref name
  · rcases isVariable with ⟨ref, name, rfl⟩
    by_cases alive : ∃ object, Location.Alive store ref object
    · rcases alive with ⟨object, alive⟩
      cases has : object.vars.has name with
      | true =>
          have isPrivate := Location.private_setVariable_return frame ref name value
          rw [after, alive.runOn_assign_of_has frame has]
          refine .inr ⟨?_, unshared_of_private isPrivate store⟩
          rintro global ⟨_, _, other, _, ⟨⟩, otherAlive, lacks, _⟩
          cases alive.found.symm.trans otherAlive.found
          rw [has] at lacks
          cases lacks
      | false =>
          rw [after, alive.runOn_assign_of_lacks frame has]
          cases found : object.definition.globalVariable? name with
          | some global =>
              exact .inl ⟨global, ⟨_, _, object, _, rfl, alive, has, found⟩, rfl⟩
          | none =>
              refine .inr ⟨?_, .keeps (.refl store), rfl⟩
              rintro global ⟨_, _, other, _, ⟨⟩, otherAlive, _, otherFound⟩
              cases alive.found.symm.trans otherAlive.found
              rw [found] at otherFound
              cases otherFound
    · have dead := Location.runOn_ensureLive_of_not_alive (not_exists.mp alive)
      have run : (Location.assign frame value (.variable ref name)).runOn store =
          (.error (.objectDeleted ref.type), store) := by
        unfold Location.assign
        exact Action.runOn_bind_of_error dead _
      rw [after, run]
      refine .inr ⟨?_, .keeps (.refl store), rfl⟩
      rintro global ⟨_, _, object, _, ⟨⟩, isAlive, _⟩
      exact alive ⟨object, isAlive⟩
  · have isPrivate : Action.Private (Location.assign frame value location) := by
      apply Action.private_assign value frame
      intro ref name same
      exact isVariable ⟨ref, name, same⟩
    refine .inr ⟨?_, unshared_of_private isPrivate store⟩
    rintro global ⟨_, ref, _, name, ⟨⟩, _⟩
    exact isVariable ⟨ref, name, rfl⟩

theorem grows_after_of_ne {step : Step}
    (different : ∀ frame location value, step ≠ .assign frame location value) :
    tree.Grows store (tree.after store step) ∧
      (tree.after store step).globals = store.globals := by
  cases step with
  | assign frame location value => exact absurd rfl (different frame location value)
  | create path arguments =>
      rw [after]
      exact tree.unshared_create path arguments store
  | attachHook path hook =>
      rw [after]
      exact unshared_of_private (tree.private_attachHook path hook) store
  | attachHookTo id hook =>
      rw [after]
      exact unshared_of_private (Action.private_attachHookTo id hook) store
  | delete ref =>
      rw [after]
      exact unshared_of_private (Action.private_delete ref) store
  | setVariable ref name value =>
      rw [after]
      exact unshared_of_private (Action.private_setVariable ref name value) store
  | changeList ref change =>
      rw [after]
      exact unshared_of_private (Action.private_modifyList ref change) store
  | operate operator a b =>
      rw [after]
      exact tree.unshared_apply operator a b store
  | read frame location =>
      rw [after]
      exact tree.unshared_read frame location store

/-- A step writes the shared variable that it assigns to, if it does assign to one, and
then does nothing else.  Otherwise it leaves the shared variables as they are, and adds an
object of a known class or none. -/
theorem after_cases (step : Step) :
    (∃ global value, step.Writes store global value ∧
      tree.after store step = store.writeGlobal global value) ∨
    (∀ global value, ¬ step.Writes store global value) ∧
      tree.Grows store (tree.after store step) ∧
      (tree.after store step).globals = store.globals := by
  by_cases isAssign : ∃ frame location value, step = .assign frame location value
  · rcases isAssign with ⟨frame, location, value, rfl⟩
    rcases tree.after_assign_cases store frame location value with
      ⟨global, writes, written⟩ | ⟨idle, rest⟩
    · exact .inl ⟨global, value, writes, written⟩
    · refine .inr ⟨?_, rest⟩
      rintro global other ⟨_, ref, object, name, ⟨⟩, writes⟩
      exact idle global ⟨frame, ref, object, name, rfl, writes⟩
  · have different : ∀ frame location value, step ≠ .assign frame location value :=
      fun frame location value same => isAssign ⟨frame, location, value, same⟩
    refine .inr ⟨?_, tree.grows_after_of_ne store different⟩
    rintro global value ⟨_, _, _, _, same, _⟩
    exact different _ _ _ same

/-- A step adds an object of a known class or none. -/
theorem grows_after (step : Step) : tree.Grows store (tree.after store step) := by
  rcases tree.after_cases store step with ⟨global, value, _, written⟩ | ⟨_, grows, _⟩
  · rw [written]
    exact .keeps ⟨rfl, rfl⟩
  · exact grows

end DreamWorld.Tree
