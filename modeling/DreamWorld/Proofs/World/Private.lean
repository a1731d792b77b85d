import DreamWorld.Proofs.World.Action
import DreamWorld.World.Location

/-!
# Actions on single objects

What is done to an object, to its variables or to its contents is private to it: it
neither depends on shared variables nor changes them, and it neither adds objects or
classes nor changes what an object is an object of.  This holds whatever hook the class
has.
-/

namespace DreamWorld

/-- What the objects of a store are objects of. -/
def Store.definitions (store : Store) : Array Definition :=
  store.objects.map Object.definition

/-- The same objects are objects of the same classes, and no class has been added. -/
structure Store.Keeps (before after : Store) : Prop where
  definitions_eq : after.definitions = before.definitions
  nextClass_eq : after.nextClass = before.nextClass

namespace Store.Keeps

theorem refl (store : Store) : store.Keeps store :=
  ⟨rfl, rfl⟩

theorem trans {before middle after : Store} (first : before.Keeps middle)
    (second : middle.Keeps after) : before.Keeps after :=
  ⟨second.definitions_eq.trans first.definitions_eq,
    second.nextClass_eq.trans first.nextClass_eq⟩

theorem modifyObject (store : Store) (ref : ObjectRef) {change : Object → Object}
    (same : ∀ object, (change object).definition = object.definition) :
    store.Keeps (store.modifyObject ref change) where
  definitions_eq := by
    apply Array.ext_getElem?
    intro index
    simp only [Store.definitions, Store.modifyObject, Array.getElem?_map,
      Array.getElem?_modify]
    split
    · cases store.objects[index]? <;> simp [same]
    · rfl
  nextClass_eq := rfl

theorem setHook (store : Store) (id : ClassId) (hook : Option Hook) :
    store.Keeps (store.setHook id hook) :=
  ⟨rfl, Array.size_setIfInBounds⟩

end Store.Keeps

namespace Action

variable {α β : Type} {action : Action α} {next : α → Action β}

/-- Shared variables do not matter to the action, and it leaves them alone and keeps
all classes. -/
structure Private (action : Action α) : Prop where
  blind : ∀ (store : Store) globals, action.runOn { store with globals } =
    ((action.runOn store).1, { (action.runOn store).2 with globals })
  keeps : ∀ store : Store, store.Keeps (action.runOn store).2

theorem Private.globals_eq (isPrivate : Private action) (store : Store) :
    (action.runOn store).2.globals = store.globals :=
  congrArg (fun outcome => outcome.2.globals) (isPrivate.blind store store.globals)

/-! ## Putting actions together -/

theorem private_pure (value : α) : Private (pure value) :=
  ⟨fun _ _ => rfl, .refl⟩

theorem private_throw (error : RuntimeError) : Private (throw error : Action α) :=
  ⟨fun _ _ => rfl, .refl⟩

theorem private_ofExcept (outcome : Except RuntimeError α) : Private (ofExcept outcome) :=
  ⟨fun _ _ => rfl, .refl⟩

/-- An action that goes on after a private one is private, if it goes on privately both
with a result and after a failure. -/
theorem Private.followed {whole : Action β} {onResult : α → Action β}
    {onFailure : RuntimeError → Action β} (first : Private action)
    (results : ∀ value, Private (onResult value)) (failures : ∀ error, Private (onFailure error))
    (run_of_ok : ∀ {store middle : Store} {value : α},
      action.runOn store = (.ok value, middle) →
      whole.runOn store = (onResult value).runOn middle)
    (run_of_error : ∀ {store middle : Store} {error : RuntimeError},
      action.runOn store = (.error error, middle) →
      whole.runOn store = (onFailure error).runOn middle) : Private whole where
  blind := by
    intro store globals
    have blind := first.blind store globals
    rcases run : action.runOn store with ⟨error | value, middle⟩
    · rw [run] at blind
      rw [run_of_error run, run_of_error blind]
      exact (failures error).blind middle globals
    · rw [run] at blind
      rw [run_of_ok run, run_of_ok blind]
      exact (results value).blind middle globals
  keeps := by
    intro store
    have kept := first.keeps store
    rcases run : action.runOn store with ⟨error | value, middle⟩
    · rw [run] at kept
      rw [run_of_error run]
      exact kept.trans ((failures error).keeps middle)
    · rw [run] at kept
      rw [run_of_ok run]
      exact kept.trans ((results value).keeps middle)

theorem Private.bind (first : Private action) (second : ∀ value, Private (next value)) :
    Private (action >>= next) :=
  first.followed second private_throw (fun run => runOn_bind_of_ok run next)
    fun run => runOn_bind_of_error run next

theorem Private.tryCatch {handler : RuntimeError → Action α} (first : Private action)
    (second : ∀ error, Private (handler error)) :
    Private (MonadExcept.tryCatch action handler) :=
  first.followed private_pure second (fun run => runOn_tryCatch_of_ok run handler)
    fun run => runOn_tryCatch_of_error run handler

/-- An action may look at the store, but not at the shared variables. -/
theorem private_get_bind {next : Store → Action β}
    (blind : ∀ (store : Store) globals, next { store with globals } = next store)
    (rest : ∀ store, Private (next store)) : Private (get >>= next) where
  blind := by
    intro store globals
    have same : (get >>= next).runOn { store with globals } =
        (next { store with globals }).runOn { store with globals } := rfl
    rw [same, blind]
    exact (rest store).blind store globals
  keeps store := (rest store).keeps store

theorem private_modify {change : Store → Store}
    (blind : ∀ (store : Store) globals,
      change { store with globals } = { change store with globals })
    (keeps : ∀ store : Store, store.Keeps (change store)) :
    Private (modify change : Action Unit) where
  blind store globals := congrArg (Prod.mk (Except.ok ())) (blind store globals)
  keeps := keeps

theorem private_modifyObject (ref : ObjectRef) {change : Object → Object}
    (same : ∀ object, (change object).definition = object.definition) :
    Private (modify fun store => store.modifyObject ref change : Action Unit) :=
  private_modify (fun _ _ => rfl) fun store => .modifyObject store ref same

theorem private_attachHookTo (id : ClassId) (hook : Option Hook) :
    Private (attachHookTo id hook) :=
  private_modify (fun _ _ => rfl) fun store => .setHook store id hook

theorem private_note (event : Event) : Private (modify (·.note event) : Action Unit) :=
  private_modify (fun _ _ => rfl) fun _ => ⟨rfl, rfl⟩

/-- An action that only looks something up in the store. -/
theorem private_lookup {find : Store → Except RuntimeError α}
    (blind : ∀ (store : Store) globals, find { store with globals } = find store) :
    Private (fun store => (find store, store) : Action α) where
  blind store globals :=
    congrArg (fun found => (found, { store with globals })) (blind store globals)
  keeps := .refl

theorem private_theObject (ref : ObjectRef) : Private (theObject ref) := by
  have lookup : theObject ref = fun store =>
      ((store.object? ref).elim (.error (.objectDeleted ref.type)) .ok, store) := by
    funext store
    unfold theObject
    cases store.object? ref <;> rfl
  rw [lookup]
  exact private_lookup fun _ _ => rfl

theorem private_theList (ref : ObjectRef) : Private (theList ref) := by
  have lookup : theList ref = fun store =>
      ((store.list? ref).elim (.error (.notAList ref.type)) .ok, store) := by
    funext store
    unfold theList
    cases store.list? ref <;> rfl
  rw [lookup]
  exact private_lookup fun _ _ => rfl

theorem private_setList (ref : ObjectRef) (list : ListStore) : Private (setList ref list) :=
  private_modifyObject ref fun _ => rfl

theorem private_modifyList (ref : ObjectRef) (change : ListStore → ListStore) :
    Private (modifyList ref change) :=
  (private_theList ref).bind fun _ => private_setList ref _

theorem private_receiver (operator : Operator) (a : Value) :
    Private (Hook.receiver operator a) := by
  cases a with
  | object ref =>
      have lookup : Hook.receiver operator (.object ref) = fun store =>
          (if (store.list? ref).isSome then .ok ref
            else .error (unsupported operator (.object ref)), store) := by
        funext store
        by_cases has : (store.list? ref).isSome <;> simp [Hook.receiver, has]
      rw [lookup]
      exact private_lookup fun _ _ => rfl
  | null | integer | float | text | path | resource | proc =>
      exact private_throw (unsupported operator _)

/-! ## Hooks -/

theorem private_onCreated (hook : Hook) (ref : ObjectRef) (arguments : Arguments) :
    Private (hook.onCreated ref arguments) := by
  cases hook with
  | lists =>
      simp only [Hook.onCreated]
      split
      · exact private_modifyList ref _
      · exact private_pure ()
  | recorder => exact private_note _
  | integersOnly =>
      simp only [Hook.onCreated]
      split
      · exact private_pure ()
      · exact private_throw _
  | inert | echo => exact private_pure ()

theorem private_onDeleted (hook : Hook) (ref : ObjectRef) : Private (hook.onDeleted ref) := by
  cases hook with
  | recorder => exact private_note _
  | lists | inert | echo | integersOnly => exact private_pure ()

theorem private_onSet (hook : Hook) (ref : ObjectRef) (name : String) (new old : Value) :
    Private (hook.onSet ref name new old) := by
  cases hook with
  | lists =>
      simp only [Hook.onSet]
      split
      · exact (private_ofExcept _).bind fun _ => private_modifyList ref _
      · exact private_pure ()
  | recorder => exact private_note _
  | integersOnly => exact (private_ofExcept _).bind fun _ => private_pure ()
  | inert | echo => exact private_pure ()

theorem private_onGet (hook : Hook) (ref : ObjectRef) (name : String) (value : Value) :
    Private (hook.onGet ref name value) := by
  cases hook with
  | lists =>
      simp only [Hook.onGet]
      split
      · exact (private_theList ref).bind fun _ => private_pure _
      · exact private_pure value
  | recorder =>
      apply (private_note _).bind
      intro _
      cases value <;> exact private_pure _
  | inert | echo | integersOnly => exact private_pure value

/-! ## Variables and deletion -/

variable (ref : ObjectRef) (name : String) (value : Value)

theorem private_getVariable? : Private (Object.getVariable? ref name) := by
  apply (private_theObject ref).bind
  intro object
  split
  · exact private_pure none
  · apply private_get_bind fun _ _ => rfl
    intro store
    split
    · exact (private_onGet _ ref name _).bind fun _ => private_pure _
    · exact private_pure _

theorem private_getVariable : Private (Object.getVariable ref name) := by
  apply (private_getVariable? ref name).bind
  intro found
  cases found with
  | some value => exact private_pure value
  | none => exact private_throw _

theorem private_setVariable : Private (Object.setVariable ref name value) := by
  apply (private_theObject ref).bind
  intro object
  apply Private.bind
  · exact private_modifyObject ref fun _ => rfl
  · intro _
    apply private_get_bind fun _ _ => rfl
    intro store
    split
    · exact private_pure _
    · rename_i hook _
      apply Private.bind _ fun _ => private_pure _
      apply (private_onSet hook ref name value _).tryCatch
      intro error
      apply Private.bind _ fun _ => private_throw error
      exact private_modifyObject ref fun _ => rfl

theorem private_delete : Private (Object.delete ref) := by
  apply (private_theObject ref).bind
  intro object
  split
  · exact private_pure ()
  · apply Private.bind
    · exact private_modifyObject ref fun _ => rfl
    · intro _
      apply private_get_bind fun _ _ => rfl
      intro store
      split
      · exact private_onDeleted _ ref
      · exact private_pure ()

/-! ## Locations that are not variables -/

variable (frame : Frame) {location : Location}
  (elsewhere : ∀ ref name, location ≠ .variable ref name)

include elsewhere

theorem private_read : Private (Location.read frame location) := by
  rcases location with ⟨ref, name⟩ | index | _ | ⟨ref, index⟩ | _
  · exact absurd rfl (elsewhere ref name)
  · simp only [Location.read]
    split
    · exact private_pure _
    · exact private_throw _
  · exact private_pure _
  · exact (private_theList ref).bind fun _ => private_ofExcept _
  · exact private_pure _

theorem private_assign : Private (Location.assign frame value location) := by
  rcases location with ⟨ref, name⟩ | index | _ | ⟨ref, index⟩ | _
  · exact absurd rfl (elsewhere ref name)
  · simp only [Location.assign]
    split
    · exact private_pure _
    · exact private_throw _
  · exact private_throw _
  · apply (private_theList ref).bind
    intro list
    apply (private_ofExcept _).bind
    intro changed
    exact (private_setList ref changed).bind fun _ => private_pure frame
  · exact private_pure _

end Action

end DreamWorld
