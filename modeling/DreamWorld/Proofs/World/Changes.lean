import DreamWorld.Proofs.World.Creation
import DreamWorld.World.Operator.Apply

/-!
# What actions are made of

Whatever an action does to a store, it does by single changes: it notes an event, writes a shared
variable, marks an object as deleted, gives a list other contents, adds an object, or writes a
variable of an object.  So a relation between stores that holds across each of these holds across
any action.  Writes of variables are kept apart, for a relation that holds across some of them
only.
-/

namespace DreamWorld

/-- The relation holds across every single change but the write of a variable of an object. -/
structure Store.Permits (relation : Store → Store → Prop) : Prop where
  note : ∀ (store : Store) event, relation store (store.note event)
  writeGlobal : ∀ (store : Store) global value, relation store (store.writeGlobal global value)
  setHooks : ∀ (store : Store) hooks, relation store { store with hooks }
  delete : ∀ (store : Store) ref,
    relation store (store.modifyObject ref fun object => { object with deleted := true })
  fill : ∀ (store : Store) ref list, (store.list? ref).isSome = true →
    relation store (store.modifyObject ref (Object.filled list))
  create : ∀ (store : Store) definition,
    relation store (store.addObject (Object.newborn definition)).2
  copy : ∀ (store : Store) ref object list, store.object? ref = some object →
    object.list.isSome = true →
    relation store (store.addObject (Object.fresh object.definition (some list))).2

namespace Action

variable {relation : Store → Store → Prop} [IsPreorder Store relation]
  (permits : Store.Permits relation) (ref : ObjectRef) (name : String) (value : Value)

include permits

omit [IsPreorder Store relation] in
theorem respects_note (event : Event) : Respects relation (modify (·.note event) : Action Unit) :=
  respects_modify fun store => permits.note store event

theorem respects_modifyList (change : ListStore → ListStore) :
    Respects relation (modifyList ref change) := by
  intro store
  cases listed : store.list? ref with
  | none =>
      rw [runOn_modifyList_of_none listed]
      exact refl_of relation store
  | some list =>
      rw [runOn_modifyList_of_some listed]
      exact permits.fill store ref _ (by rw [listed]; rfl)

/-! ## Hooks -/

theorem respects_onCreated (hook : Hook) (arguments : Arguments) :
    Respects relation (hook.onCreated ref arguments) := by
  cases hook with
  | lists =>
      simp only [Hook.onCreated]
      split
      · exact respects_modifyList permits ref _
      · exact respects_pure ()
  | recorder => exact respects_note permits _
  | integersOnly =>
      simp only [Hook.onCreated]
      split
      · exact respects_pure ()
      · exact respects_throw _
  | inert | echo => exact respects_pure ()

theorem respects_onDeleted (hook : Hook) : Respects relation (hook.onDeleted ref) := by
  cases hook with
  | recorder => exact respects_note permits _
  | lists | inert | echo | integersOnly => exact respects_pure ()

theorem respects_onGet (hook : Hook) : Respects relation (hook.onGet ref name value) := by
  cases hook with
  | lists =>
      simp only [Hook.onGet]
      split
      · exact (respects_theList ref).bind fun _ => respects_pure _
      · exact respects_pure value
  | recorder =>
      refine Respects.bind (respects_note permits _) fun _ => ?_
      cases value <;> exact respects_pure _
  | inert | echo | integersOnly => exact respects_pure value

/-! ## Variables and deletion -/

theorem respects_getVariable? : Respects relation (Object.getVariable? ref name) := by
  refine Respects.bind (respects_theObject ref) fun object => ?_
  split
  · exact respects_pure none
  · apply respects_get_bind
    intro store
    split
    · exact (respects_onGet permits ref name _ _).bind fun _ => respects_pure _
    · exact respects_pure _

/-- A write of a variable is the write of the slot, after which the hook may do something, and if
the hook fails, the slot is put back. -/
theorem exists_setVariable {store : Store} {object : Object}
    (found : store.object? ref = some object) :
    ∃ outcome middle after,
      (Object.setVariable ref name value).runOn store = (outcome, after) ∧
      relation (store.modifyObject ref (Object.written name value)) middle ∧
      (outcome = .ok ((object.vars.find? name).getD .null) ∧ after = middle ∨
        ∃ error, outcome = .error error ∧
          after = middle.modifyObject ref (Object.restored name (object.vars.find? name))) := by
  cases hooked : store.hook? object.definition.id with
  | none =>
      exact ⟨_, _, _, Object.runOn_setVariable_of_unhooked found hooked name value,
        refl_of relation _, .inl ⟨rfl, rfl⟩⟩
  | some hook =>
      have related : Respects relation
          (hook.onSet ref name value ((object.vars.find? name).getD .null)) :=
        respects_onSet ref (respects_note permits) (respects_modifyList permits ref) hook _ _ _
      have middle := related (store.modifyObject ref (Object.written name value))
      rcases asked : (hook.onSet ref name value ((object.vars.find? name).getD .null)).runOn
        (store.modifyObject ref (Object.written name value)) with ⟨error | _, after⟩
      · rw [asked] at middle
        exact ⟨_, after, _, Object.runOn_setVariable_of_rejected found hooked asked, middle,
          .inr ⟨error, rfl, rfl⟩⟩
      · rw [asked] at middle
        exact ⟨_, after, _, Object.runOn_setVariable_of_accepted found hooked asked, middle,
          .inl ⟨rfl, rfl⟩⟩

theorem respects_delete : Respects relation (Object.delete ref) := by
  refine Respects.bind (respects_theObject ref) fun object => ?_
  split
  · exact respects_pure ()
  · apply Respects.bind
    · exact respects_modify fun store => permits.delete store ref
    · intro _
      apply respects_get_bind
      intro store
      split
      · exact respects_onDeleted permits ref _
      · exact respects_pure ()

/-! ## New objects -/

theorem respects_create (definition : Definition) (arguments : Arguments) :
    Respects relation (Object.create definition arguments) := by
  intro store
  have hooked (ref : ObjectRef) : Respects relation (do
      (store.hook? definition.id).elim (pure ()) fun hook => hook.onCreated ref arguments
      return ref) := by
    refine Respects.bind ?_ fun _ => respects_pure ref
    cases store.hook? definition.id with
    | none => exact respects_pure ()
    | some hook => exact respects_onCreated permits ref hook arguments
  rw [Object.runOn_create_eq]
  exact trans_of relation (permits.create store definition)
    (hooked ⟨store.objects.size, definition.type⟩ _)

theorem respects_listResult (change : ListStore → ListStore) :
    Respects relation (Hook.listResult ref change) := by
  intro store
  unfold Hook.listResult
  cases found : store.object? ref with
  | none =>
      rw [runOn_bind_of_error (runOn_theObject_of_none found)]
      exact refl_of relation store
  | some object =>
      rw [runOn_bind_of_ok (runOn_theObject_of_some found)]
      cases listed : store.list? ref with
      | none =>
          rw [runOn_bind_of_error (runOn_theList_of_none listed)]
          exact refl_of relation store
      | some list =>
          rw [runOn_bind_of_ok (runOn_theList_of_some listed)]
          have isList : object.list = some list := (Store.list?_of_found found).symm.trans listed
          exact permits.copy store ref object _ found (by rw [isList]; rfl)

omit permits in
theorem respects_receiver (operator : Operator) (a : Value) :
    Respects relation (Hook.receiver operator a) := by
  apply respects_of_unchanged
  intro store
  cases a with
  | object ref =>
      by_cases isList : (store.list? ref).isSome <;> simp [Hook.receiver, runOn, isList]
  | null | integer | float | text | path | resource | proc => rfl

theorem respects_listOperator (operator : Operator) (a b : Value) :
    Respects relation (Hook.listOperator operator a b) := by
  have found : Respects relation (Hook.receiver operator a) := respects_receiver operator a
  cases operator with
  | output => exact respects_throw _
  | add | subtract =>
      apply found.bind
      intro ref
      exact respects_get_bind fun _ => respects_listResult permits ref _
  | append | remove | combine | mask =>
      apply found.bind
      intro ref
      apply respects_get_bind
      intro store
      exact (respects_modifyList permits ref _).bind fun _ => respects_pure a

theorem respects_apply (operator : Operator) (a b : Value) :
    Respects relation (operator.apply a b) := by
  cases a with
  | object ref =>
      have hooked : Respects relation (hookOf ref) :=
        (respects_theObject ref).bind fun _ => respects_get_bind fun _ => respects_pure _
      apply hooked.bind
      intro hook?
      cases hook? with
      | none => exact respects_throw _
      | some hook =>
          cases hook with
          | lists => exact respects_listOperator permits operator _ b
          | echo => exact respects_pure _
          | inert | recorder | integersOnly => exact respects_throw _
  | null | integer | float | text | path | resource | proc => exact respects_ofExcept _

/-! ## Locations -/

omit permits in
theorem respects_ensureLive : Respects relation (Location.ensureLive ref) := by
  apply respects_get_bind
  intro store
  split
  · exact respects_throw _
  · exact respects_pure ()

omit permits in
theorem respects_theGlobal : Respects relation (Location.theGlobal ref name) := by
  refine Respects.bind (respects_theObject ref) fun object => ?_
  split
  · exact respects_pure _
  · exact respects_throw _

theorem respects_read (frame : Frame) (location : Location) :
    Respects relation (location.read frame) := by
  rcases location with ⟨ref, name⟩ | index | _ | ⟨ref, index⟩ | _
  · refine Respects.bind (respects_ensureLive ref) fun _ => ?_
    refine Respects.bind (respects_getVariable? permits ref name) fun found => ?_
    cases found with
    | some value => exact respects_pure value
    | none =>
        refine Respects.bind (respects_theGlobal ref name) fun global => ?_
        exact respects_get_bind fun _ => respects_pure _
  · simp only [Location.read]
    split
    · exact respects_pure _
    · exact respects_throw _
  · exact respects_pure _
  · exact (respects_theList ref).bind fun _ => respects_ofExcept _
  · exact respects_pure _

/-- An assignment to a name leaves what writing the variable of this name leaves, if the object
has one and is not deleted. -/
theorem related_assign_variable (frame : Frame) {store : Store}
    (writes : ∀ object, Location.Alive store ref object → object.vars.has name = true →
      relation store ((Object.setVariable ref name value).runOn store).2) :
    relation store ((Location.assign frame value (.variable ref name)).runOn store).2 := by
  by_cases alive : ∃ object, Location.Alive store ref object
  · rcases alive with ⟨object, alive⟩
    cases has : object.vars.has name with
    | true =>
        have written := writes object alive has
        rw [alive.runOn_assign_of_has frame has]
        rcases run : (Object.setVariable ref name value).runOn store with ⟨error | old, after⟩
        · rw [run] at written
          rw [runOn_bind_of_error run]
          exact written
        · rw [run] at written
          rw [runOn_bind_of_ok run]
          exact written
    | false =>
        rw [alive.runOn_assign_of_lacks frame has]
        cases object.definition.globalVariable? name with
        | none => exact refl_of relation store
        | some global => exact permits.writeGlobal store global value
  · have failed : (Location.assign frame value (.variable ref name)).runOn store =
        (.error (.objectDeleted ref.type), store) :=
      runOn_bind_of_error (Location.runOn_ensureLive_of_not_alive (not_exists.mp alive)) _
    rw [failed]
    exact refl_of relation store

theorem respects_assign_of_ne (frame : Frame) {location : Location}
    (other : ∀ ref name, location ≠ .variable ref name) :
    Respects relation (location.assign frame value) := by
  rcases location with ⟨ref, name⟩ | index | _ | ⟨ref, index⟩ | _
  · exact absurd rfl (other ref name)
  · simp only [Location.assign]
    split
    · exact respects_pure _
    · exact respects_throw _
  · exact respects_throw _
  · intro store
    unfold Location.assign
    cases listed : store.list? ref with
    | none =>
        rw [runOn_bind_of_error (runOn_theList_of_none listed)]
        exact refl_of relation store
    | some list =>
        rw [runOn_bind_of_ok (runOn_theList_of_some listed)]
        cases list.set index value with
        | error error => exact refl_of relation store
        | ok changed => exact permits.fill store ref changed (by rw [listed]; rfl)
  · exact respects_pure _

end Action

end DreamWorld
