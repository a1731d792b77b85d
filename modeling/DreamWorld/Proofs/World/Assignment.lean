import DreamWorld.Proofs.World.Reading

/-!
# What assignments do

Where classes have no hook or that of lists, an assignment does one of a few things.  It writes
a slot of the frame, a shared variable, a variable of an object or an element of a list, or it
gives a list another length.  If it fails it leaves everything as it was, up to a variable that
was written and then put back because the hook of lists had rejected the value.
-/

namespace DreamWorld

theorem Store.PlainOrLists.modifyObject {store : Store} (plain : store.PlainOrLists)
    {ref : ObjectRef} {change : Object → Object}
    (same : ∀ object, (change object).definition = object.definition) :
    (store.modifyObject ref change).PlainOrLists := by
  intro other object found
  rw [object?_modifyObject] at found
  split at found
  · rcases Option.map_eq_some_iff.mp found with ⟨before, beforeFound, rfl⟩
    rw [same]
    exact plain other before beforeFound
  · exact plain other object found

theorem Store.list?_filled {store : Store} {ref : ObjectRef} {list : ListStore}
    (listed : store.list? ref = some list) (changed : ListStore) :
    (store.modifyObject ref (Object.filled changed)).list? ref = some changed := by
  rw [list?, object?_modifyObject, if_pos rfl]
  cases found : store.object? ref with
  | none =>
      rw [list?, found] at listed
      cases listed
  | some object => rfl

/-! ## What an assignment can do -/

namespace Location

/-- A name that stands for a shared variable: the object is not deleted and does not have a
variable of this name itself. -/
def NamesShared (store : Store) (ref : ObjectRef) (name : String) (global : GlobalVariable) :
    Prop :=
  ∃ object, Alive store ref object ∧ object.vars.has name = false ∧
    object.definition.globalVariable? name = some global

/-- The location is the length of a list whose class has the hook of lists: to read it counts
the contents, and to assign to it changes them. -/
inductive IsLength (store : Store) : Location → Prop
  | intro {ref : ObjectRef} {object : Object} {list : ListStore} :
      Alive store ref object → object.vars.has lengthName = true →
      store.hook? object.definition.id = some .lists → object.list = some list →
      IsLength store (.variable ref lengthName)

/-- What an assignment to a location can come to, and the store that it leaves. -/
inductive Assigned (frame : Frame) (value : Value) (store : Store) :
    Location → Except RuntimeError Frame → Store → Prop
  | refused {location : Location} (error : RuntimeError) :
      Assigned frame value store location (.error error) store
  | localVariable {index : Nat} : index < frame.locals.length →
      Assigned frame value store (.localVariable index)
        (.ok { frame with locals := frame.locals.set index value }) store
  | returnValue :
      Assigned frame value store .returnValue (.ok { frame with returnValue := value }) store
  | shared {ref : ObjectRef} {name : String} {global : GlobalVariable} :
      NamesShared store ref name global →
      Assigned frame value store (.variable ref name) (.ok frame) (store.writeGlobal global value)
  | own {ref : ObjectRef} {name : String} {object : Object} :
      Alive store ref object → object.vars.has name = true →
      (store.hook? object.definition.id = some .lists → name ≠ lengthName) →
      Assigned frame value store (.variable ref name) (.ok frame)
        (store.modifyObject ref (Object.written name value))
  | length {ref : ObjectRef} {object : Object} {list : ListStore} {length : Int32} :
      Alive store ref object → object.vars.has lengthName = true →
      store.hook? object.definition.id = some .lists → object.list = some list →
      value = .integer length →
      Assigned frame value store (.variable ref lengthName) (.ok frame)
        (store.modifyObject ref
          (Object.filled (list.resize (Hook.requestedLength length)) ∘
            Object.written lengthName value))
  | rejected {ref : ObjectRef} {name : String} {object : Object} {old : Value}
      (error : RuntimeError) :
      Alive store ref object → object.vars.find? name = some old →
      Assigned frame value store (.variable ref name) (.error error)
        (store.modifyObject ref (Object.written name old ∘ Object.written name value))
  | element {ref : ObjectRef} {index : Value} {list changed : ListStore} :
      store.list? ref = some list → list.set index value = .ok changed →
      Assigned frame value store (.listIndex ref index) (.ok frame)
        (store.modifyObject ref (Object.filled changed))

variable {store : Store} {ref : ObjectRef} {object : Object} {name : String} (frame : Frame)
  (value : Value)

/-- After a variable of the object has been written, the frame is as it was. -/
theorem Alive.runOn_assign_of_ok {old : Value} {after : Store} (alive : Alive store ref object)
    (has : object.vars.has name = true)
    (run : (Object.setVariable ref name value).runOn store = (.ok old, after)) :
    (assign frame value (.variable ref name)).runOn store = (.ok frame, after) := by
  rw [alive.runOn_assign_of_has frame has, Action.runOn_bind_of_ok run]
  rfl

theorem Alive.runOn_assign_of_error {error : RuntimeError} {after : Store}
    (alive : Alive store ref object) (has : object.vars.has name = true)
    (run : (Object.setVariable ref name value).runOn store = (.error error, after)) :
    (assign frame value (.variable ref name)).runOn store = (.error error, after) := by
  rw [alive.runOn_assign_of_has frame has, Action.runOn_bind_of_error run]

/-- An assignment to a variable that the object has. -/
theorem Alive.assigned_of_has (alive : Alive store ref object)
    (atMost : store.AtMostLists object.definition.id) (has : object.vars.has name = true) :
    ∃ outcome after, (assign frame value (.variable ref name)).runOn store = (outcome, after) ∧
      Assigned frame value store (.variable ref name) outcome after := by
  rcases Object.exists_variableWritten alive.found atMost name value with
    ⟨outcome, after, run, written⟩
  cases written with
  | slot plain =>
      exact ⟨_, _, alive.runOn_assign_of_ok frame value has run, .own alive has plain⟩
  | length hooked isLength listEq valueEq =>
      subst isLength
      exact ⟨_, _, alive.runOn_assign_of_ok frame value has run,
        .length alive has hooked listEq valueEq⟩
  | rejected error =>
      rcases Option.isSome_iff_exists.mp has with ⟨old, found⟩
      rw [found] at run
      exact ⟨_, _, alive.runOn_assign_of_error frame value has run, .rejected error alive found⟩

/-- An assignment to a variable that the object does not have. -/
theorem Alive.assigned_of_lacks (alive : Alive store ref object)
    (lacks : object.vars.has name = false) :
    ∃ outcome after, (assign frame value (.variable ref name)).runOn store = (outcome, after) ∧
      Assigned frame value store (.variable ref name) outcome after := by
  rw [alive.runOn_assign_of_lacks frame lacks]
  cases found : object.definition.globalVariable? name with
  | none => exact ⟨_, _, rfl, .refused _⟩
  | some global => exact ⟨_, _, rfl, .shared ⟨object, alive, lacks, found⟩⟩

/-- An assignment does nothing else than what is listed. -/
theorem exists_assigned (plain : store.PlainOrLists) (location : Location) :
    ∃ outcome after, (assign frame value location).runOn store = (outcome, after) ∧
      Assigned frame value store location outcome after := by
  rcases location with ⟨ref, name⟩ | index | _ | ⟨ref, index⟩ | _
  · by_cases alive : ∃ object, Alive store ref object
    · rcases alive with ⟨object, alive⟩
      cases has : object.vars.has name with
      | true => exact alive.assigned_of_has frame value (plain ref object alive.found) has
      | false => exact alive.assigned_of_lacks frame value has
    · have dead := runOn_ensureLive_of_not_alive (not_exists.mp alive)
      refine ⟨_, _, ?_, .refused (.objectDeleted ref.type)⟩
      rw [assign]
      exact Action.runOn_bind_of_error dead _
  · rw [assign]
    by_cases inRange : index < frame.locals.length
    · rw [if_pos inRange]
      exact ⟨_, _, rfl, .localVariable inRange⟩
    · rw [if_neg inRange]
      exact ⟨_, _, rfl, .refused _⟩
  · exact ⟨_, _, rfl, .refused _⟩
  · rw [assign]
    cases listed : store.list? ref with
    | none =>
        exact ⟨_, _, Action.runOn_bind_of_error (runOn_theList_of_none listed) _, .refused _⟩
    | some list =>
        rw [Action.runOn_bind_of_ok (runOn_theList_of_some listed)]
        cases changed : list.set index value with
        | error error =>
            exact ⟨_, _, Action.runOn_bind_of_error (Action.runOn_ofExcept _ _) _, .refused _⟩
        | ok changed =>
            exact ⟨_, _, Action.runOn_bind_of_ok (Action.runOn_ofExcept _ _) _,
              .element listed ‹_›⟩
  · exact ⟨_, _, rfl, .returnValue⟩

end Location

end DreamWorld
