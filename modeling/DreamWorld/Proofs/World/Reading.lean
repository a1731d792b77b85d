import DreamWorld.Proofs.World.Kinds

/-!
# What locations hold

Where classes have no hook or that of lists, reading a location changes nothing, and what is
read can be said without running anything: it is looked up in the frame, in the object, in the
shared variables or in the contents of a list.  So a change to one object is seen only through
what it changes.
-/

namespace DreamWorld

/-- The classes of all objects have no hook or that of lists. -/
def Store.PlainOrLists (store : Store) : Prop :=
  ∀ ref object, store.object? ref = some object → store.AtMostLists object.definition.id

/-- What the name of a variable holds for an object whose references have the given type. -/
def Object.held (store : Store) (object : Object) (type : Path) (name : String) :
    Except RuntimeError Value :=
  if object.deleted then .error (.objectDeleted type)
  else
    match object.vars.find? name with
    | some value =>
        if store.hook? object.definition.id = some .lists ∧ name = lengthName then
          object.list.elim (.error (.notAList type)) fun list => .ok (.integer list.count)
        else .ok value
    | none =>
        (object.definition.globalVariable? name).elim (.error (.undefinedVariable name))
          fun global => .ok (store.readGlobal global)

namespace Object

variable {store : Store} {object : Object} {type : Path} {name : String} {value : Value}

theorem held_of_deleted (gone : object.deleted = true) :
    object.held store type name = .error (.objectDeleted type) :=
  if_pos gone

variable (live : object.deleted = false)

include live

theorem held_of_lacks (absent : object.vars.find? name = none) :
    object.held store type name =
      (object.definition.globalVariable? name).elim (.error (.undefinedVariable name))
        fun global => .ok (store.readGlobal global) := by
  rw [held, if_neg (Bool.eq_false_iff.mp live), absent]

/-- A variable other than the length holds its value. -/
theorem held_of_plain (found : object.vars.find? name = some value)
    (plain : store.hook? object.definition.id = some .lists → name ≠ lengthName) :
    object.held store type name = .ok value := by
  rw [held, if_neg (Bool.eq_false_iff.mp live), found]
  exact if_neg fun isLength => plain isLength.1 isLength.2

/-- The length of a list is counted, whatever the value of the variable. -/
theorem held_of_length (found : object.vars.find? lengthName = some value)
    (hooked : store.hook? object.definition.id = some .lists) :
    object.held store type lengthName =
      object.list.elim (.error (.notAList type)) fun list => .ok (.integer list.count) := by
  rw [held, if_neg (Bool.eq_false_iff.mp live), found]
  exact if_pos ⟨hooked, rfl⟩

end Object

namespace Location

/-- What a location holds. -/
def held (frame : Frame) (store : Store) : Location → Except RuntimeError Value
  | .variable ref name =>
      (store.object? ref).elim (.error (.objectDeleted ref.type))
        fun object => object.held store ref.type name
  | .localVariable index => (frame.locals[index]?).elim (.error (outOfRange frame index)) .ok
  | .proc item _ _ => .ok (.proc item)
  | .listIndex ref index =>
      (store.list? ref).elim (.error (.notAList ref.type)) fun list => list.get index
  | .returnValue => .ok frame.returnValue

variable {store : Store} {ref : ObjectRef} {object : Object} (frame : Frame)

theorem runOn_read_variable_of_not_alive (dead : ∀ object, ¬ Alive store ref object)
    (name : String) :
    (read frame (.variable ref name)).runOn store =
      (.error (.objectDeleted ref.type), store) := by
  unfold read
  exact Action.runOn_bind_of_error (runOn_ensureLive_of_not_alive dead) _

/-- The names of an object that is not deleted read as what they hold. -/
theorem Alive.runOn_read (alive : Alive store ref object)
    (atMost : store.AtMostLists object.definition.id) (name : String) :
    (read frame (.variable ref name)).runOn store =
      (object.held store ref.type name, store) := by
  cases found : object.vars.find? name with
  | none =>
      rw [alive.runOn_read_of_lacks frame (Keyed.has_eq_false_iff.mpr found),
        Object.held_of_lacks alive.live found]
  | some value =>
      have has := Keyed.has_of_find? found
      rw [alive.runOn_read_of_has frame has]
      rcases atMost with unhooked | hooked
      · rw [Object.runOn_getVariable_of_unhooked alive.found found unhooked,
          Object.held_of_plain alive.live found]
        intro hooked
        cases unhooked.symm.trans hooked
      · by_cases isLength : name = lengthName
        · subst isLength
          rw [Object.runOn_getVariable_length alive.found has hooked,
            Object.held_of_length alive.live found hooked]
        · rw [Object.runOn_getVariable_of_ne alive.found (.inr hooked) isLength, found,
            Object.held_of_plain alive.live found fun _ => isLength]
          rfl

/-- Reading a location gives what it holds, and changes nothing. -/
theorem runOn_read (plain : store.PlainOrLists) (location : Location) :
    (read frame location).runOn store = (location.held frame store, store) := by
  rcases location with ⟨ref, name⟩ | index | _ | ⟨ref, index⟩ | _
  · by_cases alive : ∃ object, Alive store ref object
    · rcases alive with ⟨object, alive⟩
      rw [alive.runOn_read frame (plain ref object alive.found), held, alive.found]
      rfl
    · have dead := not_exists.mp alive
      rw [runOn_read_variable_of_not_alive frame dead, held]
      cases found : store.object? ref with
      | none => rfl
      | some object =>
          have gone : object.deleted = true := by
            rw [← Bool.not_eq_false]
            exact fun live => dead object ⟨found, live⟩
          rw [Option.elim_some, Object.held_of_deleted gone]
  · rw [read, held]
    cases frame.locals[index]? <;> rfl
  · rfl
  · rw [read, held]
    cases listed : store.list? ref with
    | none => exact Action.runOn_bind_of_error (runOn_theList_of_none listed) _
    | some list => exact Action.runOn_bind_of_ok (runOn_theList_of_some listed) _
  · rfl

/-! ## After a change to one object -/

/-- A location is not affected by a change to an object if, in case it lies in this object, its
name holds the same and the contents are the same. -/
theorem held_modifyObject {location : Location} {change : Object → Object}
    (names : ∀ other name object, location = .variable other name →
      store.object? ref = some object → other.id = ref.id →
      (change object).held store other.type name = object.held store other.type name)
    (contents : ∀ other index object, location = .listIndex other index →
      store.object? ref = some object → other.id = ref.id →
      (change object).list = object.list) :
    location.held frame (store.modifyObject ref change) = location.held frame store := by
  rcases location with ⟨other, name⟩ | _ | _ | ⟨other, index⟩ | _
  · rw [held, held, Store.object?_modifyObject]
    split
    · rename_i here
      cases found : store.object? other with
      | none => rfl
      | some object =>
          exact names other name object rfl ((Store.object?_congr here).trans found) here.symm
    · rfl
  · rfl
  · rfl
  · rw [held, held, Store.list?, Store.object?_modifyObject, Store.list?]
    split
    · rename_i here
      cases found : store.object? other with
      | none => rfl
      | some object =>
          rw [Option.map_some, Option.bind_some, Option.bind_some,
            contents other index object rfl ((Store.object?_congr here).trans found) here.symm]
    · rfl
  · rfl

end Location

end DreamWorld
