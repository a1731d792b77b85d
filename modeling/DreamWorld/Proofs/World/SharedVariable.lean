import DreamWorld.Proofs.World.ObjectVariables
import DreamWorld.Proofs.World.Private

/-!
# Shared variables

A write of a shared variable changes what is read under its class and name, and nothing
else.  A name stands for a shared variable of an object exactly if the object has no
variable of that name itself.  Then a read and an assignment go to the shared variable
of the nearest class that declares one; otherwise they are private to the object.
-/

namespace DreamWorld

namespace Store

/-- Forgetting what is kept of one shared variable leaves the others. -/
theorem lookup_filter_of_ne (globals : List ((ClassId × String) × Value))
    {cell forgotten : ClassId × String} (different : cell ≠ forgotten) :
    (globals.filter fun entry => !(entry.1 == forgotten)).lookup cell = globals.lookup cell := by
  induction globals with
  | nil => rfl
  | cons entry rest ih =>
      rcases entry with ⟨other, old⟩
      by_cases here : other = forgotten
      · subst here
        have passed : (cell == other) = false := by simpa using different
        simpa [List.lookup_cons, passed] using ih
      · by_cases found : cell = other <;> simp_all [List.lookup_cons]

theorem lookup_writeGlobal (store : Store) (global : GlobalVariable) (value : Value)
    (cell : ClassId × String) :
    (store.writeGlobal global value).globals.lookup cell =
      if cell = global.cell then some value else store.globals.lookup cell := by
  unfold writeGlobal
  rw [List.lookup_cons]
  by_cases same : cell = global.cell
  · simp [same]
  · have passed : (cell == global.cell) = false := by simpa using same
    rw [passed, if_neg same]
    exact lookup_filter_of_ne store.globals same

/-- A write is seen under its class and name, and nowhere else. -/
theorem readGlobal_writeGlobal (store : Store) (global other : GlobalVariable) (value : Value) :
    (store.writeGlobal global value).readGlobal other =
      if other.cell = global.cell then value else store.readGlobal other := by
  unfold readGlobal
  rw [lookup_writeGlobal]
  split <;> rfl

end Store

namespace Location

variable {store : Store} {ref : ObjectRef} {object : Object} {name : String} (frame : Frame)

/-- An object that is not deleted. -/
structure Alive (store : Store) (ref : ObjectRef) (object : Object) : Prop where
  found : store.object? ref = some object
  live : object.deleted = false

theorem Alive.runOn_ensureLive (alive : Alive store ref object) :
    (ensureLive ref).runOn store = (.ok (), store) := by
  have present : store.isDeleted ref = false := by
    rw [Store.isDeleted, alive.found]
    exact alive.live
  have run : (ensureLive ref).runOn store =
      (if store.isDeleted ref then throw (.objectDeleted ref.type) else pure () : Action Unit).runOn
        store := rfl
  rw [run, present]
  rfl

/-- A reference to anything else gives no access to variables. -/
theorem runOn_ensureLive_of_not_alive (dead : ∀ object, ¬ Alive store ref object) :
    (ensureLive ref).runOn store = (.error (.objectDeleted ref.type), store) := by
  have gone : store.isDeleted ref = true := by
    rw [Store.isDeleted]
    cases found : store.object? ref with
    | none => rfl
    | some object =>
        cases live : object.deleted with
        | false => exact absurd ⟨found, live⟩ (dead object)
        | true => exact live
  have run : (ensureLive ref).runOn store =
      (if store.isDeleted ref then throw (.objectDeleted ref.type) else pure () : Action Unit).runOn
        store := rfl
  rw [run, gone]
  rfl

theorem Alive.runOn_theGlobal (alive : Alive store ref object) (name : String) :
    (theGlobal ref name).runOn store =
      ((object.definition.globalVariable? name).elim (.error (.undefinedVariable name)) .ok,
        store) := by
  unfold theGlobal
  rw [Action.runOn_bind_of_ok (runOn_theObject_of_some alive.found)]
  cases object.definition.globalVariable? name <;> rfl

/-! ## Names of shared variables -/

variable (alive : Alive store ref object)

include alive

theorem Alive.runOn_read_of_lacks (lacks : object.vars.has name = false) :
    (read frame (.variable ref name)).runOn store =
      ((object.definition.globalVariable? name).elim (.error (.undefinedVariable name))
        fun global => .ok (store.readGlobal global), store) := by
  have absent : object.vars.find? name = none := by
    rwa [Keyed.has, Option.isSome_eq_false_iff, Option.isNone_iff_eq_none] at lacks
  have nothing := Object.runOn_getVariable?_of_lacks alive.found absent
  have global := alive.runOn_theGlobal name
  unfold read
  rw [Action.runOn_bind_of_ok alive.runOn_ensureLive, Action.runOn_bind_of_ok nothing]
  cases found : object.definition.globalVariable? name with
  | none =>
      rw [found] at global
      exact Action.runOn_bind_of_error global _
  | some shared =>
      rw [found] at global
      exact Action.runOn_bind_of_ok global _

theorem Alive.runOn_assign_of_lacks (lacks : object.vars.has name = false) (value : Value) :
    (assign frame value (.variable ref name)).runOn store =
      (object.definition.globalVariable? name).elim (.error (.undefinedVariable name), store)
        fun global => (.ok frame, store.writeGlobal global value) := by
  have global := alive.runOn_theGlobal name
  have has := Object.runOn_hasVariable alive.found name
  rw [lacks] at has
  unfold assign
  rw [Action.runOn_bind_of_ok alive.runOn_ensureLive, Action.runOn_bind_of_ok has]
  cases found : object.definition.globalVariable? name with
  | none =>
      rw [found] at global
      exact Action.runOn_bind_of_error global _
  | some shared =>
      rw [found] at global
      exact Action.runOn_bind_of_ok global _

/-! ## Names of variables of the object -/

/-- Reading a variable that the object has does not go to shared variables. -/
theorem Alive.runOn_read_of_has (has : object.vars.has name = true) :
    (read frame (.variable ref name)).runOn store = (Object.getVariable ref name).runOn store := by
  unfold read Object.getVariable
  rw [Action.runOn_bind_of_ok alive.runOn_ensureLive]
  rcases run : (Object.getVariable? ref name).runOn store with ⟨outcome, after⟩
  cases outcome with
  | error error => rw [Action.runOn_bind_of_error run, Action.runOn_bind_of_error run]
  | ok found =>
      rw [Action.runOn_bind_of_ok run, Action.runOn_bind_of_ok run]
      cases found with
      | some value => rfl
      | none => exact absurd run (Object.runOn_getVariable?_ne alive.found has)

omit alive in
theorem private_setVariable_return (ref : ObjectRef) (name : String) (value : Value) :
    Action.Private (do let _ ← Object.setVariable ref name value; return frame) :=
  (Action.private_setVariable ref name value).bind fun _ => Action.private_pure frame

theorem Alive.runOn_assign_of_has (has : object.vars.has name = true) (value : Value) :
    (assign frame value (.variable ref name)).runOn store =
      (do let _ ← Object.setVariable ref name value; return frame : Action Frame).runOn store := by
  have run := Object.runOn_hasVariable alive.found name
  rw [has] at run
  unfold assign
  rw [Action.runOn_bind_of_ok alive.runOn_ensureLive, Action.runOn_bind_of_ok run]
  rfl

end Location

end DreamWorld
