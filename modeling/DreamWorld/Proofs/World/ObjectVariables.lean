import DreamWorld.Proofs.Keyed
import DreamWorld.Proofs.World.Action

/-!
# Variables of one object

A look-up of a variable changes nothing, whether the object has been deleted or not.  A write
changes the variable before the hook is asked, and a hook that rejects the value has the variable
put back.  The hook of lists has a say in the length only: what is read there counts the contents,
and what is written there must be an integer and makes the contents that long.
-/

namespace DreamWorld

/-- The class has no hook, or that of lists. -/
def Store.AtMostLists (store : Store) (id : ClassId) : Prop :=
  store.hook? id = none ∨ store.hook? id = some .lists

/-- The length of a list as an integer; one that is too great for this counts as the greatest. -/
def ListStore.count (list : ListStore) : Int32 :=
  (Integer.ofInt? list.length).getD (Int32.ofInt Integer.greatest)

namespace Store

/-! ## Changing one object -/

variable {store : Store} {ref : ObjectRef} {object : Object}

/-- References to one object find the same. -/
theorem object?_congr {other : ObjectRef} (here : ref.id = other.id) :
    store.object? ref = store.object? other := by
  rw [object?, here]
  rfl

theorem object?_modifyObject (store : Store) (ref other : ObjectRef) (change : Object → Object) :
    (store.modifyObject ref change).object? other =
      if ref.id = other.id then (store.object? other).map change else store.object? other :=
  Array.getElem?_modify

theorem object?_modifyObject_self (found : store.object? ref = some object)
    (change : Object → Object) :
    (store.modifyObject ref change).object? ref = some (change object) := by
  rw [object?_modifyObject, if_pos rfl, found]
  rfl

theorem modifyObject_modifyObject (store : Store) (ref : ObjectRef)
    (first second : Object → Object) :
    (store.modifyObject ref first).modifyObject ref second =
      store.modifyObject ref (second ∘ first) := by
  unfold modifyObject
  congr 1
  apply Array.ext_getElem?
  intro index
  rw [Array.getElem?_modify, Array.getElem?_modify, Array.getElem?_modify]
  split
  · rw [Option.map_map]
  · rfl

/-- A change that leaves the object as it is leaves the store as it is. -/
theorem modifyObject_eq_self (found : store.object? ref = some object) {change : Object → Object}
    (same : change object = object) : store.modifyObject ref change = store := by
  have sameObjects : store.objects.modify ref.id change = store.objects := by
    apply Array.ext_getElem?
    intro index
    rw [Array.getElem?_modify]
    split
    · rename_i here
      rw [← here, ← Store.object?, found, Option.map_some, same]
    · rfl
  rw [modifyObject, sameObjects]

theorem list?_of_found (found : store.object? ref = some object) :
    store.list? ref = object.list := by
  rw [list?, found]
  rfl

end Store

namespace Object

/-- The object with another value of a variable. -/
def written (name : String) (value : Value) (object : Object) : Object :=
  { object with vars := object.vars.insert name value }

/-- The object with a variable as it was before, with the value or without the variable. -/
def restored (name : String) (previous : Option Value) (object : Object) : Object :=
  { object with
    vars :=
      match previous with
      | some value => object.vars.insert name value
      | none => object.vars.erase name }

/-- The object, a list, with other contents. -/
def filled (list : ListStore) (object : Object) : Object :=
  { object with list := some list }

variable {store after : Store} {ref : ObjectRef} {object : Object} {name : String}
  {value : Value} {hook : Hook}

theorem find?_vars_written (object : Object) (name : String) (value : Value) :
    (object.written name value).vars.find? name = some value := by
  rw [written, Keyed.find?_insert, if_pos rfl]

theorem find?_vars_written_of_ne {other : String} (different : other ≠ name) :
    (object.written name value).vars.find? other = object.vars.find? other := by
  rw [written, Keyed.find?_insert, if_neg different.symm]

/-- A write is taken back altogether where the variables are in order. -/
theorem restored_written (ordered : object.vars.Ordered) (name : String) (value : Value) :
    (object.written name value).restored name (object.vars.find? name) = object := by
  have sameVars : ((object.written name value).restored name (object.vars.find? name)).vars =
      object.vars := by
    cases previous : object.vars.find? name with
    | none =>
        exact (Keyed.erase_insert object.vars name value).trans
          (Keyed.erase_eq_self (Keyed.has_eq_false_iff.mpr previous))
    | some old =>
        exact ((ordered.insert name value).insert name old).ext ordered
          (Keyed.find?_insert_insert previous value)
  calc
    (object.written name value).restored name (object.vars.find? name) =
        { object with
          vars := ((object.written name value).restored name (object.vars.find? name)).vars } := rfl
    _ = object := by rw [sameVars]

theorem find?_vars_restored (object : Object) (name : String) (previous : Option Value)
    (other : String) :
    (object.restored name previous).vars.find? other =
      if name = other then previous else object.vars.find? other := by
  cases previous with
  | some old => exact Keyed.find?_insert object.vars name other old
  | none => exact Keyed.find?_erase object.vars name other

/-- In any case no look-up shows a write that has been taken back. -/
theorem find?_vars_restored_written (object : Object) (name : String) (value : Value)
    (other : String) :
    ((object.written name value).restored name (object.vars.find? name)).vars.find? other =
      object.vars.find? other := by
  rw [find?_vars_restored]
  split
  · rename_i here
    rw [here]
  · rename_i different
    exact find?_vars_written_of_ne (Ne.symm different)

/-! ## Reading -/

section

variable (found : store.object? ref = some object)

include found

theorem runOn_hasVariable (name : String) :
    (hasVariable ref name).runOn store = (.ok (object.vars.has name), store) := by
  unfold hasVariable
  rw [Action.runOn_bind_of_ok (runOn_theObject_of_some found)]
  rfl

theorem runOn_variableNames :
    (variableNames ref).runOn store = (.ok object.vars.names, store) := by
  unfold variableNames
  rw [Action.runOn_bind_of_ok (runOn_theObject_of_some found)]
  rfl

theorem runOn_getVariable?_of_lacks (absent : object.vars.find? name = none) :
    (getVariable? ref name).runOn store = (.ok none, store) := by
  unfold getVariable?
  rw [Action.runOn_bind_of_ok (runOn_theObject_of_some found), absent]
  rfl

/-- A variable that the object has is read through the hook of the object's class. -/
theorem runOn_getVariable?_of_has (has : object.vars.find? name = some value) :
    (getVariable? ref name).runOn store =
      (match store.hook? object.definition.id with
        | some hook => do return some (← hook.onGet ref name value)
        | none => return some value : Action (Option Value)).runOn store := by
  unfold getVariable?
  rw [Action.runOn_bind_of_ok (runOn_theObject_of_some found), has]
  rfl

/-- A variable that the object has is found, unless its hook fails. -/
theorem runOn_getVariable?_ne (has : object.vars.has name = true) :
    (getVariable? ref name).runOn store ≠ (.ok none, after) := by
  rcases Option.isSome_iff_exists.mp has with ⟨value, present⟩
  rw [runOn_getVariable?_of_has found present]
  cases store.hook? object.definition.id with
  | none => simp
  | some hook =>
      intro nothing
      rcases answered : (hook.onGet ref name value).runOn store with ⟨outcome, middle⟩
      cases outcome with
      | ok value => cases (Action.runOn_bind_of_ok answered _).symm.trans nothing
      | error error => cases (Action.runOn_bind_of_error answered _).symm.trans nothing

theorem runOn_getVariable_of_lacks (absent : object.vars.find? name = none) :
    (getVariable ref name).runOn store = (.error (.undefinedVariable name), store) := by
  unfold getVariable
  rw [Action.runOn_bind_of_ok (runOn_getVariable?_of_lacks found absent)]
  rfl

theorem runOn_getVariable_of_unhooked (has : object.vars.find? name = some value)
    (unhooked : store.hook? object.definition.id = none) :
    (getVariable ref name).runOn store = (.ok value, store) := by
  have run := runOn_getVariable?_of_has found has
  rw [unhooked] at run
  unfold getVariable
  rw [Action.runOn_bind_of_ok run]
  rfl

/-- What the hook answers is read. -/
theorem runOn_getVariable_of_hooked {outcome : Except RuntimeError Value}
    (has : object.vars.find? name = some value)
    (hooked : store.hook? object.definition.id = some hook)
    (answered : (hook.onGet ref name value).runOn store = (outcome, store)) :
    (getVariable ref name).runOn store = (outcome, store) := by
  have run := runOn_getVariable?_of_has found has
  rw [hooked] at run
  unfold getVariable
  cases outcome with
  | error error =>
      exact Action.runOn_bind_of_error (run.trans (Action.runOn_bind_of_error answered _)) _
  | ok value =>
      exact Action.runOn_bind_of_ok (run.trans (Action.runOn_bind_of_ok answered _)) _

/-- A variable other than the length is read as it is. -/
theorem runOn_getVariable_of_ne (atMost : store.AtMostLists object.definition.id)
    (different : name ≠ lengthName) :
    (getVariable ref name).runOn store =
      ((object.vars.find? name).elim (.error (.undefinedVariable name)) .ok, store) := by
  cases has : object.vars.find? name with
  | none => exact runOn_getVariable_of_lacks found has
  | some value =>
      rcases atMost with unhooked | hooked
      · exact runOn_getVariable_of_unhooked found has unhooked
      · apply runOn_getVariable_of_hooked found has hooked
        unfold Hook.onGet
        dsimp only
        rw [if_neg different]
        rfl

/-- The length of a list is read from its contents. -/
theorem runOn_getVariable_length (has : object.vars.has lengthName = true)
    (hooked : store.hook? object.definition.id = some .lists) :
    (getVariable ref lengthName).runOn store =
      (object.list.elim (.error (.notAList ref.type)) fun list => .ok (.integer list.count),
        store) := by
  rcases Option.isSome_iff_exists.mp has with ⟨value, present⟩
  apply runOn_getVariable_of_hooked found present hooked
  unfold Hook.onGet
  dsimp only
  rw [if_pos rfl]
  have sameList := Store.list?_of_found found
  cases listed : object.list with
  | none => exact Action.runOn_bind_of_error (runOn_theList_of_none (sameList.trans listed)) _
  | some list => exact Action.runOn_bind_of_ok (runOn_theList_of_some (sameList.trans listed)) _

end

end Object

/-! ## What the hook of lists does when a variable is written -/

namespace Hook

variable {store : Store} {ref : ObjectRef} {name : String} {new : Value}

/-- The hook of lists lets any variable be written but the length. -/
theorem runOn_onSet_of_ne (different : name ≠ lengthName) (ref : ObjectRef) (new old : Value)
    (store : Store) : (onSet .lists ref name new old).runOn store = (.ok (), store) := by
  unfold onSet
  dsimp only
  rw [if_neg different]
  rfl

theorem onSet_length (ref : ObjectRef) (new old : Value) :
    onSet .lists ref lengthName new old =
      (do
        let length ← Action.ofExcept new.asInteger
        modifyList ref (·.resize (requestedLength length)) : Action Unit) := by
  unfold onSet
  dsimp only
  rw [if_pos rfl]

/-- The hook of lists gives a list the length that is written, if this is an integer. -/
theorem runOn_onSet_of_list {list : ListStore} (listed : store.list? ref = some list)
    (length : Int32) (old : Value) :
    (onSet .lists ref lengthName (.integer length) old).runOn store =
      (.ok (), store.modifyObject ref
        (Object.filled (list.resize (requestedLength length)))) := by
  have asked : (Value.integer length).asInteger = .ok length := rfl
  rw [onSet_length, asked, Action.runOn_bind_of_ok (Action.runOn_ofExcept _ _)]
  exact runOn_modifyList_of_some listed _

/-- Otherwise the hook rejects what is written to the length, and does nothing. -/
theorem runOn_onSet_of_rejected (unfit : store.list? ref = none ∨ ∀ length, new ≠ .integer length)
    (old : Value) :
    ∃ error, (onSet .lists ref lengthName new old).runOn store = (.error error, store) := by
  rw [onSet_length]
  cases asked : new.asInteger with
  | error error =>
      exact ⟨error, Action.runOn_bind_of_error (Action.runOn_ofExcept _ _) _⟩
  | ok length =>
      rw [Action.runOn_bind_of_ok (Action.runOn_ofExcept _ _)]
      rcases unfit with unlisted | other
      · exact ⟨_, runOn_modifyList_of_none unlisted _⟩
      · cases new with
        | integer number => exact absurd rfl (other number)
        | null | float | text | path | resource | object | proc => cases asked

end Hook

/-! ## Writing -/

namespace Object

variable {store after : Store} {ref : ObjectRef} {object : Object} {name : String}
  {value : Value} {error : RuntimeError} {hook : Hook}

section

variable (found : store.object? ref = some object)

include found

/-- The variable is written before the hook is asked. -/
theorem runOn_setVariable (name : String) (value : Value) :
    (setVariable ref name value).runOn store =
      (match store.hook? object.definition.id with
        | none => return (object.vars.find? name).getD .null
        | some hook => do
            tryCatch (hook.onSet ref name value ((object.vars.find? name).getD .null))
              fun error => do
                restoreVariable ref name (object.vars.find? name)
                throw error
            return (object.vars.find? name).getD .null : Action Value).runOn
          (store.modifyObject ref (written name value)) := by
  unfold setVariable
  rw [Action.runOn_bind_of_ok (runOn_theObject_of_some found)]
  rfl

theorem runOn_setVariable_of_unhooked (unhooked : store.hook? object.definition.id = none)
    (name : String) (value : Value) :
    (setVariable ref name value).runOn store =
      (.ok ((object.vars.find? name).getD .null),
        store.modifyObject ref (written name value)) := by
  rw [runOn_setVariable found, unhooked]
  rfl

theorem runOn_setVariable_of_accepted (hooked : store.hook? object.definition.id = some hook)
    (accepted : (hook.onSet ref name value ((object.vars.find? name).getD .null)).runOn
      (store.modifyObject ref (written name value)) = (.ok (), after)) :
    (setVariable ref name value).runOn store =
      (.ok ((object.vars.find? name).getD .null), after) := by
  rw [runOn_setVariable found, hooked]
  exact Action.runOn_bind_of_ok (Action.runOn_tryCatch_of_ok accepted _) _

/-- If the hook rejects the value, the variable is as it was before. -/
theorem runOn_setVariable_of_rejected (hooked : store.hook? object.definition.id = some hook)
    (rejected : (hook.onSet ref name value ((object.vars.find? name).getD .null)).runOn
      (store.modifyObject ref (written name value)) = (.error error, after)) :
    (setVariable ref name value).runOn store =
      (.error error, after.modifyObject ref (restored name (object.vars.find? name))) := by
  rw [runOn_setVariable found, hooked]
  refine Action.runOn_bind_of_error ?_ _
  rw [Action.runOn_tryCatch_of_error rejected]
  rfl

end

/-- What it can come to when a variable of an object is written, and the store that it leaves. -/
inductive VariableWritten (store : Store) (ref : ObjectRef) (object : Object) (name : String)
    (value : Value) : Except RuntimeError Value → Store → Prop
  | slot : (store.hook? object.definition.id = some .lists → name ≠ lengthName) →
      VariableWritten store ref object name value (.ok ((object.vars.find? name).getD .null))
        (store.modifyObject ref (written name value))
  | length {list : ListStore} {length : Int32} :
      store.hook? object.definition.id = some .lists → name = lengthName →
      object.list = some list → value = .integer length →
      VariableWritten store ref object name value (.ok ((object.vars.find? name).getD .null))
        (store.modifyObject ref
          (filled (list.resize (Hook.requestedLength length)) ∘ written name value))
  | rejected (error : RuntimeError) :
      store.hook? object.definition.id = some .lists → name = lengthName →
      (∀ list length, object.list = some list → value ≠ .integer length) →
      VariableWritten store ref object name value (.error error)
        (store.modifyObject ref (restored name (object.vars.find? name) ∘ written name value))

/-- Writing a variable does nothing else than what is listed. -/
theorem exists_variableWritten (found : store.object? ref = some object)
    (atMost : store.AtMostLists object.definition.id) (name : String) (value : Value) :
    ∃ outcome after, (setVariable ref name value).runOn store = (outcome, after) ∧
      VariableWritten store ref object name value outcome after := by
  rcases atMost with unhooked | hooked
  · refine ⟨_, _, runOn_setVariable_of_unhooked found unhooked name value, .slot ?_⟩
    intro hooked
    cases unhooked.symm.trans hooked
  · by_cases isLength : name = lengthName
    · subst isLength
      have foundAfter := Store.object?_modifyObject_self found (written lengthName value)
      have sameList : (store.modifyObject ref (written lengthName value)).list? ref =
          object.list :=
        (Store.list?_of_found foundAfter).trans rfl
      by_cases fits : ∃ list length, object.list = some list ∧ value = .integer length
      · rcases fits with ⟨list, length, listEq, rfl⟩
        have run := runOn_setVariable_of_accepted found hooked
          (Hook.runOn_onSet_of_list (sameList.trans listEq) length _)
        rw [Store.modifyObject_modifyObject] at run
        exact ⟨_, _, run, .length hooked rfl listEq rfl⟩
      · have unfit : (store.modifyObject ref (written lengthName value)).list? ref = none ∨
            ∀ length, value ≠ .integer length := by
          rw [sameList]
          cases listEq : object.list with
          | none => exact .inl rfl
          | some list => exact .inr fun length same => fits ⟨list, length, listEq, same⟩
        rcases Hook.runOn_onSet_of_rejected unfit _ with ⟨error, rejected⟩
        have run := runOn_setVariable_of_rejected found hooked rejected
        rw [Store.modifyObject_modifyObject] at run
        exact ⟨_, _, run, .rejected error hooked rfl fun list length listEq same =>
          fits ⟨list, length, listEq, same⟩⟩
    · exact ⟨_, _, runOn_setVariable_of_accepted found hooked
        (Hook.runOn_onSet_of_ne isLength ref value _ _), .slot fun _ => isLength⟩

end Object

end DreamWorld
