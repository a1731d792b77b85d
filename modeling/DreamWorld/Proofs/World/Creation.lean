import DreamWorld.Proofs.Keyed
import DreamWorld.Proofs.World.SharedVariable
import DreamWorld.Report

/-!
# New objects of plain classes and of lists

A class without a hook lets any object be created, read and shown.  The hook of lists
expects the object to be a list in two places only: when a single ordered integer asks for
its length, and when its length is read.  So creating and showing an object fail exactly
there, where the object is not a list.
-/

namespace DreamWorld

/-- The length that arguments ask a list to have: a single ordered integer. -/
def Arguments.listLength? (arguments : Arguments) : Option Int32 :=
  match arguments.ordered, arguments.named with
  | [.integer length], [] => some length
  | _, _ => none

/-! ## What the hook of lists asks for -/

theorem Hook.onCreated_lists (ref : ObjectRef) (arguments : Arguments) :
    onCreated .lists ref arguments = arguments.listLength?.elim (pure ())
      fun length => modifyList ref (·.resize (requestedLength length)) := by
  unfold onCreated
  dsimp only
  split
  · rename_i orderedEq namedEq
    rw [Arguments.listLength?, orderedEq, namedEq]
    rfl
  · rename_i others
    have unasked : arguments.listLength? = none := by
      unfold Arguments.listLength?
      split
      · rename_i orderedEq namedEq
        exact (others _ orderedEq namedEq).elim
      · rfl
    rw [unasked]
    rfl

namespace Object

variable {store made : Store} {definition : Definition} {object : Object} {arguments : Arguments}

/-- A new object of a class, before its hook is asked. -/
def newborn (definition : Definition) : Object :=
  Object.fresh definition (listStorage definition)

/-- A new object is a list if its class is one of lists. -/
theorem isSome_list_newborn (definition : Definition) :
    (newborn definition).list.isSome = definition.isSubtypeOf Path.listClass := by
  change (listStorage definition).isSome = _
  unfold listStorage
  cases definition.isSubtypeOf Path.listClass <;> rfl

/-- An object that is not a list is born with the defaults of its class. -/
theorem vars_newborn_of_not_list (isNot : definition.isSubtypeOf Path.listClass = false) :
    (newborn definition).vars = definition.variableDefaults := by
  unfold newborn listStorage
  rw [isNot]
  rfl

/-- The hook of lists is asked for the length of an object that is not a list. -/
def Refused (store : Store) (definition : Definition) (arguments : Arguments) : Prop :=
  store.hook? definition.id = some .lists ∧
    definition.isSubtypeOf Path.listClass = false ∧ arguments.listLength? ≠ none

/-- An object of a class has been added to a store.  It has the variables that it is born
with, it is a list if its class is one of lists, and no hook has changed. -/
structure Born (definition : Definition) (store made : Store) (object : Object) : Prop where
  alive : Location.Alive made ⟨store.objects.size, definition.type⟩ object
  definition_eq : object.definition = definition
  vars_eq : object.vars = (newborn definition).vars
  isSome_list : object.list.isSome = definition.isSubtypeOf Path.listClass
  hooks_eq : made.hooks = store.hooks

theorem born_newborn (definition : Definition) (store : Store) :
    Born definition store (store.addObject (newborn definition)).2 (newborn definition) where
  alive := ⟨Array.getElem?_push_size, rfl⟩
  definition_eq := rfl
  vars_eq := rfl
  isSome_list := isSome_list_newborn definition
  hooks_eq := rfl

theorem Born.hook?_eq (born : Born definition store made object) (id : ClassId) :
    made.hook? id = store.hook? id := by
  rw [Store.hook?, Store.hook?, born.hooks_eq]

theorem Born.atMostLists (born : Born definition store made object)
    (atMost : store.AtMostLists definition.id) : made.AtMostLists object.definition.id := by
  rw [born.definition_eq, Store.AtMostLists, born.hook?_eq]
  exact atMost

/-- A list stays what it was born as when its contents are set. -/
theorem Born.setContents (born : Born definition store made object)
    (isList : definition.isSubtypeOf Path.listClass = true) (list : ListStore) :
    Born definition store
      (made.modifyObject ⟨store.objects.size, definition.type⟩
        fun object => { object with list := some list })
      { object with list := some list } where
  alive := by
    refine ⟨?_, born.alive.live⟩
    have found := born.alive.found
    unfold Store.object? at found ⊢
    rw [Store.modifyObject, Array.getElem?_modify, if_pos rfl, found]
    rfl
  definition_eq := born.definition_eq
  vars_eq := born.vars_eq
  isSome_list := isList.symm
  hooks_eq := born.hooks_eq

/-! ## Creating -/

/-- The hook is asked about a new object that the store holds already. -/
theorem runOn_create_eq (store : Store) (definition : Definition) (arguments : Arguments) :
    (create definition arguments).runOn store =
      (do
        (store.hook? definition.id).elim (pure ()) fun hook =>
          hook.onCreated ⟨store.objects.size, definition.type⟩ arguments
        return ⟨store.objects.size, definition.type⟩ : Action ObjectRef).runOn
          (store.addObject (newborn definition)).2 := by
  have sameHook : (store.addObject (newborn definition)).2.hook? definition.id =
    store.hook? definition.id := rfl
  unfold create
  rw [Action.runOn_bind_of_ok (?added : _ = (Except.ok ⟨store.objects.size, definition.type⟩,
    (store.addObject (newborn definition)).2)), Action.runOn_get_bind, sameHook]
  · cases store.hook? definition.id <;> rfl
  · rfl

theorem runOn_create_of_unhooked (unhooked : store.hook? definition.id = none)
    (arguments : Arguments) :
    (create definition arguments).runOn store =
      (.ok ⟨store.objects.size, definition.type⟩, (store.addObject (newborn definition)).2) := by
  rw [runOn_create_eq, unhooked]
  rfl

/-- The hook of lists creates an object unless it asks for a length in vain. -/
theorem runOn_create_of_hooked (hooked : store.hook? definition.id = some .lists) :
    (create definition arguments).runOn store =
      (do
        arguments.listLength?.elim (pure ()) fun length =>
          modifyList ⟨store.objects.size, definition.type⟩ (·.resize (Hook.requestedLength length))
        return ⟨store.objects.size, definition.type⟩ : Action ObjectRef).runOn
          (store.addObject (newborn definition)).2 := by
  rw [runOn_create_eq, hooked, Option.elim_some, Hook.onCreated_lists]

/-- Unless it is refused, an object of a class that has no hook or that of lists is
created. -/
theorem exists_born_of_not_refused (atMost : store.AtMostLists definition.id)
    (accepted : ¬ Refused store definition arguments) :
    ∃ made object, (create definition arguments).runOn store =
        (.ok ⟨store.objects.size, definition.type⟩, made) ∧
      Born definition store made object := by
  have born := born_newborn definition store
  rcases atMost with unhooked | hooked
  · exact ⟨_, _, runOn_create_of_unhooked unhooked arguments, born⟩
  · rw [runOn_create_of_hooked hooked]
    cases asked : arguments.listLength? with
    | none => exact ⟨_, _, rfl, born⟩
    | some length =>
        -- Here alone the hook needs a list, and the class gives one as it is not refused.
        have isList : definition.isSubtypeOf Path.listClass = true := by
          rw [← Bool.not_eq_false]
          exact fun isNot => accepted ⟨hooked, isNot, asked ▸ Option.some_ne_none length⟩
        rcases Option.isSome_iff_exists.mp (born.isSome_list.trans isList) with ⟨list, listed⟩
        refine ⟨_, _, ?_, born.setContents isList (list.resize (Hook.requestedLength length))⟩
        exact Action.runOn_bind_of_ok
          (runOn_modifyList_of_some ((Store.list?_of_found born.alive.found).trans listed) _) _

theorem runOn_create_of_refused (refused : Refused store definition arguments) :
    ((create definition arguments).runOn store).1 = .error (.notAList definition.type) := by
  rcases refused with ⟨hooked, isNot, asked⟩
  rcases Option.ne_none_iff_exists'.mp asked with ⟨length, askedEq⟩
  have born := born_newborn definition store
  have unlisted : (newborn definition).list = none := by
    rw [← Option.not_isSome_iff_eq_none, born.isSome_list, isNot]
    exact Bool.false_ne_true
  rw [runOn_create_of_hooked hooked, askedEq]
  exact congrArg Prod.fst (Action.runOn_bind_of_error
    (runOn_modifyList_of_none ((Store.list?_of_found born.alive.found).trans unlisted) _) _)

/-- What has been created with success was not refused. -/
theorem exists_born_of_runOn_create {ref : ObjectRef} (atMost : store.AtMostLists definition.id)
    (run : (create definition arguments).runOn store = (.ok ref, made)) :
    ref = ⟨store.objects.size, definition.type⟩ ∧ ∃ object, Born definition store made object := by
  have accepted : ¬ Refused store definition arguments := by
    intro refused
    cases (congrArg Prod.fst run).symm.trans (runOn_create_of_refused refused)
  rcases exists_born_of_not_refused atMost accepted with ⟨_, object, otherRun, born⟩
  cases run.symm.trans otherRun
  exact ⟨rfl, object, born⟩

/-- Lists are never refused. -/
theorem exists_list_of_isSubtypeOf (atMost : store.AtMostLists definition.id)
    (isList : definition.isSubtypeOf Path.listClass = true) (arguments : Arguments) :
    ∃ ref made, (create definition arguments).runOn store = (.ok ref, made) ∧
      (made.list? ref).isSome = true := by
  have accepted : ¬ Refused store definition arguments := by
    rintro ⟨_, isNot, _⟩
    cases isList.symm.trans isNot
  rcases exists_born_of_not_refused atMost accepted with ⟨made, object, run, born⟩
  exact ⟨_, made, run, by rw [Store.list?_of_found born.alive.found, born.isSome_list, isList]⟩

/-- If a class of lists has the hook of lists, so do the lists created from it. -/
theorem Born.hooked (born : Born definition store made object)
    (hooked : definition.isSubtypeOf Path.listClass = true →
      store.hook? definition.id = some .lists) :
    object.list.isSome = object.definition.isSubtypeOf Path.listClass ∧
      (object.list.isSome = true → made.hook? object.definition.id = some .lists) := by
  rw [born.isSome_list, born.definition_eq, born.hook?_eq]
  exact ⟨rfl, hooked⟩

/-- The hook of lists is asked for the length of an object that has such a variable but is
not a list. -/
def Unreadable (store : Store) (object : Object) : Prop :=
  store.hook? object.definition.id = some .lists ∧ object.list = none ∧
    object.vars.has lengthName = true

/-- A new object is unreadable if its class has the hook of lists and a variable for the
length, but is not one of lists. -/
theorem Born.unreadable_iff (born : Born definition store made object) :
    object.Unreadable made ↔ store.hook? definition.id = some .lists ∧
      definition.isSubtypeOf Path.listClass = false ∧
      definition.variableDefaults.has lengthName = true := by
  have unlisted : object.list = none ↔ definition.isSubtypeOf Path.listClass = false := by
    rw [← born.isSome_list, Option.isSome_eq_false_iff, Option.isNone_iff_eq_none]
  unfold Unreadable
  rw [born.definition_eq, born.hook?_eq, unlisted, born.vars_eq]
  refine and_congr_right fun _ => and_congr_right fun isNot => ?_
  rw [vars_newborn_of_not_list isNot]

end Object

/-! ## Reading and showing -/

namespace Location.Alive

variable {store : Store} {ref : ObjectRef} {object : Object} {name : String} {value : Value}
  (alive : Alive store ref object)

include alive

/-- Every variable that an object has is read, unless it is the length of something that is
not a list. -/
theorem runOn_getVariable_cases (atMost : store.AtMostLists object.definition.id)
    (has : object.vars.has name = true) :
    (∃ value, (Object.getVariable ref name).runOn store = (.ok value, store)) ∨
      object.Unreadable store ∧ name = lengthName ∧
        (Object.getVariable ref name).runOn store = (.error (.notAList ref.type), store) := by
  by_cases different : name = lengthName
  · subst different
    rcases atMost with unhooked | hooked
    · rcases Option.isSome_iff_exists.mp has with ⟨value, found⟩
      exact .inl ⟨value, Object.runOn_getVariable_of_unhooked alive.found found unhooked⟩
    · rw [Object.runOn_getVariable_length alive.found has hooked]
      cases listed : object.list with
      | none => exact .inr ⟨⟨hooked, listed, has⟩, rfl, rfl⟩
      | some list => exact .inl ⟨_, rfl⟩
  · rcases Option.isSome_iff_exists.mp has with ⟨value, found⟩
    rw [Object.runOn_getVariable_of_ne alive.found atMost different, found]
    exact .inl ⟨value, rfl⟩

/-- An object is shown unless its length cannot be read. -/
theorem exists_runOn_ofObject (atMost : store.AtMostLists object.definition.id)
    (readable : ¬ object.Unreadable store) :
    ∃ text, (Report.ofObject ref).runOn store = (.ok text, store) := by
  have lines : ∃ lines, (object.vars.names.mapM (Report.variableLine ref)).runOn store =
      (.ok lines, store) := by
    apply Action.runOn_mapM_of_ok
    intro name mem
    rcases alive.runOn_getVariable_cases atMost (Keyed.mem_names_iff.mp mem) with
      ⟨value, run⟩ | ⟨unreadable, _⟩
    · exact ⟨_, Action.runOn_bind_of_ok run _⟩
    · exact absurd unreadable readable
  rcases lines with ⟨lines, run⟩
  unfold Report.ofObject
  rw [Action.runOn_bind_of_ok (Object.runOn_variableNames alive.found), Action.runOn_bind_of_ok run]
  exact ⟨_, rfl⟩

theorem runOn_ofObject_of_unreadable (unreadable : object.Unreadable store) :
    (Report.ofObject ref).runOn store = (.error (.notAList ref.type), store) := by
  rcases unreadable with ⟨hooked, unlisted, has⟩
  have lengthFails : (Report.variableLine ref lengthName).runOn store =
      (.error (.notAList ref.type), store) := by
    have run := Object.runOn_getVariable_length alive.found has hooked
    rw [unlisted] at run
    exact Action.runOn_bind_of_error run _
  unfold Report.ofObject
  rw [Action.runOn_bind_of_ok (Object.runOn_variableNames alive.found)]
  apply Action.runOn_bind_of_error
  -- No other variable fails, so the order in which they are shown does not matter.
  apply Action.runOn_mapM_of_error
  · intro name mem
    rcases alive.runOn_getVariable_cases (.inr hooked) (Keyed.mem_names_iff.mp mem) with
      ⟨value, run⟩ | ⟨_, _, run⟩
    · exact .inl ⟨_, Action.runOn_bind_of_ok run _⟩
    · exact .inr (Action.runOn_bind_of_error run _)
  · exact ⟨lengthName, Keyed.mem_names_iff.mpr has, lengthFails⟩

end Location.Alive

end DreamWorld
