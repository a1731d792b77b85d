import DreamWorld.World.Object
import Mathlib.Order.Defs.Unbundled

/-!
# Running actions

An action on the store gives a result or fails, and leaves a store in both cases.
Two actions in a row fail with the failure of the first one, in the store that it
has left; otherwise the second one decides.  A handler of failures decides only if
there is one.  Actions that only read are run on one store, one after another.
-/

namespace DreamWorld.Action

variable {α β : Type}

@[simp]
theorem runOn_pure (value : α) (store : Store) :
    runOn (pure value) store = (.ok value, store) :=
  rfl

@[simp]
theorem runOn_throw (error : RuntimeError) (store : Store) :
    runOn (throw error : Action α) store = (.error error, store) :=
  rfl

@[simp]
theorem runOn_ofExcept (outcome : Except RuntimeError α) (store : Store) :
    runOn (ofExcept outcome) store = (outcome, store) :=
  rfl

theorem runOn_bind_of_ok {action : Action α} {store middle : Store} {value : α}
    (run : action.runOn store = (.ok value, middle)) (next : α → Action β) :
    (action >>= next).runOn store = (next value).runOn middle := by
  change ExceptT.bindCont next (action.runOn store).1 (action.runOn store).2 = _
  rw [run]
  rfl

theorem runOn_bind_of_error {action : Action α} {store middle : Store} {error : RuntimeError}
    (run : action.runOn store = (.error error, middle)) (next : α → Action β) :
    (action >>= next).runOn store = (.error error, middle) := by
  change ExceptT.bindCont next (action.runOn store).1 (action.runOn store).2 = _
  rw [run]
  rfl

theorem runOn_get_bind (next : Store → Action β) (store : Store) :
    (get >>= next).runOn store = (next store).runOn store :=
  rfl

private theorem runOn_tryCatch (action : Action α) (handler : RuntimeError → Action α)
    (store : Store) :
    (tryCatch action handler).runOn store =
      (match (action.runOn store).1 with
        | .ok value => pure value
        | .error error => handler error : Action α).runOn (action.runOn store).2 := by
  have run (next : Except RuntimeError α → StateM Store (Except RuntimeError α)) :
      bind (m := StateM Store) action next store = next (action store).1 (action store).2 := rfl
  change ExceptT.tryCatch action handler store = _
  unfold ExceptT.tryCatch ExceptT.mk
  rw [run]
  unfold runOn
  cases (action store).1 <;> rfl

theorem runOn_tryCatch_of_ok {action : Action α} {store middle : Store} {value : α}
    (run : action.runOn store = (.ok value, middle)) (handler : RuntimeError → Action α) :
    (tryCatch action handler).runOn store = (.ok value, middle) := by
  rw [runOn_tryCatch, run]
  rfl

/-- A handler goes on from the store that the failure has left. -/
theorem runOn_tryCatch_of_error {action : Action α} {store middle : Store} {error : RuntimeError}
    (run : action.runOn store = (.error error, middle)) (handler : RuntimeError → Action α) :
    (tryCatch action handler).runOn store = (handler error).runOn middle := by
  rw [runOn_tryCatch, run]

/-! ## What actions leave behind -/

/-- An action leaves a store that is related to the one it is run on, whether it fails or
not. -/
def Respects (relation : Store → Store → Prop) (action : Action α) : Prop :=
  ∀ store, relation store (action.runOn store).2

section

variable {relation : Store → Store → Prop} [IsPreorder Store relation] {action : Action α}

theorem respects_of_unchanged (unchanged : ∀ store, (action.runOn store).2 = store) :
    Respects relation action := by
  intro store
  rw [unchanged]
  exact refl_of relation store

theorem respects_pure (value : α) : Respects relation (pure value) :=
  respects_of_unchanged fun _ => rfl

theorem respects_throw (error : RuntimeError) : Respects relation (throw error : Action α) :=
  respects_of_unchanged fun _ => rfl

theorem respects_ofExcept (outcome : Except RuntimeError α) :
    Respects relation (ofExcept outcome) :=
  respects_of_unchanged fun _ => rfl

omit [IsPreorder Store relation] in
theorem respects_get_bind {next : Store → Action β}
    (rest : ∀ store, Respects relation (next store)) : Respects relation (get >>= next) :=
  fun store => rest store store

omit [IsPreorder Store relation] in
theorem respects_modify {change : Store → Store}
    (related : ∀ store, relation store (change store)) :
    Respects relation (modify change : Action Unit) :=
  related

theorem Respects.bind {next : α → Action β} (first : Respects relation action)
    (second : ∀ value, Respects relation (next value)) : Respects relation (action >>= next) := by
  intro store
  have before := first store
  rcases run : action.runOn store with ⟨error | value, middle⟩
  · rw [run] at before
    rwa [runOn_bind_of_error run]
  · rw [run] at before
    rw [runOn_bind_of_ok run]
    exact trans_of relation before (second value middle)

theorem Respects.tryCatch {handler : RuntimeError → Action α} (first : Respects relation action)
    (second : ∀ error, Respects relation (handler error)) :
    Respects relation (MonadExcept.tryCatch action handler) := by
  intro store
  have before := first store
  rcases run : action.runOn store with ⟨error | value, middle⟩
  · rw [run] at before
    rw [runOn_tryCatch_of_error run]
    exact trans_of relation before (second error middle)
  · rw [run] at before
    rwa [runOn_tryCatch_of_ok run]

end

/-! ## Lists of actions that only read -/

variable {store : Store} {items : List α}

theorem runOn_mapM_of_ok {action : α → Action β}
    (runs : ∀ item ∈ items, ∃ value, (action item).runOn store = (.ok value, store)) :
    ∃ values, (items.mapM action).runOn store = (.ok values, store) := by
  induction items with
  | nil => exact ⟨[], rfl⟩
  | cons item rest ih =>
      rcases List.forall_mem_cons.mp runs with ⟨⟨value, run⟩, restRuns⟩
      rcases ih restRuns with ⟨values, restRun⟩
      refine ⟨value :: values, ?_⟩
      rw [List.mapM_cons, runOn_bind_of_ok run, runOn_bind_of_ok restRun]
      rfl

/-- If the actions can fail in one way only, one that does fail decides. -/
theorem runOn_mapM_of_error {action : α → Action β} {error : RuntimeError}
    (runs : ∀ item ∈ items, (∃ value, (action item).runOn store = (.ok value, store)) ∨
      (action item).runOn store = (.error error, store))
    (fails : ∃ item ∈ items, (action item).runOn store = (.error error, store)) :
    (items.mapM action).runOn store = (.error error, store) := by
  induction items with
  | nil =>
      rcases fails with ⟨_, mem, _⟩
      cases mem
  | cons item rest ih =>
      rcases List.forall_mem_cons.mp runs with ⟨⟨value, run⟩ | run, restRuns⟩
      · have restFails : ∃ other ∈ rest, (action other).runOn store = (.error error, store) := by
          rcases fails with ⟨other, mem, failed⟩
          rcases List.mem_cons.mp mem with rfl | inRest
          · cases run.symm.trans failed
          · exact ⟨other, inRest, failed⟩
        rw [List.mapM_cons, runOn_bind_of_ok run, runOn_bind_of_error (ih restRuns restFails)]
      · rw [List.mapM_cons, runOn_bind_of_error run]

end DreamWorld.Action

namespace DreamWorld

/-! ## Looking up objects and lists -/

variable {store : Store} {ref : ObjectRef}

theorem runOn_theObject_of_some {object : Object} (found : store.object? ref = some object) :
    (theObject ref).runOn store = (.ok object, store) := by
  simp only [theObject, Action.runOn, found]

theorem runOn_theObject_of_none (missing : store.object? ref = none) :
    (theObject ref).runOn store = (.error (.objectDeleted ref.type), store) := by
  simp only [theObject, Action.runOn, missing]

theorem runOn_theList_of_some {list : ListStore} (listed : store.list? ref = some list) :
    (theList ref).runOn store = (.ok list, store) := by
  simp only [theList, Action.runOn, listed]

theorem runOn_theList_of_none (unlisted : store.list? ref = none) :
    (theList ref).runOn store = (.error (.notAList ref.type), store) := by
  simp only [theList, Action.runOn, unlisted]

theorem runOn_modifyList_of_some {list : ListStore} (listed : store.list? ref = some list)
    (change : ListStore → ListStore) :
    (modifyList ref change).runOn store =
      (.ok (),
        store.modifyObject ref fun object => { object with list := some (change list) }) := by
  unfold modifyList
  rw [Action.runOn_bind_of_ok (runOn_theList_of_some listed)]
  rfl

theorem runOn_modifyList_of_none (unlisted : store.list? ref = none)
    (change : ListStore → ListStore) :
    (modifyList ref change).runOn store = (.error (.notAList ref.type), store) :=
  Action.runOn_bind_of_error (runOn_theList_of_none unlisted) _

/-! ## What changes to one object leave behind -/

namespace Action

variable {relation : Store → Store → Prop} [IsPreorder Store relation] (ref : ObjectRef)

theorem respects_theObject : Respects relation (theObject ref) := by
  apply respects_of_unchanged
  intro store
  cases found : store.object? ref with
  | none => rw [runOn_theObject_of_none found]
  | some object => rw [runOn_theObject_of_some found]

theorem respects_theList : Respects relation (theList ref) := by
  apply respects_of_unchanged
  intro store
  cases listed : store.list? ref with
  | none => rw [runOn_theList_of_none listed]
  | some list => rw [runOn_theList_of_some listed]

section

variable (notes : ∀ event, Respects relation (modify (·.note event) : Action Unit))
  (resizes : ∀ change, Respects relation (modifyList ref change))

include notes resizes

theorem respects_onSet (hook : Hook) (name : String) (new old : Value) :
    Respects relation (hook.onSet ref name new old) := by
  cases hook with
  | lists =>
      simp only [Hook.onSet]
      split
      · exact (respects_ofExcept _).bind fun _ => resizes _
      · exact respects_pure ()
  | recorder => exact notes _
  | integersOnly => exact (respects_ofExcept _).bind fun _ => respects_pure ()
  | inert | echo => exact respects_pure ()

/-- Writing a variable leaves what writing the slot, noting an event and changing the contents
leave, whether the hook accepts the value or not. -/
theorem respects_setVariable
    (writes : ∀ change : Object → Keyed Value, Respects relation
      (modify (·.modifyObject ref fun object => { object with vars := change object }) :
        Action Unit))
    (name : String) (value : Value) : Respects relation (Object.setVariable ref name value) := by
  refine Respects.bind (respects_theObject ref) fun object => ?_
  refine Respects.bind (writes _) fun _ => ?_
  apply respects_get_bind
  intro store
  split
  · exact respects_pure _
  · rename_i hook _
    refine Respects.bind ?_ fun _ => respects_pure _
    apply (respects_onSet ref notes resizes hook name value _).tryCatch
    intro error
    exact Respects.bind (writes _) fun _ => respects_throw error

end

end Action

end DreamWorld
