import DreamWorld.Proofs.Tree.Steps
import DreamWorld.Proofs.World.ListOperators

/-!
# Operators that make lists

Adding to a list and subtracting from it make a new list of the same class, with the elements and
associations that appending and removing would have left in the list itself.  The new list shares
nothing with those that there were: whatever is done in place to one of them, the other stays as
it is.
-/

namespace DreamWorld

/-- The operator that changes a list as another one changes a copy of it. -/
def Operator.inPlace? : Operator → Option Operator
  | .add => some .append
  | .subtract => some .remove
  | .output | .append | .remove | .combine | .mask => none

namespace Action

variable {store : Store} {ref : ObjectRef} {object : Object} {list : ListStore}
  {operator inPlace : Operator} {edit : ListStore → List Value → ListStore}

theorem runOn_listResult_of_some (found : store.object? ref = some object)
    (listed : store.list? ref = some list) (change : ListStore → ListStore) :
    (Hook.listResult ref change).runOn store =
      (.ok (.object ⟨store.objects.size, object.definition.type⟩),
        (store.addObject (Object.fresh object.definition (some (change list)))).2) := by
  unfold Hook.listResult
  rw [runOn_bind_of_ok (runOn_theObject_of_some found),
    runOn_bind_of_ok (runOn_theList_of_some listed)]
  rfl

/-- Where one operator changes a list in place, the other makes a list of the same contents. -/
theorem runOn_listOperator_of_inPlace? (found : store.object? ref = some object)
    (listed : store.list? ref = some list) (copies : operator.inPlace? = some inPlace)
    (edits : inPlace.edit? = some edit) (b : Value) :
    (Hook.listOperator operator (.object ref) b).runOn store =
      (.ok (.object ⟨store.objects.size, object.definition.type⟩),
        (store.addObject (Object.fresh object.definition
          (some (edit list (Hook.operandValues store b))))).2) := by
  have received := runOn_receiver_of_some listed operator
  have made := runOn_listResult_of_some found listed
  cases operator with
  | add | subtract =>
      cases copies
      cases edits
      unfold Hook.listOperator
      dsimp only
      rw [runOn_bind_of_ok received, runOn_get_bind, made]
  | output | append | remove | combine | mask => cases copies

end Action

/-! ## Steps in place -/

namespace Tree

/-- The step changes at most one object, and this one in place: an operator that changes lists is
applied to it, its contents are changed, a value is stored at an index, or a variable of its own
is written, be it the length. -/
inductive Step.InPlace (target : ObjectRef) : Step → Prop
  | operate {operator : Operator} {edit : ListStore → List Value → ListStore} (b : Value) :
      operator.edit? = some edit → InPlace target (.operate operator (.object target) b)
  | changeList (change : ListStore → ListStore) : InPlace target (.changeList target change)
  | assign (frame : Frame) (index value : Value) :
      InPlace target (.assign frame (.listIndex target index) value)
  | setVariable (name : String) (value : Value) : InPlace target (.setVariable target name value)

variable {target ref : ObjectRef} {step : Step} {steps : List Step}

theorem keepsOthers_after (tree : Tree) (store : Store) (inPlace : step.InPlace target) :
    store.KeepsOthers target (tree.after store step) := by
  cases inPlace with
  | operate b edits => exact Action.keepsOthers_apply target edits b store
  | changeList change => exact Action.keepsOthers_modifyList target change store
  | assign frame index value =>
      exact Action.keepsOthers_assign_listIndex target frame index value store
  | setVariable name value => exact Action.keepsOthers_setVariable target name value store

/-- An object that no step changes in place is as it was after all of them. -/
theorem object?_afterAll (tree : Tree) (store : Store)
    (apart : ∀ step ∈ steps, ∃ target, step.InPlace target ∧ target.id ≠ ref.id) :
    (tree.afterAll store steps).object? ref = store.object? ref := by
  induction steps generalizing store with
  | nil => rfl
  | cons step rest ih =>
      rcases List.forall_mem_cons.mp apart with ⟨⟨target, inPlace, elsewhere⟩, restApart⟩
      exact (ih (tree.after store step) restApart).trans
        (tree.keepsOthers_after store inPlace ref elsewhere.symm)

end Tree

/-! ## New lists -/

namespace Operator

/-- Let an operator that makes lists be applied to a list whose class has the hook of lists.  Then
it answers a new object of the list's class, whose contents are those that the operator in place
would leave in the list itself.  All objects that there were, the hooks, the shared variables and
the events stay as they are.  Whatever is done in place to the new object later on, they still
stay as they are, and whatever is done in place to them, the new object does. -/
theorem apply_of_inPlace? {store : Store} {ref : ObjectRef} {object : Object} {list : ListStore}
    (found : store.object? ref = some object) (isList : object.list = some list)
    (hooked : store.hook? object.definition.id = some .lists) (b : Value)
    {operator inPlace : Operator} (copies : operator.inPlace? = some inPlace) :
    ∃ (contents : ListStore) (fresh : ObjectRef) (changed after : Store),
      (inPlace.apply (.object ref) b).runOn store = (.ok (.object ref), changed) ∧
      changed.list? ref = some contents ∧
      (operator.apply (.object ref) b).runOn store = (.ok (.object fresh), after) ∧
      store.object? fresh = none ∧
      after.object? fresh = some (Object.fresh object.definition (some contents)) ∧
      (∀ other known, store.object? other = some known → after.object? other = some known) ∧
      after.hooks = store.hooks ∧ after.globals = store.globals ∧ after.events = store.events ∧
      (∀ (tree : Tree) (steps : List Tree.Step), (∀ step ∈ steps, step.InPlace fresh) →
        ∀ other known, store.object? other = some known →
          (tree.afterAll after steps).object? other = some known) ∧
      ∀ (tree : Tree) (steps : List Tree.Step),
        (∀ step ∈ steps, ∃ target known, store.object? target = some known ∧
          step.InPlace target) →
        (tree.afterAll after steps).object? fresh =
          some (Object.fresh object.definition (some contents)) := by
  have listed : store.list? ref = some list := by
    rw [Store.list?, found]
    exact isList
  obtain ⟨edit, edits⟩ : ∃ edit, inPlace.edit? = some edit := by
    cases operator with
    | add | subtract =>
        cases copies
        exact ⟨_, rfl⟩
    | output | append | remove | combine | mask => cases copies
  have runInPlace := (Action.runOn_apply_of_hooked found hooked inPlace b).trans
    (Action.runOn_listOperator_of_edit? listed edits b)
  have run := (Action.runOn_apply_of_hooked found hooked operator b).trans
    (Action.runOn_listOperator_of_inPlace? found listed copies edits b)
  have made := Store.object?_addObject store
    (Object.fresh object.definition (some (edit list (Hook.operandValues store b))))
  have different (other : ObjectRef) (known : Object) (before : store.object? other = some known) :
      other.id ≠ store.objects.size :=
    Nat.ne_of_lt (Array.getElem?_eq_some_iff.mp before).1
  have kept (other : ObjectRef) (known : Object) (before : store.object? other = some known) :=
    (made other).trans ((if_neg (different other known before)).trans before)
  have isNew := (made ⟨store.objects.size, object.definition.type⟩).trans (if_pos rfl)
  refine ⟨_, _, _, _, runInPlace, Store.list?_filled listed _, run, Array.getElem?_size, isNew,
    kept, rfl, rfl, rfl, ?_, ?_⟩
  · intro tree steps onNew other known before
    refine (tree.object?_afterAll _ fun step stepMem => ?_).trans (kept other known before)
    exact ⟨_, onNew step stepMem, (different other known before).symm⟩
  · intro tree steps onOld
    refine (tree.object?_afterAll _ fun step stepMem => ?_).trans isNew
    rcases onOld step stepMem with ⟨target, known, before, inPlace⟩
    exact ⟨target, inPlace, different target known before⟩

/-- A list that is subtracted from itself stays as it is when something is appended to the
difference, which starts empty. -/
theorem apply_of_inPlace?_cardStore :
    let deck : ObjectRef := ⟨0, Path.listClass⟩
    cardStore.hook? 0 = some .lists ∧
      ∃ (contents : ListStore) (fresh : ObjectRef) (after : Store),
        (Operator.subtract.apply (.object deck) (.object deck)).runOn cardStore =
          (.ok (.object fresh), after) ∧
        after.list? fresh = some contents ∧ contents.values = [] ∧
        ∀ tree : Tree, (tree.afterAll after
          [.operate .append (.object fresh) (.integer 1)]).list? deck = some cardList := by
  intro deck
  refine ⟨rfl, ?_⟩
  have found : cardStore.object? deck = some _ := rfl
  have copies : Operator.subtract.inPlace? = some .remove := rfl
  rcases apply_of_inPlace? found rfl rfl (.object deck) copies with
    ⟨contents, fresh, changed, after, runInPlace, left, run, _, made, _, _, _, _, onNew, _⟩
  refine ⟨contents, fresh, after, run, ?_, ?_, fun tree => ?_⟩
  · rw [Store.list?, made]
    rfl
  · have emptied : (Operator.remove.apply (.object deck) (.object deck)).runOn cardStore =
        (.ok (.object deck), changed) := runInPlace
    obtain rfl : _ = changed := congrArg Prod.snd emptied
    cases left
    rfl
  · have inPlace : ∀ step ∈ [Tree.Step.operate .append (.object fresh) (.integer 1)],
        step.InPlace fresh := by
      intro step stepMem
      rw [List.mem_singleton.mp stepMem]
      exact .operate _ rfl
    rw [Store.list?, onNew tree _ inPlace deck _ rfl]
    rfl

end Operator

end DreamWorld
