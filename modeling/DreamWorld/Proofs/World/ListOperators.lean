import DreamWorld.Proofs.World.Assignment
import DreamWorld.Proofs.World.ListContents

/-!
# Operators that change lists in place

Appending, removing, combining and masking change the list on their left and answer it.  Their
other operand contributes the elements that it has before the change, if it is a list, and itself
otherwise; so a list may be applied to itself.  Nothing but the contents of the one list changes.
-/

namespace DreamWorld

/-- How an operator changes a list in place, given what its other operand contributes. -/
def Operator.edit? : Operator → Option (ListStore → List Value → ListStore)
  | .append => some .addAll
  | .remove => some .removeAll
  | .combine => some .combine
  | .mask => some .mask
  | .output | .add | .subtract => none

/-- What an operator that changes a list in place makes of its elements.  Appending adds what the
other operand contributes, and removing takes away, for each of these values, the first element
left that is this value.  Combining adds the values that were no elements, each where it occurs
first, and masking keeps the elements that are among the values. -/
def Operator.elements? : Operator → List Value → List Value → Option (List Value)
  | .append, elements, others => some (elements ++ others)
  | .remove, elements, others =>
      some (others.foldl (fun left other => left.eraseP other.same) elements)
  | .combine, elements, others =>
      some (elements ++
        (others.filter fun other => !elements.any other.same).eraseDupsBy Value.same)
  | .mask, elements, others => some (elements.filter fun element => others.any element.same)
  | .output, _, _ | .add, _, _ | .subtract, _, _ => none

namespace Store

/-- What a value contributes to a list operator: a list its elements, all else itself. -/
inductive Contributes (store : Store) : Value → List Value → Prop
  | elements {ref : ObjectRef} {list : ListStore} : store.list? ref = some list →
      Contributes store (.object ref) list.values
  | itself {value : Value} : (∀ ref, value = .object ref → store.list? ref = none) →
      Contributes store value [value]

/-- All objects but one are as they were. -/
def KeepsOthers (ref : ObjectRef) (before after : Store) : Prop :=
  ∀ other : ObjectRef, other.id ≠ ref.id → after.object? other = before.object? other

variable {store : Store} {ref : ObjectRef}

theorem contributes_operandValues (store : Store) (value : Value) :
    store.Contributes value (Hook.operandValues store value) := by
  cases value with
  | object ref =>
      cases listed : store.list? ref with
      | some list =>
          rw [Hook.operandValues, listed]
          exact .elements listed
      | none =>
          rw [Hook.operandValues, listed]
          refine .itself fun other same => ?_
          cases same
          exact listed
  | null | integer | float | text | path | resource | proc => exact .itself nofun

instance (ref : ObjectRef) : IsPreorder Store (KeepsOthers ref) where
  refl _ _ _ := rfl
  trans _ _ _ first second other elsewhere := (second other elsewhere).trans (first other elsewhere)

theorem keepsOthers_modifyObject (store : Store) (ref : ObjectRef) (change : Object → Object) :
    store.KeepsOthers ref (store.modifyObject ref change) := by
  intro other elsewhere
  rw [object?_modifyObject, if_neg elsewhere.symm]

end Store

namespace ListStore

variable {list : ListStore} {others : List Value} {operator : Operator}
  {edit : ListStore → List Value → ListStore}

/-- An operator that changes lists in place leaves the elements that it says, and the
associations of all keys but those that are no elements any more. -/
theorem edit_spec (inPlace : operator.edit? = some edit) (list : ListStore)
    (others : List Value) :
    operator.elements? list.values others = some (edit list others).values ∧
      list.KeepsKeys (edit list others) := by
  cases operator with
  | append =>
      cases inPlace
      exact ⟨rfl, list.keepsKeys_addAll others⟩
  | remove =>
      cases inPlace
      exact ⟨congrArg some (list.values_removeAll others).symm,
        (list.sheds_removeAll others).keepsKeys⟩
  | combine =>
      cases inPlace
      rw [combine_eq_addAll]
      exact ⟨rfl, list.keepsKeys_addAll _⟩
  | mask =>
      cases inPlace
      exact ⟨congrArg some (list.values_mask others).symm, (list.sheds_removeAll _).keepsKeys⟩
  | output | add | subtract => cases inPlace

theorem exists_edit_of_elements? {elements left : List Value}
    (leaves : operator.elements? elements others = some left) :
    ∃ edit, operator.edit? = some edit := by
  cases operator with
  | append | remove | combine | mask => exact ⟨_, rfl⟩
  | output | add | subtract => cases leaves

end ListStore

/-! ## Running operators -/

namespace Action

variable {store : Store} {ref : ObjectRef} {object : Object} {list : ListStore} {hook : Hook}

theorem runOn_apply_of_hooked (found : store.object? ref = some object)
    (hooked : store.hook? object.definition.id = some hook) (operator : Operator) (b : Value) :
    (operator.apply (.object ref) b).runOn store =
      (hook.applyOperator operator (.object ref) b).runOn store := by
  have asked : (hookOf ref).runOn store = (.ok (some hook), store) := by
    unfold hookOf
    rw [runOn_bind_of_ok (runOn_theObject_of_some found), ← hooked]
    rfl
  unfold Operator.apply
  exact runOn_bind_of_ok asked _

theorem runOn_receiver_of_some (listed : store.list? ref = some list) (operator : Operator) :
    (Hook.receiver operator (.object ref)).runOn store = (.ok ref, store) := by
  simp only [Hook.receiver, runOn, listed, Option.isSome_some, if_true]

/-- What is no list has no list operators. -/
theorem runOn_listOperator_of_none (unlisted : store.list? ref = none) (operator : Operator)
    (b : Value) :
    (Hook.listOperator operator (.object ref) b).runOn store =
      (.error (unsupported operator (.object ref)), store) := by
  have refused : (Hook.receiver operator (.object ref)).runOn store =
      (.error (unsupported operator (.object ref)), store) := by
    simp [Hook.receiver, runOn, unlisted]
  cases operator with
  | output => rfl
  | add | subtract | append | remove | combine | mask => exact runOn_bind_of_error refused _

variable {operator : Operator} {edit : ListStore → List Value → ListStore}

theorem runOn_listOperator_of_edit? (listed : store.list? ref = some list)
    (inPlace : operator.edit? = some edit) (b : Value) :
    (Hook.listOperator operator (.object ref) b).runOn store =
      (.ok (.object ref),
        store.modifyObject ref (Object.filled (edit list (Hook.operandValues store b)))) := by
  have received := runOn_receiver_of_some listed operator
  have changed := runOn_modifyList_of_some listed
  cases operator with
  | append | remove | combine | mask =>
      cases inPlace
      unfold Hook.listOperator
      dsimp only
      rw [runOn_bind_of_ok received, runOn_get_bind, runOn_bind_of_ok (changed _)]
      rfl
  | output | add | subtract => cases inPlace

/-! ## Other objects -/

section

variable (ref : ObjectRef)

theorem keepsOthers_modifyList (change : ListStore → ListStore) :
    Respects (Store.KeepsOthers ref) (modifyList ref change) :=
  Respects.bind (respects_theList ref) fun _ =>
    respects_modify fun store => store.keepsOthers_modifyObject ref _

theorem keepsOthers_setVariable (name : String) (value : Value) :
    Respects (Store.KeepsOthers ref) (Object.setVariable ref name value) :=
  respects_setVariable ref (fun _ => respects_modify fun _ _ _ => rfl)
    (keepsOthers_modifyList ref)
    (fun _ => respects_modify fun store => store.keepsOthers_modifyObject ref _) name value

theorem keepsOthers_assign_listIndex (frame : Frame) (index value : Value) :
    Respects (Store.KeepsOthers ref) (Location.assign frame value (.listIndex ref index)) :=
  Respects.bind (respects_theList ref) fun _ =>
    Respects.bind (respects_ofExcept _) fun _ =>
      Respects.bind (respects_modify fun store => store.keepsOthers_modifyObject ref _) fun _ =>
        respects_pure frame

/-- An operator that changes lists in place changes nothing but the object on its left, whatever
the hook of this object's class. -/
theorem keepsOthers_apply (inPlace : operator.edit? = some edit) (b : Value) :
    Respects (Store.KeepsOthers ref) (operator.apply (.object ref) b) := by
  have asked : Respects (Store.KeepsOthers ref) (hookOf ref) :=
    Respects.bind (respects_theObject ref) fun _ => respects_get_bind fun _ => respects_pure _
  refine Respects.bind asked fun hook? => ?_
  rcases hook? with _ | hook
  · exact respects_throw _
  · cases hook with
    | lists =>
        intro store
        change store.KeepsOthers ref ((Hook.listOperator operator (.object ref) b).runOn store).2
        cases listed : store.list? ref with
        | some list =>
            rw [runOn_listOperator_of_edit? listed inPlace]
            exact store.keepsOthers_modifyObject ref _
        | none =>
            rw [runOn_listOperator_of_none listed]
            exact refl_of (Store.KeepsOthers ref) store
    | echo => exact respects_pure _
    | inert | recorder | integersOnly => exact respects_throw _

end

end Action

namespace Operator

/-- Let an operator that changes lists in place be applied to a list whose class has the hook of
lists.  Then it answers the list.  The elements become what the operator makes of them and of
what the other operand contributes before the change.  A key loses its association exactly if it
was an element and is none any more, and otherwise is associated with what it was.  The list's
class and variables, all other objects, the hooks, the shared variables and the events stay as
they are. -/
theorem apply_inPlace {store : Store} {ref : ObjectRef} {object : Object} {list : ListStore}
    (found : store.object? ref = some object) (isList : object.list = some list)
    (hooked : store.hook? object.definition.id = some .lists) (b : Value) :
    ∃ others, store.Contributes b others ∧
      ∀ (operator : Operator) (left : List Value),
        operator.elements? list.values others = some left →
        ∃ (changed : ListStore) (after : Store),
          (operator.apply (.object ref) b).runOn store = (.ok (.object ref), after) ∧
          after.object? ref = some { object with list := some changed } ∧
          changed.values = left ∧
          (∀ key, changed.associated? key =
            if list.contains key = true ∧ changed.contains key = false then none
            else list.associated? key) ∧
          (∀ other : ObjectRef, other.id ≠ ref.id → after.object? other = store.object? other) ∧
          after.hooks = store.hooks ∧ after.globals = store.globals ∧
            after.events = store.events := by
  refine ⟨Hook.operandValues store b, store.contributes_operandValues b, ?_⟩
  intro operator left leaves
  have listed : store.list? ref = some list := by
    rw [Store.list?, found]
    exact isList
  rcases ListStore.exists_edit_of_elements? leaves with ⟨edit, inPlace⟩
  rcases ListStore.edit_spec inPlace list (Hook.operandValues store b) with ⟨elementsEq, keepsKeys⟩
  have run := (Action.runOn_apply_of_hooked found hooked operator b).trans
    (Action.runOn_listOperator_of_edit? listed inPlace b)
  refine ⟨_, _, run, ?_, Option.some_inj.mp (elementsEq.symm.trans leaves), keepsKeys,
    store.keepsOthers_modifyObject ref _, rfl, rfl, rfl⟩
  rw [Store.object?_modifyObject, if_pos rfl, found]
  rfl

/-- A list of three cards, two of which are alike, with the worth of each. -/
def cardList : ListStore where
  values := [.text "ace", .text "king", .text "ace"]
  associations := [(.text "ace", .integer 14), (.text "king", .integer 13)]

/-- A store of the list alone. -/
def cardStore : Store where
  hooks := #[some .lists]
  objects := #[
    { definition := Definition.below 0 Path.listClass none
      vars := [(lengthName, .integer 0)]
      list := some cardList }]

/-- A list that is removed from itself is empty and has no associations. -/
theorem apply_inPlace_cardStore :
    let deck : ObjectRef := ⟨0, Path.listClass⟩
    cardStore.list? deck = some cardList ∧
      ∃ changed after,
        (Operator.remove.apply (.object deck) (.object deck)).runOn cardStore =
          (.ok (.object deck), after) ∧
        after.list? deck = some changed ∧ changed.values = [] ∧
        changed.associated? (.text "ace") = none ∧ changed.associated? (.text "king") = none := by
  intro deck
  have listed : cardStore.list? deck = some cardList := rfl
  have found : cardStore.object? deck = some _ := rfl
  rcases apply_inPlace found rfl rfl (.object deck) with ⟨others, contributes, applied⟩
  refine ⟨listed, ?_⟩
  cases contributes with
  | elements otherListed =>
      cases listed.symm.trans otherListed
      rcases applied .remove [] (by decide) with ⟨changed, after, run, foundAfter, empty, keys, _⟩
      have dropped (key : Value) (present : cardList.contains key = true) :
          changed.associated? key = none := by
        rw [keys, if_pos]
        exact ⟨present, by rw [ListStore.contains, empty]; rfl⟩
      refine ⟨changed, after, run, ?_, empty, dropped _ (by decide), dropped _ (by decide)⟩
      rw [Store.list?, foundAfter]
      rfl
  | itself unlisted => cases listed.symm.trans (unlisted deck rfl)

end Operator

end DreamWorld
