import DreamWorld.Proofs.World.Changes

/-!
# Lists and classes of lists

Whether an object has contents is recorded apart from its class, and the two agree.  A new
object has contents exactly if its class is one of lists.  A list that an operator makes has
the class of the list that it is made from, without this class being looked at.  After that
contents are replaced, but never given to an object or taken away from it.  So what holds of
the objects of a store holds of them after any action, and of those that it adds.
-/

namespace DreamWorld

/-- The object has contents exactly if its class is one of lists. -/
def Object.Matched (object : Object) : Prop :=
  object.list.isSome = object.definition.isSubtypeOf Path.listClass

/-- Two objects are of one class, and both are lists or neither is. -/
structure Object.SameKind (object other : Object) : Prop where
  definition_eq : other.definition = object.definition
  isSome_list_eq : other.list.isSome = object.list.isSome

theorem Object.SameKind.refl (object : Object) : object.SameKind object :=
  ⟨rfl, rfl⟩

theorem Object.SameKind.trans {object middle other : Object} (first : object.SameKind middle)
    (second : middle.SameKind other) : object.SameKind other :=
  ⟨second.definition_eq.trans first.definition_eq,
    second.isSome_list_eq.trans first.isSome_list_eq⟩

theorem Object.Matched.of_sameKind {object other : Object} (matched : object.Matched)
    (same : object.SameKind other) : other.Matched := by
  unfold Matched
  rw [same.isSome_list_eq, same.definition_eq]
  exact matched

theorem Object.matched_newborn (definition : Definition) : (newborn definition).Matched :=
  isSome_list_newborn definition

namespace Store

variable {store before after : Store} {ref : ObjectRef} {object : Object}

theorem object?_addObject (store : Store) (object : Object) (ref : ObjectRef) :
    (store.addObject object).2.object? ref =
      if ref.id = store.objects.size then some object else store.object? ref :=
  Array.getElem?_push

/-- All objects have contents exactly if their classes are ones of lists. -/
def Matched (store : Store) : Prop :=
  ∀ ref object, store.object? ref = some object → object.Matched

/-- All objects live on and are lists or not as they were.  If they match their classes, so
do the objects that have been added. -/
structure Develops (before after : Store) : Prop where
  lives : ∀ ref object, before.object? ref = some object →
    ∃ later, after.object? ref = some later ∧ object.SameKind later
  matched : before.Matched → after.Matched

instance : IsPreorder Store Develops where
  refl _ := ⟨fun _ object found => ⟨object, found, .refl object⟩, id⟩
  trans _ _ _ first second := by
    refine ⟨fun ref object found => ?_, fun matched => second.matched (first.matched matched)⟩
    rcases first.lives ref object found with ⟨middle, middleFound, firstSame⟩
    rcases second.lives ref middle middleFound with ⟨later, laterFound, secondSame⟩
    exact ⟨later, laterFound, firstSame.trans secondSame⟩

namespace Develops

theorem of_objects_eq (same : after.objects = before.objects) : before.Develops after := by
  have sameObject (ref : ObjectRef) : after.object? ref = before.object? ref := by
    rw [object?, same]
    rfl
  refine ⟨fun ref object found => ⟨object, (sameObject ref).trans found, .refl object⟩, ?_⟩
  intro matched ref object found
  exact matched ref object ((sameObject ref).symm.trans found)

theorem modifyObject {change : Object → Object}
    (same : ∀ object, store.object? ref = some object → object.SameKind (change object)) :
    store.Develops (store.modifyObject ref change) := by
  have changed (other : ObjectRef) (object : Object) (found : store.object? other = some object) :
      ∃ later, (store.modifyObject ref change).object? other = some later ∧
        object.SameKind later := by
    rw [object?_modifyObject, found]
    by_cases here : ref.id = other.id
    · exact ⟨change object, if_pos here, same object ((object?_congr here).trans found)⟩
    · exact ⟨object, if_neg here, .refl object⟩
  refine ⟨changed, fun matched other later laterFound => ?_⟩
  cases found : store.object? other with
  | none =>
      rw [object?_modifyObject, found] at laterFound
      simp at laterFound
  | some object =>
      rcases changed other object found with ⟨known, knownFound, sameKind⟩
      cases laterFound.symm.trans knownFound
      exact (matched other object found).of_sameKind sameKind

theorem addObject (isMatched : store.Matched → object.Matched) :
    store.Develops (store.addObject object).2 := by
  constructor
  · intro ref known found
    have before : ref.id ≠ store.objects.size :=
      Nat.ne_of_lt (Array.getElem?_eq_some_iff.mp found).1
    refine ⟨known, ?_, .refl known⟩
    rw [object?_addObject, if_neg before, found]
  · intro matched ref known found
    rw [object?_addObject] at found
    split at found
    · cases found
      exact isMatched matched
    · exact matched ref known found

end Develops

end Store

/-! ## What actions do to objects -/

/-- Marking objects as deleted and giving lists other contents leaves all objects what they are;
a new object matches its class, and a list that is made like another one does if that one does. -/
theorem Store.permits_develops : Store.Permits Store.Develops where
  note _ _ := .of_objects_eq rfl
  writeGlobal _ _ _ := .of_objects_eq rfl
  setHooks _ _ := .of_objects_eq rfl
  delete _ _ := .modifyObject fun _ _ => ⟨rfl, rfl⟩
  fill store ref list isList := by
    apply Store.Develops.modifyObject
    intro object found
    rw [Store.list?_of_found found] at isList
    exact ⟨rfl, isList.symm⟩
  create _ definition := .addObject fun _ => Object.matched_newborn definition
  copy store ref object list found isList := by
    -- The class is not looked at here; that it is one of lists is known of the list.
    refine Store.Develops.addObject fun matched => ?_
    have isClass := matched ref object found
    rw [Object.Matched, isList] at isClass
    exact isClass

theorem Action.develops_setVariable (ref : ObjectRef) (name : String) (value : Value) :
    Action.Respects Store.Develops (Object.setVariable ref name value) :=
  respects_setVariable ref (respects_note Store.permits_develops)
    (respects_modifyList Store.permits_develops ref)
    (fun _ => respects_modify fun _ => .modifyObject fun _ _ => ⟨rfl, rfl⟩) name value

/-! ## Places in lists -/

namespace Location

variable {store : Store} {ref : ObjectRef} {object : Object} {index : Value}

/-- A place in an object that matches its class can be named exactly if the object is a list. -/
theorem runOn_ofListIndex (found : store.object? ref = some object) (matched : object.Matched)
    (index : Value) :
    (ofListIndex ref index).runOn store =
      (if object.list.isSome then .ok (.listIndex ref index) else .error (.notAList ref.type),
        store) := by
  unfold ofListIndex
  rw [Action.runOn_bind_of_ok (runOn_theObject_of_some found), ← matched, Bool.and_self]
  split <;> rfl

theorem isSome_list?_of_ofListIndex {location : Location}
    (named : ((ofListIndex ref index).runOn store).1 = .ok location) :
    location = .listIndex ref index ∧
      ∃ object, store.object? ref = some object ∧ object.list.isSome = true := by
  unfold ofListIndex at named
  cases found : store.object? ref with
  | none =>
      rw [Action.runOn_bind_of_error (runOn_theObject_of_none found)] at named
      cases named
  | some object =>
      rw [Action.runOn_bind_of_ok (runOn_theObject_of_some found)] at named
      split at named
      · rename_i isList
        cases named
        exact ⟨rfl, object, rfl, ((Bool.and_eq_true _ _).mp isList).2⟩
      · cases named

end Location

end DreamWorld
