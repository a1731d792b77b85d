import DreamWorld.Proofs.World.ListOperators
import DreamWorld.Proofs.World.ObjectVariables

/-!
# Writing variables as a whole

Where the class of an object has no hook or that of lists, a write of a variable succeeds as a
whole or leaves no trace.  It fails only where the length is written through the hook of lists,
and either the object is no list or the value is no integer.  If it succeeds, the one variable has
the new value, and nothing else has changed but the contents of a list whose length was written.
-/

namespace DreamWorld

namespace ListStore

/-- A key of a list that is resized keeps its association as long as it is an element. -/
theorem associated?_resize (list : ListStore) (length : Nat) (key : Value) :
    (list.resize length).associated? key =
      if (list.resize length).contains key = true then list.associated? key else none := by
  -- All entries that the key finds have the key's elements.
  have sameElements (entry : Value × Value) (here : key.same entry.1 = true) :
      (list.resize length).values.any entry.1.same = (list.resize length).contains key := by
    rw [contains, Value.same_congr (Value.same_iff.mp here)]
  have kept : (list.resize length).associated? key =
      (list.associations.find? fun entry =>
        (list.resize length).values.any entry.1.same = true ∧ key.same entry.1 = true).map
          Prod.snd := by
    unfold associated?
    rw [← List.find?_filter]
    rfl
  rw [kept]
  split
  · rename_i present
    have samePredicate (entry : Value × Value) :
        decide ((list.resize length).values.any entry.1.same = true ∧ key.same entry.1 = true) =
          key.same entry.1 := by
      cases here : key.same entry.1 with
      | false => simp
      | true => simp [sameElements entry here, present]
    simp only [samePredicate, associated?]
  · rename_i absent
    rw [Option.map_eq_none_iff, List.find?_eq_none]
    intro entry _
    rw [decide_eq_true_eq]
    rintro ⟨listed, here⟩
    exact absent ((sameElements entry here).symm.trans listed)

/-- The contents of a list that has been made a length long: its first elements, then nulls, and
the associations of those keys that are still elements. -/
structure Resized (list changed : ListStore) (length : Nat) : Prop where
  values_eq : changed.values =
    list.values.take length ++ List.replicate (length - list.values.length) .null
  associated?_eq : ∀ key, changed.associated? key =
    if changed.contains key = true then list.associated? key else none

theorem resized_resize (list : ListStore) (length : Nat) :
    list.Resized (list.resize length) length :=
  ⟨rfl, list.associated?_resize length⟩

end ListStore

namespace Object

open Operator (cardList cardStore)

/-- Two objects look the same: they are of one class, every variable is that of the other, or
neither has it, and they have the same contents. -/
structure Alike (object other : Object) : Prop where
  definition_eq : other.definition = object.definition
  find?_vars_eq : ∀ name, other.vars.find? name = object.vars.find? name
  list_eq : other.list = object.list
  deleted_eq : other.deleted = object.deleted

/-- The second object is the first one after a variable has got a value.  The contents are the
same, but where the variable is the length and the class has the hook of lists, the contents of
the list have become as long as the integer written, or empty if this is negative. -/
structure Updated (hooked : Prop) (name : String) (value : Value) (object other : Object) :
    Prop where
  definition_eq : other.definition = object.definition
  find?_vars_self : other.vars.find? name = some value
  find?_vars_eq : ∀ another, another ≠ name →
    other.vars.find? another = object.vars.find? another
  list_eq : ¬ (hooked ∧ name = lengthName) → other.list = object.list
  resized : hooked ∧ name = lengthName → ∃ list changed integer,
    object.list = some list ∧ other.list = some changed ∧ value = .integer integer ∧
    ∃ length : Nat, (length : Int) = max integer.toInt 0 ∧ list.Resized changed length
  deleted_eq : other.deleted = object.deleted

/-- The hook of lists has no use for a value of a variable: the variable is the length, and the
object is no list or the value no integer. -/
def Unfit (store : Store) (object : Object) (name : String) (value : Value) : Prop :=
  store.hook? object.definition.id = some .lists ∧ name = lengthName ∧
    ∀ list integer, object.list = some list → value ≠ .integer integer

variable {store after : Store} {ref : ObjectRef} {object : Object} {name : String}
  {value : Value} {outcome : Except RuntimeError Value}

theorem alike_restored_written (object : Object) (name : String) (value : Value) :
    object.Alike ((object.written name value).restored name (object.vars.find? name)) where
  definition_eq := rfl
  find?_vars_eq := object.find?_vars_restored_written name value
  list_eq := rfl
  deleted_eq := rfl

theorem updated_written {hooked : Prop} (plain : hooked → name ≠ lengthName) :
    Updated hooked name value object (object.written name value) where
  definition_eq := rfl
  find?_vars_self := object.find?_vars_written name value
  find?_vars_eq _ := find?_vars_written_of_ne
  list_eq _ := rfl
  resized isLength := absurd isLength.2 (plain isLength.1)
  deleted_eq := rfl

theorem updated_filled_written {hooked : Prop} (isLength : hooked ∧ name = lengthName)
    {list : ListStore} {integer : Int32} (listEq : object.list = some list)
    (valueEq : value = .integer integer) :
    Updated hooked name value object
      ((object.written name value).filled (list.resize (Hook.requestedLength integer))) where
  definition_eq := rfl
  find?_vars_self := object.find?_vars_written name value
  find?_vars_eq _ := find?_vars_written_of_ne
  list_eq plain := absurd isLength plain
  resized _ := ⟨list, _, integer, listEq, rfl, valueEq, _, Int.toNat_eq_max integer.toInt,
    list.resized_resize _⟩
  deleted_eq := rfl

/-- Let the class of an object have no hook or that of lists, and let a variable of any name be
written.  This fails exactly if the hook of lists has no use for the value.  Then every variable
of the object and its contents are as they were, and where the variables are in order, as those
of a table by name are, nothing in the store has changed at all.  If the write succeeds, the one
variable has the new value, and the contents are as they were, unless the hook of lists has made
them as long as was written.  In any case all other objects, the hooks, the shared variables and
the events stay as they are. -/
theorem setVariable_atomic (found : store.object? ref = some object)
    (atMost : store.AtMostLists object.definition.id) (name : String) (value : Value) :
    ∃ outcome after other,
      (setVariable ref name value).runOn store = (outcome, after) ∧
      after.object? ref = some other ∧
      ((∃ error, outcome = .error error) ↔ object.Unfit store name value) ∧
      (∀ error, outcome = .error error →
        object.Alike other ∧ (object.vars.Ordered → after = store)) ∧
      (∀ old, outcome = .ok old →
        Updated (store.hook? object.definition.id = some .lists) name value object other) ∧
      store.KeepsOthers ref after ∧
      after.hooks = store.hooks ∧ after.globals = store.globals ∧ after.events = store.events := by
  rcases exists_variableWritten found atMost name value with ⟨outcome, after, run, written⟩
  cases written with
  | slot plain =>
      refine ⟨_, _, _, run, Store.object?_modifyObject_self found _, ?_, nofun,
        fun _ _ => updated_written plain, store.keepsOthers_modifyObject ref _, rfl, rfl, rfl⟩
      refine iff_of_false (fun ⟨_, failed⟩ => nomatch failed) ?_
      rintro ⟨hooked, isLength, _⟩
      exact plain hooked isLength
  | length hooked isLength listEq valueEq =>
      refine ⟨_, _, _, run, Store.object?_modifyObject_self found _, ?_, nofun,
        fun _ _ => updated_filled_written ⟨hooked, isLength⟩ listEq valueEq,
        store.keepsOthers_modifyObject ref _, rfl, rfl, rfl⟩
      refine iff_of_false (fun ⟨_, failed⟩ => nomatch failed) ?_
      rintro ⟨_, _, unfit⟩
      exact unfit _ _ listEq valueEq
  | rejected error hooked isLength unfit =>
      refine ⟨_, _, _, run, Store.object?_modifyObject_self found _,
        iff_of_true ⟨error, rfl⟩ ⟨hooked, isLength, unfit⟩, fun _ _ =>
          ⟨object.alike_restored_written name value, fun ordered => ?_⟩, nofun,
        store.keepsOthers_modifyObject ref _, rfl, rfl, rfl⟩
      exact Store.modifyObject_eq_self found (restored_written ordered name value)

/-- A length of one leaves the first card, of which the association is kept although a card like
it is gone; that of the king is dropped.  A text is no length, and the list does not notice. -/
theorem setVariable_atomic_cardStore :
    let deck : ObjectRef := ⟨0, Path.listClass⟩
    (∃ old after changed,
      (setVariable deck lengthName (.integer 1)).runOn cardStore = (.ok old, after) ∧
      after.list? deck = some changed ∧ changed.values = [.text "ace"] ∧
      changed.associated? (.text "ace") = some (.integer 14) ∧
      changed.associated? (.text "king") = none) ∧
    ∃ error, (setVariable deck lengthName (.text "one")).runOn cardStore =
      (.error error, cardStore) := by
  intro deck
  have found : cardStore.object? deck = some _ := rfl
  constructor
  · obtain ⟨outcome, after, other, run, foundAfter, fails, _, updates, _⟩ :=
      setVariable_atomic found (.inr rfl) lengthName (.integer 1)
    cases outcome with
    | error error =>
        obtain ⟨_, _, unfit⟩ := fails.mp ⟨error, rfl⟩
        exact absurd rfl (unfit cardList 1 rfl)
    | ok old =>
        obtain ⟨_, changed, _, listEq, changedEq, valueEq, length, lengthEq, resized⟩ :=
          (updates old rfl).resized ⟨rfl, rfl⟩
        cases listEq
        cases valueEq
        have single : length = 1 := Int.ofNat.inj lengthEq
        subst single
        have valuesEq : changed.values = [.text "ace"] := resized.values_eq
        have contains (key : Value) : changed.contains key = key.same (.text "ace") := by
          rw [ListStore.contains, valuesEq, List.any_cons, List.any_nil, Bool.or_false]
        refine ⟨old, after, changed, run, ?_, valuesEq, ?_, ?_⟩
        · exact (Store.list?_of_found foundAfter).trans changedEq
        · rw [resized.associated?_eq, contains]
          rfl
        · rw [resized.associated?_eq, contains]
          rfl
  · obtain ⟨outcome, after, other, run, _, fails, rollsBack, _⟩ :=
      setVariable_atomic found (.inr rfl) lengthName (.text "one")
    have noLength (integer : Int32) : Value.text "one" ≠ .integer integer := by
      intro same
      cases same
    obtain ⟨error, rfl⟩ := fails.mpr ⟨rfl, rfl, fun _ integer _ => noLength integer⟩
    rw [(rollsBack error rfl).2 (List.pairwise_singleton _ _)] at run
    exact ⟨error, run⟩

end Object

end DreamWorld
