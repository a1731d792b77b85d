import DreamWorld.Proofs.World.Interference

/-!
# Indexed access to lists

Storing at an index overwrites the element at the place that the index denotes, or gives the
index a value as a key of the table.  What is stored is found there, and all other places and
keys hold what they held.  Only a key that is neither associated nor an element makes the list
longer.  What cannot be stored cannot be read either, for the same reason.
-/

namespace DreamWorld.ListStore

/-- What storing a value at an index makes of a list. -/
inductive Stored (list : ListStore) (index value : Value) : ListStore → Prop
  | element {place : Nat} : list.Denotes index place →
      Stored list index value { list with values := list.values.set place value }
  | known : index.isKey = true →
      ((list.associated? index).isSome || list.contains index) = true →
      Stored list index value
        { list with associations := associate index value list.associations }
  | new : index.isKey = true →
      ((list.associated? index).isSome || list.contains index) = false →
      Stored list index value
        { values := list.values ++ [index]
          associations := associate index value list.associations }

variable {list changed : ListStore} {index value key : Value} {place : Nat}
  {error : RuntimeError}

theorem stored_of_set (stored : list.set index value = .ok changed) :
    list.Stored index value changed := by
  unfold set at stored
  split at stored
  · cases stored
  · rename_i place found
    cases stored
    exact .element (position?_eq_ok_some_iff.mp found)
  · rename_i found
    cases stored
    have isKey := position?_eq_ok_none_iff.mp found
    cases known : (list.associated? index).isSome || list.contains index with
    | true => exact .known isKey known
    | false => exact .new isKey known

/-! ## What is read -/

theorem get_of_isKey (isKey : key.isKey = true) :
    list.get key = .ok ((list.associated? key).getD .null) := by
  rw [get, position?_eq_ok_none_iff.mpr isKey]

theorem get_of_denotes (denotes : list.Denotes index place) :
    list.get index = .ok (list.values.getD place .null) := by
  rw [get, position?_eq_ok_some_iff.mpr denotes]

/-- Reading and storing fail for the same reason. -/
theorem set_eq_error_iff : list.set index value = .error error ↔ list.get index = .error error := by
  unfold set get
  cases list.position? index with
  | error _ => simp
  | ok place? => cases place? <;> simp

/-- Associating a key with a value leaves what other keys are associated with. -/
theorem associated?_associate_of_ne {values others : List Value} {table : List (Value × Value)}
    (different : key.same index = false) :
    associated? ⟨values, associate index value table⟩ key = associated? ⟨others, table⟩ key := by
  unfold associated?
  dsimp only
  induction table with
  | nil => rw [associate, List.find?_cons, different]
  | cons entry rest ih =>
      rw [associate]
      cases taken : index.same entry.1 with
      | true =>
          have entryDiffers : key.same entry.1 = false := by
            rwa [Value.same, ← Value.same_iff.mp taken, ← Value.same]
          rw [if_pos rfl, List.find?_cons, List.find?_cons, entryDiffers]
      | false =>
          rw [if_neg Bool.false_ne_true, List.find?_cons, List.find?_cons]
          cases key.same entry.1 with
          | true => rfl
          | false => exact ih

namespace Stored

variable (stored : list.Stored index value changed)

include stored

theorem get_of_isKey (isKey : key.isKey = true) (different : key.same index = false) :
    changed.get key = list.get key := by
  rw [ListStore.get_of_isKey isKey, ListStore.get_of_isKey isKey]
  cases stored with
  | element _ => rfl
  | known _ _ | new _ _ => rw [associated?_associate_of_ne different]

theorem length_eq :
    changed.length =
      if index.isKey = true ∧ list.associated? index = none ∧ list.contains index = false then
        list.length + 1
      else list.length := by
  cases stored with
  | element denotes =>
      rw [if_neg fun grows => not_denotes_of_isKey grows.1 _ denotes]
      exact List.length_set
  | known _ known =>
      rw [if_neg]
      · rfl
      · rintro ⟨_, unassociated, absent⟩
        rw [unassociated, absent] at known
        cases known
  | new isKey unknown =>
      rw [Bool.or_eq_false_iff, Option.isSome_eq_false_iff, Option.isNone_iff_eq_none] at unknown
      rw [if_pos ⟨isKey, unknown⟩]
      exact List.length_append

theorem length_le : list.length ≤ changed.length := by
  rw [stored.length_eq]
  split
  · exact Nat.le_succ _
  · exact Nat.le_refl _

theorem get_of_denotes {other : Value} (denotes : list.Denotes other place)
    (elsewhere : ¬ list.Denotes index place) : changed.get other = list.get other := by
  rw [ListStore.get_of_denotes denotes,
    ListStore.get_of_denotes (denotes.mono stored.length_le)]
  cases stored with
  | @element overwritten indexDenotes =>
      have different : overwritten ≠ place := by
        rintro rfl
        exact elsewhere indexDenotes
      rw [List.getD_eq_getElem?_getD, List.getElem?_set_ne different,
        ← List.getD_eq_getElem?_getD]
  | known _ _ => rfl
  | new _ _ =>
      have inRange : place < list.values.length := denotes.2
      rw [List.getD_eq_getElem?_getD, List.getElem?_append_left inRange,
        ← List.getD_eq_getElem?_getD]

end Stored

/-! ## Whole numbers in two forms -/

section

variable {float : Single} {number : Int32} (finite : float.isFinite = true)
  (unitsEq : float.units = number.toInt * Single.unit)

include finite unitsEq

theorem position?_float : list.position? (.float float) = list.position? (.integer number) := by
  have whole : (Value.integer number).listPosition? = some number.toInt := rfl
  unfold position?
  dsimp only
  rw [Value.listPosition?_float finite unitsEq, whole]

theorem get_float : list.get (.float float) = list.get (.integer number) := by
  have samePosition : list.position? (.float float) = list.position? (.integer number) :=
    position?_float finite unitsEq
  rcases found : list.position? (.integer number) with error | _ | place
  · rw [get, samePosition, get, found]
  · cases position?_eq_ok_none_iff.mp found
  · rw [get, samePosition, get, found]

theorem set_float : list.set (.float float) value = list.set (.integer number) value := by
  have samePosition : list.position? (.float float) = list.position? (.integer number) :=
    position?_float finite unitsEq
  rcases found : list.position? (.integer number) with error | _ | place
  · rw [set, samePosition, set, found]
  · cases position?_eq_ok_none_iff.mp found
  · rw [set, samePosition, set, found]

end

/-! ## Storing and reading -/

/-- If a value cannot be stored at an index, then reading there fails for the same reason, and an
assignment to this index of a list leaves the whole store as it is.  If it can be stored, it is
found at the index.  Other keys, and numbers that denote other places, hold what they held.  The
list gets longer by one if the index is a key that was neither associated nor an element, and
otherwise keeps its length.  A single that equals an integer stands for it. -/
theorem get_after_set (list : ListStore) (index value : Value) :
    (∀ error, list.set index value = .error error →
      list.get index = .error error ∧
      ∀ store ref frame, store.list? ref = some list →
        (Location.assign frame value (.listIndex ref index)).runOn store =
          (.error error, store)) ∧
    (∀ changed, list.set index value = .ok changed →
      changed.get index = .ok value ∧
      (∀ key : Value, key.isKey = true → key.same index = false →
        changed.get key = list.get key) ∧
      (∀ other place, list.Denotes other place → ¬ list.Denotes index place →
        changed.get other = list.get other) ∧
      changed.length =
        if index.isKey = true ∧ list.associated? index = none ∧ list.contains index = false then
          list.length + 1
        else list.length) ∧
    ∀ (float : Single) (number : Int32), float.isFinite = true →
      float.units = number.toInt * Single.unit →
      list.get (.float float) = list.get (.integer number) ∧
        list.set (.float float) value = list.set (.integer number) value := by
  refine ⟨?_, ?_, ?_⟩
  · intro error refused
    refine ⟨set_eq_error_iff.mp refused, ?_⟩
    intro store ref frame listed
    rw [Location.assign, Action.runOn_bind_of_ok (runOn_theList_of_some listed), refused]
    exact Action.runOn_bind_of_error (Action.runOn_ofExcept _ _) _
  · intro changed accepted
    have stored := stored_of_set accepted
    exact ⟨get_of_set accepted, fun _ => stored.get_of_isKey,
      fun _ _ => stored.get_of_denotes, stored.length_eq⟩
  · intro float number finite unitsEq
    exact ⟨get_float finite unitsEq, set_float finite unitsEq⟩

end DreamWorld.ListStore
