import DreamWorld.World.ListStore
import Mathlib.Data.Int.Basic

/-!
# What an index of a list means

A number that is one more than a place of the sequence denotes this place, and any value but
null and the numbers is a key of the table.  All other indices are refused.  A single that
equals an integer means what the integer means.
-/

namespace DreamWorld

/-- The value is a key of the table of a list: neither null nor a number. -/
def Value.isKey : Value → Bool
  | .null | .integer _ | .float _ => false
  | .text _ | .path _ | .resource _ | .object _ | .proc _ => true

namespace ListStore

/-- The index is a number that means a place of the sequence, counting from one. -/
def Denotes (list : ListStore) (index : Value) (place : Nat) : Prop :=
  index.listPosition? = some (place + 1 : Int) ∧ place < list.length

variable {list other : ListStore} {index : Value} {place : Nat}

theorem position?_eq_ok_none_iff : list.position? index = .ok none ↔ index.isKey = true := by
  cases index with
  | null => exact iff_of_false nofun nofun
  | integer | float =>
      refine iff_of_false (fun found => ?_) nofun
      unfold position? at found
      dsimp only at found
      split at found
      · cases found
      · split at found <;> cases found
  | text | path | resource | object | proc => exact iff_of_true rfl rfl

theorem position?_eq_ok_some_iff :
    list.position? index = .ok (some place) ↔ list.Denotes index place := by
  unfold position? Denotes
  split
  case h_1 => exact iff_of_false nofun fun denotes => nomatch denotes.1
  case h_2 | h_3 =>
    split
    · rename_i notWhole
      exact iff_of_false nofun fun denotes => nomatch notWhole.symm.trans denotes.1
    · rename_i number isNumber
      rw [isNumber, Option.some_inj]
      split
      · rw [Except.ok.injEq, Option.some_inj]
        omega
      · exact iff_of_false nofun (by omega)
  case h_4 isNull isInteger isFloat =>
    refine iff_of_false nofun fun denotes => ?_
    cases index with
    | null => exact isNull rfl
    | integer value => exact isInteger value rfl
    | float value => exact isFloat value rfl
    | text | path | resource | object | proc => cases denotes.1

/-- A key of the table denotes no place. -/
theorem not_denotes_of_isKey (isKey : index.isKey = true) (place : Nat) :
    ¬ list.Denotes index place := by
  intro denotes
  have found := position?_eq_ok_some_iff.mpr denotes
  rw [position?_eq_ok_none_iff.mpr isKey] at found
  cases found

/-- An index denotes the same place in a list that is not shorter. -/
theorem Denotes.mono (denotes : list.Denotes index place)
    (notShorter : list.length ≤ other.length) : other.Denotes index place :=
  ⟨denotes.1, Nat.lt_of_lt_of_le denotes.2 notShorter⟩

end ListStore

/-! ## Singles as indices -/

/-- A single is whole if its units are those of an integer. -/
theorem Single.toInt?_eq_some_iff {float : Single} {number : Int} :
    float.toInt? = some number ↔ float.isFinite = true ∧ float.units = number * unit := by
  have unitNeZero : (unit : Int) ≠ 0 := by
    unfold unit
    have positive : 0 < Nat.pow 2 149 := Nat.pow_pos (by decide)
    omega
  unfold toInt?
  constructor
  · intro found
    split at found
    · rename_i whole
      cases found
      refine ⟨whole.1, ?_⟩
      rw [Int.ediv_mul_cancel (Int.dvd_of_emod_eq_zero whole.2)]
    · cases found
  · rintro ⟨finite, unitsEq⟩
    rw [unitsEq, Int.mul_emod_left, Int.mul_ediv_cancel _ unitNeZero, if_pos ⟨finite, rfl⟩]

/-- A single that equals an integer means the same position. -/
theorem Value.listPosition?_float {float : Single} {number : Int32}
    (finite : float.isFinite = true) (unitsEq : float.units = number.toInt * Single.unit) :
    (Value.float float).listPosition? = (Value.integer number).listPosition? := by
  have whole := Single.toInt?_eq_some_iff.mpr ⟨finite, unitsEq⟩
  have inRange : Integer.least ≤ number.toInt ∧ number.toInt ≤ Integer.greatest := by
    have lower := number.le_toInt
    have upper := number.toInt_lt
    unfold Integer.least Integer.greatest
    omega
  unfold listPosition?
  dsimp only
  rw [whole, Option.filter_some, decide_eq_true inRange, if_pos rfl]

end DreamWorld
