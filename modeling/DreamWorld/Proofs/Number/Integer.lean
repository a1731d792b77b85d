import DreamWorld.Number.Integer
import Mathlib.Algebra.Order.Ring.Abs
import Mathlib.Algebra.Order.Ring.Int

/-!
# What the exact operations on integers give

An operation on integers of 32 bits has a result if and only if the exact result is an integer in
range, and then it is that one.  There is one exception: the remainder of the least integer by -1,
which is zero, has no result, because the quotient is out of range.
-/

namespace DreamWorld.Integer

variable {a b result : Int32}

theorem least_le_toInt (a : Int32) : least ≤ a.toInt :=
  a.le_toInt

theorem toInt_le_greatest (a : Int32) : a.toInt ≤ greatest := by
  have bounded := a.toInt_lt
  unfold greatest
  omega

theorem ofInt?_eq_some_iff {value : Int} : ofInt? value = some result ↔ result.toInt = value := by
  unfold ofInt?
  split
  · rename_i inRange
    have toIntEq : (Int32.ofInt value).toInt = value := by
      unfold least greatest at inRange
      exact Int32.toInt_ofInt_of_le (by omega) (by omega)
    rw [Option.some.injEq, ← Int32.toInt_inj, toIntEq, eq_comm]
  · rename_i outOfRange
    refine iff_of_false (by simp) ?_
    rintro rfl
    exact outOfRange ⟨least_le_toInt result, toInt_le_greatest result⟩

theorem isSome_ofInt?_iff {value : Int} :
    (ofInt? value).isSome = true ↔ least ≤ value ∧ value ≤ greatest := by
  unfold ofInt?
  split <;> simp_all

theorem divide?_eq_some_iff :
    divide? a b = some result ↔ b.toInt ≠ 0 ∧ a.toInt = result.toInt * b.toInt := by
  unfold divide?
  rw [Option.ite_none_right_eq_some, ofInt?_eq_some_iff, and_assoc, and_congr_right_iff]
  intro nonzero
  constructor
  · rintro ⟨divides, quotient⟩
    rw [quotient, Int.tdiv_mul_cancel (Int.dvd_of_tmod_eq_zero divides)]
  · intro product
    rw [product]
    exact ⟨Int.mul_tmod_left _ _, (Int.mul_tdiv_cancel _ nonzero).symm⟩

/-- The quotient is out of range only when the least integer is divided by -1. -/
theorem isSome_ofInt?_tdiv_iff (nonzero : b.toInt ≠ 0) :
    (ofInt? (a.toInt.tdiv b.toInt)).isSome = true ↔ ¬ (a.toInt = least ∧ b.toInt = -1) := by
  have lower := least_le_toInt a
  have upper := toInt_le_greatest a
  have shrinks : (a.toInt.tdiv b.toInt).natAbs = a.toInt.natAbs / b.toInt.natAbs :=
    Int.natAbs_tdiv _ _
  rw [isSome_ofInt?_iff]
  unfold least greatest at *
  by_cases negated : b.toInt = -1
  · rw [negated, Int.tdiv_neg, Int.tdiv_one]
    omega
  · refine iff_of_true ?_ fun exception => negated exception.2
    by_cases one : b.toInt = 1
    · rw [one, Int.tdiv_one]
      omega
    · -- any other divisor at least halves the magnitude
      have halves : a.toInt.natAbs / b.toInt.natAbs ≤ a.toInt.natAbs / 2 :=
        Nat.div_le_div_left (by omega) (by omega)
      omega

theorem remainder?_eq_some_iff :
    remainder? a b = some result ↔ b.toInt ≠ 0 ∧ result.toInt = a.toInt.tmod b.toInt ∧
      ¬ (a.toInt = least ∧ b.toInt = -1) := by
  unfold remainder?
  rw [Option.ite_none_right_eq_some, ofInt?_eq_some_iff, and_assoc, and_congr_right_iff]
  intro nonzero
  rw [isSome_ofInt?_tdiv_iff nonzero, and_comm]

/-- Bases other than -1, 0 and 1 leave the range at the exponent 32. -/
theorem natAbs_le_one_of_pow_inRange {base : Int} {exponent : Nat} (large : 32 ≤ exponent)
    (inRange : least ≤ base ^ exponent ∧ base ^ exponent ≤ greatest) : base.natAbs ≤ 1 := by
  by_contra wide
  have grows : 2 ^ 32 ≤ (base ^ exponent).natAbs := by
    rw [Int.natAbs_pow]
    calc 2 ^ 32 ≤ 2 ^ exponent := Nat.pow_le_pow_right (by decide) large
      _ ≤ base.natAbs ^ exponent := Nat.pow_le_pow_left (by omega) exponent
  unfold least greatest at inRange
  omega

theorem unitPower?_eq_some_iff {base value : Int} {exponent : Nat} (positive : exponent ≠ 0) :
    unitPower? base exponent = some value ↔ base.natAbs ≤ 1 ∧ value = base ^ exponent := by
  unfold unitPower?
  have cases : base.natAbs ≤ 1 ↔ base = 0 ∨ base = 1 ∨ base = -1 := by omega
  rw [cases]
  split
  · rename_i zero
    simp [zero, positive, eq_comm]
  split
  · rename_i one
    simp [one, eq_comm]
  split
  · rename_i negated
    rcases Nat.mod_two_eq_zero_or_one exponent with even | odd
    · simp [negated, even, (Nat.even_iff.mpr even).neg_one_pow, eq_comm]
    · simp [negated, odd, (Nat.odd_iff.mpr odd).neg_one_pow, eq_comm]
  · simp_all

theorem power?_eq_some_iff :
    power? a b = some result ↔ 0 ≤ b.toInt ∧ result.toInt = a.toInt ^ b.toInt.toNat := by
  unfold power?
  split
  · rename_i negative
    exact iff_of_false (by simp) fun power => absurd power.1 (Int.not_le.mpr negative)
  rename_i notNegative
  rw [Int.not_lt] at notNegative
  rw [and_iff_right notNegative]
  split
  · exact ofInt?_eq_some_iff
  · rename_i large
    have exponentLarge : 32 ≤ b.toInt.toNat := by omega
    simp only [Option.bind_eq_some_iff, unitPower?_eq_some_iff (by omega : b.toInt.toNat ≠ 0),
      ofInt?_eq_some_iff]
    constructor
    · rintro ⟨value, ⟨_, rfl⟩, power⟩
      exact power
    · intro power
      have inRange : least ≤ a.toInt ^ b.toInt.toNat ∧ a.toInt ^ b.toInt.toNat ≤ greatest := by
        rw [← power]
        exact ⟨least_le_toInt result, toInt_le_greatest result⟩
      exact ⟨_, ⟨natAbs_le_one_of_pow_inRange exponentLarge inRange, rfl⟩, power⟩

end DreamWorld.Integer
