import DreamWorld.Proofs.Number.Integer
import DreamWorld.Proofs.Number.Single
import DreamWorld.Syntax.Constant
import Mathlib.Data.Rat.Floor
import Mathlib.Algebra.Order.Field.Rat

/-!
# Exactness of folded arithmetic

Folded arithmetic is compared with arithmetic on rational numbers.  An integer that a calculation
folds to is the exact value of that calculation, however deep it is: everything below such an
integer is an integer too, and what is not exact has left the integers for good.

Conversely an exact result that is an integer in range is folded to that integer, with one
exception.  The remainder of the least integer by -1 is zero, but as the quotient is out of range
it is computed on singles.
-/

namespace DreamWorld.Syntax

/-- The operators of arithmetic. -/
inductive ArithmeticOperator where
  | add
  | subtract
  | multiply
  | divide
  | modulus
  | power
deriving DecidableEq

namespace ArithmeticOperator

/-- The operator as an expression writes it. -/
def written : ArithmeticOperator → BinaryOperator
  | .add => .add
  | .subtract => .subtract
  | .multiply => .multiply
  | .divide => .divide
  | .modulus => .modulus
  | .power => .power

end ArithmeticOperator

/-- A number without its fraction. -/
def truncated (value : ℚ) : ℤ :=
  value.num.tdiv value.den

/-- The exact result on rational numbers.  Nothing is divided by zero, a remainder is what is left
of the dividend after the truncated quotient, and only whole numbers are exponents. -/
def ArithmeticOperator.onRationals? : ArithmeticOperator → ℚ → ℚ → Option ℚ
  | .add, a, b => some (a + b)
  | .subtract, a, b => some (a - b)
  | .multiply, a, b => some (a * b)
  | .divide, a, b => if b = 0 then none else some (a / b)
  | .modulus, a, b => if b = 0 then none else some (a - b * truncated (a / b))
  | .power, a, b => if b.isInt ∧ (a ≠ 0 ∨ 0 ≤ b) then some (a ^ b.num) else none

theorem mul_tdiv_mul_left {factor : ℤ} (nonzero : factor ≠ 0) (m n : ℤ) :
    (factor * m).tdiv (factor * n) = m.tdiv n := by
  rcases lt_or_gt_of_ne nonzero with negative | positive
  · rw [← Int.neg_tdiv_neg, ← Int.neg_mul, ← Int.neg_mul,
      Int.mul_tdiv_mul_of_pos _ _ (Int.neg_pos_of_neg negative)]
  · rw [Int.mul_tdiv_mul_of_pos _ _ positive]

theorem truncated_div {m n : ℤ} (nonzero : n ≠ 0) : truncated (m / n) = m.tdiv n := by
  obtain ⟨factor, numEq, denEq⟩ := Rat.num_den_mk nonzero (Rat.intCast_div_eq_divInt m n)
  have factorNonzero : factor ≠ 0 := by
    rintro rfl
    exact nonzero (denEq.trans (Int.zero_mul _))
  calc truncated (m / n)
      = (factor * (m / n : ℚ).num).tdiv (factor * (m / n : ℚ).den) :=
        (mul_tdiv_mul_left factorNonzero _ _).symm
    _ = m.tdiv n := by rw [← numEq, ← denEq]

namespace ArithmeticOperator

/-! ## Exact results on integers -/

section

variable {m n : ℤ}

theorem onRationals?_divide_eq_some_iff {quotient : ℤ} :
    divide.onRationals? m n = some (quotient : ℚ) ↔ n ≠ 0 ∧ m = quotient * n := by
  rw [onRationals?, Option.ite_none_left_eq_some, Int.cast_eq_zero, Option.some.injEq,
    and_congr_right_iff]
  intro nonzero
  rw [div_eq_iff (Int.cast_ne_zero.mpr nonzero)]
  norm_cast

/-- The remainder of integers is what truncated division leaves. -/
theorem onRationals?_modulus (nonzero : n ≠ 0) :
    modulus.onRationals? m n = some (m.tmod n : ℚ) := by
  rw [onRationals?, if_neg (Int.cast_ne_zero.mpr nonzero), truncated_div nonzero, Int.tmod_def]
  push_cast
  rfl

theorem onRationals?_power (notNegative : 0 ≤ n) :
    power.onRationals? m n = some ((m ^ n.toNat : ℤ) : ℚ) := by
  have whole : (n : ℚ).isInt = true := by simp [Rat.isInt]
  rw [onRationals?, if_pos ⟨whole, .inr (by exact_mod_cast notNegative)⟩, Rat.num_intCast]
  obtain ⟨exponent, rfl⟩ := Int.eq_ofNat_of_zero_le notNegative
  simp

end

/-- The remainder of the least integer by -1 is zero, but its quotient is out of range. -/
def LeavesRange (operator : ArithmeticOperator) (a b : Int32) : Prop :=
  operator = .modulus ∧ a.toInt = Integer.least ∧ b.toInt = -1

/-- Folding computes an integer exactly when the exact result is one, save for negative exponents
and for the remainder of the least integer by -1. -/
theorem exactInteger?_eq_some_iff (operator : ArithmeticOperator) {a b result : Int32} :
    Constant.exactInteger? operator.written a b = some result ↔
      operator.onRationals? a.toInt b.toInt = some (result.toInt : ℚ) ∧
      (operator = .power → 0 ≤ b.toInt) ∧ ¬ operator.LeavesRange a b := by
  unfold LeavesRange
  have cast_eq_iff (value : ℤ) :
      some (value : ℚ) = some (result.toInt : ℚ) ↔ result.toInt = value := by
    rw [Option.some.injEq, Int.cast_inj, eq_comm]
  cases operator with
  | add | subtract | multiply =>
      simp only [written, Constant.exactInteger?, Integer.add?, Integer.subtract?,
        Integer.multiply?, Integer.ofInt?_eq_some_iff, onRationals?, reduceCtorEq, false_and,
        false_implies, not_false_eq_true, and_true, ← cast_eq_iff]
      push_cast
      rfl
  | divide =>
      simp only [written, Constant.exactInteger?, Integer.divide?_eq_some_iff,
        onRationals?_divide_eq_some_iff, reduceCtorEq, false_and, false_implies, not_false_eq_true,
        and_true]
  | modulus =>
      rw [written, Constant.exactInteger?, Integer.remainder?_eq_some_iff]
      by_cases zero : b.toInt = 0
      · simp [onRationals?, zero]
      · simp [onRationals?_modulus zero, cast_eq_iff, zero]
  | power =>
      rw [written, Constant.exactInteger?, Integer.power?_eq_some_iff]
      by_cases negative : b.toInt < 0
      · simp [Int.not_le.mpr negative]
      · have notNegative := Int.not_lt.mp negative
        rw [onRationals?_power notNegative, cast_eq_iff]
        simp [notNegative]

end ArithmeticOperator

/-! ## Arithmetic on constants -/

namespace Constant

variable {operator : BinaryOperator} {a b constant : Constant}

/-- Operands that are not texts are computed with. -/
theorem binary?_written (operator : ArithmeticOperator) (notText : ∀ text, a ≠ .text text) :
    binary? operator.written a b = arithmetic? operator.written a b := by
  cases a with
  | text value => exact absurd rfl (notText value)
  | _ => cases operator <;> rfl

theorem isFinite_of_arithmeticOnSingles?
    (computed : arithmeticOnSingles? operator a b = some constant) :
    ∃ result, constant = .float result ∧ result.isFinite = true := by
  obtain ⟨_, _, result, _, _, _, finite, rfl⟩ := arithmeticOnSingles?_eq_some_iff.mp computed
  exact ⟨result, rfl, finite⟩

/-- A result of arithmetic is an exact integer, from integers, or a finite single. -/
theorem integer_or_finite_of_arithmetic? (computed : arithmetic? operator a b = some constant) :
    (∃ x y result, a = .integer x ∧ b = .integer y ∧
      exactInteger? operator x y = some result ∧ constant = .integer result) ∨
    ∃ result, constant = .float result ∧ result.isFinite = true := by
  unfold arithmetic? at computed
  split at computed
  · rename_i x y
    split at computed
    · rename_i result exactEq
      cases computed
      exact .inl ⟨x, y, result, rfl, rfl, exactEq, rfl⟩
    · exact .inr (isFinite_of_arithmeticOnSingles? computed)
  · exact .inr (isFinite_of_arithmeticOnSingles? computed)

/-- A constant stands for an optional number if it is the integer that the number is, or any finite
single. -/
def StandsFor (number? : Option ℚ) : Constant → Prop
  | .integer value => number? = some (value.toInt : ℚ)
  | .float value => value.isFinite = true
  | _ => False

variable {m? n? : Option ℚ}

theorem StandsFor.unary?_negate (operand : a.StandsFor m?)
    (computed : unary? .negate a = some constant) :
    constant.StandsFor (m?.map fun m => -m) := by
  cases a with
  | integer value =>
      obtain rfl : m? = some (value.toInt : ℚ) := operand
      simp only [unary?] at computed
      split at computed
      · rename_i negated exactEq
        cases computed
        rw [Integer.negate?, Integer.ofInt?_eq_some_iff] at exactEq
        simp [StandsFor, exactEq]
      · cases computed
        have bounds := And.intro (Integer.least_le_toInt value) (Integer.toInt_le_greatest value)
        unfold Integer.least Integer.greatest at bounds
        exact (Single.isFinite_negate _).trans (Single.isFinite_ofInt (by omega))
  | float value =>
      cases computed
      exact (Single.isFinite_negate value).trans operand
  | null | text _ | resource _ | path _ => cases operand

theorem StandsFor.binary?_written (operator : ArithmeticOperator) (left : a.StandsFor m?)
    (right : b.StandsFor n?) (computed : binary? operator.written a b = some constant) :
    constant.StandsFor (m?.bind fun m => n?.bind (operator.onRationals? m)) := by
  rw [Constant.binary?_written operator (by rintro _ rfl; exact left)] at computed
  obtain ⟨x, y, result, rfl, rfl, exactEq, rfl⟩ | ⟨result, rfl, finite⟩ :=
    integer_or_finite_of_arithmetic? computed
  · obtain rfl : m? = some (x.toInt : ℚ) := left
    obtain rfl : n? = some (y.toInt : ℚ) := right
    exact (operator.exactInteger?_eq_some_iff.mp exactEq).1
  · exact finite

end Constant

theorem ArithmeticOperator.fold?_binary (operator : ArithmeticOperator) (left right : Expr) :
    (Expr.binary operator.written left right).fold? =
      left.fold?.bind fun a => right.fold?.bind (Constant.binary? operator.written a) := by
  apply Expr.fold?_binary <;> cases operator <;> decide

/-! ## Calculations -/

/-- An expression of integer literals under arithmetic. -/
inductive Calculation where
  | integer (value : Int32)
  | negate (operand : Calculation)
  | binary (operator : ArithmeticOperator) (left right : Calculation)

namespace Calculation

/-- The expression that a calculation is. -/
def toExpr : Calculation → Expr
  | .integer value => .integer value
  | .negate operand => .unary .negate operand.toExpr
  | .binary operator left right => .binary operator.written left.toExpr right.toExpr

/-- The exact value of a calculation. -/
def exactValue? : Calculation → Option ℚ
  | .integer value => some value.toInt
  | .negate operand => operand.exactValue?.map fun m => -m
  | .binary operator left right =>
      left.exactValue?.bind fun m => right.exactValue?.bind (operator.onRationals? m)

/-- An integer that a calculation folds to is its exact value, and anything else that it folds to is
a finite single. -/
theorem standsFor_exactValue? (calculation : Calculation) {constant : Constant}
    (folded : calculation.toExpr.fold? = some constant) :
    constant.StandsFor calculation.exactValue? := by
  induction calculation generalizing constant with
  | integer value =>
      cases folded
      rfl
  | negate operand ih =>
      obtain ⟨a, operandFolded, computed⟩ := Option.bind_eq_some_iff.mp folded
      exact (ih operandFolded).unary?_negate computed
  | binary operator left right leftIh rightIh =>
      rw [toExpr, operator.fold?_binary, Option.bind_eq_some_iff] at folded
      obtain ⟨a, leftFolded, rightFolded⟩ := folded
      obtain ⟨b, rightFolded, computed⟩ := Option.bind_eq_some_iff.mp rightFolded
      exact (leftIh leftFolded).binary?_written operator (rightIh rightFolded) computed

/-- The calculation `-9 * (1000 % -640) / 2 ** 3`. -/
def refund : Calculation :=
  .binary .divide
    (.binary .multiply (.integer (-9)) (.binary .modulus (.integer 1000) (.negate (.integer 640))))
    (.binary .power (.integer 2) (.integer 3))

/-- The refund folds to -405, which is its exact value. -/
theorem standsFor_exactValue?_refund :
    refund.toExpr.fold? = some (.integer (-405)) ∧ refund.exactValue? = some ((-405 : ℤ) : ℚ) := by
  have folded : refund.toExpr.fold? = some (.integer (-405)) := by decide +kernel
  exact ⟨folded, refund.standsFor_exactValue? folded⟩

end Calculation

/-! ## Integers in range -/

/-- Operands of the exception are computed with as singles, to a negative zero. -/
theorem Constant.binary?_of_leavesRange {operator : ArithmeticOperator} {a b : Int32}
    (leaves : operator.LeavesRange a b) :
    binary? operator.written (.integer a) (.integer b) = some (.float ⟨0x80000000⟩) := by
  obtain ⟨rfl, least, minusOne⟩ := leaves
  obtain rfl : a = -2147483648 := Int32.toInt_inj.mp least
  obtain rfl : b = -1 := Int32.toInt_inj.mp minusOne
  decide +kernel

namespace Expr

variable {operator : ArithmeticOperator} {left right : Expr} {a b result : Int32}

/-- Arithmetic on integers whose exact result is an integer in range folds to that integer, save
for the remainder of the least integer by -1, which folds to a negative zero. -/
theorem fold?_of_onRationals? (leftFolded : left.fold? = some (.integer a))
    (rightFolded : right.fold? = some (.integer b)) (exponent : operator = .power → 0 ≤ b.toInt)
    (exactEq : operator.onRationals? a.toInt b.toInt = some (result.toInt : ℚ)) :
    ((binary operator.written left right).fold? = some (.integer result) ↔
      ¬ operator.LeavesRange a b) ∧
    (operator.LeavesRange a b →
      (binary operator.written left right).fold? = some (.float ⟨0x80000000⟩)) := by
  rw [operator.fold?_binary, leftFolded, rightFolded, Option.bind_some, Option.bind_some]
  refine ⟨⟨fun folded leaves => ?_, fun stays => ?_⟩, Constant.binary?_of_leavesRange⟩
  · rw [Constant.binary?_of_leavesRange leaves] at folded
    cases folded
  · have computed := operator.exactInteger?_eq_some_iff.mpr ⟨exactEq, exponent, stays⟩
    rw [Constant.binary?_written operator (by simp), Constant.arithmetic?, computed]

/-- The power `(-2) ** 31` is the least integer. -/
theorem fold?_of_onRationals?_leastPower :
    ArithmeticOperator.power.onRationals? (-2 : Int32).toInt (31 : Int32).toInt =
      some ((-2147483648 : Int32).toInt : ℚ) ∧
    (binary .power (.unary .negate (.integer 2)) (.integer 31)).fold? =
      some (.integer (-2147483648)) := by
  have exactEq : ArithmeticOperator.power.onRationals? (-2 : Int32).toInt (31 : Int32).toInt =
      some ((-2147483648 : Int32).toInt : ℚ) := by
    rw [ArithmeticOperator.onRationals?_power (by decide)]
    exact congrArg (fun value : ℤ => some (value : ℚ)) (by decide)
  have leftFolded : (unary .negate (.integer 2)).fold? = some (.integer (-2)) := by decide
  have rightFolded : (Expr.integer 31).fold? = some (.integer 31) := rfl
  have folded := fold?_of_onRationals? leftFolded rightFolded (by decide) exactEq
  exact ⟨exactEq, folded.1.mpr (by simp [ArithmeticOperator.LeavesRange])⟩

/-- An exact result in range is not always an integer: the remainder of the least integer by -1 is
not. -/
theorem not_forall_fold?_of_onRationals? :
    ¬ ∀ (operator : ArithmeticOperator) (left right : Expr) (a b result : Int32),
      left.fold? = some (.integer a) → right.fold? = some (.integer b) →
      (operator = .power → 0 ≤ b.toInt) →
      operator.onRationals? a.toInt b.toInt = some (result.toInt : ℚ) →
      (binary operator.written left right).fold? = some (.integer result) := by
  intro always
  have exactEq : ArithmeticOperator.modulus.onRationals? (-2147483648 : Int32).toInt
      (-1 : Int32).toInt = some ((0 : Int32).toInt : ℚ) := by
    rw [ArithmeticOperator.onRationals?_modulus (by decide)]
    exact congrArg (fun value : ℤ => some (value : ℚ)) (by decide)
  have folded := always .modulus (.integer (-2147483648)) (.integer (-1)) _ _ 0 rfl rfl nofun
    exactEq
  have computed : (binary ArithmeticOperator.modulus.written (.integer (-2147483648))
      (.integer (-1))).fold? = some (.float ⟨0x80000000⟩) := by decide +kernel
  rw [computed] at folded
  cases folded

end Expr

end DreamWorld.Syntax
