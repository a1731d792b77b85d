import DreamWorld.Proofs.Number.Single
import DreamWorld.Syntax.Constant

/-!
# Comparison of folded integers

Integers are compared as singles.  Rounding keeps their order, so a comparison of integers folds to
what it should, unless the integers are different and have one single: those are compared as equal.
No integer below 2^24 shares its single with another one.
-/

namespace DreamWorld.Syntax

/-- The operators that compare. -/
inductive ComparisonOperator where
  | equal
  | notEqual
  | lessThan
  | lessThanOrEqual
  | greaterThan
  | greaterThanOrEqual

namespace ComparisonOperator

/-- The operator as an expression writes it. -/
def written : ComparisonOperator → BinaryOperator
  | .equal => .equal
  | .notEqual => .notEqual
  | .lessThan => .lessThan
  | .lessThanOrEqual => .lessThanOrEqual
  | .greaterThan => .greaterThan
  | .greaterThanOrEqual => .greaterThanOrEqual

/-- Whether two integers are as the operator says. -/
def holds : ComparisonOperator → Int → Int → Bool
  | .equal, a, b => a = b
  | .notEqual, a, b => a ≠ b
  | .lessThan, a, b => a < b
  | .lessThanOrEqual, a, b => a ≤ b
  | .greaterThan, a, b => b < a
  | .greaterThanOrEqual, a, b => b ≤ a

/-- Whether operands in an order are as the operator says. -/
def accepts : ComparisonOperator → Ordering → Bool
  | .equal => Ordering.isEq
  | .notEqual => Ordering.isNe
  | .lessThan => Ordering.isLT
  | .lessThanOrEqual => Ordering.isLE
  | .greaterThan => Ordering.isGT
  | .greaterThanOrEqual => Ordering.isGE

theorem accepts_compare (operator : ComparisonOperator) (a b : Int) :
    operator.accepts (compare a b) = operator.holds a b := by
  rcases lt_trichotomy a b with less | rfl | greater
  · rw [compare_lt_iff_lt.mpr less]
    cases operator <;> simp [accepts, holds] <;> omega
  · rw [compare_eq_iff_eq.mpr rfl]
    cases operator <;> simp [accepts, holds]
  · rw [compare_gt_iff_gt.mpr greater]
    cases operator <;> simp [accepts, holds] <;> omega

theorem fold?_binary (operator : ComparisonOperator) (left right : Expr) :
    (Expr.binary operator.written left right).fold? =
      left.fold?.bind fun a => right.fold?.bind (Constant.binary? operator.written a) := by
  apply Expr.fold?_binary <;> cases operator <;> decide

end ComparisonOperator

namespace Constant

@[simp]
theorem ofBool_inj {x y : Bool} : ofBool x = ofBool y ↔ x = y := by
  cases x <;> cases y <;> decide

/-- Numbers are compared as their singles are. -/
theorem binary?_comparison (operator : ComparisonOperator) {a b : Constant} {m n : Single}
    {ordering : Ordering} (left : a.toSingle? = some m) (right : b.toSingle? = some n)
    (compared : m.compare? n = some ordering) :
    binary? operator.written a b = some (ofBool (operator.accepts ordering)) := by
  have equality : a.equals b = ordering.isEq := by
    simp only [equals, left, right, Single.sameNumber, compared]
    cases ordering <;> rfl
  have order : compare? a b = some ordering := by
    cases a with
    | text value => cases left
    | _ => simp only [compare?, left, right, compared, Option.bind_eq_bind, Option.bind_some]
  cases operator with
  | equal => rw [ComparisonOperator.written, binary?, equality, ComparisonOperator.accepts]
  | notEqual =>
      rw [ComparisonOperator.written, binary?, equality, ComparisonOperator.accepts]
      cases ordering <;> rfl
  | lessThan | lessThanOrEqual | greaterThan | greaterThanOrEqual =>
      simp only [ComparisonOperator.written, binary?, ordered?, order, ComparisonOperator.accepts]
      rfl

/-- Integers that have one single are compared as equal ones. -/
theorem binary?_comparison_integers (operator : ComparisonOperator) (a b : Int32) :
    binary? operator.written (.integer a) (.integer b) =
      some (ofBool (if Single.ofInt a.toInt = Single.ofInt b.toInt then operator.accepts .eq
        else operator.holds a.toInt b.toInt)) := by
  rw [binary?_comparison operator rfl rfl (Single.compare?_ofInt _ _)]
  split
  · rfl
  · rw [operator.accepts_compare]

end Constant

namespace Expr

variable {left right : Expr} {a b : Int32}

/-- A comparison of integers folds to what holds of them unless they have one single and the
operator says of them what it does not say of equal integers.  It is right wherever one of them is
below 2^24. -/
theorem fold?_comparison (operator : ComparisonOperator)
    (leftFolded : left.fold? = some (.integer a))
    (rightFolded : right.fold? = some (.integer b)) :
    ((binary operator.written left right).fold? =
        some (.ofBool (operator.holds a.toInt b.toInt)) ↔
      (Single.ofInt a.toInt = Single.ofInt b.toInt →
        operator.holds a.toInt b.toInt = operator.accepts .eq)) ∧
    (Single.ofInt a.toInt = Single.ofInt b.toInt →
      (binary operator.written left right).fold? = some (.ofBool (operator.accepts .eq))) ∧
    (a.toInt.natAbs < 2 ^ 24 ∨ b.toInt.natAbs < 2 ^ 24 →
      (binary operator.written left right).fold? =
        some (.ofBool (operator.holds a.toInt b.toInt))) := by
  rw [operator.fold?_binary, leftFolded, rightFolded, Option.bind_some, Option.bind_some,
    Constant.binary?_comparison_integers]
  by_cases same : Single.ofInt a.toInt = Single.ofInt b.toInt
  · rw [if_pos same]
    refine ⟨by simp [same, eq_comm], fun _ => rfl, fun bounded => ?_⟩
    have equal : a.toInt = b.toInt := by
      rcases bounded with leftBounded | rightBounded
      · exact (Single.ofInt_inj leftBounded).mp same
      · exact ((Single.ofInt_inj rightBounded).mp same.symm).symm
    rw [equal, ← operator.accepts_compare, compare_eq_iff_eq.mpr rfl]
  · rw [if_neg same]
    exact ⟨iff_of_true rfl fun equal => absurd equal same, fun equal => absurd equal same,
      fun _ => rfl⟩

/-- The difference `16777216 - 1` is less than 16777216. -/
theorem fold?_comparison_neighbours :
    (binary .lessThan (.binary .subtract (.integer 16777216) (.integer 1))
      (.integer 16777216)).fold? = some (.integer 1) := by
  have leftFolded : (binary .subtract (.integer 16777216) (.integer 1)).fold? =
      some (.integer 16777215) := by decide
  have rightFolded : (Expr.integer 16777216).fold? = some (.integer 16777216) := rfl
  exact (fold?_comparison .lessThan leftFolded rightFolded).2.2 (.inl (by decide))

/-- A comparison of integers does not always fold to what holds of them: 16777217 and 16777216
are equal as singles. -/
theorem not_forall_fold?_comparison :
    ¬ ∀ (operator : ComparisonOperator) (left right : Expr) (a b : Int32),
      left.fold? = some (.integer a) → right.fold? = some (.integer b) →
      (binary operator.written left right).fold? =
        some (.ofBool (operator.holds a.toInt b.toInt)) := by
  intro always
  have folded := always .equal (.integer 16777217) (.integer 16777216) _ _ rfl rfl
  revert folded
  decide +kernel

end Expr

end DreamWorld.Syntax
