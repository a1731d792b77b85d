import DreamWorld.Proofs.World.Action
import DreamWorld.Syntax.Constant
import DreamWorld.World.Operator.Apply

/-!
# Folding agrees with running

Some operators of the source language are also operators of a running world.  A
formula is a tree of literals under such operators.  It can be folded as an
expression, and it can be evaluated from its leaves upwards by the operators of
the world, which know more operands: null counts as a number there.  Where both
have a result it is the same one, and whenever folding has a result, evaluation
has.
-/

namespace DreamWorld

namespace Syntax

/-- Operators of the source language that a running world has as well. -/
inductive SharedOperator where
  | add
  | subtract
  | bitOr
  | bitAnd
  | leftShift

/-- The operator as an expression writes it. -/
def SharedOperator.written : SharedOperator → BinaryOperator
  | .add => .add
  | .subtract => .subtract
  | .bitOr => .bitOr
  | .bitAnd => .bitAnd
  | .leftShift => .leftShift

/-- The operator as a running world applies it. -/
def SharedOperator.applied : SharedOperator → Operator
  | .add => .add
  | .subtract => .subtract
  | .bitOr => .combine
  | .bitAnd => .mask
  | .leftShift => .output

/-- A tree of literals under shared operators. -/
inductive Formula where
  | null
  | integer (value : Int32)
  | float (value : Single)
  | text (value : String)
  | path (value : Path)
  | binary (operator : SharedOperator) (left right : Formula)

/-- The expression that a formula is. -/
def Formula.toExpr : Formula → Expr
  | .null => .null
  | .integer value => .integer value
  | .float value => .float value
  | .text value => .text value
  | .path value => .path value
  | .binary operator left right => .binary operator.written left.toExpr right.toExpr

/-- The value of a formula in a running world, the operands of an operator first. -/
def Formula.evaluate : Formula → Action Value
  | .null => return .null
  | .integer value => return .integer value
  | .float value => return .float value
  | .text value => return .text value
  | .path value => return .path value
  | .binary operator left right => do
      let a ← left.evaluate
      let b ← right.evaluate
      operator.applied.apply a b

namespace Constant

/-- The value that a constant is in a running world.  A resource has none before it
is loaded. -/
def value? : Constant → Option Value
  | .null => some .null
  | .integer value => some (.integer value)
  | .float value => some (.float value)
  | .text value => some (.text value)
  | .resource _ => none
  | .path value => some (.path value)

variable {a b constant : Constant} {x y value : Value} {store : Store}

/-! ## Constants and their values -/

/-- A constant and its value are true or false together. -/
theorem isTruthy_of_value? (store : Store) (valueEq : constant.value? = some value) :
    store.isTruthy value = constant.isTruthy := by
  cases constant <;> cases valueEq <;> rfl

/-- A constant that is an integer is the same integer when it runs. -/
theorem integer?_of_toInteger? {number : Int32} (valueEq : a.value? = some x)
    (integer : a.toInteger? = some number) : Operator.integer? x = some number := by
  cases a <;> cases valueEq <;> cases integer
  rfl

/-- The value of a constant is no object, so no hook is asked about it. -/
theorem apply_of_value? (operator : Operator) (valueEq : a.value? = some x) (y : Value) :
    operator.apply x y = Action.ofExcept (Operator.onScalars operator x y) := by
  cases a <;> cases valueEq <;> rfl

/-! ## Arithmetic -/

section

variable {operator : BinaryOperator} {applied : Operator} {exact : Int32 → Int32 → Option Int32}
  {rounded : Single → Single → Single} {m n : Single}

/-- Only numbers have a folded arithmetic result. -/
theorem exists_toSingle?_of_arithmetic? (folded : arithmetic? operator a b = some constant) :
    ∃ m n, a.toSingle? = some m ∧ b.toSingle? = some n := by
  unfold arithmetic? at folded
  split at folded
  · exact ⟨_, _, rfl, rfl⟩
  · rcases arithmeticOnSingles?_eq_some_iff.mp folded with ⟨m, n, _, left, right, _⟩
    exact ⟨m, n, left, right⟩

/-- Arithmetic of a running world rounds where it is not exact. -/
theorem arithmetic_of_toSingle? (xEq : a.value? = some x) (yEq : b.value? = some y)
    (left : a.toSingle? = some m) (right : b.toSingle? = some n)
    (inexact : ∀ i j, a = .integer i → b = .integer j → exact i j = none) :
    Operator.arithmetic applied exact rounded x y = .ok (.float (rounded m n)) := by
  cases a <;> cases left <;> cases xEq <;> cases b <;> cases right <;> cases yEq
  case integer.refl.refl.integer.refl.refl i j =>
    simp only [Operator.arithmetic, Operator.numeric?, inexact i j rfl rfl]
    rfl
  all_goals rfl

/-- Folded arithmetic is the arithmetic of a running world. -/
theorem arithmetic_of_arithmetic?
    (roundedEq : ∀ m n, singleResult? operator m n = some (rounded m n))
    (xEq : a.value? = some x) (yEq : b.value? = some y)
    (folded : arithmetic? operator a b = some constant) :
    ∃ value, constant.value? = some value ∧
      Operator.arithmetic applied (exactInteger? operator) rounded x y = .ok value := by
  have onSingles (inexact : ∀ i j, a = .integer i → b = .integer j →
        exactInteger? operator i j = none)
      (single : arithmeticOnSingles? operator a b = some constant) :
      ∃ value, constant.value? = some value ∧
        Operator.arithmetic applied (exactInteger? operator) rounded x y = .ok value := by
    obtain ⟨m, n, result, left, right, resultEq, _, rfl⟩ :=
      arithmeticOnSingles?_eq_some_iff.mp single
    rw [roundedEq, Option.some.injEq] at resultEq
    subst resultEq
    exact ⟨_, rfl, arithmetic_of_toSingle? xEq yEq left right inexact⟩
  unfold arithmetic? at folded
  split at folded
  · rename_i i j
    cases exactEq : exactInteger? operator i j with
    | some result =>
        simp only [exactEq, Option.some.injEq] at folded
        cases xEq
        cases yEq
        subst folded
        refine ⟨_, rfl, ?_⟩
        simp only [Operator.arithmetic, Operator.numeric?, exactEq]
        rfl
    | none =>
        simp only [exactEq] at folded
        apply onSingles _ folded
        rintro _ _ ⟨⟩ ⟨⟩
        exact exactEq
  · rename_i notIntegers
    apply onSingles _ folded
    intro i j left right
    exact absurd right (notIntegers i j left)

/-- Numbers are added as numbers. -/
theorem addition_of_toSingle? (xEq : a.value? = some x) (yEq : b.value? = some y)
    (left : a.toSingle? = some m) (right : b.toSingle? = some n) :
    Operator.addition applied x y =
      Operator.arithmetic applied (exactInteger? .add) Single.add x y := by
  cases a <;> cases left <;> cases xEq <;> cases b <;> cases right <;> cases yEq <;> rfl

/-- Folded addition is the addition of a running world. -/
theorem addition_of_binary? (xEq : a.value? = some x) (yEq : b.value? = some y)
    (folded : binary? .add a b = some constant) :
    ∃ value, constant.value? = some value ∧ Operator.addition applied x y = .ok value := by
  simp only [binary?] at folded
  split at folded
  · cases xEq
    cases yEq
    cases folded
    exact ⟨_, rfl, rfl⟩
  · rcases exists_toSingle?_of_arithmetic? folded with ⟨m, n, left, right⟩
    rw [addition_of_toSingle? xEq yEq left right]
    exact arithmetic_of_arithmetic? (fun _ _ => rfl) xEq yEq folded

end

/-! ## Bits -/

/-- The folded operators on bits are those of a running world. -/
theorem bitwise_of_toInteger? (operator : BinaryOperator) {applied : Operator}
    (xEq : a.value? = some x) (yEq : b.value? = some y)
    (folded : (a.toInteger?.bind fun i => b.toInteger?.bind fun j =>
      (bitwise? operator i j).bind fun result => some (.integer result)) = some constant) :
    ∃ value, constant.value? = some value ∧
      Operator.bitwise applied (bitwise? operator) x y = .ok value := by
  simp only [Option.bind_eq_some_iff, Option.some.injEq] at folded
  rcases folded with ⟨i, left, j, right, result, resultEq, rfl⟩
  refine ⟨_, rfl, ?_⟩
  simp only [Operator.bitwise, integer?_of_toInteger? xEq left, integer?_of_toInteger? yEq right,
    resultEq]

/-- What a shared operator folds to is what it gives in a running world. -/
theorem onScalars_of_binary? (operator : SharedOperator)
    (xEq : a.value? = some x) (yEq : b.value? = some y)
    (folded : binary? operator.written a b = some constant) :
    ∃ value, constant.value? = some value ∧
      Operator.onScalars operator.applied x y = .ok value := by
  cases operator with
  | add => exact addition_of_binary? xEq yEq folded
  | subtract => exact arithmetic_of_arithmetic? (fun _ _ => rfl) xEq yEq folded
  | bitOr => exact bitwise_of_toInteger? .bitOr xEq yEq folded
  | bitAnd => exact bitwise_of_toInteger? .bitAnd xEq yEq folded
  | leftShift => exact bitwise_of_toInteger? .leftShift xEq yEq folded

end Constant

/-! ## Formulas -/

/-- A formula of an operator folds to what the operator makes of its folded
operands. -/
theorem Formula.fold?_binary_eq_some_iff {operator : SharedOperator} {left right : Formula}
    {constant : Constant} :
    (binary operator left right).toExpr.fold? = some constant ↔
      ∃ a b, left.toExpr.fold? = some a ∧ right.toExpr.fold? = some b ∧
        Constant.binary? operator.written a b = some constant := by
  have logical : operator.written ≠ .and ∧ operator.written ≠ .or := by
    cases operator <;> decide
  simp only [toExpr, Expr.fold?_binary logical.1 logical.2, Option.bind_eq_some_iff,
    exists_and_left]

/-- If a formula folds to a constant, then evaluating it in a running world does not
fail: it gives the value of that constant, with the same truth, and leaves the world
as it was. -/
theorem Formula.evaluate_of_folds {formula : Formula} {constant : Constant}
    (folded : formula.toExpr.fold? = some constant) (store : Store) :
    ∃ value, constant.value? = some value ∧
      formula.evaluate.runOn store = (.ok value, store) ∧
      store.isTruthy value = constant.isTruthy := by
  have evaluated : ∃ value, constant.value? = some value ∧
      formula.evaluate.runOn store = (.ok value, store) := by
    induction formula generalizing constant with
    | null | integer _ | float _ | text _ | path _ =>
        cases folded
        exact ⟨_, rfl, rfl⟩
    | binary operator left right leftIh rightIh =>
        rcases fold?_binary_eq_some_iff.mp folded with ⟨a, b, leftFolded, rightFolded, result⟩
        rcases leftIh leftFolded with ⟨x, xEq, leftRun⟩
        rcases rightIh rightFolded with ⟨y, yEq, rightRun⟩
        rcases Constant.onScalars_of_binary? operator xEq yEq result with ⟨value, valueEq, run⟩
        refine ⟨value, valueEq, ?_⟩
        rw [evaluate, Action.runOn_bind_of_ok leftRun, Action.runOn_bind_of_ok rightRun,
          Constant.apply_of_value? _ xEq, run, Action.runOn_ofExcept]
  rcases evaluated with ⟨value, valueEq, run⟩
  exact ⟨value, valueEq, run, Constant.isTruthy_of_value? store valueEq⟩

/-- A sum of integers that leaves their range, less a mask of shifted bits. -/
def Formula.overflowing : Formula :=
  .binary .subtract (.binary .add (.integer 2147483647) (.integer 1))
    (.binary .bitAnd (.integer 6) (.binary .leftShift (.integer 1) (.integer 3)))

/-- The sample folds to the float 2147483648, which it also evaluates to. -/
theorem Formula.evaluate_of_folds_overflowing :
    overflowing.toExpr.fold? = some (.float ⟨0x4f000000⟩) ∧
      ∃ value, Constant.value? (.float ⟨0x4f000000⟩) = some value ∧
        overflowing.evaluate.runOn {} = (.ok value, {}) ∧
        Store.isTruthy {} value = true := by
  have folded : overflowing.toExpr.fold? = some (.float ⟨0x4f000000⟩) := by decide +kernel
  exact ⟨folded, evaluate_of_folds folded {}⟩

end Syntax

end DreamWorld
