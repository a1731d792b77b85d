import DreamWorld.Number.Integer
import DreamWorld.Syntax.Expr

/-!
# Constant folding

An expression whose value does not depend on the running world folds to a
constant.  Integers stay exact: an operation whose result is not an integer in
range is computed on singles instead, and such a result counts only if it is
finite.  Logical operators look at their right operand only when the left one
does not decide.
-/

namespace DreamWorld.Syntax

/-- A folded constant. -/
inductive Constant where
  | null
  | integer (value : Int32)
  | float (value : Single)
  | text (value : String)
  | resource (path : String)
  | path (path : Path)
deriving DecidableEq

namespace Constant

/-- Null, zero and the empty text are false. -/
def isTruthy : Constant → Bool
  | .null => false
  | .integer value => value != 0
  | .float value => !value.isZero
  | .text value => !value.isEmpty
  | .resource _ | .path _ => true

/-- The literal of a constant. -/
def toExpr : Constant → Expr
  | .null => .null
  | .integer value => .integer value
  | .float value => .float value
  | .text value => .text value
  | .resource value => .resource value
  | .path value => .path value

/-- The numeric value of a constant, integers being rounded to singles. -/
def toSingle? : Constant → Option Single
  | .integer value => some (Single.ofInt value.toInt)
  | .float value => some value
  | _ => none

def toInteger? : Constant → Option Int32
  | .integer value => some value
  | _ => none

/-- Equality of constants as such: floats are equal as numbers, so that
not-a-number differs from itself. -/
def same : Constant → Constant → Bool
  | .float a, .float b => a.sameNumber b
  | a, b => a == b

/-- The truth values are the integers one and zero. -/
def ofBool (value : Bool) : Constant :=
  .integer (if value then 1 else 0)

/-! ## Operators on constants -/

/-- The operator `==`: numbers compare by value whatever their form. -/
def equals (a b : Constant) : Bool :=
  match a.toSingle?, b.toSingle? with
  | some x, some y => x.sameNumber y
  | _, _ => a.same b

/-- How two constants are ordered: texts by their characters, numbers by value,
anything else not at all. -/
def compare? : Constant → Constant → Option Ordering
  | .text a, .text b => some (compare a b)
  | a, b => do (← a.toSingle?).compare? (← b.toSingle?)

/-- The operators that order their operands. -/
def ordered? (operator : BinaryOperator) (a b : Constant) : Option Constant := do
  let ordering ← compare? a b
  match operator with
  | .lessThan => return ofBool ordering.isLT
  | .lessThanOrEqual => return ofBool ordering.isLE
  | .greaterThan => return ofBool ordering.isGT
  | .greaterThanOrEqual => return ofBool ordering.isGE
  | _ => none

/-- The exact integer result of an arithmetic operator, if there is one. -/
def exactInteger? (operator : BinaryOperator) (a b : Int32) : Option Int32 :=
  match operator with
  | .add => Integer.add? a b
  | .subtract => Integer.subtract? a b
  | .multiply => Integer.multiply? a b
  | .divide => Integer.divide? a b
  | .modulus => Integer.remainder? a b
  | .power => Integer.power? a b
  | _ => none

/-- The result of an arithmetic operator on singles, before it is checked to be
finite.  Nothing is divided by zero. -/
def singleResult? (operator : BinaryOperator) (a b : Single) : Option Single :=
  match operator with
  | .add => some (a.add b)
  | .subtract => some (a.subtract b)
  | .multiply => some (a.multiply b)
  | .divide => if b.isZero then none else some (a.divide b)
  | .modulus => if b.isZero then none else some (a.remainder b)
  | .power => some (a.power b)
  | _ => none

/-- Arithmetic on singles; a result that is not finite is none. -/
def arithmeticOnSingles? (operator : BinaryOperator) (a b : Constant) : Option Constant := do
  let result ← singleResult? operator (← a.toSingle?) (← b.toSingle?)
  if result.isFinite then some (.float result) else none

theorem arithmeticOnSingles?_eq_some_iff {operator : BinaryOperator} {a b constant : Constant} :
    arithmeticOnSingles? operator a b = some constant ↔
      ∃ m n result, a.toSingle? = some m ∧ b.toSingle? = some n ∧
        singleResult? operator m n = some result ∧ result.isFinite = true ∧
        constant = .float result := by
  simp only [arithmeticOnSingles?, Option.bind_eq_bind, Option.bind_eq_some_iff,
    Option.ite_none_right_eq_some, Option.some.injEq]
  constructor
  · rintro ⟨m, left, n, right, result, resultEq, finite, rfl⟩
    exact ⟨m, n, result, left, right, resultEq, finite, rfl⟩
  · rintro ⟨m, n, result, left, right, resultEq, finite, rfl⟩
    exact ⟨m, left, n, right, result, resultEq, finite, rfl⟩

/-- Arithmetic: exact on integers where that is possible, otherwise on singles. -/
def arithmetic? (operator : BinaryOperator) (a b : Constant) : Option Constant :=
  match a, b with
  | .integer x, .integer y =>
      match exactInteger? operator x y with
      | some value => some (.integer value)
      | none => arithmeticOnSingles? operator a b
  | _, _ => arithmeticOnSingles? operator a b

/-- The operators on the bits of integers. -/
def bitwise? (operator : BinaryOperator) (a b : Int32) : Option Int32 :=
  match operator with
  | .bitAnd => some (a &&& b)
  | .bitOr => some (a ||| b)
  | .bitXor => some (a ^^^ b)
  | .leftShift => Integer.shiftLeft? a b
  | .rightShift => Integer.shiftRight? a b
  | _ => none

/-- A binary operator on two constants.  The logical operators are not among
them, as they do not always need both. -/
def binary? (operator : BinaryOperator) (a b : Constant) : Option Constant :=
  match operator with
  | .equal => some (ofBool (a.equals b))
  | .notEqual => some (ofBool (!a.equals b))
  | .lessThan | .lessThanOrEqual | .greaterThan | .greaterThanOrEqual =>
      ordered? operator a b
  | .add =>
      match a, b with
      | .text x, .text y => some (.text (x ++ y))
      | _, _ => arithmetic? operator a b
  | .subtract | .multiply | .divide | .modulus | .power => arithmetic? operator a b
  | .bitAnd | .bitOr | .bitXor | .leftShift | .rightShift => do
      let result ← bitwise? operator (← a.toInteger?) (← b.toInteger?)
      return .integer result
  | .and | .or => none

/-- A unary operator on a constant.  The operators that write to their operand
have no constant result. -/
def unary? (operator : UnaryOperator) (a : Constant) : Option Constant :=
  match operator, a with
  | .not, a => some (ofBool !a.isTruthy)
  | .negate, .integer value =>
      match Integer.negate? value with
      | some negated => some (.integer negated)
      | none => some (.float (Single.ofInt value.toInt).negate)
  | .negate, .float value => some (.float value.negate)
  | .bitNot, .integer value => some (.integer (~~~value))
  | _, _ => none

end Constant

/-! ## Folding -/

/-- The constant that an expression is, if it is one. -/
def Expr.fold? : Expr → Option Constant
  | .integer value => some (.integer value)
  | .float value => some (.float value)
  | .text value => some (.text value)
  | .resource value => some (.resource value)
  | .null => some .null
  | .path value => some (.path value)
  | .unary operator operand => operand.fold?.bind (Constant.unary? operator)
  | .binary operator left right =>
      match left.fold? with
      | none => none
      | some a =>
          match operator with
          | .and => if a.isTruthy then right.fold? else some a
          | .or => if a.isTruthy then some a else right.fold?
          | _ => right.fold?.bind (Constant.binary? operator a)
  | .ternary condition ifTrue ifFalse =>
      match condition.fold? with
      | none => none
      | some decided => if decided.isTruthy then ifTrue.fold? else ifFalse.fold?
  | _ => none

/-- An operator that is not logical needs both operands. -/
theorem Expr.fold?_binary {operator : BinaryOperator} (notAnd : operator ≠ .and)
    (notOr : operator ≠ .or) (left right : Expr) :
    (binary operator left right).fold? =
      left.fold?.bind fun a => right.fold?.bind (Constant.binary? operator a) := by
  rw [fold?]
  cases left.fold? with
  | none => rfl
  | some a => cases operator <;> first | rfl | contradiction

/-- Two optional constants are the same; two absent ones are. -/
def sameFolded : Option Constant → Option Constant → Bool
  | none, none => true
  | some a, some b => a.same b
  | _, _ => false

end DreamWorld.Syntax
