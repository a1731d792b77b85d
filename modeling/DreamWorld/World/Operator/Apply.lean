import DreamWorld.World.Hook

/-!
# Binary operators on values

An object on the left takes the meaning of an operator from the hook of its
class.  On scalars null counts as zero, and next to a text it counts as the empty
text.  Integers stay integers while the result is in range; otherwise the result
is a float.
-/

namespace DreamWorld.Operator

/-- The number that a scalar counts as. -/
def numeric? : Value → Option Value
  | .null => some (.integer 0)
  | .integer value => some (.integer value)
  | .float value => some (.float value)
  | _ => none

/-- The first of two operands that is not a number. -/
def culprit (a b : Value) : Value :=
  if (numeric? a).isNone then a else b

/-- An arithmetic operator, exact on integers where that is possible. -/
def arithmetic (operator : Operator) (exact : Int32 → Int32 → Option Int32)
    (rounded : Single → Single → Single) (a b : Value) : Except RuntimeError Value :=
  match numeric? a, numeric? b with
  | some x, some y => do
      let integer :=
        match x, y with
        | .integer m, .integer n => exact m n
        | _, _ => none
      match integer with
      | some result => return .integer result
      | none => return .float (rounded (← x.asSingle) (← y.asSingle))
  | _, _ => .error (unsupported operator (culprit a b))

/-- Addition.  Texts are joined. -/
def addition (operator : Operator) : Value → Value → Except RuntimeError Value
  | .text x, .text y => .ok (.text (x ++ y))
  | .text x, .null => .ok (.text x)
  | .null, .text y => .ok (.text y)
  | a, b => arithmetic operator Integer.add? Single.add a b

/-- The integer that an operand of a bitwise operator is. -/
def integer? (value : Value) : Option Int32 :=
  match numeric? value with
  | some (.integer x) => some x
  | _ => none

/-- A bitwise operator.  Where it has no result, its right operand is at fault. -/
def bitwise (operator : Operator) (apply : Int32 → Int32 → Option Int32) (a b : Value) :
    Except RuntimeError Value :=
  match integer? a, integer? b with
  | some x, some y =>
      match apply x y with
      | some result => .ok (.integer result)
      | none => .error (unsupported operator b)
  | none, _ => .error (unsupported operator a)
  | some _, none => .error (unsupported operator b)

/-- An operator whose left operand is not an object. -/
def onScalars (operator : Operator) (a b : Value) : Except RuntimeError Value :=
  match operator with
  | .add | .append => addition operator a b
  | .subtract | .remove => arithmetic operator Integer.subtract? Single.subtract a b
  | .combine => bitwise operator (fun x y => some (x ||| y)) a b
  | .mask => bitwise operator (fun x y => some (x &&& y)) a b
  | .output => bitwise operator Integer.shiftLeft? a b

/-- A binary operator on two values. -/
def apply (operator : Operator) (a b : Value) : Action Value :=
  match a with
  | .object ref => do
      match ← hookOf ref with
      | some hook => hook.applyOperator operator a b
      | none => throw (unsupported operator a)
  | _ => Action.ofExcept (onScalars operator a b)

end DreamWorld.Operator
