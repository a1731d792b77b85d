/-!
# Operators of the source language

The operators that expressions are built with, their symbols, and how tightly
they bind.  A compound assignment is tied to the binary operator that it applies
before it stores.
-/

namespace DreamWorld.Syntax

/-- Operators between two operands. -/
inductive BinaryOperator where
  | equal
  | notEqual
  | lessThan
  | lessThanOrEqual
  | greaterThan
  | greaterThanOrEqual
  | multiply
  | divide
  | modulus
  | power
  | add
  | subtract
  | or
  | and
  | bitAnd
  | bitOr
  | bitXor
  | leftShift
  | rightShift
deriving DecidableEq

namespace BinaryOperator

def symbol : BinaryOperator → String
  | .equal => "=="
  | .notEqual => "!="
  | .lessThan => "<"
  | .lessThanOrEqual => "<="
  | .greaterThan => ">"
  | .greaterThanOrEqual => ">="
  | .multiply => "*"
  | .divide => "/"
  | .modulus => "%"
  | .power => "**"
  | .add => "+"
  | .subtract => "-"
  | .or => "||"
  | .and => "&&"
  | .bitAnd => "&"
  | .bitOr => "|"
  | .bitXor => "^"
  | .leftShift => "<<"
  | .rightShift => ">>"

/-- The level at which an operator binds; a lower level binds tighter. -/
def precedence : BinaryOperator → Nat
  | .power => 1
  | .multiply | .divide | .modulus => 2
  | .add | .subtract => 3
  | .lessThan | .lessThanOrEqual | .greaterThan | .greaterThanOrEqual => 4
  | .leftShift | .rightShift => 5
  | .equal | .notEqual => 6
  | .bitAnd | .bitOr | .bitXor => 7
  | .and => 8
  | .or => 9

/-- The result is a truth value. -/
def isComparison : BinaryOperator → Bool
  | .equal | .notEqual | .lessThan | .lessThanOrEqual | .greaterThan
  | .greaterThanOrEqual => true
  | _ => false

end BinaryOperator

/-- Operators on one operand. -/
inductive UnaryOperator where
  | not
  | negate
  | bitNot
  | preIncrement
  | preDecrement
  | postIncrement
  | postDecrement
deriving DecidableEq

namespace UnaryOperator

def symbol : UnaryOperator → String
  | .not => "!"
  | .negate => "-"
  | .bitNot => "~"
  | .preIncrement | .postIncrement => "++"
  | .preDecrement | .postDecrement => "--"

/-- The operator writes back to its operand. -/
def isMutating : UnaryOperator → Bool
  | .preIncrement | .preDecrement | .postIncrement | .postDecrement => true
  | .not | .negate | .bitNot => false

end UnaryOperator

/-- Assignment operators.  Append, remove, combine and mask change a list in
place where the target holds one. -/
inductive AssignOperator where
  | assign
  | append
  | remove
  | combine
  | mask
  | multiply
  | divide
  | leftShift
  | rightShift
  | xor
deriving DecidableEq

namespace AssignOperator

def symbol : AssignOperator → String
  | .assign => "="
  | .append => "+="
  | .remove => "-="
  | .combine => "|="
  | .mask => "&="
  | .multiply => "*="
  | .divide => "/="
  | .leftShift => "<<="
  | .rightShift => ">>="
  | .xor => "^="

/-- The binary operator that is applied before storing; a plain assignment
applies none. -/
def binary? : AssignOperator → Option BinaryOperator
  | .assign => none
  | .append => some .add
  | .remove => some .subtract
  | .combine => some .bitOr
  | .mask => some .bitAnd
  | .multiply => some .multiply
  | .divide => some .divide
  | .leftShift => some .leftShift
  | .rightShift => some .rightShift
  | .xor => some .bitXor

end AssignOperator

end DreamWorld.Syntax
