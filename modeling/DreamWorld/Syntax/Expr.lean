import DreamWorld.Number.Single
import DreamWorld.Path
import DreamWorld.Syntax.Operator
import DreamWorld.ValueKinds

/-!
# Expressions

Every expression form of the source language.  An expression owns its parts, so
it is a finite tree.  Number literals keep their bits, which makes equality of
expressions exact: two trees are equal when they are written alike.
-/

namespace DreamWorld.Syntax

/-- Whether a property step is checked against the declared type (`a.b`) or
looked up when it runs (`a:b`). -/
inductive StepKind where
  | direct
  | search
deriving DecidableEq

/-- One property step of a dereference. -/
structure DereferenceStep where
  kind : StepKind
  property : String
deriving DecidableEq

mutual

/-- Expressions. -/
inductive Expr where
  | integer (value : Int32)
  | float (value : Single)
  | text (value : String)
  | resource (path : String)
  | null
  | path (path : Path)
  | identifier (name : String)
  /-- A text with embedded expressions, in the order of their places. -/
  | textFormat (value : String) (interpolated : List Expr)
  | list (entries : List CallParameter)
  /-- `input(...) as kinds in choices` -/
  | input (parameters : List CallParameter) (kinds : ValueKinds) (choices : Option Expr)
  | initial (value : Expr)
  | isType (value type : Expr)
  /-- `istype(value)`, the type being that of the declaration. -/
  | isDeclaredType (value : Expr)
  | locateCoordinates (x y z : Expr)
  | locate (expression container : Option Expr)
  /-- `call(...)(...)` -/
  | call (callParameters procParameters : List CallParameter)
  | assign (operator : AssignOperator) (target value : Expr)
  | new (target : NewTarget) (parameters : List CallParameter)
  | unary (operator : UnaryOperator) (operand : Expr)
  | binary (operator : BinaryOperator) (left right : Expr)
  | ternary (condition ifTrue ifFalse : Expr)
  | isIn (value list : Expr)
  | listIndex (list index : Expr)
  | procCall (callable : Callable) (parameters : List CallParameter)
  | dereference (dereference : Dereference)
  | callable (callable : Callable)

/-- An argument of a call or an entry of a list, under a name or by position. -/
structure CallParameter where
  value : Expr
  name : Option String

/-- A receiver followed by property steps. -/
structure Dereference where
  expression : Expr
  steps : List DereferenceStep

/-- What `new` makes an instance of. -/
inductive NewTarget where
  | path (path : Path)
  | identifier (name : String)
  | dereference (dereference : Dereference)
  /-- The declared type of the variable that is assigned to. -/
  | inferred

/-- What a call calls. -/
inductive Callable where
  | dereference (dereference : Dereference)
  | procIdentifier (name : String)
  /-- `..`, the overridden implementation. -/
  | super
  /-- `.`, the current proc. -/
  | self

end

/-- The property that the last step names. -/
def Dereference.lastProperty? (dereference : Dereference) : Option String :=
  dereference.steps.getLast?.map DereferenceStep.property

namespace Expr

/-- Literal constants. -/
def isConstant : Expr → Bool
  | .integer _ | .float _ | .text _ | .resource _ | .null | .path _ => true
  | _ => false

/-- The value of a number literal with a fraction. -/
def floatValue? : Expr → Option Single
  | .float value => some value
  | _ => none

end Expr

/-! ## Equality of trees -/

mutual

/-- Two expressions are written alike. -/
def Expr.same : Expr → Expr → Bool
  | .integer a, .integer b => a == b
  | .float a, .float b => a == b
  | .text a, .text b => a == b
  | .resource a, .resource b => a == b
  | .null, .null => true
  | .path a, .path b => a == b
  | .identifier a, .identifier b => a == b
  | .textFormat a as, .textFormat b bs => a == b && sameExprs as bs
  | .list as, .list bs => sameParameters as bs
  | .input as j a, .input bs k b => sameParameters as bs && j == k && sameOption a b
  | .initial a, .initial b => a.same b
  | .isType a s, .isType b t => a.same b && s.same t
  | .isDeclaredType a, .isDeclaredType b => a.same b
  | .locateCoordinates x y z, .locateCoordinates u v w => x.same u && y.same v && z.same w
  | .locate a c, .locate b d => sameOption a b && sameOption c d
  | .call as cs, .call bs ds => sameParameters as bs && sameParameters cs ds
  | .assign o s a, .assign p t b => o == p && s.same t && a.same b
  | .new s as, .new t bs => s.same t && sameParameters as bs
  | .unary o a, .unary p b => o == p && a.same b
  | .binary o a c, .binary p b d => o == p && a.same b && c.same d
  | .ternary a c e, .ternary b d f => a.same b && c.same d && e.same f
  | .isIn a c, .isIn b d => a.same b && c.same d
  | .listIndex a c, .listIndex b d => a.same b && c.same d
  | .procCall s as, .procCall t bs => s.same t && sameParameters as bs
  | .dereference a, .dereference b => a.same b
  | .callable a, .callable b => a.same b
  | _, _ => false

/-- Two lists of expressions are written alike. -/
def sameExprs : List Expr → List Expr → Bool
  | [], [] => true
  | a :: as, b :: bs => a.same b && sameExprs as bs
  | _, _ => false

/-- Two optional expressions are written alike. -/
def sameOption : Option Expr → Option Expr → Bool
  | none, none => true
  | some a, some b => a.same b
  | _, _ => false

/-- Two lists of parameters are written alike. -/
def sameParameters : List CallParameter → List CallParameter → Bool
  | [], [] => true
  | ⟨a, m⟩ :: as, ⟨b, n⟩ :: bs => a.same b && m == n && sameParameters as bs
  | _, _ => false

/-- Two dereferences are written alike. -/
def Dereference.same : Dereference → Dereference → Bool
  | ⟨a, s⟩, ⟨b, t⟩ => a.same b && s == t

/-- Two targets of `new` are written alike. -/
def NewTarget.same : NewTarget → NewTarget → Bool
  | .path a, .path b => a == b
  | .identifier a, .identifier b => a == b
  | .dereference a, .dereference b => a.same b
  | .inferred, .inferred => true
  | _, _ => false

/-- Two callables are written alike. -/
def Callable.same : Callable → Callable → Bool
  | .dereference a, .dereference b => a.same b
  | .procIdentifier a, .procIdentifier b => a == b
  | .super, .super => true
  | .self, .self => true
  | _, _ => false

end

end DreamWorld.Syntax
