import DreamWorld.Proofs.Syntax.SourceOrder

/-!
# Places of subexpressions

A subexpression stands in an expression at some place, and what is around that place is its
context.  A context is built from frames, each of them an expression that lacks one of the
expressions it is made of: an operand, an entry of a list, an argument of a call, the receiver of a
dereference, and so on.  Plugging an expression into a context puts it at the place.

No place is missing: whatever expression a walk through an expression visits stands in it in some
context.
-/

namespace DreamWorld.Syntax

/-! ## Frames -/

/-- Parameters of which one lacks its value. -/
structure ParameterFrame where
  before : List CallParameter
  name : Option String
  after : List CallParameter

def ParameterFrame.plug (frame : ParameterFrame) (value : Expr) : List CallParameter :=
  frame.before ++ ⟨value, frame.name⟩ :: frame.after

/-- An expression that lacks one of the expressions it is made of. -/
inductive Expr.Frame where
  | textFormat (value : String) (before after : List Expr)
  | list (entries : ParameterFrame)
  | inputParameter (parameters : ParameterFrame) (kinds : ValueKinds) (choices : Option Expr)
  | inputChoices (parameters : List CallParameter) (kinds : ValueKinds)
  | initial
  | isTypeValue (type : Expr)
  | isTypeType (value : Expr)
  | isDeclaredType
  | locateX (y z : Expr)
  | locateY (x z : Expr)
  | locateZ (x y : Expr)
  | locateExpression (container : Option Expr)
  | locateContainer (expression : Option Expr)
  | callParameter (callParameters : ParameterFrame) (procParameters : List CallParameter)
  | callArgument (callParameters : List CallParameter) (procParameters : ParameterFrame)
  | assignTarget (operator : AssignOperator) (value : Expr)
  | assignValue (operator : AssignOperator) (target : Expr)
  | newTarget (steps : List DereferenceStep) (parameters : List CallParameter)
  | newParameter (target : NewTarget) (parameters : ParameterFrame)
  | unary (operator : UnaryOperator)
  | binaryLeft (operator : BinaryOperator) (right : Expr)
  | binaryRight (operator : BinaryOperator) (left : Expr)
  | ternaryCondition (ifTrue ifFalse : Expr)
  | ternaryTrue (condition ifFalse : Expr)
  | ternaryFalse (condition ifTrue : Expr)
  | isInValue (container : Expr)
  | isInContainer (value : Expr)
  | listIndexContainer (index : Expr)
  | listIndexIndex (container : Expr)
  | procCallReceiver (steps : List DereferenceStep) (parameters : List CallParameter)
  | procCallParameter (callee : Callable) (parameters : ParameterFrame)
  | dereference (steps : List DereferenceStep)
  | callable (steps : List DereferenceStep)

/-- The expression that a frame becomes when the lacking one is put in. -/
def Expr.Frame.plug : Expr.Frame → Expr → Expr
  | .textFormat value before after, inner => .textFormat value (before ++ inner :: after)
  | .list entries, inner => .list (entries.plug inner)
  | .inputParameter parameters kinds choices, inner => .input (parameters.plug inner) kinds choices
  | .inputChoices parameters kinds, inner => .input parameters kinds (some inner)
  | .initial, inner => .initial inner
  | .isTypeValue type, inner => .isType inner type
  | .isTypeType value, inner => .isType value inner
  | .isDeclaredType, inner => .isDeclaredType inner
  | .locateX y z, inner => .locateCoordinates inner y z
  | .locateY x z, inner => .locateCoordinates x inner z
  | .locateZ x y, inner => .locateCoordinates x y inner
  | .locateExpression container, inner => .locate (some inner) container
  | .locateContainer expression, inner => .locate expression (some inner)
  | .callParameter parameters arguments, inner => .call (parameters.plug inner) arguments
  | .callArgument parameters arguments, inner => .call parameters (arguments.plug inner)
  | .assignTarget operator value, inner => .assign operator inner value
  | .assignValue operator target, inner => .assign operator target inner
  | .newTarget steps parameters, inner => .new (.dereference ⟨inner, steps⟩) parameters
  | .newParameter target parameters, inner => .new target (parameters.plug inner)
  | .unary operator, inner => .unary operator inner
  | .binaryLeft operator right, inner => .binary operator inner right
  | .binaryRight operator left, inner => .binary operator left inner
  | .ternaryCondition ifTrue ifFalse, inner => .ternary inner ifTrue ifFalse
  | .ternaryTrue condition ifFalse, inner => .ternary condition inner ifFalse
  | .ternaryFalse condition ifTrue, inner => .ternary condition ifTrue inner
  | .isInValue container, inner => .isIn inner container
  | .isInContainer value, inner => .isIn value inner
  | .listIndexContainer index, inner => .listIndex inner index
  | .listIndexIndex container, inner => .listIndex container inner
  | .procCallReceiver steps parameters, inner =>
      .procCall (.dereference ⟨inner, steps⟩) parameters
  | .procCallParameter callee parameters, inner => .procCall callee (parameters.plug inner)
  | .dereference steps, inner => .dereference ⟨inner, steps⟩
  | .callable steps, inner => .callable (.dereference ⟨inner, steps⟩)

/-- What is around a place in an expression, the outermost frame first. -/
abbrev Expr.Context : Type :=
  List Expr.Frame

/-- The expression with another one put at the place. -/
def Expr.Context.plug (context : Expr.Context) (inner : Expr) : Expr :=
  context.foldr Expr.Frame.plug inner

@[simp]
theorem Expr.Context.plug_nil (inner : Expr) : Context.plug [] inner = inner :=
  rfl

@[simp]
theorem Expr.Context.plug_cons (frame : Expr.Frame) (context : Expr.Context) (inner : Expr) :
    Context.plug (frame :: context) inner = frame.plug (context.plug inner) :=
  rfl

/-! ## Contexts and walks -/

/-- The node is an expression in which another one stands in some context, or a part of
expressions that owns such an expression. -/
inductive Node.Holds (inner : Expr) : Node → Prop
  | expr (context : Expr.Context) : Holds inner (.expr (context.plug inner))
  | callParameter (context : Expr.Context) (name : Option String) :
      Holds inner (.callParameter ⟨context.plug inner, name⟩)
  | dereference (context : Expr.Context) (steps : List DereferenceStep) :
      Holds inner (.dereference ⟨context.plug inner, steps⟩)
  | callable (context : Expr.Context) (steps : List DereferenceStep) :
      Holds inner (.callable (.dereference ⟨context.plug inner, steps⟩))

section

variable {inner expr : Expr} {child : Node}

theorem exists_plug_of_mem_callParameters {parameters : List CallParameter}
    (childMem : child ∈ callParameters parameters) (holds : child.Holds inner) :
    ∃ (frame : ParameterFrame) (context : Expr.Context),
      parameters = frame.plug (context.plug inner) := by
  rcases List.mem_map.mp childMem with ⟨parameter, parameterMem, rfl⟩
  cases holds with
  | callParameter context name =>
      rcases List.append_of_mem parameterMem with ⟨before, after, rfl⟩
      exact ⟨⟨before, name, after⟩, context, rfl⟩

theorem exists_plug_of_mem_exprs {exprs : List Expr} (childMem : child ∈ exprs.map .expr)
    (holds : child.Holds inner) :
    ∃ (before after : List Expr) (context : Expr.Context),
      exprs = before ++ context.plug inner :: after := by
  rcases List.mem_map.mp childMem with ⟨expr, exprMem, rfl⟩
  cases holds with
  | expr context =>
      rcases List.append_of_mem exprMem with ⟨before, after, rfl⟩
      exact ⟨before, after, context, rfl⟩

theorem exists_plug_of_mem_optionalExpr {expr : Option Expr}
    (childMem : child ∈ optionalExpr expr) (holds : child.Holds inner) :
    ∃ context : Expr.Context, expr = some (context.plug inner) := by
  cases expr with
  | none => cases childMem
  | some expr =>
      cases List.mem_singleton.mp childMem
      cases holds with
      | expr context => exact ⟨context, rfl⟩

/-- A child that is an expression stands in the frame that its owner leaves when it is taken out. -/
theorem Expr.Frame.holds_plug (frame : Expr.Frame) {part : Expr}
    (holds : (Node.expr part).Holds inner) : (Node.expr (frame.plug part)).Holds inner := by
  cases holds with
  | expr context => exact .expr (frame :: context)

theorem Expr.holds_of_mem_children (childMem : child ∈ expr.children) (holds : child.Holds inner) :
    (Node.expr expr).Holds inner := by
  cases expr with
  | integer | float | text | resource | null | identifier => cases childMem
  | path =>
      cases List.mem_singleton.mp childMem
      cases holds
  | textFormat value interpolated =>
      rcases exists_plug_of_mem_exprs childMem holds with ⟨before, after, context, rfl⟩
      exact .expr (.textFormat value before after :: context)
  | list entries =>
      rcases exists_plug_of_mem_callParameters childMem holds with ⟨frame, context, rfl⟩
      exact .expr (.list frame :: context)
  | input parameters kinds choices =>
      rcases List.mem_append.mp childMem with parameterMem | choicesMem
      · rcases exists_plug_of_mem_callParameters parameterMem holds with ⟨frame, context, rfl⟩
        exact .expr (.inputParameter frame kinds choices :: context)
      · rcases exists_plug_of_mem_optionalExpr choicesMem holds with ⟨context, rfl⟩
        exact .expr (.inputChoices parameters kinds :: context)
  | initial value =>
      cases List.mem_singleton.mp childMem
      exact Expr.Frame.initial.holds_plug holds
  | isDeclaredType value =>
      cases List.mem_singleton.mp childMem
      exact Expr.Frame.isDeclaredType.holds_plug holds
  | isType value type =>
      simp only [children, List.mem_cons, List.not_mem_nil, or_false] at childMem
      rcases childMem with rfl | rfl
      · exact (Expr.Frame.isTypeValue type).holds_plug holds
      · exact (Expr.Frame.isTypeType value).holds_plug holds
  | locateCoordinates x y z =>
      simp only [children, List.mem_cons, List.not_mem_nil, or_false] at childMem
      rcases childMem with rfl | rfl | rfl
      · exact (Expr.Frame.locateX y z).holds_plug holds
      · exact (Expr.Frame.locateY x z).holds_plug holds
      · exact (Expr.Frame.locateZ x y).holds_plug holds
  | locate expression container =>
      rcases List.mem_append.mp childMem with expressionMem | containerMem
      · rcases exists_plug_of_mem_optionalExpr expressionMem holds with ⟨context, rfl⟩
        exact .expr (.locateExpression container :: context)
      · rcases exists_plug_of_mem_optionalExpr containerMem holds with ⟨context, rfl⟩
        exact .expr (.locateContainer expression :: context)
  | call parameters arguments =>
      rcases List.mem_append.mp childMem with parameterMem | argumentMem
      · rcases exists_plug_of_mem_callParameters parameterMem holds with ⟨frame, context, rfl⟩
        exact .expr (.callParameter frame arguments :: context)
      · rcases exists_plug_of_mem_callParameters argumentMem holds with ⟨frame, context, rfl⟩
        exact .expr (.callArgument parameters frame :: context)
  | assign operator target value =>
      simp only [children, List.mem_cons, List.not_mem_nil, or_false] at childMem
      rcases childMem with rfl | rfl
      · exact (Expr.Frame.assignTarget operator value).holds_plug holds
      · exact (Expr.Frame.assignValue operator target).holds_plug holds
  | new target parameters =>
      rcases List.mem_append.mp childMem with targetMem | parameterMem
      · cases target with
        | path =>
            cases List.mem_singleton.mp targetMem
            cases holds
        | dereference =>
            cases List.mem_singleton.mp targetMem
            cases holds with
            | dereference context steps => exact .expr (.newTarget steps parameters :: context)
        | identifier | inferred => cases targetMem
      · rcases exists_plug_of_mem_callParameters parameterMem holds with ⟨frame, context, rfl⟩
        exact .expr (.newParameter target frame :: context)
  | unary operator operand =>
      cases List.mem_singleton.mp childMem
      exact (Expr.Frame.unary operator).holds_plug holds
  | binary operator left right =>
      simp only [children, List.mem_cons, List.not_mem_nil, or_false] at childMem
      rcases childMem with rfl | rfl
      · exact (Expr.Frame.binaryLeft operator right).holds_plug holds
      · exact (Expr.Frame.binaryRight operator left).holds_plug holds
  | ternary condition ifTrue ifFalse =>
      simp only [children, List.mem_cons, List.not_mem_nil, or_false] at childMem
      rcases childMem with rfl | rfl | rfl
      · exact (Expr.Frame.ternaryCondition ifTrue ifFalse).holds_plug holds
      · exact (Expr.Frame.ternaryTrue condition ifFalse).holds_plug holds
      · exact (Expr.Frame.ternaryFalse condition ifTrue).holds_plug holds
  | isIn value container =>
      simp only [children, List.mem_cons, List.not_mem_nil, or_false] at childMem
      rcases childMem with rfl | rfl
      · exact (Expr.Frame.isInValue container).holds_plug holds
      · exact (Expr.Frame.isInContainer value).holds_plug holds
  | listIndex container index =>
      simp only [children, List.mem_cons, List.not_mem_nil, or_false] at childMem
      rcases childMem with rfl | rfl
      · exact (Expr.Frame.listIndexContainer index).holds_plug holds
      · exact (Expr.Frame.listIndexIndex container).holds_plug holds
  | procCall callable parameters =>
      rcases List.mem_cons.mp childMem with rfl | parameterMem
      · cases holds with
        | callable context steps => exact .expr (.procCallReceiver steps parameters :: context)
      · rcases exists_plug_of_mem_callParameters parameterMem holds with ⟨frame, context, rfl⟩
        exact .expr (.procCallParameter callable frame :: context)
  | dereference =>
      cases List.mem_singleton.mp childMem
      cases holds with
      | dereference context steps => exact .expr (.dereference steps :: context)
  | callable =>
      cases List.mem_singleton.mp childMem
      cases holds with
      | callable context steps => exact .expr (.callable steps :: context)

theorem Node.holds_of_mem_children {node : Node} (isExpression : node.isExpression = true)
    (childMem : child ∈ node.children) (holds : child.Holds inner) : node.Holds inner := by
  cases node with
  | expr item => exact Expr.holds_of_mem_children childMem holds
  | callParameter item =>
      cases List.mem_singleton.mp childMem
      cases item
      cases holds with
      | expr context => exact .callParameter context _
  | dereference item =>
      cases List.mem_singleton.mp childMem
      cases item
      cases holds with
      | expr context => exact .dereference context _
  | callable item =>
      cases item with
      | dereference =>
          cases List.mem_singleton.mp childMem
          cases holds with
          | dereference context steps => exact .callable context steps
      | procIdentifier | super | self => cases childMem
  | path => cases childMem
  | _ => cases isExpression

theorem Node.holds_of_mem_occurring {node : Node} (isExpression : node.isExpression = true)
    (mem : .expr inner ∈ node.occurring) : node.Holds inner := by
  induction node using Node.childInduction with
  | step node ih =>
      rw [occurring_eq, List.mem_cons, List.mem_flatMap] at mem
      rcases mem with rfl | ⟨child, childMem, innerMem⟩
      · exact .expr []
      · have childIsExpression := isExpression_of_mem_children isExpression child childMem
        exact holds_of_mem_children isExpression childMem
          (ih child childMem childIsExpression innerMem)

/-- An expression that occurs in another one stands in it in some context. -/
theorem Expr.exists_context (occurs : .expr inner ∈ (Node.expr expr).occurring) :
    ∃ context : Expr.Context, context.plug inner = expr := by
  generalize nodeEq : Node.expr expr = node at occurs
  have holds : node.Holds inner := Node.holds_of_mem_occurring (by rw [← nodeEq]; rfl) occurs
  cases holds with
  | expr context =>
      cases nodeEq
      exact ⟨context, rfl⟩
  | callParameter | dereference | callable => cases nodeEq

end

end DreamWorld.Syntax
