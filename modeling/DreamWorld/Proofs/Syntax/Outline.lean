import DreamWorld.Syntax.Walk

/-!
# Outlines of syntax trees

The outline of a syntax tree is the tree of its nodes.  It is read off the syntax form by form, each
node with the nodes that are written as its parts, and does not refer to any traversal.  The parts
of a node turn out to be the outlines of its children, in the same order.
-/

namespace DreamWorld.Syntax

/-- A node and the outlines of its parts.  These stand in the order in which they are written, but
for the condition of a `do` loop, which stands before the body. -/
inductive Outline where
  | node (head : Node) (parts : List Outline)

/-! ## Parts of nodes -/

mutual

def Expr.parts : Expr → List Outline
  | .integer _ | .float _ | .text _ | .resource _ | .null | .identifier _ => []
  | .path path => [.node (.path path) []]
  | .textFormat _ interpolated => exprOutlines interpolated
  | .list entries => parameterOutlines entries
  | .input parameters _ choices => parameterOutlines parameters ++ optionalOutline choices
  | .initial value | .isDeclaredType value => [.node (.expr value) value.parts]
  | .isType value type => [.node (.expr value) value.parts, .node (.expr type) type.parts]
  | .locateCoordinates x y z =>
      [.node (.expr x) x.parts, .node (.expr y) y.parts, .node (.expr z) z.parts]
  | .locate expression container => optionalOutline expression ++ optionalOutline container
  | .call callParameters procParameters =>
      parameterOutlines callParameters ++ parameterOutlines procParameters
  | .assign _ target value =>
      [.node (.expr target) target.parts, .node (.expr value) value.parts]
  | .new target parameters => target.parts ++ parameterOutlines parameters
  | .unary _ operand => [.node (.expr operand) operand.parts]
  | .binary _ left right => [.node (.expr left) left.parts, .node (.expr right) right.parts]
  | .ternary condition ifTrue ifFalse =>
      [.node (.expr condition) condition.parts, .node (.expr ifTrue) ifTrue.parts,
        .node (.expr ifFalse) ifFalse.parts]
  | .isIn value list => [.node (.expr value) value.parts, .node (.expr list) list.parts]
  | .listIndex list index => [.node (.expr list) list.parts, .node (.expr index) index.parts]
  | .procCall callable parameters =>
      .node (.callable callable) callable.parts :: parameterOutlines parameters
  | .dereference dereference => [.node (.dereference dereference) dereference.parts]
  | .callable callable => [.node (.callable callable) callable.parts]

def exprOutlines : List Expr → List Outline
  | [] => []
  | expr :: rest => .node (.expr expr) expr.parts :: exprOutlines rest

def optionalOutline : Option Expr → List Outline
  | none => []
  | some expr => [.node (.expr expr) expr.parts]

def CallParameter.parts : CallParameter → List Outline
  | ⟨value, _⟩ => [.node (.expr value) value.parts]

def parameterOutlines : List CallParameter → List Outline
  | [] => []
  | parameter :: rest => .node (.callParameter parameter) parameter.parts :: parameterOutlines rest

def Dereference.parts : Dereference → List Outline
  | ⟨expression, _⟩ => [.node (.expr expression) expression.parts]

/-- The target of `new` is no node; a path or a dereference that it names is one. -/
def NewTarget.parts : NewTarget → List Outline
  | .path path => [.node (.path path) []]
  | .dereference dereference => [.node (.dereference dereference) dereference.parts]
  | .identifier _ | .inferred => []

def Callable.parts : Callable → List Outline
  | .dereference dereference => [.node (.dereference dereference) dereference.parts]
  | .procIdentifier _ | .super | .self => []

end

def VarDeclaration.parts (declaration : VarDeclaration) : List Outline :=
  optionalOutline declaration.value

mutual

def ProcStatement.parts : ProcStatement → List Outline
  | .expression value | .delete value | .set _ value => [.node (.expr value) value.parts]
  | .varDeclaration declaration => [.node (.varDeclaration declaration) declaration.parts]
  | .return value => optionalOutline value
  | .break | .continue | .goto _ | .label _ => []
  | .spawn time body => optionalOutline time ++ [.node (.procBlock body) body.parts]
  | .if condition body none =>
      [.node (.expr condition) condition.parts, .node (.procBlock body) body.parts]
  | .if condition body (some elseBody) =>
      [.node (.expr condition) condition.parts, .node (.procBlock body) body.parts,
        .node (.procBlock elseBody) elseBody.parts]
  | .forStandard initializer comparator incrementor body =>
      statementOutline initializer ++ optionalOutline comparator ++
        optionalOutline incrementor ++ [.node (.procBlock body) body.parts]
  | .forList initializer _ list body =>
      statementOutline initializer ++
        [.node (.expr list) list.parts, .node (.procBlock body) body.parts]
  | .forRange initializer _ start stop step body =>
      statementOutline initializer ++
        [.node (.expr start) start.parts, .node (.expr stop) stop.parts] ++
        optionalOutline step ++ [.node (.procBlock body) body.parts]
  | .forLoop declaration target condition incrementer body =>
      (declaration.toList.map fun declaration =>
        .node (.varDeclaration declaration) declaration.parts) ++
        optionalOutline target ++ optionalOutline condition ++ optionalOutline incrementer ++
        [.node (.procBlock body) body.parts]
  | .while condition body | .doWhile condition body =>
      [.node (.expr condition) condition.parts, .node (.procBlock body) body.parts]
  | .switch value cases => .node (.expr value) value.parts :: caseOutlines cases
  | .browse receiver first second | .browseResource receiver first second
  | .outputControl receiver first second =>
      [.node (.expr receiver) receiver.parts, .node (.expr first) first.parts,
        .node (.expr second) second.parts]

def statementOutline : Option ProcStatement → List Outline
  | none => []
  | some statement => [.node (.procStatement statement) statement.parts]

def SwitchCase.parts : SwitchCase → List Outline
  | .default body => [.node (.procBlock body) body.parts]
  | .values options body => exprOutlines options ++ [.node (.procBlock body) body.parts]

def caseOutlines : List SwitchCase → List Outline
  | [] => []
  | arm :: rest => .node (.switchCase arm) arm.parts :: caseOutlines rest

def ProcBlock.parts : ProcBlock → List Outline
  | ⟨statements⟩ => procStatementOutlines statements

def procStatementOutlines : List ProcStatement → List Outline
  | [] => []
  | statement :: rest =>
      .node (.procStatement statement) statement.parts :: procStatementOutlines rest

end

def Parameter.parts (parameter : Parameter) : List Outline :=
  optionalOutline parameter.value ++ optionalOutline parameter.possibleValues

def ProcDefinition.parts (definition : ProcDefinition) : List Outline :=
  (definition.parameters.map fun parameter => .node (.parameter parameter) parameter.parts) ++
    [.node (.procBlock definition.body) definition.body.parts]

def VarDefinition.parts (definition : VarDefinition) : List Outline :=
  [.node (.expr definition.value) definition.value.parts]

def VarOverride.parts (definition : VarOverride) : List Outline :=
  [.node (.expr definition.value) definition.value.parts]

mutual

def Statement.parts : Statement → List Outline
  | .object definition => [.node (.objectDefinition definition) definition.parts]
  | .proc definition => [.node (.procDefinition definition) definition.parts]
  | .var definition => [.node (.varDefinition definition) definition.parts]
  | .override definition => [.node (.varOverride definition) definition.parts]

def ObjectDefinition.parts : ObjectDefinition → List Outline
  | ⟨path, none⟩ => [.node (.path path) []]
  | ⟨path, some block⟩ => [.node (.path path) [], .node (.block block) block.parts]

def Block.parts : Block → List Outline
  | ⟨statements⟩ => statementOutlines statements

def statementOutlines : List Statement → List Outline
  | [] => []
  | statement :: rest => .node (.statement statement) statement.parts :: statementOutlines rest

end

def Node.parts : Node → List Outline
  | .file item => [.node (.block item.block) item.block.parts]
  | .block item => item.parts
  | .statement item => item.parts
  | .objectDefinition item => item.parts
  | .procDefinition item => item.parts
  | .varDefinition item => item.parts
  | .varOverride item => item.parts
  | .path _ => []
  | .parameter item => item.parts
  | .procBlock item => item.parts
  | .procStatement item => item.parts
  | .varDeclaration item => item.parts
  | .switchCase item => item.parts
  | .expr item => item.parts
  | .callParameter item => item.parts
  | .dereference item => item.parts
  | .callable item => item.parts

/-- The outline of a syntax tree. -/
def Node.outline (node : Node) : Outline :=
  .node node node.parts

/-! ## The outline follows the children -/

theorem exprOutlines_eq (exprs : List Expr) :
    exprOutlines exprs = (exprs.map Node.expr).map Node.outline := by
  induction exprs with
  | nil => rfl
  | cons expr rest ih => exact congrArg _ ih

theorem optionalOutline_eq (expr : Option Expr) :
    optionalOutline expr = (optionalExpr expr).map Node.outline := by
  cases expr <;> rfl

theorem parameterOutlines_eq (parameters : List CallParameter) :
    parameterOutlines parameters = (callParameters parameters).map Node.outline := by
  induction parameters with
  | nil => rfl
  | cons parameter rest ih => exact congrArg _ ih

theorem statementOutline_eq (statement : Option ProcStatement) :
    statementOutline statement = (optionalStatement statement).map Node.outline := by
  cases statement <;> rfl

theorem caseOutlines_eq (arms : List SwitchCase) :
    caseOutlines arms = (arms.map Node.switchCase).map Node.outline := by
  induction arms with
  | nil => rfl
  | cons arm rest ih => exact congrArg _ ih

theorem procStatementOutlines_eq (statements : List ProcStatement) :
    procStatementOutlines statements = (statements.map Node.procStatement).map Node.outline := by
  induction statements with
  | nil => rfl
  | cons statement rest ih => exact congrArg _ ih

theorem statementOutlines_eq (statements : List Statement) :
    statementOutlines statements = (statements.map Node.statement).map Node.outline := by
  induction statements with
  | nil => rfl
  | cons statement rest ih => exact congrArg _ ih

theorem NewTarget.parts_eq (target : NewTarget) :
    target.parts = target.children.map Node.outline := by
  cases target <;> rfl

theorem Expr.parts_eq (expr : Expr) : expr.parts = expr.children.map Node.outline := by
  cases expr <;>
    simp only [Expr.parts, Expr.children, List.map_append, List.map_cons, exprOutlines_eq,
      optionalOutline_eq, parameterOutlines_eq, NewTarget.parts_eq] <;>
    rfl

theorem ProcStatement.parts_eq (statement : ProcStatement) :
    statement.parts = statement.children.map Node.outline := by
  cases statement with
  | «if» _ _ elseBody => cases elseBody <;> rfl
  | forLoop declaration _ _ _ _ =>
      cases declaration <;>
        simp only [ProcStatement.parts, ProcStatement.children, List.map_append,
          optionalOutline_eq] <;>
        rfl
  | _ =>
      simp only [ProcStatement.parts, ProcStatement.children, List.map_append, List.map_cons,
        optionalOutline_eq, statementOutline_eq, caseOutlines_eq] <;>
      rfl

/-- The parts of a node are the outlines of its children. -/
theorem Node.parts_eq (node : Node) : node.parts = node.children.map Node.outline := by
  cases node with
  | file _ | varDefinition _ | varOverride _ | path _ => rfl
  | block item =>
      cases item
      exact statementOutlines_eq _
  | statement item => cases item <;> rfl
  | objectDefinition item =>
      rcases item with ⟨path, _ | block⟩ <;> rfl
  | procDefinition item =>
      simp only [Node.parts, ProcDefinition.parts, Node.children, List.map_append, List.map_map]
      rfl
  | parameter item =>
      simp only [Node.parts, Parameter.parts, Node.children, List.map_append, optionalOutline_eq]
  | procBlock item =>
      cases item
      exact procStatementOutlines_eq _
  | procStatement item => exact item.parts_eq
  | varDeclaration item => exact optionalOutline_eq item.value
  | switchCase item =>
      cases item with
      | default _ => rfl
      | values options body =>
          simp only [Node.parts, SwitchCase.parts, Node.children, SwitchCase.children,
            List.map_append, exprOutlines_eq]
          rfl
  | expr item => exact item.parts_eq
  | callParameter item | dereference item | callable item => cases item <;> rfl

end DreamWorld.Syntax
