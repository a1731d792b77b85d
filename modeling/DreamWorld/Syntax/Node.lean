import DreamWorld.Syntax.Statement

/-!
# Nodes of a syntax tree

A syntax tree mixes files, declarations, statements, expressions and the parts
between them.  Here each of them is a node of one type.  A node has a kind, a
short label and, in the order of traversal, its child nodes.  Since every child
is smaller than its owner, a traversal that only goes to children ends.
-/

namespace DreamWorld.Syntax

/-- The kinds of node that a traversal visits. -/
inductive NodeKind where
  | file
  | block
  | statement
  | objectDefinition
  | procDefinition
  | varDefinition
  | varOverride
  | path
  | parameter
  | procBlock
  | procStatement
  | varDeclaration
  | switchCase
  | expr
  | callParameter
  | dereference
  | callable
deriving DecidableEq

namespace NodeKind

/-- All kinds, from files down to callables. -/
def all : List NodeKind :=
  [.file, .block, .statement, .objectDefinition, .procDefinition, .varDefinition,
    .varOverride, .path, .parameter, .procBlock, .procStatement, .varDeclaration,
    .switchCase, .expr, .callParameter, .dereference, .callable]

/-- The name of a kind in traces. -/
def name : NodeKind → String
  | .file => "file"
  | .block => "block"
  | .statement => "statement"
  | .objectDefinition => "object_definition"
  | .procDefinition => "proc_definition"
  | .varDefinition => "object_var_definition"
  | .varOverride => "object_var_override"
  | .path => "path"
  | .parameter => "definition_parameter"
  | .procBlock => "proc_block"
  | .procStatement => "proc_statement"
  | .varDeclaration => "var_declaration"
  | .switchCase => "switch_case"
  | .expr => "expr"
  | .callParameter => "call_parameter"
  | .dereference => "dereference"
  | .callable => "callable"

end NodeKind

/-- A node of a syntax tree. -/
inductive Node where
  | file (file : SourceFile)
  | block (block : Block)
  | statement (statement : Statement)
  | objectDefinition (definition : ObjectDefinition)
  | procDefinition (definition : ProcDefinition)
  | varDefinition (definition : VarDefinition)
  | varOverride (definition : VarOverride)
  | path (path : Path)
  | parameter (parameter : Parameter)
  | procBlock (block : ProcBlock)
  | procStatement (statement : ProcStatement)
  | varDeclaration (declaration : VarDeclaration)
  | switchCase (arm : SwitchCase)
  | expr (expr : Expr)
  | callParameter (parameter : CallParameter)
  | dereference (dereference : Dereference)
  | callable (callable : Callable)

def Node.kind : Node → NodeKind
  | .file _ => .file
  | .block _ => .block
  | .statement _ => .statement
  | .objectDefinition _ => .objectDefinition
  | .procDefinition _ => .procDefinition
  | .varDefinition _ => .varDefinition
  | .varOverride _ => .varOverride
  | .path _ => .path
  | .parameter _ => .parameter
  | .procBlock _ => .procBlock
  | .procStatement _ => .procStatement
  | .varDeclaration _ => .varDeclaration
  | .switchCase _ => .switchCase
  | .expr _ => .expr
  | .callParameter _ => .callParameter
  | .dereference _ => .dereference
  | .callable _ => .callable

/-! ## Labels -/

def Statement.form : Statement → String
  | .object _ => "ObjectDefinition"
  | .proc _ => "ProcDefinition"
  | .var _ => "ObjectVarDefinition"
  | .override _ => "ObjectVarOverride"

/-- The form of a statement, with the name that it carries. -/
def ProcStatement.form : ProcStatement → String
  | .expression _ => "Expression"
  | .varDeclaration _ => "VarDeclaration"
  | .return _ => "Return"
  | .break => "Break"
  | .continue => "Continue"
  | .goto target => "Goto " ++ target
  | .label name => "Label " ++ name
  | .delete _ => "Del"
  | .set setting _ => "Set " ++ setting
  | .spawn _ _ => "Spawn"
  | .if _ _ _ => "If"
  | .forStandard _ _ _ _ => "ForStandard"
  | .forList _ name _ _ => "ForList " ++ name
  | .forRange _ name _ _ _ _ => "ForRange " ++ name
  | .forLoop _ _ _ _ _ => "ForLoop"
  | .while _ _ => "While"
  | .doWhile _ _ => "DoWhile"
  | .switch _ _ => "Switch"
  | .browse _ _ _ => "Browse"
  | .browseResource _ _ _ => "BrowseResource"
  | .outputControl _ _ _ => "OutputControl"

/-- The form of an expression, with the name or symbol that it carries. -/
def Expr.form : Expr → String
  | .integer _ => "Integer"
  | .float _ => "Float"
  | .text _ => "String"
  | .resource _ => "Resource"
  | .null => "Null"
  | .path _ => "Path"
  | .identifier name => "Identifier " ++ name
  | .textFormat _ _ => "StringFormat"
  | .list _ => "List"
  | .input _ _ _ => "Input"
  | .initial _ => "Initial"
  | .isType _ _ => "IsType"
  | .isDeclaredType _ => "ImplicitIsType"
  | .locateCoordinates _ _ _ => "LocateCoordinates"
  | .locate _ _ => "Locate"
  | .call _ _ => "Call"
  | .assign operator _ _ => "Assign " ++ operator.symbol
  | .new _ _ => "New"
  | .unary operator _ => "Unary " ++ operator.symbol
  | .binary operator _ _ => "Binary " ++ operator.symbol
  | .ternary _ _ _ => "Ternary"
  | .isIn _ _ => "In"
  | .listIndex _ _ => "ListIndex"
  | .procCall _ _ => "ProcCall"
  | .dereference _ => "Dereference"
  | .callable _ => "Callable"

def Callable.form : Callable → String
  | .dereference _ => "Dereference"
  | .procIdentifier _ => "ProcIdentifier"
  | .super => "Super"
  | .self => "SelfProc"

/-- What a trace shows of a node besides its kind. -/
def Node.label : Node → String
  | .file item => Nat.repr item.block.statements.length
  | .block item => Nat.repr item.statements.length
  | .statement item => item.form
  | .objectDefinition item => item.path.toText
  | .procDefinition item => item.name
  | .varDefinition item => item.name
  | .varOverride item => item.name
  | .path item => item.toText
  | .parameter item => item.name
  | .procBlock item =>
      if item.statements.isEmpty then "empty" else Nat.repr item.statements.length
  | .procStatement item => item.form
  | .varDeclaration item => item.name
  | .switchCase item => Nat.repr item.body.statements.length
  | .expr item => item.form
  | .callParameter item => item.name.getD ""
  | .dereference item => item.lastProperty?.getD "<none>"
  | .callable item => item.form

/-! ## Children -/

/-- The node of an expression that may be absent. -/
def optionalExpr (expr : Option Expr) : List Node :=
  expr.toList.map .expr

def callParameters (parameters : List CallParameter) : List Node :=
  parameters.map .callParameter

/-- The node that a target of `new` holds; names have none. -/
def NewTarget.children : NewTarget → List Node
  | .path item => [.path item]
  | .dereference item => [.dereference item]
  | .identifier _ | .inferred => []

def Expr.children : Expr → List Node
  | .integer _ | .float _ | .text _ | .resource _ | .null | .identifier _ => []
  | .path item => [.path item]
  | .textFormat _ interpolated => interpolated.map .expr
  | .list entries => callParameters entries
  | .input parameters _ choices => callParameters parameters ++ optionalExpr choices
  | .initial value => [.expr value]
  | .isType value type => [.expr value, .expr type]
  | .isDeclaredType value => [.expr value]
  | .locateCoordinates x y z => [.expr x, .expr y, .expr z]
  | .locate expression container => optionalExpr expression ++ optionalExpr container
  | .call parameters arguments => callParameters parameters ++ callParameters arguments
  | .assign _ target value => [.expr target, .expr value]
  | .new target parameters => target.children ++ callParameters parameters
  | .unary _ operand => [.expr operand]
  | .binary _ left right => [.expr left, .expr right]
  | .ternary condition ifTrue ifFalse => [.expr condition, .expr ifTrue, .expr ifFalse]
  | .isIn value container => [.expr value, .expr container]
  | .listIndex container index => [.expr container, .expr index]
  | .procCall item parameters => .callable item :: callParameters parameters
  | .dereference item => [.dereference item]
  | .callable item => [.callable item]

def Callable.children : Callable → List Node
  | .dereference item => [.dereference item]
  | .procIdentifier _ | .super | .self => []

/-- The node of a statement that may be absent. -/
def optionalStatement (statement : Option ProcStatement) : List Node :=
  statement.toList.map .procStatement

def ProcStatement.children : ProcStatement → List Node
  | .expression value | .delete value | .set _ value => [.expr value]
  | .varDeclaration declaration => [.varDeclaration declaration]
  | .return value => optionalExpr value
  | .break | .continue | .goto _ | .label _ => []
  | .spawn time body => optionalExpr time ++ [.procBlock body]
  | .if condition body elseBody =>
      [.expr condition, .procBlock body] ++ elseBody.toList.map .procBlock
  | .forStandard initializer comparator incrementor body =>
      optionalStatement initializer ++ optionalExpr comparator ++
        optionalExpr incrementor ++ [.procBlock body]
  | .forList initializer _ list body =>
      optionalStatement initializer ++ [.expr list, .procBlock body]
  | .forRange initializer _ start stop step body =>
      optionalStatement initializer ++ [.expr start, .expr stop] ++
        optionalExpr step ++ [.procBlock body]
  | .forLoop declaration target condition incrementer body =>
      declaration.toList.map .varDeclaration ++ optionalExpr target ++
        optionalExpr condition ++ optionalExpr incrementer ++ [.procBlock body]
  | .while condition body | .doWhile condition body => [.expr condition, .procBlock body]
  | .switch value cases => .expr value :: cases.map .switchCase
  | .browse receiver body options => [.expr receiver, .expr body, .expr options]
  | .browseResource receiver file filename => [.expr receiver, .expr file, .expr filename]
  | .outputControl receiver message control =>
      [.expr receiver, .expr message, .expr control]

def SwitchCase.children : SwitchCase → List Node
  | .default body => [.procBlock body]
  | .values options body => options.map .expr ++ [.procBlock body]

def Statement.children : Statement → List Node
  | .object definition => [.objectDefinition definition]
  | .proc definition => [.procDefinition definition]
  | .var definition => [.varDefinition definition]
  | .override definition => [.varOverride definition]

/-- The nodes that a node owns directly, in the order of traversal. -/
def Node.children : Node → List Node
  | .file item => [.block item.block]
  | .block item => item.statements.map .statement
  | .statement item => item.children
  | .objectDefinition item => .path item.path :: item.block.toList.map .block
  | .procDefinition item => item.parameters.map .parameter ++ [.procBlock item.body]
  | .varDefinition item => [.expr item.value]
  | .varOverride item => [.expr item.value]
  | .path _ => []
  | .parameter item => optionalExpr item.value ++ optionalExpr item.possibleValues
  | .procBlock item => item.statements.map .procStatement
  | .procStatement item => item.children
  | .varDeclaration item => optionalExpr item.value
  | .switchCase item => item.children
  | .expr item => item.children
  | .callParameter item => [.expr item.value]
  | .dereference item => [.expr item.expression]
  | .callable item => item.children

/-! ## Children are smaller -/

private theorem exprs_lt {exprs : List Expr} {child : Node} (childMem : child ∈ exprs.map .expr) :
    sizeOf child < 1 + sizeOf exprs := by
  obtain ⟨expr, exprMem, rfl⟩ := List.mem_map.mp childMem
  have := List.sizeOf_lt_of_mem exprMem
  simp
  omega

private theorem callParameters_lt {parameters : List CallParameter} {child : Node}
    (childMem : child ∈ callParameters parameters) : sizeOf child < 1 + sizeOf parameters := by
  obtain ⟨parameter, parameterMem, rfl⟩ := List.mem_map.mp childMem
  have := List.sizeOf_lt_of_mem parameterMem
  simp
  omega

private theorem optionalExpr_lt {expr : Option Expr} {child : Node}
    (childMem : child ∈ optionalExpr expr) : sizeOf child < 1 + sizeOf expr := by
  cases expr <;> simp_all [optionalExpr]

private theorem newTarget_children_lt {target : NewTarget} {child : Node}
    (childMem : child ∈ target.children) : sizeOf child < 1 + sizeOf target := by
  cases target <;> simp_all [NewTarget.children]

private theorem expr_children_lt {expr : Expr} {child : Node}
    (childMem : child ∈ expr.children) : sizeOf child < 1 + sizeOf expr := by
  cases expr <;>
    simp only [Expr.children, List.mem_append, List.mem_cons, List.not_mem_nil] at childMem <;>
    simp <;>
    grind [→ exprs_lt, → callParameters_lt, → optionalExpr_lt, → newTarget_children_lt]

private theorem callable_children_lt {callable : Callable} {child : Node}
    (childMem : child ∈ callable.children) : sizeOf child < 1 + sizeOf callable := by
  cases callable <;> simp_all [Callable.children]

private theorem optionalStatement_lt {statement : Option ProcStatement} {child : Node}
    (childMem : child ∈ optionalStatement statement) : sizeOf child < 1 + sizeOf statement := by
  cases statement <;> simp_all [optionalStatement]

private theorem optionalBlock_lt {block : Option ProcBlock} {child : Node}
    (childMem : child ∈ block.toList.map .procBlock) : sizeOf child < 1 + sizeOf block := by
  cases block <;> simp_all

private theorem optionalDeclaration_lt {declaration : Option VarDeclaration} {child : Node}
    (childMem : child ∈ declaration.toList.map .varDeclaration) :
    sizeOf child < 1 + sizeOf declaration := by
  cases declaration <;> simp_all

private theorem cases_lt {arms : List SwitchCase} {child : Node}
    (childMem : child ∈ arms.map .switchCase) : sizeOf child < 1 + sizeOf arms := by
  obtain ⟨arm, armMem, rfl⟩ := List.mem_map.mp childMem
  have := List.sizeOf_lt_of_mem armMem
  simp
  omega

private theorem procStatement_children_lt {statement : ProcStatement} {child : Node}
    (childMem : child ∈ statement.children) : sizeOf child < 1 + sizeOf statement := by
  cases statement <;>
    simp only [ProcStatement.children, List.mem_append, List.mem_cons, List.not_mem_nil]
      at childMem <;>
    simp <;>
    grind [→ optionalExpr_lt, → optionalStatement_lt, → optionalBlock_lt,
      → optionalDeclaration_lt, → cases_lt]

private theorem switchCase_children_lt {arm : SwitchCase} {child : Node}
    (childMem : child ∈ arm.children) : sizeOf child < 1 + sizeOf arm := by
  cases arm <;>
    simp only [SwitchCase.children, List.mem_append, List.mem_cons, List.not_mem_nil]
      at childMem <;>
    simp <;>
    grind [→ exprs_lt]

private theorem statement_children_lt {statement : Statement} {child : Node}
    (childMem : child ∈ statement.children) : sizeOf child < 1 + sizeOf statement := by
  cases statement <;> simp_all [Statement.children]

private theorem statements_lt {statements : List Statement} {child : Node}
    (childMem : child ∈ statements.map .statement) : sizeOf child < 1 + sizeOf statements := by
  obtain ⟨statement, statementMem, rfl⟩ := List.mem_map.mp childMem
  have := List.sizeOf_lt_of_mem statementMem
  simp
  omega

private theorem procStatements_lt {statements : List ProcStatement} {child : Node}
    (childMem : child ∈ statements.map .procStatement) :
    sizeOf child < 1 + sizeOf statements := by
  obtain ⟨statement, statementMem, rfl⟩ := List.mem_map.mp childMem
  have := List.sizeOf_lt_of_mem statementMem
  simp
  omega

private theorem parameters_lt {parameters : List Parameter} {child : Node}
    (childMem : child ∈ parameters.map .parameter) : sizeOf child < 1 + sizeOf parameters := by
  obtain ⟨parameter, parameterMem, rfl⟩ := List.mem_map.mp childMem
  have := List.sizeOf_lt_of_mem parameterMem
  simp
  omega

private theorem blocks_lt {block : Option Block} {child : Node}
    (childMem : child ∈ block.toList.map .block) : sizeOf child < 1 + sizeOf block := by
  cases block <;> simp_all

/-- A child is smaller than the node that owns it. -/
theorem Node.sizeOf_lt_of_mem_children {node child : Node} (childMem : child ∈ node.children) :
    sizeOf child < sizeOf node := by
  cases node with
  | expr => simpa using expr_children_lt childMem
  | callable => simpa using callable_children_lt childMem
  | procStatement => simpa using procStatement_children_lt childMem
  | switchCase => simpa using switchCase_children_lt childMem
  | statement => simpa using statement_children_lt childMem
  | path => simp [Node.children] at childMem
  | block item =>
      cases item
      have := statements_lt childMem
      simp at this ⊢
      omega
  | procBlock item =>
      cases item
      have := procStatements_lt childMem
      simp at this ⊢
      omega
  | file item => cases item; simp_all [Node.children]
  | varDefinition item =>
      cases item
      simp only [Node.children, List.mem_singleton] at childMem
      subst childMem
      simp only [Node.expr.sizeOf_spec, Node.varDefinition.sizeOf_spec,
        VarDefinition.mk.sizeOf_spec]
      omega
  | varOverride item =>
      cases item
      simp only [Node.children, List.mem_singleton] at childMem
      subst childMem
      simp only [Node.expr.sizeOf_spec, Node.varOverride.sizeOf_spec, VarOverride.mk.sizeOf_spec]
      omega
  | callParameter item =>
      cases item
      simp only [Node.children, List.mem_singleton] at childMem
      subst childMem
      simp only [Node.expr.sizeOf_spec, Node.callParameter.sizeOf_spec,
        CallParameter.mk.sizeOf_spec]
      omega
  | dereference item =>
      cases item
      simp only [Node.children, List.mem_singleton] at childMem
      subst childMem
      simp only [Node.expr.sizeOf_spec, Node.dereference.sizeOf_spec, Dereference.mk.sizeOf_spec]
      omega
  | objectDefinition item =>
      cases item
      simp only [Node.children, List.mem_cons] at childMem
      simp
      grind [→ blocks_lt]
  | procDefinition item =>
      cases item
      simp only [Node.children, List.mem_append, List.mem_cons, List.not_mem_nil] at childMem
      simp
      grind [→ parameters_lt]
  | parameter item =>
      cases item
      simp only [Node.children, List.mem_append] at childMem
      simp
      grind [→ optionalExpr_lt]
  | varDeclaration item =>
      cases item
      have := optionalExpr_lt childMem
      simp at this ⊢
      omega

end DreamWorld.Syntax
