import DreamWorld.Proofs.Syntax.Traversal
import DreamWorld.Syntax.Constant

/-!
# Written forms

A syntax tree is written as a row of tokens.  How a node is written is given form by form, as a
layout of tokens and of the nodes that are written between them, and does not refer to any
traversal.  The nodes of a layout turn out to be the children of the node, in the order of the
traversal, save for a loop whose condition is written behind its body.

Parentheses that only group are left out, and so are the ends of lines.
-/

namespace DreamWorld.Syntax

/-- A token of the source.  Only a variable that stands as an expression is an identifier; the names
of procs, properties, labels and declared variables are words like any other. -/
inductive Token where
  | word (text : String)
  | literal (value : Constant)
  | kinds (kinds : ValueKinds)
  | identifier (name : String)

/-- A token or a node, as they take turns in a layout. -/
inductive Piece where
  | token (token : Token)
  | part (node : Node)

namespace Piece

instance : Coe String Piece where
  coe text := .token (.word text)

instance : Coe Constant Piece where
  coe value := .token (.literal value)

instance : Coe Node Piece where
  coe node := .part node

instance : Coe Expr Piece where
  coe expr := .part (.expr expr)

instance : Coe ProcBlock Piece where
  coe block := .part (.procBlock block)

/-- Nodes with commas between them. -/
def listed (nodes : List Node) : List Piece :=
  (nodes.map .part).intersperse ","

def words (texts : List String) : List Piece :=
  texts.map fun text => .token (.word text)

/-- Nodes, each behind some words that lead to it.  Where a part is absent, so are its words. -/
def led (leading : List String) (nodes : List Node) : List Piece :=
  nodes.flatMap fun node => words leading ++ [.part node]

/-- The expressions that a text embeds, each in brackets. -/
def embedded (exprs : List Expr) : List Piece :=
  exprs.flatMap fun expr : Expr => ["[", expr, "]"]

/-- A path that belongs to a declaration and is no node of its own. -/
def declaredPath (path : Option Path) : List Piece :=
  path.toList.map fun path => .token (.literal (.path path))

/-- The restriction to some kinds, if it restricts anything. -/
def asKinds (kinds : ValueKinds) : List Piece :=
  if kinds.isAnything then [] else ["as", .token (.kinds kinds)]

/-- A list of arguments, in parentheses. -/
def arguments (parameters : List CallParameter) : List Piece :=
  .flatten [["("], listed (callParameters parameters), [")"]]

/-- The variable of a loop: the statement that declares it, or else its name. -/
def loopVariable (initializer : Option ProcStatement) (name : String) : List Piece :=
  match initializer with
  | some statement => [Node.procStatement statement]
  | none => [name]

end Piece

open Piece

/-! ## Layouts -/

/-- The operator is written behind its operand. -/
def UnaryOperator.isPostfix : UnaryOperator → Bool
  | .postIncrement | .postDecrement => true
  | .not | .negate | .bitNot | .preIncrement | .preDecrement => false

def NewTarget.layout : NewTarget → List Piece
  | .path item => [Node.path item]
  | .identifier name => [name]
  | .dereference item => [Node.dereference item]
  | .inferred => []

/-- How an expression is written.  The text of a format stands before the expressions that are
embedded in it, as it does not tell their places. -/
def Expr.layout : Expr → List Piece
  | .integer value => [Constant.integer value]
  | .float value => [Constant.float value]
  | .text value => [Constant.text value]
  | .resource name => [Constant.resource name]
  | .null => [Constant.null]
  | .path item => [Node.path item]
  | .identifier name => [.token (.identifier name)]
  | .textFormat value interpolated => Constant.text value :: embedded interpolated
  | .list entries => "list" :: arguments entries
  | .input parameters kinds choices =>
      .flatten [["input"], arguments parameters, asKinds kinds, led ["in"] (optionalExpr choices)]
  | .initial value => ["initial", "(", value, ")"]
  | .isType value type => ["istype", "(", value, ",", type, ")"]
  | .isDeclaredType value => ["istype", "(", value, ")"]
  | .locateCoordinates x y z => ["locate", "(", x, ",", y, ",", z, ")"]
  | .locate expression container =>
      .flatten [["locate", "("], led [] (optionalExpr expression), [")"],
        led ["in"] (optionalExpr container)]
  | .call parameters procParameters =>
      .flatten [["call"], arguments parameters, arguments procParameters]
  | .assign operator target value => [target, operator.symbol, value]
  | .new target parameters => .flatten [["new"], target.layout, arguments parameters]
  | .unary operator operand =>
      if operator.isPostfix then [operand, operator.symbol] else [operator.symbol, operand]
  | .binary operator left right => [left, operator.symbol, right]
  | .ternary condition ifTrue ifFalse => [condition, "?", ifTrue, ":", ifFalse]
  | .isIn value container => [value, "in", container]
  | .listIndex container index => [container, "[", index, "]"]
  | .procCall item parameters => Node.callable item :: arguments parameters
  | .dereference item => [Node.dereference item]
  | .callable item => [Node.callable item]

def CallParameter.layout (parameter : CallParameter) : List Piece :=
  match parameter.name with
  | some name => [name, "=", parameter.value]
  | none => [parameter.value]

def DereferenceStep.layout (step : DereferenceStep) : List Piece :=
  match step.kind with
  | .direct => [".", step.property]
  | .search => [":", step.property]

def Dereference.layout (item : Dereference) : List Piece :=
  item.expression :: item.steps.flatMap DereferenceStep.layout

def Callable.layout : Callable → List Piece
  | .dereference item => [Node.dereference item]
  | .procIdentifier name => [name]
  | .super => [".."]
  | .self => ["."]

def VarDeclaration.layout (declaration : VarDeclaration) : List Piece :=
  .flatten [["var"], declaredPath declaration.type, [declaration.name],
    led ["="] (optionalExpr declaration.value)]

def ProcStatement.layout : ProcStatement → List Piece
  | .expression value => [value]
  | .varDeclaration declaration => [Node.varDeclaration declaration]
  | .return value => "return" :: led [] (optionalExpr value)
  | .break => ["break"]
  | .continue => ["continue"]
  | .goto name => ["goto", name]
  | .label name => [name, ":"]
  | .delete value => ["del", value]
  | .set setting value => ["set", setting, "=", value]
  | .spawn time body => .flatten [["spawn", "("], led [] (optionalExpr time), [")", body]]
  | .if condition body elseBody =>
      .flatten [["if", "(", condition, ")", body], led ["else"] (elseBody.toList.map .procBlock)]
  | .forStandard initializer comparator incrementor body =>
      .flatten [["for", "("], led [] (optionalStatement initializer), [";"],
        led [] (optionalExpr comparator), [";"], led [] (optionalExpr incrementor), [")", body]]
  | .forList initializer name list body =>
      .flatten [["for", "("], loopVariable initializer name, ["in", list, ")", body]]
  | .forRange initializer name start stop step body =>
      .flatten [["for", "("], loopVariable initializer name, ["=", start, "to", stop],
        led ["step"] (optionalExpr step), [")", body]]
  | .forLoop declaration target condition incrementer body =>
      .flatten [["for", "("], led [] (declaration.toList.map .varDeclaration),
        led [] (optionalExpr target), [","], led [] (optionalExpr condition), [","],
        led [] (optionalExpr incrementer), [")", body]]
  | .while condition body => ["while", "(", condition, ")", body]
  | .doWhile condition body => ["do", body, "while", "(", condition, ")"]
  | .switch value cases =>
      .flatten [["switch", "(", value, ")", "\x7b"], led [] (cases.map .switchCase), ["\x7d"]]
  | .browse receiver body options => [receiver, "<<", "browse", "(", body, ",", options, ")"]
  | .browseResource receiver file filename =>
      [receiver, "<<", "browse_rsc", "(", file, ",", filename, ")"]
  | .outputControl receiver message control =>
      [receiver, "<<", "output", "(", message, ",", control, ")"]

def SwitchCase.layout : SwitchCase → List Piece
  | .default body => ["else", body]
  | .values options body => .flatten [["if", "("], listed (options.map .expr), [")", body]]

def Parameter.layout (parameter : Parameter) : List Piece :=
  .flatten [declaredPath parameter.type, [parameter.name], led ["="] (optionalExpr parameter.value),
    asKinds parameter.kinds, led ["in"] (optionalExpr parameter.possibleValues)]

/-- The marker in the declaration path of a proc. -/
def ProcDefinition.marker (definition : ProcDefinition) : String :=
  if definition.isVerb then "verb" else "proc"

def ProcDefinition.layout (definition : ProcDefinition) : List Piece :=
  .flatten [declaredPath definition.object, [definition.marker, definition.name, "("],
    listed (definition.parameters.map .parameter), [")", definition.body]]

/-- The markers in the declaration path of a variable. -/
def VarDefinition.markers (definition : VarDefinition) : List String :=
  if definition.isGlobal then ["var", "global"] else ["var"]

def VarDefinition.layout (definition : VarDefinition) : List Piece :=
  .flatten [declaredPath definition.object, words definition.markers,
    declaredPath definition.type, [definition.name, "=", definition.value]]

def VarOverride.layout (definition : VarOverride) : List Piece :=
  .flatten [declaredPath definition.object, [definition.name, "=", definition.value]]

def Statement.layout : Statement → List Piece
  | .object definition => [Node.objectDefinition definition]
  | .proc definition => [Node.procDefinition definition]
  | .var definition => [Node.varDefinition definition]
  | .override definition => [Node.varOverride definition]

/-- How a node is written: tokens, and the nodes that it owns where they stand. -/
def Node.layout : Node → List Piece
  | .file item => [Node.block item.block]
  | .block item => led [] (item.statements.map .statement)
  | .statement item => item.layout
  | .objectDefinition item => Node.path item.path :: led [] (item.block.toList.map .block)
  | .procDefinition item => item.layout
  | .varDefinition item => item.layout
  | .varOverride item => item.layout
  | .path item => [Constant.path item]
  | .parameter item => item.layout
  | .procBlock item =>
      .flatten [["\x7b"], led [] (item.statements.map .procStatement), ["\x7d"]]
  | .procStatement item => item.layout
  | .varDeclaration item => item.layout
  | .switchCase item => item.layout
  | .expr item => item.layout
  | .callParameter item => item.layout
  | .dereference item => item.layout
  | .callable item => item.layout

/-! ## What layouts hold -/

/-- An identifier or a node; other tokens are passed over. -/
def Piece.content? : Piece → Option (String ⊕ Node)
  | .token (.identifier name) => some (.inl name)
  | .token _ => none
  | .part node => some (.inr node)

def contents (pieces : List Piece) : List (String ⊕ Node) :=
  pieces.filterMap Piece.content?

/-- The condition of the loop is written behind its body. -/
def Node.isPostTested : Node → Bool
  | .procStatement (.doWhile _ _) => true
  | _ => false

/-- The nodes that a node owns directly, in the order in which they are written. -/
def Node.written (node : Node) : List Node :=
  if node.isPostTested then node.children.reverse else node.children

section Contents

@[simp]
theorem contents_nil : contents [] = [] :=
  rfl

@[simp]
theorem contents_word (text : String) (rest : List Piece) :
    contents (.token (.word text) :: rest) = contents rest :=
  rfl

@[simp]
theorem contents_literal (value : Constant) (rest : List Piece) :
    contents (.token (.literal value) :: rest) = contents rest :=
  rfl

@[simp]
theorem contents_part (node : Node) (rest : List Piece) :
    contents (.part node :: rest) = .inr node :: contents rest :=
  rfl

@[simp]
theorem contents_append (first second : List Piece) :
    contents (first ++ second) = contents first ++ contents second :=
  List.filterMap_append

@[simp]
theorem contents_flatMap {α : Type} (items : List α) (pieces : α → List Piece) :
    contents (items.flatMap pieces) = items.flatMap fun item => contents (pieces item) :=
  List.filterMap_flatMap

@[simp]
theorem contents_words (texts : List String) : contents (words texts) = [] := by
  simp [contents, words, List.filterMap_map, Function.comp_def, Piece.content?]

@[simp]
theorem contents_led (leading : List String) (nodes : List Node) :
    contents (led leading nodes) = nodes.map .inr := by
  simp [led, List.map_eq_flatMap]

@[simp]
theorem contents_listed (nodes : List Node) : contents (listed nodes) = nodes.map .inr := by
  induction nodes with
  | nil => rfl
  | cons node rest ih =>
      cases rest with
      | nil => rfl
      | cons next rest => exact congrArg (Sum.inr node :: ·) ih

@[simp]
theorem contents_embedded (exprs : List Expr) :
    contents (embedded exprs) = exprs.map (.inr ∘ .expr) := by
  simp [embedded, List.map_eq_flatMap]

@[simp]
theorem contents_declaredPath (path : Option Path) : contents (declaredPath path) = [] := by
  cases path <;> rfl

@[simp]
theorem contents_asKinds (kinds : ValueKinds) : contents (asKinds kinds) = [] := by
  unfold asKinds
  split <;> rfl

@[simp]
theorem contents_arguments (parameters : List CallParameter) :
    contents (arguments parameters) = (callParameters parameters).map .inr := by
  simp [arguments]

@[simp]
theorem contents_loopVariable (initializer : Option ProcStatement) (name : String) :
    contents (loopVariable initializer name) = (optionalStatement initializer).map .inr := by
  cases initializer <;> rfl

theorem NewTarget.contents_layout (target : NewTarget) :
    contents target.layout = target.children.map .inr := by
  cases target <;> rfl

theorem Expr.contents_layout (expr : Expr) :
    contents expr.layout =
      (Node.expr expr).identifierName?.toList.map .inl ++ expr.children.map .inr := by
  cases expr with
  | identifier _ => rfl
  | unary operator _ => cases operator <;> rfl
  | _ => simp [layout, children, Node.identifierName?, NewTarget.contents_layout]

theorem ProcStatement.contents_layout (statement : ProcStatement) :
    contents statement.layout = (Node.procStatement statement).written.map .inr := by
  cases statement <;>
    simp [layout, Node.written, Node.isPostTested, Node.children, children]

/-- A layout holds the nodes that its node owns, each once.  An identifier is written as such, and
no other layout holds one. -/
theorem Node.contents_layout (node : Node) :
    contents node.layout =
      node.identifierName?.toList.map .inl ++ node.written.map .inr := by
  cases node with
  | procStatement item => exact item.contents_layout
  | expr item => exact item.contents_layout
  | statement item => cases item <;> rfl
  | callable item => cases item <;> rfl
  | callParameter item => rcases item with ⟨_, _ | _⟩ <;> rfl
  | dereference item =>
      have steps (step : DereferenceStep) : contents step.layout = [] := by
        rcases step with ⟨_ | _, _⟩ <;> rfl
      simp [layout, Dereference.layout, steps, written, isPostTested, children, identifierName?]
  | switchCase item =>
      cases item <;>
        simp [layout, SwitchCase.layout, written, isPostTested, children, identifierName?,
          SwitchCase.children]
  | _ =>
      simp [layout, ProcDefinition.layout, VarDefinition.layout, VarOverride.layout,
        Parameter.layout, VarDeclaration.layout, written, isPostTested, children, identifierName?]

end Contents

/-! ## Sources -/

theorem Node.written_perm (node : Node) : node.written.Perm node.children := by
  unfold written
  split
  · exact List.reverse_perm _
  · rfl

theorem Node.mem_children_of_mem_layout {node child : Node} (childMem : .part child ∈ node.layout) :
    child ∈ node.children := by
  have held : Sum.inr child ∈ contents node.layout :=
    List.mem_filterMap.mpr ⟨_, childMem, rfl⟩
  rw [contents_layout] at held
  simpa [node.written_perm.mem_iff] using held

/-- The tokens of a node, as they follow each other in the source that it stands for. -/
def Node.source (node : Node) : List Token :=
  node.layout.attach.flatMap fun
    | ⟨.token item, _⟩ => [item]
    | ⟨.part child, _⟩ => child.source
termination_by sizeOf node
decreasing_by exact Node.sizeOf_lt_of_mem_children (Node.mem_children_of_mem_layout ‹_›)

def Piece.source : Piece → List Token
  | .token item => [item]
  | .part node => node.source

theorem Node.source_eq (node : Node) : node.source = node.layout.flatMap Piece.source := by
  have onPieces (piece : { piece // piece ∈ node.layout }) :
      (match piece with
        | ⟨.token item, _⟩ => [item]
        | ⟨.part child, _⟩ => child.source) = piece.1.source := by
    rcases piece with ⟨_ | _, _⟩ <;> rfl
  rw [Node.source]
  simp only [onPieces, List.flatMap_subtype, List.unattach_attach]

end DreamWorld.Syntax
