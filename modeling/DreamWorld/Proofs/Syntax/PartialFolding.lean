import DreamWorld.Proofs.Syntax.Context
import DreamWorld.Syntax.Constant
import Mathlib.Logic.Relation

/-!
# Folding a part first

Wherever a subexpression folds, its literal can stand in its place: the whole folds to the same
constant as before, or still to none.  So the order in which a pass replaces subexpressions by
their literals does not matter.  A pass may begin at the leaves or at the root, stop anywhere and be
taken up again, and it ends with the same expression.
-/

namespace DreamWorld.Syntax

open Relation

namespace Expr

variable {expr other part : Expr} {constant : Constant}

/-! ## Replacing a part by its literal -/

/-- A literal folds to the constant that it spells. -/
@[simp]
theorem fold?_toExpr (constant : Constant) : constant.toExpr.fold? = some constant := by
  cases constant <;> rfl

/-- Folding sees of a part only what that part folds to. -/
theorem Frame.fold?_congr (frame : Frame) (same : expr.fold? = other.fold?) :
    (frame.plug expr).fold? = (frame.plug other).fold? := by
  cases frame <;> simp only [plug, fold?, same]

theorem Context.fold?_congr (context : Context) (same : expr.fold? = other.fold?) :
    (context.plug expr).fold? = (context.plug other).fold? := by
  induction context with
  | nil => exact same
  | cons frame context ih => exact frame.fold?_congr ih

/-- One subexpression that folds is replaced by its literal. -/
inductive PartlyFolds : Expr → Expr → Prop
  | at (context : Context) {part : Expr} {constant : Constant} :
      part.fold? = some constant →
      PartlyFolds (context.plug part) (context.plug constant.toExpr)

theorem PartlyFolds.fold?_eq (step : PartlyFolds expr other) : other.fold? = expr.fold? := by
  cases step with
  | «at» context folded =>
      apply context.fold?_congr
      rw [fold?_toExpr, folded]

theorem fold?_eq_of_partlyFolds (steps : ReflTransGen PartlyFolds expr other) :
    other.fold? = expr.fold? := by
  induction steps with
  | refl => rfl
  | tail _ step ih => rw [step.fold?_eq, ih]

/-! ## Passes -/

end Expr

mutual

/-- An expression with all that it is made of rewritten.  What is put in the place of a part may
depend on the part as it was and on the part with its own parts rewritten. -/
def Expr.rewriteParts (finish : Expr → Expr → Expr) : Expr → Expr
  | .textFormat value interpolated => .textFormat value (rewriteExprs finish interpolated)
  | .list entries => .list (rewriteParameters finish entries)
  | .input parameters kinds choices =>
      .input (rewriteParameters finish parameters) kinds (rewriteOption finish choices)
  | .initial value => .initial (finish value (value.rewriteParts finish))
  | .isType value type =>
      .isType (finish value (value.rewriteParts finish)) (finish type (type.rewriteParts finish))
  | .isDeclaredType value => .isDeclaredType (finish value (value.rewriteParts finish))
  | .locateCoordinates x y z =>
      .locateCoordinates (finish x (x.rewriteParts finish)) (finish y (y.rewriteParts finish))
        (finish z (z.rewriteParts finish))
  | .locate expression container =>
      .locate (rewriteOption finish expression) (rewriteOption finish container)
  | .call callParameters procParameters =>
      .call (rewriteParameters finish callParameters) (rewriteParameters finish procParameters)
  | .assign operator target value =>
      .assign operator (finish target (target.rewriteParts finish))
        (finish value (value.rewriteParts finish))
  | .new target parameters =>
      .new (target.rewriteParts finish) (rewriteParameters finish parameters)
  | .unary operator operand => .unary operator (finish operand (operand.rewriteParts finish))
  | .binary operator left right =>
      .binary operator (finish left (left.rewriteParts finish))
        (finish right (right.rewriteParts finish))
  | .ternary condition ifTrue ifFalse =>
      .ternary (finish condition (condition.rewriteParts finish))
        (finish ifTrue (ifTrue.rewriteParts finish)) (finish ifFalse (ifFalse.rewriteParts finish))
  | .isIn value list =>
      .isIn (finish value (value.rewriteParts finish)) (finish list (list.rewriteParts finish))
  | .listIndex list index =>
      .listIndex (finish list (list.rewriteParts finish))
        (finish index (index.rewriteParts finish))
  | .procCall callable parameters =>
      .procCall (callable.rewriteParts finish) (rewriteParameters finish parameters)
  | .dereference dereference => .dereference (dereference.rewriteParts finish)
  | .callable callable => .callable (callable.rewriteParts finish)
  | leaf => leaf

def rewriteExprs (finish : Expr → Expr → Expr) : List Expr → List Expr
  | [] => []
  | expr :: rest => finish expr (expr.rewriteParts finish) :: rewriteExprs finish rest

def rewriteOption (finish : Expr → Expr → Expr) : Option Expr → Option Expr
  | none => none
  | some expr => some (finish expr (expr.rewriteParts finish))

def rewriteParameters (finish : Expr → Expr → Expr) : List CallParameter → List CallParameter
  | [] => []
  | ⟨value, name⟩ :: rest =>
      ⟨finish value (value.rewriteParts finish), name⟩ :: rewriteParameters finish rest

def Dereference.rewriteParts (finish : Expr → Expr → Expr) : Dereference → Dereference
  | ⟨expression, steps⟩ => ⟨finish expression (expression.rewriteParts finish), steps⟩

def NewTarget.rewriteParts (finish : Expr → Expr → Expr) : NewTarget → NewTarget
  | .dereference dereference => .dereference (dereference.rewriteParts finish)
  | target => target

def Callable.rewriteParts (finish : Expr → Expr → Expr) : Callable → Callable
  | .dereference dereference => .dereference (dereference.rewriteParts finish)
  | callable => callable

end

namespace Expr

/-- A pass over a whole expression, itself included. -/
def rewritten (finish : Expr → Expr → Expr) (expr : Expr) : Expr :=
  finish expr (expr.rewriteParts finish)

/-- The literal of an expression that folds, in place of what it has been rewritten to. -/
def literalOr (folded : Option Constant) (rewritten : Expr) : Expr :=
  (folded.map Constant.toExpr).getD rewritten

/-- Puts the literal in the place of a rewritten expression if this one folds. -/
def finishUp (_ rewritten : Expr) : Expr :=
  literalOr rewritten.fold? rewritten

/-- Puts the literal in the place of a rewritten expression if it folded before. -/
def finishDown (expr rewritten : Expr) : Expr :=
  literalOr expr.fold? rewritten

/-- The pass that begins at the leaves: it looks whether an expression folds when all that it is
made of has been rewritten. -/
def foldedUp : Expr → Expr :=
  rewritten finishUp

/-- The pass that begins at the root: it looks whether an expression folds as it is, and what it is
made of matters only if it does not. -/
def foldedDown : Expr → Expr :=
  rewritten finishDown

/-! ## A pass replaces subexpressions one at a time -/

theorem Frame.plug_steps (frame : Frame) (steps : ReflTransGen PartlyFolds expr other) :
    ReflTransGen PartlyFolds (frame.plug expr) (frame.plug other) :=
  steps.lift frame.plug fun _ _ step => by
    cases step with
    | «at» context folded => exact .at (frame :: context) folded

end Expr

section

open DreamWorld.Syntax.Expr (Frame)

variable {finish : Expr → Expr → Expr}
  (finishes : ∀ {expr rewritten}, ReflTransGen Expr.PartlyFolds expr rewritten →
    ReflTransGen Expr.PartlyFolds expr (finish expr rewritten))

include finishes

mutual

theorem Expr.steps_rewriteParts : (expr : Expr) →
    ReflTransGen Expr.PartlyFolds expr (expr.rewriteParts finish)
  | .integer _ | .float _ | .text _ | .resource _ | .null | .path _ | .identifier _ => .refl
  | .textFormat value interpolated => steps_rewriteExprs value [] interpolated
  | .list entries => steps_rewriteParameters .list .list (fun _ _ => rfl) [] entries
  | .input parameters kinds none =>
      steps_rewriteParameters (.input · kinds none) (.inputParameter · kinds none)
        (fun _ _ => rfl) [] parameters
  | .input parameters kinds (some choices) =>
      (steps_rewriteParameters (.input · kinds (some choices)) (.inputParameter · kinds _)
          (fun _ _ => rfl) [] parameters).trans
        ((Frame.inputChoices _ kinds).plug_steps (finishes choices.steps_rewriteParts))
  | .initial value => Frame.initial.plug_steps (finishes value.steps_rewriteParts)
  | .isType value type =>
      ((Frame.isTypeValue type).plug_steps (finishes value.steps_rewriteParts)).trans
        ((Frame.isTypeType _).plug_steps (finishes type.steps_rewriteParts))
  | .isDeclaredType value => Frame.isDeclaredType.plug_steps (finishes value.steps_rewriteParts)
  | .locateCoordinates x y z =>
      ((Frame.locateX y z).plug_steps (finishes x.steps_rewriteParts)).trans
        (((Frame.locateY _ z).plug_steps (finishes y.steps_rewriteParts)).trans
          ((Frame.locateZ _ _).plug_steps (finishes z.steps_rewriteParts)))
  | .locate none none => .refl
  | .locate (some value) none =>
      (Frame.locateExpression none).plug_steps (finishes value.steps_rewriteParts)
  | .locate none (some container) =>
      (Frame.locateContainer none).plug_steps (finishes container.steps_rewriteParts)
  | .locate (some value) (some container) =>
      ((Frame.locateExpression _).plug_steps (finishes value.steps_rewriteParts)).trans
        ((Frame.locateContainer _).plug_steps (finishes container.steps_rewriteParts))
  | .call parameters arguments =>
      (steps_rewriteParameters (.call · arguments) (.callParameter · arguments) (fun _ _ => rfl) []
          parameters).trans
        (steps_rewriteParameters (.call _) (.callArgument _) (fun _ _ => rfl) [] arguments)
  | .assign operator target value =>
      ((Frame.assignTarget operator value).plug_steps (finishes target.steps_rewriteParts)).trans
        ((Frame.assignValue operator _).plug_steps (finishes value.steps_rewriteParts))
  | .new (.dereference ⟨receiver, steps⟩) parameters =>
      ((Frame.newTarget steps parameters).plug_steps (finishes receiver.steps_rewriteParts)).trans
        (steps_rewriteParameters (.new _) (.newParameter _) (fun _ _ => rfl) [] parameters)
  | .new (.path _) parameters | .new (.identifier _) parameters | .new .inferred parameters =>
      steps_rewriteParameters (.new _) (.newParameter _) (fun _ _ => rfl) [] parameters
  | .unary operator operand =>
      (Frame.unary operator).plug_steps (finishes operand.steps_rewriteParts)
  | .binary operator left right =>
      ((Frame.binaryLeft operator right).plug_steps (finishes left.steps_rewriteParts)).trans
        ((Frame.binaryRight operator _).plug_steps (finishes right.steps_rewriteParts))
  | .ternary condition ifTrue ifFalse =>
      ((Frame.ternaryCondition ifTrue ifFalse).plug_steps
          (finishes condition.steps_rewriteParts)).trans
        (((Frame.ternaryTrue _ ifFalse).plug_steps (finishes ifTrue.steps_rewriteParts)).trans
          ((Frame.ternaryFalse _ _).plug_steps (finishes ifFalse.steps_rewriteParts)))
  | .isIn value container =>
      ((Frame.isInValue container).plug_steps (finishes value.steps_rewriteParts)).trans
        ((Frame.isInContainer _).plug_steps (finishes container.steps_rewriteParts))
  | .listIndex container index =>
      ((Frame.listIndexContainer index).plug_steps (finishes container.steps_rewriteParts)).trans
        ((Frame.listIndexIndex _).plug_steps (finishes index.steps_rewriteParts))
  | .procCall (.dereference ⟨receiver, steps⟩) parameters =>
      ((Frame.procCallReceiver steps parameters).plug_steps
          (finishes receiver.steps_rewriteParts)).trans
        (steps_rewriteParameters (.procCall _) (.procCallParameter _) (fun _ _ => rfl) [] parameters)
  | .procCall (.procIdentifier _) parameters | .procCall .super parameters
  | .procCall .self parameters =>
      steps_rewriteParameters (.procCall _) (.procCallParameter _) (fun _ _ => rfl) [] parameters
  | .dereference ⟨receiver, steps⟩ =>
      (Frame.dereference steps).plug_steps (finishes receiver.steps_rewriteParts)
  | .callable (.dereference ⟨receiver, steps⟩) =>
      (Frame.callable steps).plug_steps (finishes receiver.steps_rewriteParts)
  | .callable (.procIdentifier _) | .callable .super | .callable .self => .refl

theorem steps_rewriteExprs (value : String) (done : List Expr) : (exprs : List Expr) →
    ReflTransGen Expr.PartlyFolds (.textFormat value (done ++ exprs))
      (.textFormat value (done ++ rewriteExprs finish exprs))
  | [] => .refl
  | expr :: rest => by
      have first := (Expr.Frame.textFormat value done rest).plug_steps
        (finishes expr.steps_rewriteParts)
      have others := steps_rewriteExprs value (done ++ [finish expr (expr.rewriteParts finish)]) rest
      simp only [List.append_assoc, List.singleton_append] at others
      exact first.trans others

theorem steps_rewriteParameters (build : List CallParameter → Expr)
    (frame : ParameterFrame → Expr.Frame)
    (plugged : ∀ parameters inner, (frame parameters).plug inner = build (parameters.plug inner))
    (done : List CallParameter) : (parameters : List CallParameter) →
    ReflTransGen Expr.PartlyFolds (build (done ++ parameters))
      (build (done ++ rewriteParameters finish parameters))
  | [] => .refl
  | ⟨value, name⟩ :: rest => by
      have first := (frame ⟨done, name, rest⟩).plug_steps (finishes value.steps_rewriteParts)
      rw [plugged, plugged] at first
      have others := steps_rewriteParameters build frame plugged
        (done ++ [⟨finish value (value.rewriteParts finish), name⟩]) rest
      simp only [List.append_assoc, List.singleton_append] at others
      exact first.trans others

end

end

namespace Expr

variable {expr other : Expr} {constant : Constant}

/-- Putting the literal in the place of an expression that folds is such a step. -/
theorem steps_finishDown (steps : ReflTransGen PartlyFolds expr other) :
    ReflTransGen PartlyFolds expr (finishDown expr other) := by
  rw [finishDown]
  cases folded : expr.fold? with
  | none => exact steps
  | some constant => exact .single (.at [] folded)

theorem steps_finishUp (steps : ReflTransGen PartlyFolds expr other) :
    ReflTransGen PartlyFolds expr (finishUp expr other) :=
  steps.trans (steps_finishDown .refl)

theorem steps_foldedDown (expr : Expr) : ReflTransGen PartlyFolds expr expr.foldedDown :=
  steps_finishDown (expr.steps_rewriteParts steps_finishDown)

/-! ## The passes agree -/

/-- If both passes leave the same of what an expression is made of, they leave the same of it. -/
theorem finishUp_eq (same : expr.rewriteParts finishUp = expr.rewriteParts finishDown) :
    finishUp expr (expr.rewriteParts finishUp) = finishDown expr (expr.rewriteParts finishDown) := by
  have folded := fold?_eq_of_partlyFolds (expr.steps_rewriteParts steps_finishUp)
  rw [finishUp, folded, same, finishDown]

end Expr

open DreamWorld.Syntax.Expr (finishUp finishDown finishUp_eq)

mutual

theorem Expr.rewriteParts_finishUp : (expr : Expr) →
    expr.rewriteParts finishUp = expr.rewriteParts finishDown
  | .integer _ | .float _ | .text _ | .resource _ | .null | .path _ | .identifier _ => rfl
  | .textFormat _ interpolated => by
      simp only [Expr.rewriteParts, rewriteExprs_finishUp interpolated]
  | .list entries => by simp only [Expr.rewriteParts, rewriteParameters_finishUp entries]
  | .input parameters _ none => by
      simp only [Expr.rewriteParts, rewriteParameters_finishUp parameters, rewriteOption]
  | .input parameters _ (some choices) => by
      simp only [Expr.rewriteParts, rewriteParameters_finishUp parameters, rewriteOption,
        finishUp_eq choices.rewriteParts_finishUp]
  | .initial value | .isDeclaredType value | .unary _ value | .locate (some value) none
  | .locate none (some value) => by
      simp only [Expr.rewriteParts, rewriteOption, finishUp_eq value.rewriteParts_finishUp]
  | .isType left right | .assign _ left right | .binary _ left right | .isIn left right
  | .listIndex left right | .locate (some left) (some right) => by
      simp only [Expr.rewriteParts, rewriteOption, finishUp_eq left.rewriteParts_finishUp,
        finishUp_eq right.rewriteParts_finishUp]
  | .locate none none => rfl
  | .locateCoordinates x y z | .ternary x y z => by
      simp only [Expr.rewriteParts, finishUp_eq x.rewriteParts_finishUp,
        finishUp_eq y.rewriteParts_finishUp, finishUp_eq z.rewriteParts_finishUp]
  | .call parameters arguments => by
      simp only [Expr.rewriteParts, rewriteParameters_finishUp parameters,
        rewriteParameters_finishUp arguments]
  | .new (.dereference ⟨receiver, _⟩) parameters => by
      simp only [Expr.rewriteParts, NewTarget.rewriteParts, Dereference.rewriteParts,
        finishUp_eq receiver.rewriteParts_finishUp, rewriteParameters_finishUp parameters]
  | .new (.path _) parameters | .new (.identifier _) parameters | .new .inferred parameters => by
      simp only [Expr.rewriteParts, NewTarget.rewriteParts, rewriteParameters_finishUp parameters]
  | .procCall (.dereference ⟨receiver, _⟩) parameters => by
      simp only [Expr.rewriteParts, Callable.rewriteParts, Dereference.rewriteParts,
        finishUp_eq receiver.rewriteParts_finishUp, rewriteParameters_finishUp parameters]
  | .procCall (.procIdentifier _) parameters | .procCall .super parameters
  | .procCall .self parameters => by
      simp only [Expr.rewriteParts, Callable.rewriteParts, rewriteParameters_finishUp parameters]
  | .dereference ⟨receiver, _⟩ | .callable (.dereference ⟨receiver, _⟩) => by
      simp only [Expr.rewriteParts, Callable.rewriteParts, Dereference.rewriteParts,
        finishUp_eq receiver.rewriteParts_finishUp]
  | .callable (.procIdentifier _) | .callable .super | .callable .self => rfl

theorem rewriteExprs_finishUp : (exprs : List Expr) →
    rewriteExprs finishUp exprs = rewriteExprs finishDown exprs
  | [] => rfl
  | expr :: rest => by
      simp only [rewriteExprs, finishUp_eq expr.rewriteParts_finishUp, rewriteExprs_finishUp rest]

theorem rewriteParameters_finishUp : (parameters : List CallParameter) →
    rewriteParameters finishUp parameters = rewriteParameters finishDown parameters
  | [] => rfl
  | ⟨value, name⟩ :: rest => by
      simp only [rewriteParameters, finishUp_eq value.rewriteParts_finishUp,
        rewriteParameters_finishUp rest]

end

/-! ## Lists of parts -/

section

variable (finish : Expr → Expr → Expr)

theorem rewriteExprs_append (first second : List Expr) :
    rewriteExprs finish (first ++ second) =
      rewriteExprs finish first ++ rewriteExprs finish second := by
  induction first with
  | nil => rfl
  | cons expr rest ih => rw [List.cons_append, rewriteExprs, ih, rewriteExprs, List.cons_append]

theorem rewriteParameters_append (first second : List CallParameter) :
    rewriteParameters finish (first ++ second) =
      rewriteParameters finish first ++ rewriteParameters finish second := by
  induction first with
  | nil => rfl
  | cons parameter rest ih =>
      cases parameter
      rw [List.cons_append, rewriteParameters, ih, rewriteParameters, List.cons_append]

theorem length_rewriteExprs (exprs : List Expr) :
    (rewriteExprs finish exprs).length = exprs.length := by
  induction exprs with
  | nil => rfl
  | cons expr rest ih => rw [rewriteExprs, List.length_cons, ih, List.length_cons]

theorem length_rewriteParameters (parameters : List CallParameter) :
    (rewriteParameters finish parameters).length = parameters.length := by
  induction parameters with
  | nil => rfl
  | cons parameter rest ih =>
      cases parameter
      rw [rewriteParameters, List.length_cons, ih, List.length_cons]

end

namespace Expr

variable {expr other : Expr} {finish : Expr → Expr → Expr}

/-! ## A pass ends with the same expression wherever it begins -/

/-- A pass sees of a part only what the pass makes of that part. -/
theorem Frame.rewriteParts_congr (frame : Frame)
    (same : expr.rewritten finish = other.rewritten finish) :
    (frame.plug expr).rewriteParts finish = (frame.plug other).rewriteParts finish := by
  simp only [rewritten] at same
  cases frame <;>
    simp only [plug, ParameterFrame.plug, Expr.rewriteParts, rewriteExprs_append, rewriteExprs,
      rewriteParameters_append, rewriteParameters, rewriteOption, Dereference.rewriteParts,
      NewTarget.rewriteParts, Callable.rewriteParts, same]

theorem foldedDown_of_folds {constant : Constant} (folded : expr.fold? = some constant) :
    expr.foldedDown = constant.toExpr := by
  rw [foldedDown, rewritten, finishDown, literalOr, folded]
  rfl

theorem foldedDown_of_not_folds (folded : expr.fold? = none) :
    expr.foldedDown = expr.rewriteParts finishDown := by
  rw [foldedDown, rewritten, finishDown, literalOr, folded]
  rfl

theorem PartlyFolds.foldedDown_eq (step : PartlyFolds expr other) :
    other.foldedDown = expr.foldedDown := by
  cases step with
  | @«at» context part constant folded =>
      induction context with
      | nil =>
          rw [Context.plug_nil, Context.plug_nil, foldedDown_of_folds folded,
            foldedDown_of_folds (fold?_toExpr constant)]
      | cons frame context ih =>
          have same := frame.rewriteParts_congr ih
          have foldsAlike := frame.fold?_congr (PartlyFolds.at context folded).fold?_eq
          simp only [foldedDown, rewritten, finishDown, Context.plug_cons, same, foldsAlike]

theorem foldedDown_eq_of_partlyFolds (steps : ReflTransGen PartlyFolds expr other) :
    other.foldedDown = expr.foldedDown := by
  induction steps with
  | refl => rfl
  | tail _ step ih => rw [step.foldedDown_eq, ih]

/-! ## A pass leaves nothing to fold -/

theorem isConstant_toExpr (constant : Constant) : constant.toExpr.isConstant = true := by
  cases constant <;> rfl

theorem Frame.isConstant_plug (frame : Frame) (part : Expr) :
    (frame.plug part).isConstant = false := by
  cases frame <;> rfl

theorem rewritten_of_rewriteParameters (frame : ParameterFrame)
    (kept : rewriteParameters finish (frame.plug expr) = frame.plug expr) :
    expr.rewritten finish = expr := by
  rw [ParameterFrame.plug, rewriteParameters_append, rewriteParameters] at kept
  have tails := (List.append_inj kept (length_rewriteParameters finish _)).2
  exact congrArg CallParameter.value (List.cons.inj tails).1

/-- A pass that leaves an expression as it is leaves its parts as they are. -/
theorem Frame.rewritten_of_rewriteParts (frame : Frame)
    (kept : (frame.plug expr).rewriteParts finish = frame.plug expr) :
    expr.rewritten finish = expr := by
  cases frame with
  | textFormat value before after =>
      simp only [plug, Expr.rewriteParts, Expr.textFormat.injEq, true_and, rewriteExprs_append,
        rewriteExprs] at kept
      exact (List.cons.inj (List.append_inj kept (length_rewriteExprs finish _)).2).1
  | list frame | inputParameter frame | callParameter frame | callArgument _ frame
  | newParameter _ frame | procCallParameter _ frame =>
      simp only [plug, Expr.rewriteParts, Expr.list.injEq, Expr.input.injEq, Expr.call.injEq,
        Expr.new.injEq, Expr.procCall.injEq] at kept
      exact rewritten_of_rewriteParameters frame (by grind)
  | _ =>
      simp only [plug, Expr.rewriteParts, rewriteOption, Dereference.rewriteParts,
        NewTarget.rewriteParts, Callable.rewriteParts] at kept
      rw [rewritten]
      grind

theorem foldedDown_of_plug (context : Context)
    (kept : (context.plug expr).foldedDown = context.plug expr) : expr.foldedDown = expr := by
  induction context with
  | nil => exact kept
  | cons frame context ih =>
      apply ih
      rw [Context.plug_cons] at kept
      cases folded : (frame.plug (Context.plug context expr)).fold? with
      | some constant =>
          have literal := isConstant_toExpr constant
          rw [← foldedDown_of_folds folded, kept, frame.isConstant_plug] at literal
          cases literal
      | none =>
          rw [foldedDown_of_not_folds folded] at kept
          exact frame.rewritten_of_rewriteParts kept

/-- Nothing in the expression folds except what is a literal already. -/
def IsFolded (expr : Expr) : Prop :=
  ∀ next, PartlyFolds expr next → next = expr

theorem isFolded_foldedDown (expr : Expr) : expr.foldedDown.IsFolded := by
  have kept := foldedDown_eq_of_partlyFolds expr.steps_foldedDown
  intro next step
  generalize expr.foldedDown = passed at kept step
  cases step with
  | «at» context folded =>
      have partKept := foldedDown_of_plug context kept
      rw [foldedDown_of_folds folded] at partKept
      rw [partKept]

theorem IsFolded.eq_of_steps (isFolded : expr.IsFolded)
    (steps : ReflTransGen PartlyFolds expr other) : other = expr := by
  induction steps with
  | refl => rfl
  | tail _ step ih =>
      subst ih
      exact isFolded _ step

/-! ## Any order will do -/

/-- Every subexpression of an expression stands in some context, and where it folds its literal can
stand in its place: the whole folds as it did.  The same holds of any number of such replacements in
any order, and all that leave nothing to fold end with one expression.  Passes from the root
downwards and from the leaves upwards consist of such replacements and end with that expression. -/
theorem folds_in_any_order (expr : Expr) :
    (∀ part, .expr part ∈ (Node.expr expr).occurring →
      ∃ context : Context, context.plug part = expr) ∧
    (∀ (context : Context) part constant, context.plug part = expr →
      part.fold? = some constant → (context.plug constant.toExpr).fold? = expr.fold?) ∧
    (∀ other, ReflTransGen PartlyFolds expr other →
      other.fold? = expr.fold? ∧ other.foldedDown = expr.foldedDown ∧
      (other.IsFolded → other = expr.foldedDown)) ∧
    ReflTransGen PartlyFolds expr expr.foldedDown ∧ expr.foldedDown.IsFolded ∧
    expr.foldedUp = expr.foldedDown := by
  refine ⟨fun part => exists_context, ?_, ?_, expr.steps_foldedDown, expr.isFolded_foldedDown,
    finishUp_eq expr.rewriteParts_finishUp⟩
  · rintro context part constant rfl folded
    exact (PartlyFolds.at context folded).fold?_eq
  · intro other steps
    have passed := foldedDown_eq_of_partlyFolds steps
    refine ⟨fold?_eq_of_partlyFolds steps, passed, fun isFolded => ?_⟩
    rw [← passed, isFolded.eq_of_steps other.steps_foldedDown]

/-- In `list("price" = 0 ? x : -(1 + 2))` the sum is replaced by the literal `3`. -/
theorem folds_in_any_order_priceList :
    let sum : Expr := .binary .add (.integer 1) (.integer 2)
    let price : Expr := .ternary (.integer 0) (.identifier "x") (.unary .negate sum)
    let replaced : Expr :=
      .ternary (.integer 0) (.identifier "x") (.unary .negate (.integer 3))
    sum.fold? = some (.integer 3) ∧ replaced.fold? = price.fold? ∧
      replaced.fold? = some (.integer (-3)) ∧
      Expr.foldedDown (.list [⟨price, some "price"⟩]) =
        .list [⟨.integer (-3), some "price"⟩] ∧
      Expr.foldedDown (.list [⟨replaced, some "price"⟩]) =
        Expr.foldedDown (.list [⟨price, some "price"⟩]) := by
  intro sum price replaced
  have sumFolded : sum.fold? = some (.integer 3) := by decide +kernel
  let around : Context := [.ternaryFalse (.integer 0) (.identifier "x"), .unary .negate]
  have alike := (folds_in_any_order price).2.1 around sum _ rfl sumFolded
  have step : PartlyFolds (.list [⟨price, some "price"⟩]) (.list [⟨replaced, some "price"⟩]) :=
    .at (.list ⟨[], some "price", []⟩ :: around) sumFolded
  have passed := (folds_in_any_order _).2.2.1 _ (.single step)
  exact ⟨sumFolded, alike, by decide +kernel, rfl, passed.2.1⟩

end Expr

end DreamWorld.Syntax
