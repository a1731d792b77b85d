import DreamWorld.Syntax.Expr

/-!
# Statements and declarations

The statements of a proc body, and the declarations that a file makes on classes.
A declaration path carries marker elements (`proc`, `verb`, `var`, `global`).
The constructors from a path strip and record them, so that the declaring class
and the declared name stand apart:

```text
/mob/proc/attack            class /mob, proc attack
/mob/verb/say               class /mob, verb say
/obj/var/global/count       class /obj, shared variable count
/obj/item/var/list/contents class /obj/item, variable contents of type list
/proc/helper                no class, a proc of the root
```
-/

namespace DreamWorld.Syntax

/-- A local variable of a proc: its declared type, if any, and its name. -/
structure VarDeclaration where
  type : Option Path
  name : String
  value : Option Expr

mutual

/-- Statements of a proc body. -/
inductive ProcStatement where
  | expression (value : Expr)
  | varDeclaration (declaration : VarDeclaration)
  | return (value : Option Expr)
  | break
  | continue
  | goto (label : String)
  | label (name : String)
  /-- `del value` -/
  | delete (value : Expr)
  /-- `set setting = value` -/
  | set (setting : String) (value : Expr)
  /-- `spawn(time) body` -/
  | spawn (time : Option Expr) (body : ProcBlock)
  | if (condition : Expr) (body : ProcBlock) (elseBody : Option ProcBlock)
  /-- `for(initializer; comparator; incrementor) body` -/
  | forStandard (initializer : Option ProcStatement) (comparator incrementor : Option Expr)
      (body : ProcBlock)
  /-- `for(name in list) body` -/
  | forList (initializer : Option ProcStatement) (name : String) (list : Expr)
      (body : ProcBlock)
  /-- `for(name = start to stop step step) body` -/
  | forRange (initializer : Option ProcStatement) (name : String) (start stop : Expr)
      (step : Option Expr) (body : ProcBlock)
  /-- `for(declaration, condition, incrementer) body`, with commas -/
  | forLoop (declaration : Option VarDeclaration)
      (target condition incrementer : Option Expr) (body : ProcBlock)
  | while (condition : Expr) (body : ProcBlock)
  /-- `do body while(condition)` -/
  | doWhile (condition : Expr) (body : ProcBlock)
  | switch (value : Expr) (cases : List SwitchCase)
  /-- `receiver << browse(body, options)` -/
  | browse (receiver body options : Expr)
  /-- `receiver << browse_rsc(file, filename)` -/
  | browseResource (receiver file filename : Expr)
  /-- `receiver << output(message, control)` -/
  | outputControl (receiver message control : Expr)

/-- One arm of a `switch`: the values that select it, or none for `else`. -/
inductive SwitchCase where
  | default (body : ProcBlock)
  | values (values : List Expr) (body : ProcBlock)

/-- A block of statements. -/
structure ProcBlock where
  statements : List ProcStatement

end

/-- The block of an arm. -/
def SwitchCase.body : SwitchCase → ProcBlock
  | .default body => body
  | .values _ body => body

/-- A parameter of a proc: its declared class, default value, accepted kinds and
the values to choose from. -/
structure Parameter where
  type : Option Path
  name : String
  value : Option Expr
  kinds : ValueKinds
  possibleValues : Option Expr

/-- A proc or verb, with the class that declares it; a proc of the root has
none. -/
structure ProcDefinition where
  object : Option Path
  name : String
  isVerb : Bool
  parameters : List Parameter
  body : ProcBlock

/-- A variable that a class declares. -/
structure VarDefinition where
  object : Option Path
  type : Option Path
  name : String
  value : Expr
  isGlobal : Bool

/-- A new default value for an inherited variable. -/
structure VarOverride where
  object : Option Path
  name : String
  value : Expr

mutual

/-- Declarations of a file or class block. -/
inductive Statement where
  | object (definition : ObjectDefinition)
  | proc (definition : ProcDefinition)
  | var (definition : VarDefinition)
  | override (definition : VarOverride)

/-- A class, with an optional block of declarations within it. -/
structure ObjectDefinition where
  path : Path
  block : Option Block

/-- A block of declarations. -/
structure Block where
  statements : List Statement

end

/-- A source file. -/
structure SourceFile where
  block : Block

/-! ## Declarations from their paths -/

/-- The path without the first element that equals `marker`, and whether there
was one. -/
def dropMarker (path : Path) (marker : String) : Path × Bool :=
  match path.indexOf? marker with
  | some index => (path.eraseAt index, true)
  | none => (path, false)

/-- A proc from its declaration path.  The first `proc` marker is dropped; where
there is none, the first `verb` marker is dropped and makes it a verb.  The last
element left is the name, the elements before it the class. -/
def ProcDefinition.ofPath (path : Path) (parameters : List Parameter) (body : ProcBlock) :
    ProcDefinition :=
  let (path, isVerb) :=
    match dropMarker path "proc" with
    | (rest, true) => (rest, false)
    | (_, false) => dropMarker path "verb"
  { object := path.object?, name := path.lastName, isVerb, parameters, body }

/-- A class variable from its declaration path.  A `global` marker anywhere
makes it shared.  The class ends before the `var` marker, and the type runs from
there to the name. -/
def VarDefinition.ofPath (path : Path) (value : Expr) : VarDefinition :=
  let (path, isGlobal) := dropMarker path "global"
  let marker := path.indexOf? "var"
  let declared := path.sliceTo (marker.elim 0 (· + 1)) (-1)
  { object := (marker.filter (0 < ·)).map (path.slice 0)
    type := declared.object?
    name := declared.lastName
    value
    isGlobal }

/-- An override from its path: the class, then the name. -/
def VarOverride.ofPath (path : Path) (value : Expr) : VarOverride :=
  { object := path.object?, name := path.lastName, value }

/-- A parameter from its path, in which a `var` marker is optional. -/
def Parameter.ofPath (path : Path) (value : Option Expr) (kinds : ValueKinds)
    (possibleValues : Option Expr) : Parameter :=
  let path := (dropMarker path "var").1
  { type := path.object?, name := path.lastName, value, kinds, possibleValues }

/-- A local variable from its path.  Everything between the `var` marker and the
name is its type. -/
def VarDeclaration.ofPath (path : Path) (value : Option Expr) : VarDeclaration :=
  let type := path.sliceTo ((path.indexOf? "var").elim 0 (· + 1)) (-2)
  { type := if type.elements.isEmpty then none else some type
    name := path.lastName
    value }

end DreamWorld.Syntax
