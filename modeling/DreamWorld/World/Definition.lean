import DreamWorld.Document.Record
import DreamWorld.World.Value

/-!
# Class definitions

A definition is a class together with the classes it inherits from, nearest
first.  A class declares variables with their defaults, shared variables, procs
and an initialisation proc; what it does not declare it has from the nearest
ancestor that does.
-/

namespace DreamWorld

/-- The implementation that a record describes. -/
def Overload.ofRecord (id : ProcId) (name : String) (record : Document.ProcRecord) : Overload :=
  let arguments := record.arguments.getD []
  { id
    name
    bytecode := record.bytecode.getD []
    argumentNames := arguments.map Document.ArgumentRecord.name
    argumentKinds := arguments.map fun argument => ValueKinds.ofBits argument.kinds }

/-- What a class declares itself. -/
structure ClassBody where
  id : ClassId
  type : Path
  vars : Keyed Value := []
  /-- The first values of the shared variables that the class declares. -/
  globals : Keyed Value := []
  procs : Keyed Proc := []
  initProc : Option Proc := none
  /-- How many procs the class has declared, overridden ones included. -/
  procCount : Nat := 0
deriving DecidableEq

/-- A class and its ancestors, nearest first. -/
structure Definition where
  own : ClassBody
  ancestors : List ClassBody := []
deriving DecidableEq

/-- A shared variable: the class that declares it, its name and first value. -/
structure GlobalVariable where
  owner : ClassId
  name : String
  initial : Value
deriving DecidableEq

namespace GlobalVariable

/-- What makes a shared variable one and the same. -/
def cell (global : GlobalVariable) : ClassId × String :=
  (global.owner, global.name)

end GlobalVariable

namespace Definition

def id (definition : Definition) : ClassId :=
  definition.own.id

def type (definition : Definition) : Path :=
  definition.own.type

/-- The class itself and everything it inherits from, nearest first. -/
def lineage (definition : Definition) : List ClassBody :=
  definition.own :: definition.ancestors

/-- A class without members that inherits from `parent`. -/
def below (id : ClassId) (type : Path) (parent : Option Definition) : Definition :=
  { own := { id, type }, ancestors := parent.elim [] lineage }

/-- The definition that a class inherits from directly. -/
def parent? (definition : Definition) : Option Definition :=
  match definition.ancestors with
  | [] => none
  | own :: ancestors => some { own, ancestors }

/-- The class, or one that it inherits from, has the path. -/
def isSubtypeOf (definition : Definition) (type : Path) : Bool :=
  definition.lineage.any fun body => body.type == type

/-! ## Looking members up -/

/-- The default of a variable, from the nearest class that declares it. -/
def variableDefault? (definition : Definition) (name : String) : Option Value :=
  definition.lineage.findSome? fun body => body.vars.find? name

/-- The defaults of all variables; a nearer class overrides a farther one. -/
def variableDefaults (definition : Definition) : Keyed Value :=
  definition.lineage.foldr (fun body defaults => Keyed.overlay defaults body.vars) []

/-- The shared variable of a name, from the nearest class that declares it. -/
def globalVariable? (definition : Definition) (name : String) : Option GlobalVariable :=
  definition.lineage.findSome? fun body =>
    (body.globals.find? name).map fun initial => { owner := body.id, name, initial }

/-- The proc of a name, from the nearest class that declares it. -/
def proc? (definition : Definition) (name : String) : Option Proc :=
  definition.lineage.findSome? fun body => body.procs.find? name

/-- The nearest initialisation proc. -/
def initProc? (definition : Definition) : Option Proc :=
  definition.lineage.findSome? ClassBody.initProc

/-- The names of the procs that the class itself declares. -/
def localProcNames (definition : Definition) : List String :=
  definition.own.procs.names

/-! ## Declaring members -/

def setVariable (definition : Definition) (name : String) (value : Value) : Definition :=
  { definition with
    own := { definition.own with vars := definition.own.vars.insert name value } }

def setGlobal (definition : Definition) (name : String) (value : Value) : Definition :=
  { definition with
    own := { definition.own with globals := definition.own.globals.insert name value } }

/-- An implementation that the class declares next, over those of `overridden`. -/
def newProc (definition : Definition) (procName : String) (record : Document.ProcRecord)
    (overridden : Option Proc) : Proc :=
  { top := Overload.ofRecord ⟨definition.id, definition.own.procCount⟩ procName record
    overridden := overridden.elim [] Proc.chain }

/-- Declares a proc under a name.  It overrides the proc that the name stood for
so far, be it inherited or declared earlier by the same class. -/
def addProc (definition : Definition) (name procName : String)
    (record : Document.ProcRecord) : Definition :=
  let proc := definition.newProc procName record (definition.proc? name)
  { definition with
    own :=
      { definition.own with
        procs := definition.own.procs.insert name proc
        procCount := definition.own.procCount + 1 } }

/-- The name of every initialisation proc. -/
def initProcName : String :=
  "<init>"

/-- Declares the initialisation proc, which overrides the one so far. -/
def addInitProc (definition : Definition) (record : Document.ProcRecord) : Definition :=
  let proc := definition.newProc initProcName record definition.initProc?
  { definition with
    own :=
      { definition.own with
        initProc := some proc
        procCount := definition.own.procCount + 1 } }

end Definition

end DreamWorld
