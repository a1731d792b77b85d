import DreamWorld.Command.Config
import DreamWorld.Report
import DreamWorld.World

/-!
# Commands

The command line lists the classes of a compiled world, or creates an object of
one of them and shows it.  A command needs at most one file.  It is therefore
planned first; the plan says which file it needs, and turns the file's text, or
its absence, into what the command prints.
-/

namespace DreamWorld.Command

/-! ## Outcomes -/

/-- What a command prints, and how it ends. -/
structure Outcome where
  code : UInt8 := 0
  stdout : String := ""
  stderr : String := ""
deriving DecidableEq

/-- Lines, each with its end. -/
def textOfLines (lines : List String) : String :=
  String.join (lines.map (· ++ "\n"))

def Outcome.success (lines : List String) : Outcome :=
  { stdout := textOfLines lines }

def Outcome.failure (lines : List String) : Outcome :=
  { code := 1, stderr := textOfLines lines }

/-- Why a command failed that was called correctly. -/
inductive Failure where
  | unreadable (file : String)
  | load (error : LoadError)
  | runtime (error : RuntimeError)
deriving DecidableEq

def Failure.message : Failure → String
  | .unreadable file => "cannot read '" ++ file ++ "'"
  | .load error => error.message
  | .runtime error => error.message

/-- What is printed for lines or for a failure to give them. -/
def Outcome.ofLines : Except Failure (List String) → Outcome
  | .ok lines => .success lines
  | .error failure => .failure ["error: " ++ failure.message]

/-! ## Fixed texts -/

def usageLines : List String :=
  ["DM runtime object tree inspector",
    "",
    "Usage: dmr <command> [options]",
    "",
    "Commands:",
    "  tree <compiled.json>          List every type with its declared parent and procs",
    "  new <compiled.json> <path>    Instantiate a type and show its variables",
    "  help                          Show this help message",
    "  version                       Show version information",
    "",
    "Options:",
    "  --resources <dir>   Resource root (default: the compiled file's directory)",
    "",
    "Logging:",
    "  RUST_LOG=dm_runtime=debug     Show load and hook attachment",
    "  RUST_LOG=dm_runtime=trace     Also show every loaded entry",
    "",
    "Examples:",
    "  dmr tree build/world.json",
    "  dmr new build/world.json /mob/player --resources assets"]

def versionLine : String :=
  "dmr 0.1.0-alpha.8"

def treeUsage : String :=
  "Usage: dmr tree <compiled.json> [--resources <dir>]"

def newUsage : String :=
  "Usage: dmr new <compiled.json> <path> [--resources <dir>]"

/-! ## Worlds of compiled files -/

/-- The world of a compiled file, given its text, with the built-in classes at
work. -/
def Config.world (config : Config) : Option String → Except Failure World
  | none => .error (.unreadable config.compiled)
  | some text =>
      match World.start.loadText (fileLoader config.resources) text {} with
      | (.error error, _, _) => .error (.load error)
      | (.ok (), world, _) =>
          match world.run world.tree.attachBuiltins with
          | (.error error, _) => .error (.runtime error)
          | (.ok (), world) => .ok world

/-- The report on the classes of a world. -/
def Config.treeReport (config : Config) (text : Option String) : Except Failure (List String) := do
  let world ← config.world text
  return [Report.ofTree world.tree]

/-- The report on a new object of a class. -/
def Config.objectReport (config : Config) (path : String) (text : Option String) :
    Except Failure (List String) := do
  let world ← config.world text
  let report : Action String := do
    Report.ofObject (← world.tree.create (Path.parse path) {})
  match (world.run report).1 with
  | .ok report => return [report]
  | .error error => throw (.runtime error)

/-! ## Plans -/

/-- What is left to do for a command. -/
inductive Plan where
  | finish (outcome : Outcome)
  | read (file : String) (next : Option String → Outcome)

/-- A plan for the options of a command, which has a usage line of its own. -/
def Plan.withConfig (usage : String) (options : List String) (plan : Config → Plan) : Plan :=
  match Config.parse options with
  | .ok config => plan config
  | .error error => .finish (.failure ["error: " ++ error.message, usage])

/-- Lists the classes of a world. -/
def planTree (config : Config) : Plan :=
  .read config.compiled fun text => .ofLines (config.treeReport text)

/-- Creates an object and shows it. -/
def planNew (config : Config) : Plan :=
  match config.arguments with
  | [] => .finish (.failure ["error: missing type path", newUsage])
  | path :: _ => .read config.compiled fun text => .ofLines (config.objectReport path text)

/-- The plan for a command line. -/
def plan : List String → Plan
  | [] => .finish (.success usageLines)
  | name :: options =>
      if name = "tree" then .withConfig treeUsage options planTree
      else if name = "new" then .withConfig newUsage options planNew
      else if ["help", "--help", "-h"].contains name then .finish (.success usageLines)
      else if ["version", "--version", "-v"].contains name then .finish (.success [versionLine])
      else
        .finish
          { code := 1
            stdout := textOfLines usageLines
            stderr := textOfLines ["Unknown command: " ++ name, ""] }

/-- Carries a plan out where files are read by `read?`. -/
def Plan.runWith (read? : String → Option String) : Plan → Outcome
  | .finish outcome => outcome
  | .read file next => next (read? file)

end DreamWorld.Command
