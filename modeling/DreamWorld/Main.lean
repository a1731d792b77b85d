import DreamWorld.Command.Run

/-!
# The program

Carries out the plan for the command line: reads the file that it asks for,
prints what it says, and ends with its code.
-/

namespace DreamWorld

/-- The text of a file, if it can be read. -/
def readText? (file : String) : IO (Option String) :=
  try
    return some (← IO.FS.readFile file)
  catch _ => return none

/-- Prints the outcome of a command. -/
def report (outcome : Command.Outcome) : IO UInt32 := do
  IO.print outcome.stdout
  IO.eprint outcome.stderr
  return outcome.code.toUInt32

end DreamWorld

def main (arguments : List String) : IO UInt32 := do
  match DreamWorld.Command.plan arguments with
  | .finish outcome => DreamWorld.report outcome
  | .read file next => DreamWorld.report (next (← DreamWorld.readText? file))
