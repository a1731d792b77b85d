import DreamWorld.Keyed
import DreamWorld.World.Value

/-!
# Arguments of a call

A call passes values in order and values under names.
-/

namespace DreamWorld

structure Arguments where
  ordered : List Value := []
  named : Keyed Value := []
deriving DecidableEq

namespace Arguments

def count (arguments : Arguments) : Nat :=
  arguments.ordered.length + arguments.named.length

def isEmpty (arguments : Arguments) : Bool :=
  arguments.ordered.isEmpty && arguments.named.isEmpty

/-- The value of a parameter: the one passed under its name, else the one at its
position, else null. -/
def value (arguments : Arguments) (index : Nat) (name : String) : Value :=
  (arguments.named.find? name).getD (arguments.ordered.getD index .null)

end Arguments

end DreamWorld
