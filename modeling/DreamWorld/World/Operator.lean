/-!
# Operators of a running world

The operators that act on values while a world runs and that a class may give a
meaning of its own.  Append, remove, combine and mask are the operators that
change a list in place.
-/

namespace DreamWorld

inductive Operator where
  | output
  | add
  | subtract
  | append
  | remove
  | combine
  | mask
deriving DecidableEq

def Operator.symbol : Operator → String
  | .output => "<<"
  | .add => "+"
  | .subtract => "-"
  | .append => "+="
  | .remove => "-="
  | .combine => "|="
  | .mask => "&="

end DreamWorld
