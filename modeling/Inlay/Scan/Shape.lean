/-!
The shapes of code that bind names.
-/

namespace Inlay.Scan

inductive Shape
  /-- A single name after a binding keyword. -/
  | declaration
  /-- A parameter list between bars. -/
  | closure
  /-- A parenthesised group after a binding head. -/
  | tuple
  /-- A parenthesised group before an arrow. -/
  | matchArm
  deriving DecidableEq

namespace Shape

/-- All shapes, the one tried first in front. -/
def all : List Shape := [declaration, closure, tuple, matchArm]

/-- The short name, for people. -/
def name : Shape → String
  | declaration => "simple"
  | closure => "closure"
  | tuple => "tuple"
  | matchArm => "match-arm"

/-- The long name, for programs. -/
def tag : Shape → String
  | declaration => "simple_declaration"
  | closure => "closure_parameter_list"
  | tuple => "tuple_destructure"
  | matchArm => "match_arm_pattern"

def rank : Shape → Nat
  | declaration => 0
  | closure => 1
  | tuple => 2
  | matchArm => 3

theorem mem_all (s : Shape) : s ∈ all := by
  cases s <;> decide

end Shape

end Inlay.Scan
