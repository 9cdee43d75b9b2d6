/-!
# Directions of reordering

An element is drawn above the elements before it, so raising it moves it towards the end of its
parent. In settings and calls the two directions are the numbers zero and one.
-/

namespace SvgWorkbench

/-- Where an element moves among its siblings. -/
inductive Direction where
  /-- One element towards the end: drawn later, above. -/
  | raise
  /-- One element towards the start: drawn earlier, below. -/
  | lower
  deriving DecidableEq, Repr

namespace Direction

/-- The name of a direction. -/
def name : Direction → String
  | .raise => "Raise"
  | .lower => "Lower"

/-- The number of a direction. -/
def code : Direction → Nat
  | .raise => 0
  | .lower => 1

/-- The direction of a number. -/
def ofCode? : Nat → Option Direction
  | 0 => some .raise
  | 1 => some .lower
  | _ => none

/-- The other direction. -/
def opposite : Direction → Direction
  | .raise => .lower
  | .lower => .raise

theorem ofCode?_code (d : Direction) : ofCode? d.code = some d := by cases d <;> rfl

end Direction

end SvgWorkbench
