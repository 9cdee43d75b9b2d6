/-!
# YAML values

Settings may be written in YAML. A scalar keeps its text and whether it is plain, since only plain
scalars are numbers or truth values. A value that is left out is a plain scalar without text.
-/

namespace SvgWorkbench

/-- A YAML value. -/
inductive Yaml where
  /-- A scalar, plain or quoted. -/
  | scalar (plain : Bool) (text : String)
  /-- A sequence. -/
  | sequence (items : List Yaml)
  /-- A mapping with its entries in order; repeated keys are kept. -/
  | mapping (entries : List (Yaml × Yaml))
  deriving Repr

namespace Yaml

/-- A value that is left out. -/
def absent : Yaml := .scalar true ""

/-- Whether a value is left out. -/
def isAbsent : Yaml → Bool
  | .scalar plain text => plain && text.isEmpty
  | _ => false

/-- The text of a scalar. -/
def text? : Yaml → Option String
  | .scalar _ text => some text
  | _ => none

/-- The text of a plain scalar. -/
def plain? : Yaml → Option String
  | .scalar true text => some text
  | _ => none

end Yaml

end SvgWorkbench
