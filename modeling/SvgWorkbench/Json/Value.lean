/-!
# JSON values

Settings arrive as JSON. A value keeps what decoding has to tell apart: numbers stay as they are
written, since `2` is an integer and `2.0` is not; objects keep repeated keys, since a repeated
setting is refused; and a string that holds half of a surrogate pair is a value no text stands for,
which matters only where a text is wanted.
-/

namespace SvgWorkbench

/-- A number as it is written. -/
structure NumberToken where
  /-- Whether a minus sign stands in front. -/
  negative : Bool
  /-- The digits before the point. -/
  whole : List Char
  /-- The digits after the point, if there is one. -/
  fraction : Option (List Char)
  /-- Whether the exponent is negative, and its digits, if there is one. -/
  exponent : Option (Bool × List Char)
  deriving DecidableEq, Repr

/-- A JSON value. -/
inductive Json where
  /-- The null value. -/
  | null
  /-- A truth value. -/
  | bool (b : Bool)
  /-- A number. -/
  | number (token : NumberToken)
  /-- A string; none when it holds half of a surrogate pair. -/
  | string (text : Option String)
  /-- An array. -/
  | array (items : List Json)
  /-- An object with its entries in order; repeated keys are kept. -/
  | object (entries : List (Option String × Json))
  deriving Repr

namespace Json

/-- The text of a string. -/
def text? : Json → Option String
  | .string text => text
  | _ => none

/-- A truth value. -/
def bool? : Json → Option Bool
  | .bool b => some b
  | _ => none

/-- The items of an array. -/
def items? : Json → Option (List Json)
  | .array items => some items
  | _ => none

/-- The texts of an array of strings. -/
def texts? (j : Json) : Option (List String) := j.items?.bind (·.mapM text?)

/-- The first value of a key. -/
def field? (j : Json) (key : String) : Option Json :=
  match j with
  | .object entries => (entries.find? (·.1 == some key)).map (·.2)
  | _ => none

end Json

end SvgWorkbench
