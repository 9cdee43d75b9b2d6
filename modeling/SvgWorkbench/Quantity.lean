import SvgWorkbench.Decimal.Reading
import SvgWorkbench.Decimal.Shortest
import SvgWorkbench.Text.Blank
import SvgWorkbench.Text.Table.DecimalDigit

/-!
# Numbers in attributes

Attribute values are texts. Moving a copy reads a whole value as a number; changing many elements at
once reads the number a value starts with and leaves a unit aside. Either way a number is written
back with the fewest digits.
-/

namespace SvgWorkbench.Quantity

open Text

/-! ## Reading and writing -/

/-- The finite number a whole value denotes, blanks around it aside. -/
def read? (value : String) : Option Float := (Decimal.read? (trim value)).filter (·.isFinite)

/-- The text of a number; a zero has no sign. -/
def text (x : Float) : String := if x == 0 then "0" else Decimal.text x

/-! ## The number a value starts with -/

/-- Whether a character is a decimal digit of any script. -/
def isDigit (c : Char) : Bool := Table.holds Table.decimalDigit c

/-- A sign, if there is one, and what follows it. -/
def splitSign : List Char → List Char × List Char
  | '-' :: cs => (['-'], cs)
  | '+' :: cs => (['+'], cs)
  | cs => ([], cs)

/-- Digits with an optional point, or a point with digits, and what follows. -/
def splitMantissa? (cs : List Char) : Option (List Char × List Char) :=
  let whole := cs.takeWhile isDigit
  match cs.dropWhile isDigit with
  | '.' :: rest =>
    let fraction := rest.takeWhile isDigit
    if whole.isEmpty && fraction.isEmpty then none
    else some (whole ++ '.' :: fraction, rest.dropWhile isDigit)
  | rest => if whole.isEmpty then none else some (whole, rest)

/-- An exponent with at least one digit, if there is one. -/
def exponentPart : List Char → List Char
  | [] => []
  | c :: cs =>
    let (sign, rest) := splitSign cs
    let digits := rest.takeWhile isDigit
    if (c = 'e' ∨ c = 'E') ∧ digits ≠ [] then c :: sign ++ digits else []

/-- The part of a value that is written as a number. -/
def leadingPart? (cs : List Char) : Option (List Char) :=
  let (sign, rest) := splitSign (trimStart cs)
  (splitMantissa? rest).map fun (mantissa, rest) ↦ sign ++ mantissa ++ exponentPart rest

/-- The number a value starts with. A part written with digits of other scripts denotes none. -/
def leading? (value : String) : Option Float :=
  (leadingPart? value.toList).bind fun part ↦ read? (String.ofList part)

end SvgWorkbench.Quantity
