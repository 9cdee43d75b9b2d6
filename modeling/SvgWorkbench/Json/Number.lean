import SvgWorkbench.Json.Value
import SvgWorkbench.Text.Numeral

/-!
# The value of a JSON number

Numbers are read in machine arithmetic. The digits are gathered in a word of 64 bits as long as they
fit, the rest of them only moves the decimal point, and one multiplication or division by a power of
ten gives the double. A number too large for a double is refused.
-/

namespace SvgWorkbench.NumberToken

open Text

/-! ## Gathering digits -/

/-- One more than the largest word. -/
def wordLimit : Nat := UInt64.size

/-- One more than the largest exponent that is added up: two to the power 31. -/
def exponentLimit : Nat := 2147483648

/-- Adds digits to a number as long as it stays below a limit; also gives the digits left over. -/
def gather (limit n : Nat) : List Char → Nat × List Char
  | [] => (n, [])
  | c :: cs =>
    let next := n * 10 + numeral 10 [c]
    if next < limit then gather limit next cs else (n, c :: cs)

/-! ## Scaling -/

/-- A power of ten as a double. -/
def powerOfTen (n : Nat) : Float := Float.ofScientific 1 false n

/-- The double nearest to a word. -/
def wordFloat (n : Nat) : Float := n.toUInt64.toFloat

/-- Scales down by a power of ten, in steps that a double can hold. -/
def scaleDown (x : Float) (n : Nat) : Float :=
  if n ≤ 308 then x / powerOfTen n
  else if x == 0 then x
  else scaleDown (x / powerOfTen 308) (n - 308)
termination_by n

/-- A word scaled by a power of ten, unless it is too large. -/
def scaled? (significand : Nat) (exponent : Int) : Option Float :=
  let x := wordFloat significand
  match exponent with
  | .ofNat n =>
    if n ≤ 308 then
      let y := x * powerOfTen n
      if y.isInf then none else some y
    else if x == 0 then some x
    else none
  | .negSucc n => some (scaleDown x (n + 1))

/-! ## Values -/

/-- The significand and the exponent of the digits before and after the point. -/
def parts (t : NumberToken) : Nat × Int :=
  let (significand, skipped) := gather wordLimit 0 t.whole
  match t.fraction with
  | none => (significand, skipped.length)
  | some digits =>
    let (finer, left) := gather wordLimit significand digits
    (finer, (skipped.length : Int) - (digits.length - left.length : Nat))

/-- The size of the number, without its sign. -/
def size? (t : NumberToken) : Option Float :=
  let (significand, exponent) := t.parts
  match t.exponent with
  | none => scaled? significand exponent
  | some (negative, digits) =>
    match gather exponentLimit 0 digits with
    | (n, []) => scaled? significand (if negative then exponent - n else exponent + n)
    | (_, _ :: _) => if significand ≠ 0 ∧ !negative then none else some 0

/-- The double a number denotes, unless it is too large. -/
def float? (t : NumberToken) : Option Float :=
  t.size?.map fun x ↦ if t.negative then -x else x

/-- The word a number denotes; it has to be written as an integer without a sign. -/
def word? (t : NumberToken) : Option UInt64 :=
  if t.negative || t.fraction.isSome || t.exponent.isSome then none
  else match gather wordLimit 0 t.whole with
    | (n, []) => some n.toUInt64
    | _ => none

end SvgWorkbench.NumberToken
