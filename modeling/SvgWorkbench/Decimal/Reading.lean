import SvgWorkbench.Text.AsciiCase
import SvgWorkbench.Text.Numeral

/-!
# Reading decimals

A decimal is an optional sign followed by digits with an optional point somewhere among them and an
optional exponent. It denotes the nearest double. The words for infinity and for no number are read
as well, in any letter case.
-/

namespace SvgWorkbench.Decimal

open Text

/-! ## Parts -/

/-- A sign, and what follows it; no sign means plus. -/
def sign : List Char → Bool × List Char
  | '-' :: cs => (true, cs)
  | '+' :: cs => (false, cs)
  | cs => (false, cs)

/-- A run of digits and what follows it. -/
def run (cs : List Char) : List Char × List Char :=
  (cs.takeWhile (isDigit 10), cs.dropWhile (isDigit 10))

/-- The digits before and after the point; at least one is there. -/
def mantissa? (cs : List Char) : Option (List Char × List Char × List Char) :=
  let (whole, rest) := run cs
  let (fraction, rest) := match rest with
    | '.' :: rest => run rest
    | rest => ([], rest)
  if whole.isEmpty && fraction.isEmpty then none else some (whole, fraction, rest)

/-- An exponent that fills the text; without one it is zero. -/
def exponent? : List Char → Option Int
  | [] => some 0
  | c :: cs =>
    if c = 'e' ∨ c = 'E' then
      let (negative, digits) := sign cs
      (numeral? 10 digits).map fun n ↦ if negative then -(n : Int) else n
    else none

/-! ## Values -/

/-- The double nearest to a number times a power of ten. Powers beyond the range of doubles are
recognised by the number of digits, without computing them. -/
def nearest (n : Nat) (exponent : Int) : Float :=
  let leading := exponent + (Nat.toDigits 10 n).length
  if n = 0 then 0
  else if 400 < leading then 1 / 0
  else if leading < -400 then 0
  else Float.ofScientific n (exponent < 0) exponent.natAbs

/-- The number a text without its sign denotes. -/
def unsigned? (cs : List Char) : Option Float :=
  let word := cs.map asciiLower
  if word = ['i', 'n', 'f'] ∨ word = ['i', 'n', 'f', 'i', 'n', 'i', 't', 'y'] then some (1 / 0)
  else if word = ['n', 'a', 'n'] then some (0 / 0)
  else do
    let (whole, fraction, rest) ← mantissa? cs
    let exponent ← exponent? rest
    return nearest (numeral 10 (whole ++ fraction)) (exponent - fraction.length)

/-- The double a text denotes. -/
def read? (s : String) : Option Float :=
  let (negative, cs) := sign s.toList
  (unsigned? cs).map fun x ↦ if negative then -x else x

end SvgWorkbench.Decimal
