/-!
# Shortest decimals

A double stands for all reals that round to it. Written as a decimal it is given the fewest digits
that still denote one of these reals, and of several such decimals the one nearest to it.

A positive double is m · 2^q with whole m. The reals that round to it lie between the midpoints to
its two neighbours; the midpoints themselves belong to it when m is even. The neighbour below is
only half as far away where m is the least significand. Everything is compared exactly, in quarters
of 2^q.
-/

namespace SvgWorkbench.Decimal

/-! ## Doubles as multiples of powers of two -/

/-- A positive double: a significand, the power of two it counts, and whether the neighbour below is
half as far away as the one above. -/
structure Binary where
  /-- The significand. -/
  significand : Nat
  /-- The power of two. -/
  exponent : Int
  /-- Whether the neighbour below is nearer. -/
  narrow : Bool
  deriving DecidableEq, Repr

/-- How many significands one exponent has. -/
def fractionCount : Nat := Nat.pow 2 52

/-- How many exponents the bits of a double can hold. -/
def fieldCount : Nat := Nat.pow 2 11

/-- The size of the finite double with given bits, its sign left aside. -/
def Binary.ofBits (bits : UInt64) : Binary :=
  let fraction := bits.toNat % fractionCount
  let field := bits.toNat / fractionCount % fieldCount
  if field = 0 then ⟨fraction, -1074, false⟩
  else ⟨fraction + fractionCount, (field : Int) - 1075, fraction == 0 && field != 1⟩

/-! ## Decimals -/

/-- A decimal: some digits, read as a whole number, times a power of ten. -/
structure Digits where
  /-- The digits. -/
  digits : Nat
  /-- The power of ten. -/
  exponent : Int
  deriving DecidableEq, Repr

/-- The value of a binary number in units of a power of ten, as numerator and denominator. -/
def Binary.ratio (b : Binary) (exponent : Int) : Nat × Nat :=
  (b.significand * Nat.pow 2 b.exponent.toNat * Nat.pow 10 (-exponent).toNat,
    Nat.pow 2 (-b.exponent).toNat * Nat.pow 10 exponent.toNat)

/-- Whether a decimal lies among the reals that round to a binary number. -/
def Binary.admits (b : Binary) (d : Digits) : Bool :=
  let (one, unit) := Binary.ratio ⟨1, b.exponent, false⟩ d.exponent
  let value := 4 * d.digits * unit
  let low := (4 * b.significand - if b.narrow then 1 else 2) * one
  let high := (4 * b.significand + 2) * one
  if b.significand % 2 = 0 then low ≤ value && value ≤ high else low < value && value < high

/-- The exponent of the leading digit. -/
def Binary.leading (b : Binary) : Int :=
  let (numerator, denominator) := b.ratio (-340)
  (Nat.toDigits 10 (numerator / denominator)).length - 341

/-- The nearest decimal that counts a power of ten and rounds to the number, if its neighbour below
or above does; a tie goes up. -/
def Binary.onGrid? (b : Binary) (exponent : Int) : Option Digits :=
  let (numerator, denominator) := b.ratio exponent
  let below : Digits := ⟨numerator / denominator, exponent⟩
  let above : Digits := ⟨numerator / denominator + 1, exponent⟩
  match b.admits below, b.admits above with
  | true, true =>
    some (if (2 * below.digits + 1) * denominator ≤ 2 * numerator then above else below)
  | true, false => some below
  | false, true => some above
  | false, false => none

/-- The fewest digits that denote a positive number; seventeen are always enough. -/
def Binary.shortest (b : Binary) : Digits :=
  ((List.range 17).findSome? fun (n : Nat) ↦ b.onGrid? (b.leading - n)).getD
    ⟨b.significand, b.exponent⟩

/-! ## Positional notation -/

/-- The digits of a number, with zeros in front up to a width. -/
def paddedDigits (width n : Nat) : List Char :=
  let ds := Nat.toDigits 10 n
  List.replicate (width - ds.length) '0' ++ ds

/-- A decimal without an exponent: no zeros at the end of the fraction, and no point without one. -/
def Digits.positional (d : Digits) : List Char :=
  match d.exponent with
  | .ofNat n => Nat.toDigits 10 d.digits ++ List.replicate n '0'
  | .negSucc n =>
    let ds := paddedDigits (n + 2) d.digits
    let whole := ds.take (ds.length - (n + 1))
    let fraction := ((ds.drop (ds.length - (n + 1))).reverse.dropWhile (· == '0')).reverse
    if fraction.isEmpty then whole else whole ++ '.' :: fraction

/-- The value of the bit that tells the sign of a double. -/
def signBit : Nat := Nat.pow 2 63

/-- The text of a double: positional, with the fewest digits; a zero keeps its sign. -/
def text (x : Float) : String :=
  if x.isNaN then "NaN"
  else
    let bits := x.toBits.toNat
    let size :=
      if x.isInf then "inf"
      else if bits % signBit = 0 then "0"
      else String.ofList (Binary.ofBits x.toBits).shortest.positional
    if signBit ≤ bits then "-" ++ size else size

end SvgWorkbench.Decimal
