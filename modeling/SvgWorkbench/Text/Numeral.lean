/-!
# Numerals

Reading a run of digits in a given radix. Digits beyond nine are the ASCII letters in either case.
-/

namespace SvgWorkbench.Text

/-- The value of a digit in radix sixteen, and so in any smaller one. -/
def digitValue? (c : Char) : Option Nat :=
  if '0' ≤ c ∧ c ≤ '9' then some (c.toNat - '0'.toNat)
  else if 'a' ≤ c ∧ c ≤ 'f' then some (c.toNat - 'a'.toNat + 10)
  else if 'A' ≤ c ∧ c ≤ 'F' then some (c.toNat - 'A'.toNat + 10)
  else none

/-- Whether a character is a digit in the radix. -/
def isDigit (radix : Nat) (c : Char) : Bool :=
  match digitValue? c with
  | some d => d < radix
  | none => false

/-- The number a run of digits denotes; characters that are no digits count for nothing. -/
def numeral (radix : Nat) (cs : List Char) : Nat :=
  cs.foldl (fun n c ↦ n * radix + (digitValue? c).getD 0) 0

/-- The number a text denotes if it is a nonempty run of digits. -/
def numeral? (radix : Nat) (cs : List Char) : Option Nat :=
  if cs.isEmpty || !cs.all (isDigit radix) then none else some (numeral radix cs)

end SvgWorkbench.Text
