/-!
# Arithmetic on many elements at once

A batch edit raises or lowers a number by an amount. Lowering stops at zero, and also gives zero
where the difference is no number. In settings and calls the two operations are the numbers zero and
one.
-/

namespace SvgWorkbench

/-- What a batch edit does to a number. -/
inductive BatchOp where
  /-- Adds the amount. -/
  | increase
  /-- Subtracts the amount, but does not go below zero. -/
  | decrease
  deriving DecidableEq, Repr

namespace BatchOp

/-- The name of an operation. -/
def name : BatchOp → String
  | .increase => "Increase"
  | .decrease => "Decrease"

/-- The number of an operation. -/
def code : BatchOp → Nat
  | .increase => 0
  | .decrease => 1

/-- The operation of a number. -/
def ofCode? : Nat → Option BatchOp
  | 0 => some .increase
  | 1 => some .decrease
  | _ => none

/-- The result of an operation. -/
def apply (op : BatchOp) (current amount : Float) : Float :=
  match op with
  | .increase => current + amount
  | .decrease =>
    let difference := current - amount
    if 0 < difference then difference else 0

theorem ofCode?_code (op : BatchOp) : ofCode? op.code = some op := by cases op <;> rfl

end BatchOp

end SvgWorkbench
