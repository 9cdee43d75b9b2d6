/-!
# Character ranges

The tables of character properties list the first and the last number of each range.
-/

namespace SvgWorkbench.Text.Table

/-- The first and the last code point of a run of characters. -/
abbrev Range := Nat × Nat

/-- Whether a character lies in one of the ranges of a table. -/
def holds (table : List Range) (c : Char) : Bool :=
  table.any fun (first, last) ↦ first ≤ c.toNat && c.toNat ≤ last

end SvgWorkbench.Text.Table
