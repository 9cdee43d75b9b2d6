/-!
# Equality up to ASCII letter case

Element types are compared without regard to the case of the twenty-six ASCII letters. Every other
character, accented letters included, has to be the same.
-/

namespace SvgWorkbench.Text

/-- A character with the letters `A` to `Z` lowered. -/
def asciiLower (c : Char) : Char :=
  if 'A' ≤ c ∧ c ≤ 'Z' then Char.ofNat (c.toNat + 32) else c

/-- Whether two texts agree up to the case of ASCII letters. -/
def eqIgnoringAsciiCase (s t : String) : Bool :=
  s.toList.map asciiLower == t.toList.map asciiLower

end SvgWorkbench.Text
