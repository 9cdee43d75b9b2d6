import SvgWorkbench.Text.AsciiCase
import SvgWorkbench.Text.Table.CaseContext
import SvgWorkbench.Text.Table.LowerCase

/-!
# Lower-casing

The type of an element is its tag name in lower case, by Unicode's full mapping: one character maps
to one, with two exceptions. A capital `I` with a dot above becomes an `i` followed by a combining
dot, and a capital sigma takes its final form at the end of a word.
-/

namespace SvgWorkbench.Text

/-! ## One character -/

/-- The lower-case form of a character under the simple mapping. -/
def lowerChar (c : Char) : Char :=
  if c.toNat < 0x80 then asciiLower c
  else
    let holding := Table.lowerCaseRuns.find? fun (first, last, step, _) ↦
      first ≤ c.toNat && c.toNat ≤ last && (c.toNat - first) % step == 0
    match holding with
    | some (_, _, _, shift) => Char.ofNat (c.toNat + shift).toNat
    | none => c

/-! ## Sigma at the end of a word -/

/-- Whether the first character that is not case-ignorable is a cased one. -/
def continuesWord (cs : List Char) : Bool :=
  match cs.dropWhile (Table.holds Table.caseIgnorable) with
  | [] => false
  | c :: _ => Table.holds Table.cased c

/-- The lower-case sigma for what stands before it, nearest character first, and after it. -/
def lowerSigma (before after : List Char) : Char :=
  if continuesWord before && !continuesWord after then 'ς' else 'σ'

/-! ## Whole texts -/

/-- Lower-cases the characters that follow `before`, which is held nearest character first. -/
def lowerAfter (before : List Char) : List Char → List Char
  | [] => []
  | c :: rest =>
    let lowered :=
      if c = 'Σ' then [lowerSigma before rest]
      else if c = 'İ' then ['i', '\u0307']
      else [lowerChar c]
    lowered ++ lowerAfter (c :: before) rest

/-- A text in lower case. -/
def lower (s : String) : String := String.ofList (lowerAfter [] s.toList)

end SvgWorkbench.Text
