/-!
# Cutting a text at a character

A style attribute is cut at its semicolons and a declaration at its first colon; a generated id is
cut at its last hyphen.
-/

namespace SvgWorkbench.Text

/-- The pieces between the occurrences of a separator; one more than there are occurrences. -/
def splitAll (sep : Char) : List Char → List (List Char)
  | [] => [[]]
  | c :: cs =>
    if c = sep then [] :: splitAll sep cs
    else match splitAll sep cs with
      | [] => [[c]]
      | piece :: pieces => (c :: piece) :: pieces

/-- What stands before and after the first occurrence of a separator. -/
def splitFirst (sep : Char) : List Char → Option (List Char × List Char)
  | [] => none
  | c :: cs =>
    if c = sep then some ([], cs)
    else (splitFirst sep cs).map fun (before, after) ↦ (c :: before, after)

/-- Every way to cut a text at an occurrence of a separator, the last occurrence first. -/
def splits (sep : Char) : List Char → List (List Char × List Char)
  | [] => []
  | c :: cs =>
    let later := (splits sep cs).map fun (before, after) ↦ (c :: before, after)
    if c = sep then later ++ [([], cs)] else later

/-- What stands before and after the last occurrence of a separator. -/
def splitLast (sep : Char) (cs : List Char) : Option (List Char × List Char) :=
  (splits sep cs).head?

/-- What follows a given beginning, if the text has it. -/
def afterPrefix? : List Char → List Char → Option (List Char)
  | [], cs => some cs
  | _ :: _, [] => none
  | p :: ps, c :: cs => if p = c then afterPrefix? ps cs else none

theorem afterPrefix?_eq_some_iff {ps cs rest : List Char} :
    afterPrefix? ps cs = some rest ↔ cs = ps ++ rest := by
  induction ps generalizing cs with
  | nil => simp [afterPrefix?, eq_comm]
  | cons p ps ih =>
    cases cs with
    | nil => simp [afterPrefix?]
    | cons c cs => by_cases h : p = c <;> simp [afterPrefix?, h, ih, eq_comm]

/-- Whether a text begins with another. -/
def startsWith (p cs : List Char) : Bool := (afterPrefix? p cs).isSome

/-- Whether a text occurs in another. -/
def occursIn (p : List Char) : List Char → Bool
  | [] => p.isEmpty
  | c :: cs => startsWith p (c :: cs) || occursIn p cs

end SvgWorkbench.Text
