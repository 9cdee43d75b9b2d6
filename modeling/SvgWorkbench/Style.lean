import SvgWorkbench.Markup.Content
import SvgWorkbench.Text.Blank
import SvgWorkbench.Text.Split

/-!
# Style declarations

A `style` attribute holds declarations, a name and a value each. They keep the order they are
written in; setting one that is there changes it in place. Names and values never have blanks at
their ends and are never empty.
-/

namespace SvgWorkbench

open Text

/-- Declarations in the order they are written. -/
structure Style where
  /-- Names with their values. -/
  entries : List (String × String) := []
  deriving DecidableEq, Repr

namespace Style

/-- The value of a name. -/
def get? (s : Style) (name : String) : Option String :=
  (s.entries.find? (·.1 == name)).map (·.2)

/-- Removes the declaration of a name. -/
def erase (s : Style) (name : String) : Style := ⟨Element.eraseEntry name s.entries⟩

/-- Sets a declaration in place, or adds it at the end. An empty name is ignored, and an empty value
removes the declaration. -/
def set (s : Style) (name value : String) : Style :=
  if (trim name).isEmpty then s
  else if (trim value).isEmpty then s.erase (trim name)
  else ⟨Element.setEntry (trim name) (trim value) s.entries⟩

/-- The name and the value of a piece between semicolons, if it has a colon and both are there. -/
def declaration? (piece : List Char) : Option (String × String) :=
  (splitFirst ':' piece).bind fun (name, value) ↦
    if (trimChars name).isEmpty || (trimChars value).isEmpty then none
    else some (String.ofList (trimChars name), String.ofList (trimChars value))

/-- The declarations of a text; pieces that are none are skipped, and of several with one name the
last value stands at the first place. -/
def ofText (text : String) : Style :=
  ((splitAll ';' text.toList).filterMap declaration?).foldl (fun s d ↦ s.set d.1 d.2) {}

/-- A declaration as it is written. -/
def declarationText (d : String × String) : String := d.1 ++ ": " ++ d.2

/-- The text of some declarations. -/
def text (s : Style) : String := "; ".intercalate (s.entries.map declarationText)

/-- Whether there are no declarations. -/
def isEmpty (s : Style) : Bool := s.entries.isEmpty

end Style

end SvgWorkbench
