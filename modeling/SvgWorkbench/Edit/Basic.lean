import SvgWorkbench.Component.Lookup
import SvgWorkbench.Drawing

/-!
# Edits

An edit takes the text of a drawing to the text of another. It reads the drawing, finds the element
an id means, changes the document and writes it; the result counts only if it can be read again. So
an edit that succeeds gives a drawing, and one that fails gives a reason. Callers that want no
reason keep the text they had.
-/

namespace SvgWorkbench

/-! ## Failures -/

/-- Why an edit changes nothing. -/
inductive EditError where
  /-- The text to edit is no drawing. -/
  | unreadable (cause : ParseError)
  /-- No element is meant by the id. -/
  | unresolved (id : String)
  /-- The edit needs a parent, and the element has none. -/
  | isRoot (id : String)
  /-- What the edit makes cannot be read again. -/
  | badResult (cause : ParseError)
  deriving DecidableEq, Repr

namespace EditError

/-- The wording of a failure. -/
def message : EditError → String
  | .unreadable cause => cause.message
  | .unresolved id => String.join ["no element resolves from id '", id, "'"]
  | .isRoot id => String.join ["element '", id, "' is the document root"]
  | .badResult cause => String.join ["edit would produce invalid markup: ", cause.message]

/-- Whether a failure is only an element that is not there, which is no fault of the edit. -/
def isMiss : EditError → Bool
  | .unresolved _ => true
  | _ => false

end EditError

/-! ## Elements by id -/

/-- The element an id means. -/
def Drawing.locate? (d : Drawing) (id : String) : Option Node :=
  (Component.find? d.components id).bind fun c ↦ d.document.find? c.id

namespace Edit

/-- Reads a drawing to be edited. -/
def load (markup : String) : Except EditError Drawing :=
  (Drawing.parse markup).mapError .unreadable

/-- Reads a drawing and finds the element an id means. -/
def resolve (markup id : String) : Except EditError (Document × Node) := do
  let drawing ← load markup
  match drawing.locate? id with
  | some node => return (drawing.document, node)
  | none => throw (.unresolved id)

/-- The text of an edited document, if it can be read again. -/
def finish (d : Document) : Except EditError String :=
  match Drawing.parse d.text with
  | .ok _ => .ok d.text
  | .error cause => .error (.badResult cause)

/-! ## Edits without reasons -/

/-- The result of an edit of a text, or the text itself. -/
def orKeep (markup : String) (result : Except EditError String) : String :=
  match result with
  | .ok edited => edited
  | .error _ => markup

/-- Makes an edit for one item after another. One that fails leaves the others as they are. -/
def forEach {α : Type} (edit : String → α → Except EditError String) (markup : String)
    (items : List α) : String :=
  items.foldl (fun current item ↦ orKeep current (edit current item)) markup

end Edit

end SvgWorkbench
