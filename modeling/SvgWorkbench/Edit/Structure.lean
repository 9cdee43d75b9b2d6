import SvgWorkbench.Config.Basic
import SvgWorkbench.Edit.Basic
import SvgWorkbench.Quantity
import SvgWorkbench.TagName

/-!
# Adding, moving and removing elements

Added elements get no id here. They are given one when the drawing is read the next time, like any
other element without one.
-/

namespace SvgWorkbench

/-! ## Copies -/

namespace Copied

/-- The copy of an element: its attributes without the id and, if it has no elements inside, its
text. -/
def ofNode (n : Node) : Copied :=
  match n.element? with
  | none => ⟨"", .empty⟩
  | some e =>
    ⟨e.kind, Drawing.withText n (SortedMap.ofList (e.attributes.filter (·.1 != "id")))⟩

/-- The element a copy makes. Keys that are no attributes of the markup are left out. -/
def element (c : Copied) : Element :=
  ⟨TagName.ofKind c.kind, c.attributes.entries.filter fun e ↦ e.1 != textKey && keeps e.1⟩

/-- Adds an offset to an attribute that is a number. -/
def shift (offset : Float) (c : Copied) (name : String) : Copied :=
  match (c.attributes.get? name).bind Quantity.read? with
  | some x => { c with attributes := c.attributes.insert name (Quantity.text (x + offset)) }
  | none => c

end Copied

namespace Document

/-- Puts a copy at the end of an element. -/
def insertCopy (d : Document) (parent : Handle) (c : Copied) : Document :=
  let added := d.append (some parent) (.element c.element)
  match c.text? with
  | some text => added.append (some d.next) (.text text)
  | none => added

/-- The parent of an element other than the root. -/
def parentBelowRoot? (d : Document) (n : Node) : Option Node :=
  if d.root?.any fun root ↦ root.handle == n.handle then none else d.parent? n.handle

end Document

/-! ## Edits -/

namespace Edit

/-- Reads a drawing and finds the element an id means, which may not be the root, and its parent. -/
def resolveChild (markup id : String) : Except EditError (Document × Node × Node) := do
  let (document, node) ← resolve markup id
  match document.parentBelowRoot? node with
  | some parent => return (document, node, parent)
  | none => throw (.isRoot id)

/-- Adds a moved copy of an element at the end of its parent. -/
def duplicate (config : Config) (markup id : String) : Except EditError String := do
  let (document, node, parent) ← resolveChild markup id
  let copy := config.offsetAttributes.foldl (Copied.shift config.duplicateOffset) (.ofNode node)
  finish (document.insertCopy parent.handle copy)

/-- Exchanges an element with its neighbour in a direction. At the end of its parent the text stays
as it is. -/
def reorder (direction : Direction) (markup id : String) : Except EditError String := do
  let (document, node, _) ← resolveChild markup id
  match document.swap? node.handle direction with
  | some swapped => finish swapped
  | none => return markup

/-- Removes an element with everything inside. -/
def remove (markup id : String) : Except EditError String := do
  let (document, node, _) ← resolveChild markup id
  finish (document.detach node.handle)

/-- Adds a copy at the end of the element an id means, or of the root. -/
def paste (parent : Option String) (markup : String) (copy : Copied) : Except EditError String := do
  match parent with
  | some id =>
    let (document, node) ← resolve markup id
    finish (document.insertCopy node.handle copy)
  | none =>
    let drawing ← load markup
    match drawing.document.root? with
    | some root => finish (drawing.document.insertCopy root.handle copy)
    | none => throw (.unresolved "svg")

/-- The copy of the element an id means. -/
def copy? (markup id : String) : Option Copied :=
  match resolve markup id with
  | .ok (_, node) => some (.ofNode node)
  | .error _ => none

end Edit

end SvgWorkbench
