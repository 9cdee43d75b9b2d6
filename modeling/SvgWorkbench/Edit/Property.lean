import SvgWorkbench.Edit.Basic

/-!
# Setting a property

A property is named by the key of a component's attributes: the text, a declaration of the style, or
an attribute of the markup. An empty value takes a declaration or an attribute away.
-/

namespace SvgWorkbench

namespace Element

/-- Sets a declaration in the style of an element, which loses the attribute when no declaration is
left. -/
def setStyle (e : Element) (name value : String) : Element :=
  let style := (Style.ofText ((e.get? "style").getD "")).set name value
  if style.isEmpty then e.erase "style" else e.set "style" style.text

/-- Sets an attribute or a declaration of the style, whichever a key names. -/
def setProperty (e : Element) (key value : String) : Element :=
  match styleName? key with
  | some name => e.setStyle name value
  | none => if value.isEmpty then e.erase key else e.set key value

end Element

/-- Sets a property of an element: its text, a declaration of its style or an attribute. -/
def Document.setProperty (d : Document) (h : Handle) (key value : String) : Document :=
  if key = textKey then d.setText h value
  else d.modifyElement h fun e ↦ e.setProperty key value

/-- Sets a property of the element an id means. -/
def Edit.setProperty (markup id key value : String) : Except EditError String := do
  let (document, node) ← resolve markup id
  finish (document.setProperty node.handle key value)

end SvgWorkbench
