import SvgWorkbench.Config.Basic
import SvgWorkbench.Edit.Basic

/-!
# Highlighting

The preview shows selected elements, and the one the pointer is on, with an outline in their style.
The text with the outlines is only shown and never kept.
-/

namespace SvgWorkbench

/-- Gives an element an outline. -/
def Element.setOutline (outline offset : String) (e : Element) : Element :=
  let style := Style.ofText ((e.get? "style").getD "")
  e.set "style" ((style.set "outline" outline).set "outline-offset" offset).text

namespace Edit

/-- Gives some nodes an outline. -/
def outlineAll (outline offset : String) (d : Document) (nodes : List Node) : Document :=
  nodes.foldl (fun d n ↦ d.modifyElement n.handle (Element.setOutline outline offset)) d

/-- Outlines the selected elements and the one the pointer is on. Ids that mean nothing are skipped,
and an element that is both has the outline of selected ones. -/
def highlight (style : HighlightStyle) (markup : String) (selected : List String)
    (hovered : Option String) : Except EditError String := do
  let drawing ← load markup
  let chosen := selected.filterMap drawing.locate?
  let pointed := (hovered.bind drawing.locate?).filter fun n ↦
    chosen.all fun (m : Node) ↦ m.handle != n.handle
  let document := outlineAll style.selectedOutline style.outlineOffset drawing.document chosen
  finish (outlineAll style.hoveredOutline style.outlineOffset document pointed.toList)

/-- The text the preview shows. Without anything to outline it is the text itself. -/
def preview (style : HighlightStyle) (markup : String) (selected : List String)
    (hovered : Option String) : String :=
  if selected.isEmpty && hovered.isNone then markup
  else orKeep markup (highlight style markup selected hovered)

end Edit

end SvgWorkbench
