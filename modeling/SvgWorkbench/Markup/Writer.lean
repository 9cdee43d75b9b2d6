import SvgWorkbench.Markup.Content
import SvgWorkbench.Xml.Mark

/-!
# Writing markup

Attribute values and text are escaped, everything else is written as it is kept. An element without
children closes itself.
-/

namespace SvgWorkbench.Markup

open Xml

/-! ## Escapes -/

/-- A character as it stands in text and attribute values. -/
def escapeChar : Char → List Char
  | '<' => ['&', 'l', 't', ';']
  | '>' => ['&', 'g', 't', ';']
  | '&' => ['&', 'a', 'm', 'p', ';']
  | '\x27' => ['&', 'a', 'p', 'o', 's', ';']
  | '"' => ['&', 'q', 'u', 'o', 't', ';']
  | c => [c]

/-- A text as it stands in markup. -/
def escape (cs : List Char) : List Char := cs.flatMap escapeChar

/-! ## Tags -/

/-- An attribute with the space before it. -/
def writeAttribute (a : String × String) : List Char :=
  ' ' :: a.1.toList ++ ['=', '"'] ++ escape a.2.toList ++ ['"']

/-- A tag without its brackets. -/
def writeTag (e : Element) : List Char := e.name.toList ++ e.attributes.flatMap writeAttribute

/-! ## Nodes -/

mutual

/-- A node with everything below it. -/
def writeNode : Tree Content → List Char
  | .node (.element e) [] => '<' :: writeTag e ++ ['/', '>']
  | .node (.element e) (t :: ts) =>
    '<' :: writeTag e ++ ['>'] ++ (writeNode t ++ writeNodes ts) ++
      Mark.closeTag ++ e.name.toList ++ ['>']
  | .node (.text s) _ => escape s.toList
  | .node (.comment s) _ => Mark.openComment ++ s.toList ++ Mark.closeComment
  | .node (.instruction s) _ => Mark.openInstruction ++ s.toList ++ Mark.closeInstruction
  | .node (.doctype s) _ => Mark.doctype ++ ' ' :: s.toList ++ ['>']

/-- Nodes one after another. -/
def writeNodes : List (Tree Content) → List Char
  | [] => []
  | t :: ts => writeNode t ++ writeNodes ts

end

/-! ## Writing in one pass

Appending the text of every element to that of its neighbours copies it once for each element around
it. Writing in front of what follows copies nothing. -/

mutual

/-- A node with everything below it, in front of a text. -/
def writeNodeOnto (after : List Char) : Tree Content → List Char
  | .node (.element e) [] => '<' :: writeTag e ++ ('/' :: '>' :: after)
  | .node (.element e) (t :: ts) =>
    '<' :: writeTag e ++ '>' :: writeNodeOnto
      (writeNodesOnto (Mark.closeTag ++ (e.name.toList ++ '>' :: after)) ts) t
  | .node (.text s) _ => escape s.toList ++ after
  | .node (.comment s) _ =>
    Mark.openComment ++ (s.toList ++ (Mark.closeComment ++ after))
  | .node (.instruction s) _ =>
    Mark.openInstruction ++ (s.toList ++ (Mark.closeInstruction ++ after))
  | .node (.doctype s) _ => Mark.doctype ++ ' ' :: (s.toList ++ '>' :: after)

/-- Nodes one after another, in front of a text. -/
def writeNodesOnto (after : List Char) : List (Tree Content) → List Char
  | [] => after
  | t :: ts => writeNodeOnto (writeNodesOnto after ts) t

end

mutual

theorem writeNodeOnto_eq (after : List Char) (t : Tree Content) :
    writeNodeOnto after t = writeNode t ++ after := by
  match t with
  | .node (.element e) [] =>
    simp only [writeNodeOnto, writeNode, List.append_assoc, List.cons_append, List.nil_append]
  | .node (.element e) (t :: ts) =>
    simp only [writeNodeOnto, writeNode, writeNodeOnto_eq _ t, writeNodesOnto_eq _ ts,
      List.append_assoc, List.cons_append, List.nil_append]
  | .node (.text s) ts => rw [writeNodeOnto, writeNode]
  | .node (.comment s) ts =>
    simp only [writeNodeOnto, writeNode, List.append_assoc]
  | .node (.instruction s) ts =>
    simp only [writeNodeOnto, writeNode, List.append_assoc]
  | .node (.doctype s) ts =>
    simp only [writeNodeOnto, writeNode, List.append_assoc, List.cons_append, List.nil_append]

theorem writeNodesOnto_eq (after : List Char) (ts : List (Tree Content)) :
    writeNodesOnto after ts = writeNodes ts ++ after := by
  match ts with
  | [] => rw [writeNodesOnto, writeNodes, List.nil_append]
  | t :: ts =>
    rw [writeNodesOnto, writeNodes, writeNodeOnto_eq _ t, writeNodesOnto_eq _ ts,
      List.append_assoc]

end

/-! ## Whole documents -/

/-- The text of a document. -/
def write (m : Markup) : String := String.ofList (writeNodesOnto [] m)

theorem write_eq (m : Markup) : write m = String.ofList (writeNodes m) := by
  rw [write, writeNodesOnto_eq, List.append_nil]

end SvgWorkbench.Markup
