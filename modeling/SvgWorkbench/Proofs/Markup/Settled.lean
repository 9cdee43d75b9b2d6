import SvgWorkbench.Proofs.Markup.Cut

/-!
# Settled markup

Written one after another, two texts cannot be told apart from one, and an empty text cannot be seen
at all. Reading therefore gives back *settled* markup: neighbouring texts are one text, empty texts
are gone, and only elements have children.

Which markup can be written and read again is a property of each node: elements need names of XML
and distinct keys, the other nodes what the reader itself finds in them. Document types are read at
the top level only.
-/

namespace SvgWorkbench

/-! ## Settling -/

namespace Content

/-- The text, if the content is one. -/
def text? : Content → Option String
  | .text s => some s
  | _ => none

/-- The content with the tabs and line breaks of attribute values turned into spaces. -/
def spaced : Content → Content
  | .element e => .element e.spaced
  | c => c

@[simp] theorem spaced_element (e : Element) : (element e).spaced = element e.spaced := rfl

@[simp] theorem spaced_text (s : String) : (text s).spaced = text s := rfl

theorem eq_text_of_text? {c : Content} {s : String} (h : c.text? = some s) : c = text s := by
  cases c <;> simp [text?] at h
  rw [h]

@[simp] theorem text?_spaced (c : Content) : c.spaced.text? = c.text? := by cases c <;> rfl

end Content

namespace Markup

/-- A text as nodes: none if it is empty. -/
def textNodes (s : String) : List (Tree Content) :=
  if s.isEmpty then [] else [.node (.text s) []]

mutual

/-- A node with its children settled; only elements have any. -/
def settled : Tree Content → Tree Content
  | .node (.element e) ts => .node (.element e) (settledAll "" ts)
  | .node c _ => .node c []

/-- A forest, with a text before it, with neighbouring texts made one and empty texts dropped. -/
def settledAll (before : String) : List (Tree Content) → List (Tree Content)
  | [] => textNodes before
  | t :: ts =>
    match t.label.text? with
    | some s => settledAll (before ++ s) ts
    | none => textNodes before ++ settled t :: settledAll "" ts

end

theorem settledAll_nil (before : String) : settledAll before [] = textNodes before := by
  rw [settledAll]

theorem settledAll_text (before s : String) (us ts : List (Tree Content)) :
    settledAll before (.node (.text s) us :: ts) = settledAll (before ++ s) ts := by
  rw [settledAll]
  rfl

theorem settledAll_cons {c : Content} (h : c.text? = none) (before : String)
    (us ts : List (Tree Content)) :
    settledAll before (.node c us :: ts)
      = textNodes before ++ settled (.node c us) :: settledAll "" ts := by
  rw [settledAll, Tree.label_node, h]

theorem settledAll_spaced_text (before s : String) (us ts : List (Tree Content)) :
    settledAll before (Tree.mapAll Content.spaced (.node (.text s) us :: ts))
      = settledAll (before ++ s) (Tree.mapAll Content.spaced ts) := by
  rw [Tree.mapAll, Tree.map, Content.spaced_text, settledAll_text]

/-- Writing spaces for tabs and line breaks makes no text of what is none. -/
theorem settledAll_spaced_cons {c : Content} (h : c.text? = none) (before : String)
    (us ts : List (Tree Content)) :
    settledAll before (Tree.mapAll Content.spaced (.node c us :: ts))
      = textNodes before ++ settled ((Tree.node c us).map Content.spaced) ::
        settledAll "" (Tree.mapAll Content.spaced ts) := by
  have hspaced : c.spaced.text? = none := by rw [Content.text?_spaced, h]
  rw [Tree.mapAll, Tree.map, settledAll_cons hspaced]

/-! ## What can be written and read again -/

mutual

/-- Whether a node is read again as it is written; `top` tells whether it stands at the top level. -/
def IsWritable (top : Bool) : Tree Content → Prop
  | .node (.element e) ts => e.IsLegal ∧ AreWritable false ts
  | .node (.text _) _ => True
  | .node (.comment s) _ => IsComment s.toList
  | .node (.instruction s) _ => IsInstruction s.toList
  | .node (.doctype s) _ => top = true ∧ IsDoctype s.toList

/-- Whether every node of a forest is read again as it is written. -/
def AreWritable (top : Bool) : List (Tree Content) → Prop
  | [] => True
  | t :: ts => IsWritable top t ∧ AreWritable top ts

end

theorem areWritable_append {top : Bool} {ts us : List (Tree Content)} :
    AreWritable top (ts ++ us) ↔ AreWritable top ts ∧ AreWritable top us := by
  induction ts with
  | nil => simp only [List.nil_append, AreWritable, true_and]
  | cons t ts ih => rw [List.cons_append, AreWritable, AreWritable, ih, and_assoc]

end Markup

end SvgWorkbench
