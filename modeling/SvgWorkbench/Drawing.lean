import SvgWorkbench.Component.Basic
import SvgWorkbench.Document.Basic
import SvgWorkbench.Gate.Check
import SvgWorkbench.Markup.Reader
import SvgWorkbench.Markup.Writer
import SvgWorkbench.Naming
import SvgWorkbench.Style

/-!
# Drawings

A drawing is a document in which every element under the root has an id, together with the
components of these elements. Reading a drawing goes through the strict check first; ids that are
missing are then given out in document order, and written into the document.
-/

namespace SvgWorkbench

/-! ## Errors -/

/-- Why a text is no drawing. -/
inductive ParseError where
  /-- The strict check refuses it. -/
  | malformed (refusal : Gate.Refusal)
  /-- The reader cannot take it apart. -/
  | unreadable (fault : Markup.Fault)
  deriving DecidableEq, Repr

/-- The message of the strict check. -/
def Gate.Refusal.syntaxMessage (r : Gate.Refusal) : String :=
  String.join ["Invalid SVG syntax: ", r.message]

/-- The wording of an error. -/
def ParseError.message : ParseError → String
  | .malformed refusal => refusal.syntaxMessage
  | .unreadable fault => String.join ["SVG parse error: ", fault.message]

/-! ## Documents and their texts -/

namespace Document

/-- Reads a document without the strict check. -/
def read (markup : String) : Except Markup.Fault Document := (Markup.read markup).map ofMarkup

/-- The text of a document. -/
def text (d : Document) : String := Markup.write d.markup

end Document

/-! ## Components of elements -/

namespace Drawing

/-- Adds the style declarations of an element to its attributes. -/
def withStyle (e : Element) (attributes : Attributes) : Attributes :=
  match e.get? "style" with
  | none => attributes
  | some style => (Style.ofText style).entries.foldl
      (fun m d ↦ m.insert (styleKeyStart ++ d.1) d.2) attributes

/-- Adds the text of an element without elements inside, unless it is blank. -/
def withText (n : Node) (attributes : Attributes) : Attributes :=
  if !n.childElements.isEmpty then attributes
  else
    let text := Text.trim n.textContent
    if text.isEmpty then attributes else attributes.insert textKey text

/-- The attributes of the component of an element. -/
def attributesOf (e : Element) (n : Node) : Attributes :=
  withText n (withStyle e (SortedMap.ofList e.attributes))

/-! ## Giving out ids -/

/-- The id of an element, and the element with that id: its own if it has one, a new one else. -/
def identify (e : Element) (scope : Option String) (naming : Naming) : String × Element × Naming :=
  match e.id? with
  | some id => (id, e, naming.skip e.kind scope)
  | none =>
    let (id, naming) := naming.allocate e.kind scope
    (id, e.set "id" id, naming)

mutual

/-- The component of an element and of the elements inside, the node with their ids written into it,
and the naming afterwards. A node that is no element gives no component. The root and its children
are named without a scope, deeper elements in the scope of the element around. -/
def name (parent scope : Option String) (naming : Naming) :
    Node → List Component × Node × Naming
  | .node s ts =>
    match s.content with
    | .element e =>
      let (id, e, naming) := identify e scope naming
      let (children, ts', naming) := nameAll (some id) (parent.map fun _ ↦ id) naming ts
      let entry : Entry := ⟨id, e.kind, parent, attributesOf e (.node s ts)⟩
      ([.node entry children], .node ⟨s.handle, .element e⟩ ts', naming)
    | _ => ([], .node s ts, naming)

/-- The components of the elements among some siblings. -/
def nameAll (parent scope : Option String) (naming : Naming) :
    List Node → List Component × List Node × Naming
  | [] => ([], [], naming)
  | t :: ts =>
    let (cs, t, naming) := name parent scope naming t
    let (ds, ts, naming) := nameAll parent scope naming ts
    (cs ++ ds, t :: ts, naming)

end

end Drawing

/-! ## Drawings -/

/-- A document with an id on every element under the root, and the components of these. -/
structure Drawing where
  /-- The document. -/
  document : Document
  /-- The component of the root, or nothing if there is no root. -/
  components : List Component
  deriving DecidableEq, Repr

namespace Drawing

/-- The drawing of a document. -/
def ofDocument (d : Document) : Drawing :=
  match d.root? with
  | none => ⟨d, []⟩
  | some root =>
    let (components, named, _) := name none none (Naming.ofIds d.ids) root
    ⟨d.modify root.handle fun _ ↦ named, components⟩

/-- Reads a drawing. -/
def parse (markup : String) : Except ParseError Drawing :=
  match Gate.check markup with
  | .error refusal => .error (.malformed refusal)
  | .ok _ =>
    match Document.read markup with
    | .error fault => .error (.unreadable fault)
    | .ok d => .ok (ofDocument d)

/-- The text of a drawing. -/
def text (d : Drawing) : String := d.document.text

/-- The components of a text. -/
def componentsOf (markup : String) : Except ParseError (List Component) :=
  (parse markup).map (·.components)

/-- The text with every missing id filled in. -/
def serialize (markup : String) : Except ParseError String := (parse markup).map text

end Drawing

end SvgWorkbench
