import SvgWorkbench.SortedMap
import SvgWorkbench.Text.Split
import SvgWorkbench.Tree.Walk

/-!
# Components

A component is what the editor shows of an element: an id, a type, its attributes, and the
components of the elements inside. The attributes are those of the markup together with entries made
from them: every declaration of the `style` attribute under a key that starts with `style-`, and
under `_text` the text of an element that has no elements inside.
-/

namespace SvgWorkbench

/-- A map from attribute names to values. -/
abbrev Attributes := SortedMap String

/-! ## Components and their projections -/

/-- What a component holds besides its children. -/
structure Entry where
  /-- The id. -/
  id : String
  /-- The type: the tag name in lower case. -/
  kind : String
  /-- The id of the component around, none for the root. -/
  parent : Option String
  /-- The attributes of the markup and those made from them. -/
  attributes : Attributes
  deriving DecidableEq, Repr

/-- An element as the editor shows it. -/
abbrev Component := Tree Entry

/-- An entry without its attributes. -/
structure Heading where
  /-- The id. -/
  id : String
  /-- The type. -/
  kind : String
  /-- The id of the parent. -/
  parent : Option String
  deriving DecidableEq, Repr

/-- A component in a flat list, with its attributes where they were asked for. -/
structure Flat where
  /-- The id, the type and the parent. -/
  heading : Heading
  /-- The attributes, if they were asked for. -/
  attributes : Option Attributes
  deriving DecidableEq, Repr

/-- The heading of an entry. -/
def Entry.heading (e : Entry) : Heading := ⟨e.id, e.kind, e.parent⟩

/-- The key of the text of an element without elements inside. -/
def textKey : String := "_text"

/-- What the keys made from style declarations start with. -/
def styleKeyStart : String := "style-"

/-- What follows the start of a key made from a style declaration. -/
def styleName? (key : String) : Option String :=
  (Text.afterPrefix? styleKeyStart.toList key.toList).map String.ofList

namespace Component

/-- The id of a component. -/
def id (c : Component) : String := c.label.id

/-- The type of a component. -/
def kind (c : Component) : String := c.label.kind

/-- The id of the component around. -/
def parent (c : Component) : Option String := c.label.parent

/-- The attributes of a component. -/
def attributes (c : Component) : Attributes := c.label.attributes

/-- The value of an attribute. -/
def attribute? (c : Component) (key : String) : Option String := c.attributes.get? key

/-! ## Flat lists -/

/-- All components of a forest, parents before what is inside them. -/
def all (forest : List Component) : List Component := Tree.visited forest

/-- One entry for each component, with or without attributes. -/
def flatten (withAttributes : Bool) (forest : List Component) : List Flat :=
  (all forest).map fun c ↦
    ⟨c.label.heading, if withAttributes then some c.label.attributes else none⟩

end Component

/-! ## Copies -/

/-- A clipboard entry: a type and attributes without an id, so that a new id is given when it is
put into a document. The keys made from style declarations are left out, since the `style` attribute
itself is there. -/
structure Copied where
  /-- The type. -/
  kind : String
  /-- The attributes, with the text under its key. -/
  attributes : Attributes
  deriving DecidableEq, Repr

namespace Copied

/-- Whether a copy keeps an attribute of a component. -/
def keeps (key : String) : Bool := key != "id" && (styleName? key).isNone

/-- The copy of a component. -/
def ofComponent (c : Component) : Copied :=
  ⟨c.kind, c.attributes.filter fun key _ ↦ keeps key⟩

/-- The text to put into the element. -/
def text? (c : Copied) : Option String := c.attributes.get? textKey

end Copied

end SvgWorkbench
