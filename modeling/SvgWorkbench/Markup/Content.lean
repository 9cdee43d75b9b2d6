import SvgWorkbench.Text.LowerCase
import SvgWorkbench.Tree

/-!
# What a document is made of

Markup is a forest of elements, runs of text, comments, instructions and document types. Elements
keep their tag name and the order of their attributes as they are written; only elements have
children that mean anything.
-/

namespace SvgWorkbench

/-! ## Elements -/

/-- A tag name with attributes in the order they are written. -/
structure Element where
  /-- The tag name as it is written. -/
  name : String
  /-- The attributes; a name may occur more than once only in documents built by hand. -/
  attributes : List (String × String) := []
  deriving DecidableEq, Repr

namespace Element

/-- The tag name in lower case. -/
def kind (e : Element) : String := Text.lower e.name

/-- The value of the first attribute of a name. -/
def get? (e : Element) (key : String) : Option String :=
  (e.attributes.find? (·.1 == key)).map (·.2)

/-- The `id` attribute, unless it is empty. -/
def id? (e : Element) : Option String := (e.get? "id").filter (!·.isEmpty)

/-- Replaces the first entry of a key, or adds an entry at the end. -/
def setEntry (key value : String) : List (String × String) → List (String × String)
  | [] => [(key, value)]
  | (k, v) :: rest => if k = key then (k, value) :: rest else (k, v) :: setEntry key value rest

/-- Removes the first entry of a key. -/
def eraseEntry (key : String) (entries : List (String × String)) : List (String × String) :=
  entries.eraseP (·.1 == key)

/-- Sets an attribute where it stands, or adds it at the end. -/
def set (e : Element) (key value : String) : Element :=
  { e with attributes := setEntry key value e.attributes }

/-- Removes the first attribute of a name. -/
def erase (e : Element) (key : String) : Element :=
  { e with attributes := eraseEntry key e.attributes }

end Element

/-! ## Content -/

/-- What a node of a document holds. -/
inductive Content where
  /-- An element. -/
  | element (e : Element)
  /-- Character data with its references resolved; CDATA sections are data like any other. -/
  | text (s : String)
  /-- The text of a comment. -/
  | comment (s : String)
  /-- What stands between the question marks of an instruction or declaration. -/
  | instruction (s : String)
  /-- What follows the word of a document type declaration. -/
  | doctype (s : String)
  deriving DecidableEq, Repr

namespace Content

/-- The element, if the content is one. -/
def element? : Content → Option Element
  | .element e => some e
  | _ => none

/-- Whether the content is an element. -/
def isElement (c : Content) : Bool := c.element?.isSome

/-- Content is an element or not. -/
theorem eq_element_or (c : Content) : (∃ e, c = .element e) ∨ c.isElement = false := by
  cases c <;> simp [isElement, element?]

end Content

/-- The parts of a document at its top level. -/
abbrev Markup := List (Tree Content)

end SvgWorkbench
