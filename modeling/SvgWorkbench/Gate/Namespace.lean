import SvgWorkbench.Gate.Reference
import SvgWorkbench.Gate.Tag

/-!
# Namespaces

Attributes that declare namespaces are told apart from the others while a start tag is read. Where a
tag ends, the prefixes of the other attributes and of the element itself have to be declared, and no
two attributes may have the same expanded name. The prefix `xml` needs no declaration on attributes
and cannot be declared for elements.
-/

namespace SvgWorkbench.Gate

open Xml

/-! ## Declarations -/

/-- A prefix together with the namespace it is declared for. -/
structure Binding where
  /-- The prefix. -/
  space : List Char
  /-- The namespace. -/
  uri : List Char
  deriving DecidableEq, Repr

/-- The attributes that have been read since a tag ended. -/
structure Sorted where
  /-- The prefixes they declare. -/
  declared : List Binding := []
  /-- The other attributes and their places, in order. -/
  plain : List (QName × Nat) := []

/-- Adds an attribute with its value; a declaration has to respect the two reserved namespaces. The
right declaration of `xml` binds nothing. -/
def Sorted.add (tag : Sorted) (q : QName) (value : List Char) (place : Nat) :
    Except Fault Sorted :=
  if q.space = Mark.xmlns then
    if value = Mark.xmlnsNamespace then .error ⟨.reservedNamespace, place⟩
    else if q.base = Mark.xml ∧ value ≠ Mark.xmlNamespace then .error ⟨.wrongXmlNamespace, place⟩
    else if q.base ≠ Mark.xml ∧ value = Mark.xmlNamespace then
      .error ⟨.xmlNamespaceElsewhere, place⟩
    else if tag.declared.any (·.space == q.base) then
      .error ⟨.repeatedNamespace (String.ofList q.base), place⟩
    else if q.base = Mark.xml then .ok tag
    else .ok { tag with declared := tag.declared ++ [⟨q.base, value⟩] }
  else if q.base = Mark.xmlns then
    if value = Mark.xmlNamespace then .error ⟨.xmlNamespaceElsewhere, place⟩
    else if value = Mark.xmlnsNamespace then .error ⟨.reservedNamespace, place⟩
    else .ok tag
  else .ok { tag with plain := tag.plain ++ [(q, place)] }

/-! ## Expanded names -/

/-- The namespace a prefix is declared for in a scope, where inner declarations stand first. -/
def namespaceOf? (scope : List Binding) (space : List Char) : Option (List Char) :=
  (scope.find? (·.space == space)).map (·.uri)

/-- The namespace of an attribute; one without a prefix has none. -/
def attributeNamespace (scope : List Binding) (q : QName) (place : Nat) :
    Except Fault (Option (List Char)) :=
  if q.space = Mark.xml then .ok (some Mark.xmlNamespace)
  else if q.space.isEmpty then .ok none
  else match namespaceOf? scope q.space with
    | some uri => .ok (some uri)
    | none => .error ⟨.unknownPrefix (String.ofList q.space), place⟩

/-- Checks that the attributes have declared prefixes and different expanded names. -/
def checkNames (scope : List Binding) (seen : List (Option (List Char) × List Char)) :
    List (QName × Nat) → Except Fault Unit
  | [] => .ok ()
  | (q, place) :: rest =>
    match attributeNamespace scope q place with
    | .error fault => .error fault
    | .ok uri =>
      if seen.contains (uri, q.base) then
        .error ⟨.repeatedAttribute (String.ofList q.base), place⟩
      else checkNames scope ((uri, q.base) :: seen) rest

/-- Checks the prefix of an element. -/
def checkElement (scope : List Binding) (q : QName) (place : Nat) : Except Fault Unit :=
  if q.space.isEmpty || (namespaceOf? scope q.space).isSome then .ok ()
  else .error ⟨.unknownPrefix (String.ofList q.space), place⟩

/-! ## Whole tags -/

/-- Reads the meaning of the attributes of a tag that is followed by `after` characters and adds
them to `tag`; `references` counts what their values refer to. -/
def sortAttributes (entities : List Entity) (depth : Nat) (nested : Bool) (after : Nat)
    (tag : Sorted) (references : Nat) : List Attribute → Except Fault (Sorted × Nat)
  | [] => .ok (tag, references)
  | a :: rest => do
    let (value, references) ← valueText entities (expandValue entities depth) nested
      (a.valueEnd + after) references a.value
    let tag ← tag.add a.qname value (a.start + after)
    sortAttributes entities depth nested after tag references rest

/-- The namespace scope where a tag ends, provided the attributes gathered before are in order. -/
def Sorted.resolve (tag : Sorted) (outer : List Binding) : Except Fault (List Binding) := do
  let scope := tag.declared ++ outer
  checkNames scope [] tag.plain
  return scope

/-- The namespace scope inside an element whose start tag has been read. -/
def closeScope (outer : List Binding) (tag : Sorted) (q : QName) (place : Nat) :
    Except Fault (List Binding) := do
  let scope ← tag.resolve outer
  checkElement scope q place
  return scope

end SvgWorkbench.Gate
