import SvgWorkbench.Text.Numeral
import SvgWorkbench.Text.Split

/-!
# Generated ids

An element without an id is named after its type and its place among the elements of that type:
`rect-0`, `rect-1` and so on below the root, and `layer-rect-0` inside the element `layer`. Elements
with an id of their own count as well, so the number in a generated name is the element's place
unless a name was taken.

The other direction reads an id as such a name. Since types may contain hyphens, an id can be read
in several ways; they are listed with the longest group first.
-/

namespace SvgWorkbench

open Text

/-! ## Writing names -/

/-- The generated name of the `ordinal`-th element of a type in a scope. -/
def formatId (kind : String) (scope : Option String) (ordinal : Nat) : String :=
  match scope with
  | some group => group ++ "-" ++ kind ++ "-" ++ toString ordinal
  | none => kind ++ "-" ++ toString ordinal

/-- The names that are taken, and how many elements of a type have been met in a scope. -/
structure Naming where
  /-- The ids of the document and all names given out. -/
  reserved : List String := []
  /-- How many elements of a type have been met in a scope; latest counts first. -/
  counters : List ((Option String × String) × Nat) := []
  deriving DecidableEq, Repr

namespace Naming

/-- A naming that gives out none of some ids. -/
def ofIds (ids : List String) : Naming := { reserved := ids }

/-- How many elements of a type have been met in a scope. -/
def count (n : Naming) (kind : String) (scope : Option String) : Nat :=
  ((n.counters.find? (·.1 == (scope, kind))).map (·.2)).getD 0

/-- Sets how many elements of a type have been met in a scope. -/
def setCount (n : Naming) (kind : String) (scope : Option String) (count : Nat) : Naming :=
  { n with counters := ((scope, kind), count) :: n.counters.filter (·.1 != (scope, kind)) }

/-- Counts an element that has an id of its own. -/
def skip (n : Naming) (kind : String) (scope : Option String) : Naming :=
  n.setCount kind scope (n.count kind scope + 1)

/-- The first number from the count on whose name is free. One of as many numbers as there are names
taken, and one more, always is. -/
def freeOrdinal (n : Naming) (kind : String) (scope : Option String) : Nat :=
  let first := n.count kind scope
  ((List.range' first (n.reserved.length + 1)).find? fun ordinal ↦
    !n.reserved.contains (formatId kind scope ordinal)).getD first

/-- A new name for an element of a type in a scope. -/
def allocate (n : Naming) (kind : String) (scope : Option String) : String × Naming :=
  let ordinal := n.freeOrdinal kind scope
  let id := formatId kind scope ordinal
  (id, { n.setCount kind scope (ordinal + 1) with reserved := id :: n.reserved })

end Naming

/-! ## Reading names -/

/-- One way to read an id as a generated name. -/
structure IdReading where
  /-- The id of the element around, none for the root. -/
  group : Option String
  /-- The type. -/
  kind : String
  /-- The place among the elements of that type. -/
  index : UInt64
  deriving DecidableEq, Repr

namespace IdReading

/-- An index: decimal digits, perhaps after a plus sign, for a number of 64 bits. -/
def index? (cs : List Char) : Option UInt64 :=
  let unsigned := match cs with
    | '+' :: rest => rest
    | cs => cs
  (numeral? 10 unsigned).bind fun n ↦ if n < UInt64.size then some n.toUInt64 else none

/-- The ways to read a name without its index that have a group, longest group first. -/
def grouped (index : UInt64) (name : List Char) : List IdReading :=
  (splits '-' name).filterMap fun (group, kind) ↦
    if group.isEmpty || kind.isEmpty then none
    else some ⟨some (String.ofList group), String.ofList kind, index⟩

/-- All ways to read an id, longest group first; the last one has no group. -/
def all (id : String) : List IdReading :=
  match splitLast '-' id.toList with
  | none => []
  | some (name, digits) =>
    match index? digits with
    | none => []
    | some index =>
      grouped index name ++
        if name.isEmpty then [] else [⟨none, String.ofList name, index⟩]

end IdReading

end SvgWorkbench
