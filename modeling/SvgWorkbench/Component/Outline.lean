import SvgWorkbench.Component.Basic

/-!
# Outlines

An outline nests a flat list again. The parent of an entry is the first entry of the list with the
id it names; an entry that names no such id, or its own, stands at the top. Entries that are their
own ancestors are not reached from the top and do not appear.
-/

namespace SvgWorkbench.Outline

/-- The place of the entry another one belongs under. -/
def parentIndex? (flat : List Flat) (index : Nat) : Option Nat :=
  (flat[index]?.bind (·.heading.parent)).bind fun parent ↦
    (flat.findIdx? (·.heading.id == parent)).filter (· != index)

/-- For each entry the place of the one it belongs under. -/
def parents (flat : List Flat) : List (Option Nat) :=
  (List.range flat.length).map (parentIndex? flat)

/-- The places of the entries that have a given parent, or none. -/
def placesUnder (parents : List (Option Nat)) (parent : Option Nat) : List Nat :=
  (parents.zipIdx.filter fun p ↦ p.1 == parent).map (·.2)

/-- The places below one another, from a place down to a given depth. -/
def nest (parents : List (Option Nat)) : Nat → Nat → Tree Nat
  | 0, index => .node index []
  | depth + 1, index =>
    .node index ((placesUnder parents (some index)).map (nest parents depth))

/-- The places of a list nested below one another. No chain of entries is longer than the list, so a
depth of its length reaches everything. -/
def places (flat : List Flat) : List (Tree Nat) :=
  (placesUnder (parents flat) none).map (nest (parents flat) flat.length)

/-- The heading at a place. -/
def headingAt (flat : List Flat) (index : Nat) : Heading :=
  (flat[index]?.map (·.heading)).getD ⟨"", "", none⟩

/-- The outline of a flat list. -/
def build (flat : List Flat) : List (Tree Heading) := (places flat).map (Tree.map (headingAt flat))

end SvgWorkbench.Outline
