import SvgWorkbench.Component.Basic
import SvgWorkbench.Naming
import SvgWorkbench.Text.AsciiCase

/-!
# Looking a component up

An id is looked up as it stands first. If no component has it, it may be a name that was generated
before the last edit; it is then read as one, and means the element at the place it tells.
-/

namespace SvgWorkbench.Component

open Text

/-- The first component with an id. -/
def findExact? (forest : List Component) (id : String) : Option Component :=
  (all forest).find? fun (c : Component) ↦ c.id == id

/-- The child at a place among the children of a type, in any letter case. -/
def nthChild? (c : Component) (kind : String) (index : Nat) : Option Component :=
  (c.children.filter fun (child : Component) ↦ eqIgnoringAsciiCase child.kind kind)[index]?

/-- The component at a place when no group is named. The root counts as the first of its type. -/
def nthFromRoot? (root : Component) (kind : String) (index : Nat) : Option Component :=
  if eqIgnoringAsciiCase root.kind kind then
    match index with
    | 0 => some root
    | n + 1 => nthChild? root kind n
  else nthChild? root kind index

/-- The component a reading of an id means: of the readings whose group exists the first one
decides, and only without such a reading the one that has no group. -/
def resolve? (forest : List Component) (readings : List IdReading) : Option Component :=
  let grouped := readings.findSome? fun r ↦
    (r.group.bind (findExact? forest)).map fun group ↦ (group, r)
  match grouped with
  | some (group, r) => nthChild? group r.kind r.index.toNat
  | none =>
    (readings.find? (·.group.isNone)).bind fun r ↦
      forest.findSome? fun root ↦ nthFromRoot? root r.kind r.index.toNat

/-- The component an id means. -/
def find? (forest : List Component) (id : String) : Option Component :=
  match findExact? forest id with
  | some c => some c
  | none => resolve? forest (IdReading.all id)

end SvgWorkbench.Component
