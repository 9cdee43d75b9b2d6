import SvgWorkbench.Batch
import SvgWorkbench.Edit.Property
import SvgWorkbench.Quantity

/-!
# Many elements at once

The inspector shows what the selected elements have in common, and changes a number on all of them.
-/

namespace SvgWorkbench

/-! ## Common properties -/

/-- Values by property; a property on which the elements differ has none. -/
abbrev SharedProperties := SortedMap (Option String)

namespace SharedProperties

/-- The properties of one component. -/
def ofComponent (c : Component) : SharedProperties :=
  c.attributes.mapValues fun _ value ↦ some value

/-- The properties that a component has as well, without the values on which it differs. -/
def meet (p : SharedProperties) (c : Component) : SharedProperties :=
  (p.filter fun key _ ↦ (c.attribute? key).isSome).mapValues fun key value ↦
    if c.attribute? key = value then value else none

/-- What all components meant by some ids have in common, if any component is meant. -/
def of? (forest : List Component) (ids : List String) : Option SharedProperties :=
  match ids.filterMap (Component.find? forest) with
  | [] => none
  | c :: cs => some (cs.foldl meet (ofComponent c))

end SharedProperties

/-! ## Batch edits -/

namespace Edit

/-- Changes the number a property of one element starts with, which is zero if there is none. A
result that is no finite number is not written. -/
def adjust (key : String) (op : BatchOp) (amount : Float) (markup id : String) : String :=
  match Drawing.componentsOf markup with
  | .error _ => markup
  | .ok components =>
    match Component.find? components id with
    | none => markup
    | some c =>
      let current := ((c.attribute? key).bind Quantity.leading?).getD 0
      let result := op.apply current amount
      if result.isFinite then orKeep markup (setProperty markup id key (Quantity.text result))
      else markup

/-- Changes the number of a property by an amount on one element after another. -/
def adjustAll (ids : List String) (key : String) (op : BatchOp) (amount : Float)
    (markup : String) : String :=
  if amount.isFinite then ids.foldl (adjust key op amount) markup else markup

end Edit

end SvgWorkbench
