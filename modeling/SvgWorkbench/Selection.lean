/-!
# Selections

The selected ids in the order they were selected, each at most once.
-/

namespace SvgWorkbench

/-- The selected ids, the one selected first in front. -/
structure Selection where
  /-- The ids. -/
  ids : List String := []
  deriving DecidableEq, Repr

namespace Selection

/-- Whether an id is selected. -/
def contains (s : Selection) (id : String) : Bool := s.ids.contains id

/-- Whether nothing is selected. -/
def isEmpty (s : Selection) : Bool := s.ids.isEmpty

/-- The number of selected ids. -/
def size (s : Selection) : Nat := s.ids.length

/-- Selects one id only. -/
def single (id : String) : Selection := ⟨[id]⟩

/-- Selects an id as well, unless it is selected already. -/
def add (s : Selection) (id : String) : Selection :=
  if s.contains id then s else ⟨s.ids ++ [id]⟩

/-- Takes an id out of the selection. -/
def remove (s : Selection) (id : String) : Selection := ⟨s.ids.filter (· != id)⟩

/-- Takes an id out if it is selected, and selects it as well if not. -/
def toggle (s : Selection) (id : String) : Selection :=
  if s.contains id then s.remove id else s.add id

/-- Keeps the ids of which a condition holds. -/
def retain (s : Selection) (keep : String → Bool) : Selection := ⟨s.ids.filter keep⟩

/-- Selects ids one after another. -/
def ofIds (ids : List String) : Selection := ids.foldl add {}

end Selection

end SvgWorkbench
