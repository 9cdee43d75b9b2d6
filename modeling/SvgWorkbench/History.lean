/-!
# Undo and redo

The history holds the texts that were committed, oldest first, and the place of the present one.
Committing a text forgets what had been undone, and drops the oldest texts when there are more steps
back than are kept. The number of steps kept is a machine word, and so is the number of texts that
go with it, which is one more: at the largest word it is zero.
-/

namespace SvgWorkbench

/-- Committed texts and the place of the present one. -/
structure History where
  /-- The texts, oldest first. -/
  entries : List String := []
  /-- The place of the present text. -/
  index : Nat := 0
  /-- The number of steps back that are kept. -/
  limit : UInt64 := 100
  deriving DecidableEq, Repr

namespace History

/-- A history without texts that keeps some number of steps, but at least one. -/
def ofLimit (limit : UInt64) : History := { limit := if limit = 0 then 1 else limit }

/-- The present text. -/
def current? (h : History) : Option String := h.entries[h.index]?

/-- Forgets everything and starts from a text. -/
def reset (h : History) (text : String) : History := { h with entries := [text], index := 0 }

/-- The number of texts that are kept. -/
def capacity (h : History) : Nat := (h.limit + 1).toNat

/-- Drops the oldest texts beyond the number that is kept. -/
def evict (h : History) : History :=
  let surplus := h.entries.length - h.capacity
  { h with entries := h.entries.drop surplus, index := h.index - surplus }

/-- Commits a text, unless it is the present one. -/
def record (h : History) (text : String) : History :=
  if h.current? = some text then h
  else
    let kept := h.entries.take (h.index + 1)
    { h with entries := kept ++ [text], index := kept.length }.evict

/-- Whether there is a step back. -/
def canUndo (h : History) : Bool := 0 < h.index

/-- Whether there is a step forward. -/
def canRedo (h : History) : Bool := h.index + 1 < h.entries.length

/-- One step back. -/
def undo? (h : History) : Option History :=
  if h.canUndo then some { h with index := h.index - 1 } else none

/-- One step forward. -/
def redo? (h : History) : Option History :=
  if h.canRedo then some { h with index := h.index + 1 } else none

/-- The number of steps back. -/
def undoCount (h : History) : Nat := h.index

/-- The number of steps forward. -/
def redoCount (h : History) : Nat := h.entries.length - (h.index + 1)

end History

end SvgWorkbench
