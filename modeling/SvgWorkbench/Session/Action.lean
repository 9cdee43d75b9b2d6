import SvgWorkbench.Session.Basic

/-!
# Actions

Everything a user can do in a session, as data. A run of a session is a list of actions; what holds
after every action holds in every session that was opened.
-/

namespace SvgWorkbench.Session

/-- What a user can do. -/
inductive Action where
  /-- Opens another document. -/
  | load (markup : String)
  /-- Types code. -/
  | setCode (code : String)
  /-- Sets a property of an element. -/
  | setProperty (id key value : String)
  /-- Sets a property of the selection. -/
  | setPropertyOfSelection (key value : String)
  /-- Duplicates an element. -/
  | duplicate (id : String)
  /-- Duplicates the selection. -/
  | duplicateSelection
  /-- Moves an element among its siblings. -/
  | reorder (id : String) (direction : Direction)
  /-- Moves the selection among its siblings. -/
  | reorderSelection (direction : Direction)
  /-- Removes the selection. -/
  | removeSelection
  /-- Changes a number on the selection. -/
  | adjustSelection (key : String) (op : BatchOp) (amount : Float)
  /-- Copies the selection. -/
  | copySelection
  /-- Adds what was copied. -/
  | paste
  /-- Goes one step back. -/
  | undo
  /-- Goes one step forward. -/
  | redo
  /-- Selects one element. -/
  | select (id : String)
  /-- Adds an element to the selection or takes it out. -/
  | toggle (id : String)
  /-- Selects nothing. -/
  | clearSelection
  /-- Moves the pointer. -/
  | hover (id : Option String)
  /-- Shows the grid or hides it. -/
  | toggleGrid

/-- What a session answers to an action. -/
inductive Reply where
  /-- Nothing. -/
  | done
  /-- Another document cannot be opened. -/
  | refused (cause : ParseError)
  /-- What became of a change. -/
  | outcome (outcome : Outcome)
  /-- Whether something was done or is shown. -/
  | flag (value : Bool)
  /-- The number of copied elements. -/
  | count (value : Nat)
  deriving DecidableEq, Repr

/-- The reply that tells what became of a change. -/
def Reply.ofOutcome (result : Outcome × Session) : Reply × Session :=
  (.outcome result.1, result.2)

/-- The reply that tells whether something was done. -/
def Reply.ofFlag (result : Bool × Session) : Reply × Session := (.flag result.1, result.2)

/-- Does an action. -/
def perform (s : Session) : Action → Reply × Session
  | .load markup =>
    match s.load markup with
    | .ok loaded => (.done, loaded)
    | .error cause => (.refused cause, s)
  | .setCode code => Reply.ofOutcome (s.setCode code)
  | .setProperty id key value => Reply.ofOutcome (s.setProperty id key value)
  | .setPropertyOfSelection key value => Reply.ofOutcome (s.setPropertyOfSelection key value)
  | .duplicate id => Reply.ofOutcome (s.duplicate id)
  | .duplicateSelection => Reply.ofOutcome s.duplicateSelection
  | .reorder id direction => Reply.ofOutcome (s.reorder id direction)
  | .reorderSelection direction => Reply.ofOutcome (s.reorderSelection direction)
  | .removeSelection => Reply.ofOutcome s.removeSelection
  | .adjustSelection key op amount => Reply.ofOutcome (s.adjustSelection key op amount)
  | .copySelection => (.count s.copySelection.clipboard.length, s.copySelection)
  | .paste => Reply.ofOutcome s.paste
  | .undo => Reply.ofFlag s.undo
  | .redo => Reply.ofFlag s.redo
  | .select id => Reply.ofFlag (s.select id)
  | .toggle id => Reply.ofFlag (s.toggle id)
  | .clearSelection => (.done, s.clearSelection)
  | .hover id => (.done, s.hover id)
  | .toggleGrid => (.flag s.toggleGrid.showGrid, s.toggleGrid)

/-- The session after some actions. -/
def run (s : Session) (actions : List Action) : Session :=
  actions.foldl (fun t action ↦ (t.perform action).2) s

end SvgWorkbench.Session
