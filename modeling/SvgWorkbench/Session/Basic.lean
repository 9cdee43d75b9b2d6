import SvgWorkbench.Edit.Group
import SvgWorkbench.Edit.Highlight
import SvgWorkbench.Edit.Structure
import SvgWorkbench.History
import SvgWorkbench.Selection

/-!
# Sessions

A session is one open document with all that an editor knows about it: its text and components, what
is selected, what the pointer is on, the clipboard and the history. Every change of the text goes
through `install`, which drops whatever referred to elements that are gone, so the selection and the
pointer only ever mean elements that are there.

Code typed by the user is kept as it is typed. The text an edit makes is written anew with all ids
in it, so that the ids stay what they are in later edits.
-/

namespace SvgWorkbench

/-- What became of a request to change the document. -/
inductive Outcome where
  /-- A new text was committed. -/
  | committed
  /-- There was nothing to change. -/
  | unchanged
  /-- The change was refused. -/
  | rejected (cause : EditError)
  deriving DecidableEq, Repr

/-- One open document. -/
structure Session where
  /-- The settings. -/
  config : Config
  /-- The text of the document. -/
  markup : String
  /-- The components of the document. -/
  components : List Component
  /-- The components in a flat list. -/
  flat : List Flat
  /-- Why the code typed last was refused, unless it was accepted. -/
  refusedCode : Option ParseError := none
  /-- The selected ids. -/
  selection : Selection := {}
  /-- The id of the element the pointer is on. -/
  hovered : Option String := none
  /-- Whether the grid is shown. -/
  showGrid : Bool
  /-- The copied elements. -/
  clipboard : List Copied := []
  /-- The committed texts. -/
  history : History

/-- What the editor shows of a session. -/
structure Snapshot where
  /-- The text of the document. -/
  markup : String
  /-- The components. -/
  components : List Component
  /-- The components in a flat list. -/
  flat : List Flat
  /-- Why the code typed last was refused. -/
  refusedCode : Option ParseError
  /-- The selected ids. -/
  selection : Selection
  /-- The id of the element the pointer is on. -/
  hovered : Option String
  /-- Whether the grid is shown. -/
  showGrid : Bool
  /-- Whether there is a step back. -/
  canUndo : Bool
  /-- Whether there is a step forward. -/
  canRedo : Bool
  /-- The number of copied elements. -/
  clipboardSize : Nat
  deriving DecidableEq, Repr

namespace Session

/-! ## Views -/

/-- The ids in the flat list. -/
def ids (s : Session) : List String := s.flat.map fun entry ↦ entry.heading.id

/-- The id of the component an id means. -/
def resolve? (s : Session) (id : String) : Option String :=
  (Component.find? s.components id).map Component.id

/-- What the selected components have in common. -/
def sharedProperties (s : Session) : Option SharedProperties :=
  SharedProperties.of? s.components s.selection.ids

/-- The text with the outlines of the preview. -/
def preview (s : Session) : String :=
  Edit.preview s.config.highlight s.markup s.selection.ids s.hovered

/-- What the editor shows. -/
def snapshot (s : Session) : Snapshot where
  markup := s.markup
  components := s.components
  flat := s.flat
  refusedCode := s.refusedCode
  selection := s.selection
  hovered := s.hovered
  showGrid := s.showGrid
  canUndo := s.history.canUndo
  canRedo := s.history.canRedo
  clipboardSize := s.clipboard.length

/-! ## Opening -/

/-- Opens a document. -/
def openText (config : Config) (markup : String) : Except ParseError Session := do
  let components ← Drawing.componentsOf markup
  return {
    config, markup, components
    flat := Component.flatten false components
    showGrid := config.showGrid
    history := (History.ofLimit config.historyLimit).reset markup }

/-- Opens the document of the settings. -/
def openInitial (config : Config) : Except ParseError Session :=
  openText config config.initialMarkup

/-! ## Changing the text -/

/-- Takes a text and its components for the document. The selection and the pointer keep the ids
that are there exactly: an id that is gone may by its place mean a neighbour of the element it
meant. -/
def install (s : Session) (markup : String) (components : List Component) : Session :=
  let flat := Component.flatten false components
  let live (id : String) : Bool := flat.any fun entry ↦ entry.heading.id == id
  { s with
    markup, components, flat
    refusedCode := none
    selection := s.selection.retain live
    hovered := s.hovered.filter live }

/-- Takes a text and its components for the document and commits the text. -/
def record (s : Session) (markup : String) (components : List Component) : Session :=
  { s with history := s.history.record markup }.install markup components

/-- Commits the result of an edit, or tells why there is nothing to commit. -/
def commit (s : Session) (result : Except EditError String) : Outcome × Session :=
  match result with
  | .error cause => (if cause.isMiss then .unchanged else .rejected cause, s)
  | .ok edited =>
    if edited = s.markup then (.unchanged, s)
    else match Drawing.parse edited with
      | .error cause => (.rejected (.unreadable cause), s)
      | .ok drawing => (.committed, s.record drawing.text drawing.components)

/-- Commits the result of an edit and selects the elements it added, if there are any. -/
def commitAdding (s : Session) (result : Except EditError String) : Outcome × Session :=
  match s.commit result with
  | (.committed, t) =>
    match t.ids.filter fun id ↦ !s.ids.contains id with
    | [] => (.committed, t)
    | added => (.committed, { t with selection := .ofIds added })
  | other => other

/-! ## The document as a whole -/

/-- Opens another document in the session. The clipboard is kept. -/
def load (s : Session) (markup : String) : Except ParseError Session := do
  let components ← Drawing.componentsOf markup
  let cleared := { s with history := s.history.reset markup, selection := {}, hovered := none }
  return cleared.install markup components

/-- Takes code typed by the user for the document. -/
def setCode (s : Session) (code : String) : Outcome × Session :=
  if code = s.markup then (.unchanged, { s with refusedCode := none })
  else match Drawing.componentsOf code with
    | .error cause => (.rejected (.unreadable cause), { s with refusedCode := some cause })
    | .ok components => (.committed, s.record code components)

/-- Takes the present text of the history for the document. -/
def restore (s : Session) : Bool × Session :=
  match s.history.current? with
  | none => (false, s)
  | some markup =>
    match Drawing.componentsOf markup with
    | .error _ => (false, s)
    | .ok components => (true, s.install markup components)

/-- One step back in the history. -/
def undo (s : Session) : Bool × Session :=
  match s.history.undo? with
  | none => (false, s)
  | some history => { s with history }.restore

/-- One step forward in the history. -/
def redo (s : Session) : Bool × Session :=
  match s.history.redo? with
  | none => (false, s)
  | some history => { s with history }.restore

/-! ## Edits -/

/-- Sets a property of one element. -/
def setProperty (s : Session) (id key value : String) : Outcome × Session :=
  s.commit (Edit.setProperty s.markup id key value)

/-- Sets a property of the selected elements. -/
def setPropertyOfSelection (s : Session) (key value : String) : Outcome × Session :=
  s.commit (.ok (Edit.forEach (fun markup id ↦ Edit.setProperty markup id key value) s.markup
    s.selection.ids))

/-- Adds a moved copy of one element and selects it. -/
def duplicate (s : Session) (id : String) : Outcome × Session :=
  s.commitAdding (Edit.duplicate s.config s.markup id)

/-- Adds moved copies of the selected elements and selects them. -/
def duplicateSelection (s : Session) : Outcome × Session :=
  s.commitAdding (.ok (Edit.forEach (Edit.duplicate s.config) s.markup s.selection.ids))

/-- Moves one element among its siblings. -/
def reorder (s : Session) (id : String) (direction : Direction) : Outcome × Session :=
  s.commit (Edit.reorder direction s.markup id)

/-- Moves the selected elements among their siblings. -/
def reorderSelection (s : Session) (direction : Direction) : Outcome × Session :=
  s.commit (.ok (Edit.forEach (Edit.reorder direction) s.markup s.selection.ids))

/-- Removes the selected elements. -/
def removeSelection (s : Session) : Outcome × Session :=
  s.commit (.ok (Edit.forEach Edit.remove s.markup s.selection.ids))

/-- Changes a number on the selected elements. -/
def adjustSelection (s : Session) (key : String) (op : BatchOp) (amount : Float) :
    Outcome × Session :=
  s.commit (.ok (Edit.adjustAll s.selection.ids key op amount s.markup))

/-- Copies the selected elements. The clipboard is kept if there are none. -/
def copySelection (s : Session) : Session :=
  match s.selection.ids.filterMap (Edit.copy? s.markup) with
  | [] => s
  | clipboard => { s with clipboard }

/-- Adds the copied elements at the end of the root and selects them. -/
def paste (s : Session) : Outcome × Session :=
  if s.clipboard.isEmpty then (.unchanged, s)
  else s.commitAdding (.ok (Edit.forEach (Edit.paste none) s.markup s.clipboard))

/-! ## Selecting and pointing -/

/-- Selects the element an id means, and only it, if there is one. -/
def select (s : Session) (id : String) : Bool × Session :=
  match s.resolve? id with
  | none => (false, s)
  | some id => (true, { s with selection := .single id })

/-- Takes a selected id out of the selection; of another id, selects the element it means as well,
or takes it out if it is selected. -/
def toggle (s : Session) (id : String) : Bool × Session :=
  if s.selection.contains id then (true, { s with selection := s.selection.remove id })
  else match s.resolve? id with
    | none => (false, s)
    | some id => (true, { s with selection := s.selection.toggle id })

/-- Selects nothing. -/
def clearSelection (s : Session) : Session := { s with selection := {} }

/-- Moves the pointer to the element an id means, or away. -/
def hover (s : Session) (id : Option String) : Session := { s with hovered := id.bind s.resolve? }

/-- Shows the grid or hides it. -/
def toggleGrid (s : Session) : Session := { s with showGrid := !s.showGrid }

end Session

end SvgWorkbench
