import SvgWorkbench.Bench.Argument
import SvgWorkbench.Bench.Basic
import SvgWorkbench.Text.Quoted

/-!
# Calls

The calls a host page can make. Calls on markup keep nothing; calls on the session need one to be
open; calls on documents save markup under a name and get it back.
-/

namespace SvgWorkbench

/-! ## Calls and values -/

/-- A call of a host page. -/
inductive Call where
  /-- Starts the bench once more. -/
  | main
  /-- Checks markup. -/
  | validateSvg (markup : String)
  /-- The components of markup. -/
  | parseSvg (markup : String)
  /-- The markup with all ids. -/
  | serializeSvg (markup : String)
  /-- The flat list of markup. -/
  | flattenSvg (markup : String) (withAttributes : Bool)
  /-- The component an id means. -/
  | findComponent (markup id : String)
  /-- Sets a property of an element. -/
  | updateProperty (markup id key value : String)
  /-- Duplicates an element. -/
  | duplicateElement (markup id : String)
  /-- Moves an element among its siblings. -/
  | reorderElement (markup id : String) (direction : Direction)
  /-- Moves elements among their siblings. -/
  | reorderElements (markup : String) (ids : Argument) (direction : Direction)
  /-- Removes an element. -/
  | removeElement (markup id : String)
  /-- What elements have in common. -/
  | commonProperties (markup : String) (ids : Argument)
  /-- Changes a number on elements. -/
  | batchUpdate (markup : String) (ids : Argument) (key : String) (op : BatchOp) (amount : Float)
  /-- The text of the preview. -/
  | highlightSvg (markup : String) (selected : Argument) (hovered : Option String)
      (style : Argument)
  /-- Opens a session. -/
  | createSession (config : Argument)
  /-- Opens another document. -/
  | sessionLoad (markup : String)
  /-- Types code. -/
  | sessionSetCode (code : String)
  /-- Sets a property of an element, or of the selection. -/
  | sessionUpdateProperty (id : Option String) (key value : String)
  /-- Selects one element. -/
  | sessionSelect (id : String)
  /-- Adds an element to the selection or takes it out. -/
  | sessionToggle (id : String)
  /-- Selects nothing. -/
  | sessionClearSelection
  /-- Moves the pointer. -/
  | sessionHover (id : Option String)
  /-- Duplicates the selection. -/
  | sessionDuplicate
  /-- Moves the selection among its siblings. -/
  | sessionReorder (direction : Direction)
  /-- Changes a number on the selection. -/
  | sessionBatchUpdate (key : String) (op : BatchOp) (amount : Float)
  /-- What the selection has in common. -/
  | sessionCommonProperties
  /-- Copies the selection. -/
  | sessionCopy
  /-- Adds what was copied. -/
  | sessionPaste
  /-- Removes the selection. -/
  | sessionRemove
  /-- Goes one step back. -/
  | sessionUndo
  /-- Goes one step forward. -/
  | sessionRedo
  /-- Shows the grid or hides it. -/
  | sessionToggleGrid
  /-- The text of the preview. -/
  | sessionPreview
  /-- What the editor shows. -/
  | sessionSnapshot
  /-- The saved documents. -/
  | listDocuments
  /-- A saved document. -/
  | getDocument (id : Nat)
  /-- Saves a new document. -/
  | createDocument (document : Argument)
  /-- Saves other content for a document. -/
  | updateDocument (id : Nat) (content : String)

/-- What a call gives. -/
inductive Value where
  /-- Nothing. -/
  | nothing
  /-- Whether something was done or is shown. -/
  | flag (value : Bool)
  /-- A number of things. -/
  | count (value : Nat)
  /-- Markup. -/
  | text (markup : String)
  /-- Why markup is refused, if it is. -/
  | validity (refusal : Option Gate.Refusal)
  /-- Components with their flat list. -/
  | components (components : List Component)
  /-- A flat list. -/
  | flat (entries : List Flat)
  /-- The component an id means, if there is one. -/
  | component (found : Option Component)
  /-- What components have in common, if there are any. -/
  | properties (shared : Option SharedProperties)
  /-- What became of a change. -/
  | outcome (outcome : Outcome)
  /-- What the editor shows. -/
  | snapshot (snapshot : Snapshot)
  /-- A saved document. -/
  | document (saved : Saved)
  /-- Saved documents, without their content. -/
  | documents (saved : List Saved)

/-! ## Carrying out calls -/

namespace Call

open Work

/-- The value of the session's reply to a call. -/
def valueOf (call : String) : Session.Reply → Work Value
  | .done => pure .nothing
  | .refused cause => fail (call ++ ": " ++ cause.message)
  | .outcome (.rejected cause) => do
    log (call ++ ": rejected: " ++ cause.message)
    return .outcome (.rejected cause)
  | .outcome outcome => pure (.outcome outcome)
  | .flag value => pure (.flag value)
  | .count value => pure (.count value)

/-- Does an action in the open session for a call. -/
def inSession (call : String) (action : Session.Action) : Work Value := do
  valueOf call (← act call action)

/-- The components of markup, for a call. -/
def componentsFor (call markup : String) : Work (List Component) :=
  orFail call ParseError.message (Drawing.componentsOf markup)

/-- The ids of an argument. -/
def idsOf (ids : Argument) : Work (List String) := decoded "Invalid id list" (Argument.ids? ids)

/-- The number of some things, for a line on the console. -/
def counted {α : Type} (things : List α) (name : String) : String :=
  toString things.length ++ " " ++ name

/-- Opens a session with some settings in place of the open one. -/
def create (call : String) (config : Config) : Work Value := do
  let config ← orFail call ConfigProblem.message config.validated
  let session ← orFail call ParseError.message (Session.openInitial config)
  modify fun b ↦ { b with session := some session }
  info (call ++ ": " ++ counted session.flat "components")
  return .snapshot session.snapshot

/-- Keeps the changed documents. -/
def keep (result : Saved × Store) : Work Saved := do
  modify fun b ↦ { b with store := result.2 }
  return result.1

/-- Carries out a call. -/
def work : Call → Work Value
  | main => do
    warn ("logger already initialized: " ++
      "attempted to set a logger after the logging system was already initialized")
    return .nothing
  | validateSvg markup =>
    match Gate.check markup with
    | .ok _ => return .validity none
    | .error refusal => do
      log ("validateSvg: " ++ refusal.syntaxMessage)
      return .validity (some refusal)
  | parseSvg markup => do
    let result ← timed "parseSvg" (pure (Drawing.componentsOf markup))
    let components ← orFail "parseSvg" ParseError.message result
    log ("parseSvg: " ++ counted (Component.all components) "components")
    return .components components
  | serializeSvg markup => do
    return .text (← orFail "serializeSvg" ParseError.message (Drawing.serialize markup))
  | flattenSvg markup withAttributes => do
    return .flat (Component.flatten withAttributes (← componentsFor "flattenSvg" markup))
  | findComponent markup id => do
    let found := Component.find? (← componentsFor "findComponent" markup) id
    if found.isNone then log ("findComponent: '" ++ id ++ "' does not resolve")
    return .component found
  | updateProperty markup id key value => do
    log ("updateProperty: id=" ++ id ++ ", " ++ key ++ "=" ++ Text.quoted value)
    return .text (Edit.orKeep markup (Edit.setProperty markup id key value))
  | duplicateElement markup id => do
    log ("duplicateElement: id=" ++ id)
    return .text (Edit.orKeep markup (Edit.duplicate {} markup id))
  | reorderElement markup id direction => do
    log ("reorderElement: id=" ++ id ++ ", " ++ direction.name)
    return .text (Edit.orKeep markup (Edit.reorder direction markup id))
  | reorderElements markup ids direction => do
    let ids ← idsOf ids
    log ("reorderElements: " ++ counted ids "ids, " ++ direction.name)
    return .text (Edit.forEach (Edit.reorder direction) markup ids)
  | removeElement markup id => do
    log ("removeElement: id=" ++ id)
    return .text (Edit.orKeep markup (Edit.remove markup id))
  | commonProperties markup ids => do
    let ids ← idsOf ids
    return .properties (SharedProperties.of? (← componentsFor "commonProperties" markup) ids)
  | batchUpdate markup ids key op amount => do
    let ids ← idsOf ids
    info ("batchUpdate: " ++ counted ids "ids, " ++ key ++ " " ++ op.name ++ " " ++
      Decimal.text amount)
    return .text (Edit.adjustAll ids key op amount markup)
  | highlightSvg markup selected hovered style => do
    let selected ← idsOf selected
    let style ← decoded "Invalid highlight style" (Argument.highlightStyle? style)
    return .text (Edit.preview (style.getD {}) markup selected hovered)
  | createSession config => do
    let config ← decoded "Invalid editor configuration" (Argument.config? config)
    create "createSession" (config.getD {})
  | sessionLoad markup => do
    let _ ← inSession "sessionLoad" (.load markup)
    return .snapshot (← openSession "sessionSnapshot").snapshot
  | sessionSetCode code => do
    valueOf "sessionSetCode" (← timed "sessionSetCode" (act "sessionSetCode" (.setCode code)))
  | sessionUpdateProperty (some id) key value =>
    inSession "sessionUpdateProperty" (.setProperty id key value)
  | sessionUpdateProperty none key value =>
    inSession "sessionUpdateProperty" (.setPropertyOfSelection key value)
  | sessionSelect id => inSession "sessionSelect" (.select id)
  | sessionToggle id => inSession "sessionToggle" (.toggle id)
  | sessionClearSelection => inSession "sessionClearSelection" .clearSelection
  | sessionHover id => inSession "sessionHover" (.hover id)
  | sessionDuplicate => inSession "sessionDuplicate" .duplicateSelection
  | sessionReorder direction => inSession "sessionReorder" (.reorderSelection direction)
  | sessionBatchUpdate key op amount =>
    inSession "sessionBatchUpdate" (.adjustSelection key op amount)
  | sessionCommonProperties => do
    return .properties (← openSession "sessionCommonProperties").sharedProperties
  | sessionCopy => inSession "sessionCopy" .copySelection
  | sessionPaste => inSession "sessionPaste" .paste
  | sessionRemove => inSession "sessionRemove" .removeSelection
  | sessionUndo => inSession "sessionUndo" .undo
  | sessionRedo => inSession "sessionRedo" .redo
  | sessionToggleGrid => inSession "sessionToggleGrid" .toggleGrid
  | sessionPreview => return .text (← openSession "sessionPreview").preview
  | sessionSnapshot => return .snapshot (← openSession "sessionSnapshot").snapshot
  | listDocuments => do
    let summaries ← (← get).store.list.mapM (encoded "Failed to serialize document summary")
    return .documents summaries
  | getDocument id => do
    let saved ← orFail "getDocument" StoreError.message ((← get).store.get id)
    return .document (← encoded "Failed to serialize document" saved)
  | createDocument document => do
    let (name, content) ← decoded "Invalid document" (Argument.newDocument? document)
    let bench ← get
    let saved ← keep (← orFail "createDocument" StoreError.message
      (bench.store.create bench.clock name content))
    info ("createDocument: saved #" ++ toString saved.id ++ " '" ++ saved.name ++ "'")
    return .document (← encoded "Failed to serialize document" saved)
  | updateDocument id content => do
    let bench ← get
    let saved ← keep (← orFail "updateDocument" StoreError.message
      (bench.store.update bench.clock id content))
    return .document (← encoded "Failed to serialize document" saved)

end Call

/-- Makes a call: the value or the thrown text, and the bench afterwards with the lines the call
wrote on its console. -/
def Bench.make (b : Bench) (call : Call) : Except String Value × Bench :=
  (call.work.run).run { b with clock := b.clock + 1, console := [] }

end SvgWorkbench
