import SvgWorkbench.Config.Basic

/-!
# Formats of settings

Settings come in several formats, which differ in how a record is written and in which values count
as numbers, texts and truth values. A format tells these; from it settings are decoded in the same
way everywhere: what is left out has its default, and a value of the wrong type spoils the whole.
-/

namespace SvgWorkbench

/-! ## Formats -/

/-- How the values of a format are understood. -/
structure Config.Format (Value : Type) where
  /-- The fields of a record among the given names, which are in the order of the record. -/
  fields? : List String → Value → Option (List (String × Value))
  /-- A text. -/
  text? : Value → Option String
  /-- A sequence of texts. -/
  texts? : Value → Option (List String)
  /-- A truth value. -/
  bool? : Value → Option Bool
  /-- A number as a double. -/
  float? : Value → Option Float
  /-- A number as a word. -/
  word? : Value → Option UInt64

/-- A field of a record: its value if it is given, or the default. -/
def Config.fieldOr {Value α : Type} (given : List (String × Value)) (name : String)
    (read : Value → Option α) (default_ : α) : Option α :=
  match given.find? (·.1 == name) with
  | some (_, value) => read value
  | none => some default_

/-! ## Decoding -/

/-- The names of the settings of the preview, in order. -/
def HighlightStyle.fieldNames : List String :=
  ["selectedOutline", "hoveredOutline", "outlineOffset"]

/-- The settings of the preview a value gives. -/
def HighlightStyle.decode? {Value : Type} (f : Config.Format Value) (value : Value) :
    Option HighlightStyle := do
  let given ← f.fields? fieldNames value
  let standard : HighlightStyle := {}
  return {
    selectedOutline := ← Config.fieldOr given "selectedOutline" f.text? standard.selectedOutline
    hoveredOutline := ← Config.fieldOr given "hoveredOutline" f.text? standard.hoveredOutline
    outlineOffset := ← Config.fieldOr given "outlineOffset" f.text? standard.outlineOffset }

namespace Config

/-- The names of the settings, in order. -/
def fieldNames : List String :=
  ["duplicateOffset", "offsetAttributes", "highlight", "showGrid", "historyLimit", "initialMarkup",
    "newDocumentMarkup"]

/-- The settings a value gives. -/
def decode? {Value : Type} (f : Format Value) (value : Value) : Option Config := do
  let given ← f.fields? fieldNames value
  let standard : Config := {}
  return {
    duplicateOffset := ← fieldOr given "duplicateOffset" f.float? standard.duplicateOffset
    offsetAttributes := ← fieldOr given "offsetAttributes" f.texts? standard.offsetAttributes
    highlight := ← fieldOr given "highlight" (HighlightStyle.decode? f) standard.highlight
    showGrid := ← fieldOr given "showGrid" f.bool? standard.showGrid
    historyLimit := ← fieldOr given "historyLimit" f.word? standard.historyLimit
    initialMarkup := ← fieldOr given "initialMarkup" f.text? standard.initialMarkup
    newDocumentMarkup := ← fieldOr given "newDocumentMarkup" f.text? standard.newDocumentMarkup }

/-- The checked settings of a value that may be absent or of the wrong shape. -/
def checked (config : Option Config) (otherwise : ConfigError) : Except ConfigError Config :=
  match config with
  | none => .error otherwise
  | some c => c.validated.mapError .invalid

end Config

end SvgWorkbench
