import SvgWorkbench.Config.FromJson

/-!
# Arguments of calls

Texts, flags and numbers come to a call as such. Lists and records come as values that the call has
to decode, and may be absent. A record is read from an object by the names of its fields; an array
is an object that has none of them. A number counts as a word if it is a whole number that a double
holds exactly, however it is written.
-/

namespace SvgWorkbench

/-- An argument that has to be decoded, or none. -/
abbrev Argument := Option Json

namespace Argument

/-! ## Shapes -/

/-- The fields of a record. -/
def fields? (names : List String) : Json → Option (List (String × Json))
  | .array _ => some []
  | .object entries => some <|
    (entries.filterMap fun (key, value) ↦ key.map (·, value)).filter (names.contains ·.1)
  | _ => none

/-- The largest number up to which a double holds every whole number. -/
def maxSafe : Float := 9007199254740991

/-- A number as a word. -/
def word? (j : Json) : Option UInt64 :=
  j.float?.bind fun x ↦ if x.floor == x && 0 ≤ x && x ≤ maxSafe then some x.toUInt64 else none

/-- Settings in the arguments of calls. -/
def configFormat : Config.Format Json where
  fields? := fields?
  text? := Json.text?
  texts? := Json.texts?
  bool? := Json.bool?
  float? := Json.float?
  word? := word?

/-- An argument of which a null value means that it is absent. -/
def optional? {α : Type} (read : Json → Option α) : Argument → Option (Option α)
  | none => some none
  | some .null => some none
  | some value => (read value).map some

/-! ## Arguments -/

/-- A list of ids. -/
def ids? (argument : Argument) : Option (List String) := argument.bind Json.texts?

/-- The outlines of the preview, if they are given. -/
def highlightStyle? (argument : Argument) : Option (Option HighlightStyle) :=
  optional? (HighlightStyle.decode? configFormat) argument

/-- The settings, if they are given. -/
def config? (argument : Argument) : Option (Option Config) :=
  optional? (Config.decode? configFormat) argument

/-- The name and the content of a new document. -/
def newDocument? (argument : Argument) : Option (String × String) := do
  let given ← fields? ["name", "content"] (← argument)
  let text? (name : String) : Option String := (given.find? (·.1 == name)).bind (·.2.text?)
  return (← text? "name", ← text? "content")

end Argument

end SvgWorkbench
