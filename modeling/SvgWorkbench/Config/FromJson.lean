import SvgWorkbench.Config.Format
import SvgWorkbench.Json.Number
import SvgWorkbench.Json.Reader

/-!
# Settings in JSON

A record of settings is an object, in which unknown keys are ignored and known keys may not be
repeated, or an array of its first fields in order. A null value is a value of the wrong type.
-/

namespace SvgWorkbench

namespace Json

/-- The fields of a record that are given, by name. -/
def fields? (names : List String) : Json → Option (List (String × Json))
  | .array items => if items.length ≤ names.length then some (names.zip items) else none
  | .object entries => do
    let named ← entries.mapM fun (key, value) ↦ key.map (·, value)
    let known := named.filter (names.contains ·.1)
    if (known.map (·.1)).eraseDups.length = known.length then some known else none
  | _ => none

/-- A number as a double. -/
def float? : Json → Option Float
  | .number t => t.float?
  | _ => none

/-- A number as a word. -/
def word? : Json → Option UInt64
  | .number t => t.word?
  | _ => none

/-- Settings in JSON. -/
def configFormat : Config.Format Json := { fields?, text?, texts?, bool?, float?, word? }

end Json

namespace Config

/-- The settings a value gives, checked. -/
def ofJson (j : Json) : Except ConfigError Config := checked (decode? Json.configFormat j) .badJson

/-- The settings of a JSON text. -/
def readJson (text : String) : Except ConfigError Config :=
  checked ((Json.read? text).bind (decode? Json.configFormat)) .badJson

end Config

end SvgWorkbench
