import SvgWorkbench.Config.Format
import SvgWorkbench.Decimal.Reading
import SvgWorkbench.Yaml.Reader

/-!
# Settings in YAML

A record of settings is a mapping. Only plain scalars are numbers and truth values, while a text may
be any scalar.
-/

namespace SvgWorkbench

namespace Yaml

open Text

/-! ## Scalars -/

/-- A truth value. -/
def bool? (y : Yaml) : Option Bool :=
  y.plain?.bind fun text ↦
    if ["true", "True", "TRUE"].contains text then some true
    else if ["false", "False", "FALSE"].contains text then some false
    else none

/-- A number as a double. -/
def float? (y : Yaml) : Option Float :=
  y.plain?.bind fun text ↦
    let unsigned := match text.toList with
      | '+' :: '+' :: _ => none
      | '+' :: '-' :: _ => none
      | '+' :: cs => some (String.ofList cs)
      | cs => some (String.ofList cs)
    unsigned.bind fun size ↦
      if [".inf", ".Inf", ".INF"].contains size then some (1 / 0)
      else if ["-.inf", "-.Inf", "-.INF"].contains text then some (-1 / 0)
      else if [".nan", ".NaN", ".NAN"].contains text then some (0 / 0)
      else (Decimal.read? size).filter (·.isFinite)

/-- The digits of a number in some radix, if a word holds it. -/
def digits? (radix : Nat) (cs : List Char) : Option UInt64 :=
  (numeral? radix cs).bind fun n ↦ if n < UInt64.size then some n.toUInt64 else none

/-- A number as a word. Zeros in front of a decimal number make it a text. -/
def word? (y : Yaml) : Option UInt64 :=
  y.plain?.bind fun text ↦
    let unsigned := match text.toList with
      | '+' :: cs => cs
      | cs => cs
    match unsigned with
    | '0' :: 'x' :: cs => digits? 16 cs
    | '0' :: 'o' :: cs => digits? 8 cs
    | '0' :: 'b' :: cs => digits? 2 cs
    | '0' :: _ :: _ => none
    | cs => digits? 10 cs

/-- The texts of a sequence of scalars, which may be left out. -/
def texts? (y : Yaml) : Option (List String) :=
  match y with
  | .sequence items => items.mapM text?
  | _ => if y.isAbsent then some [] else none

/-! ## Records -/

/-- The fields of a record that are given, by name. -/
def fields? (names : List String) (y : Yaml) : Option (List (String × Yaml)) :=
  match y with
  | .mapping entries => do
    let named ← entries.mapM fun (key, value) ↦ key.text?.map (·, value)
    let known := named.filter (names.contains ·.1)
    if (known.map (·.1)).eraseDups.length = known.length then some known else none
  | _ => if y.isAbsent then some [] else none

/-- Settings in YAML. -/
def configFormat : Config.Format Yaml := { fields?, text?, texts?, bool?, float?, word? }

end Yaml

/-- The settings of a YAML text. -/
def Config.readYaml (text : String) : Except ConfigError Config :=
  checked ((Yaml.read? text).bind (decode? Yaml.configFormat)) .badYaml

end SvgWorkbench
