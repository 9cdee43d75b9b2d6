import SvgWorkbench.Yaml.Layout
import SvgWorkbench.Yaml.Value

/-!
# Reading YAML text

The tokens of a text follow a grammar in which every part is told by its first token. A text holds
at most one document; one without any is a value that is left out.
-/

namespace SvgWorkbench.Yaml

/-! ## Values left out -/

/-- Whether a value is left out before these tokens, of which some end the collection around it. -/
def isLeftOut (ends : List Token) (ts : List Token) : Bool := ts.head?.any ends.contains

/-- The tokens from the next part of a flow collection with some end on. A comma stands before every
part but the first. -/
def afterSeparator? (first : Bool) (ending : Token) (ts : List Token) : Option (List Token) :=
  if first || ts.head? == some ending then some ts
  else
    match ts with
    | .separator :: ts => some ts
    | _ => none

/-! ## Values -/

mutual

/-- A value, with `fuel` bounding the steps. In block context it may be a block; as a key or the
value of one it may also be a sequence in the column of its mapping. -/
def value? : Nat → Bool → Bool → List Token → Option (Yaml × List Token)
  | 0, _, _, _ => none
  | fuel + 1, inBlock, inMapping, ts =>
    match ts with
    | .scalar plain text :: ts => some (.scalar plain text, ts)
    | .flowSequence :: ts =>
      (flowItems? fuel true ts).map fun (items, ts) ↦ (.sequence items, ts)
    | .flowMapping :: ts =>
      (flowEntries? fuel true ts).map fun (entries, ts) ↦ (.mapping entries, ts)
    | .blockSequence :: ts =>
      if inBlock then (blockItems? fuel ts).map fun (items, ts) ↦ (.sequence items, ts) else none
    | .blockMapping :: ts =>
      if inBlock then (blockEntries? fuel ts).map fun (entries, ts) ↦ (.mapping entries, ts)
      else none
    | .item :: _ =>
      if inMapping then (columnItems? fuel ts).map fun (items, ts) ↦ (.sequence items, ts)
      else none
    | _ => none

/-- The items of a block sequence. -/
def blockItems? : Nat → List Token → Option (List Yaml × List Token)
  | 0, _ => none
  | fuel + 1, ts =>
    match ts with
    | .blockEnd :: ts => some ([], ts)
    | .item :: ts => do
      let (item, ts) ←
        if isLeftOut [.item, .blockEnd] ts then some (absent, ts) else value? fuel true false ts
      let (items, ts) ← blockItems? fuel ts
      return (item :: items, ts)
    | _ => none

/-- The items of a sequence in the column of its mapping, which has no end of its own. -/
def columnItems? : Nat → List Token → Option (List Yaml × List Token)
  | 0, _ => none
  | fuel + 1, ts =>
    match ts with
    | .item :: ts => do
      let (item, ts) ←
        if isLeftOut [.item, .key, .value, .blockEnd] ts then some (absent, ts)
        else value? fuel true false ts
      let (items, ts) ← columnItems? fuel ts
      return (item :: items, ts)
    | ts => some ([], ts)

/-- The entries of a block mapping. -/
def blockEntries? : Nat → List Token → Option (List (Yaml × Yaml) × List Token)
  | 0, _ => none
  | fuel + 1, ts =>
    match ts with
    | .blockEnd :: ts => some ([], ts)
    | .key :: ts => do
      let (key, ts) ← blockPart? fuel ts
      let (value, ts) ← match ts with
        | .value :: ts => blockPart? fuel ts
        | ts => some (absent, ts)
      let (entries, ts) ← blockEntries? fuel ts
      return ((key, value) :: entries, ts)
    | _ => none

/-- The key or the value of an entry of a block mapping. -/
def blockPart? : Nat → List Token → Option (Yaml × List Token)
  | 0, _ => none
  | fuel + 1, ts =>
    if isLeftOut [.key, .value, .blockEnd] ts then some (absent, ts) else value? fuel true true ts

/-- The items of a flow sequence; from the second on, a comma stands before each. An item may be a
single entry of a mapping. Where the key of that is left out, the mark in its place is passed over,
whichever it is. -/
def flowItems? : Nat → Bool → List Token → Option (List Yaml × List Token)
  | 0, _, _ => none
  | fuel + 1, first, ts =>
    match afterSeparator? first .flowSequenceEnd ts with
    | some (.flowSequenceEnd :: ts) => some ([], ts)
    | some (.key :: ts) => do
      let (key, ts) ← match ts with
        | .value :: ts => some (absent, ts)
        | .separator :: ts => some (absent, ts)
        | .flowSequenceEnd :: ts => some (absent, ts)
        | ts => value? fuel false false ts
      let (value, ts) ← flowValue? fuel .flowSequenceEnd ts
      let (items, ts) ← flowItems? fuel false ts
      return (.mapping [(key, value)] :: items, ts)
    | some ts => do
      let (item, ts) ← value? fuel false false ts
      let (items, ts) ← flowItems? fuel false ts
      return (item :: items, ts)
    | none => none

/-- The entries of a flow mapping; from the second on, a comma stands before each. -/
def flowEntries? : Nat → Bool → List Token → Option (List (Yaml × Yaml) × List Token)
  | 0, _, _ => none
  | fuel + 1, first, ts =>
    match afterSeparator? first .flowMappingEnd ts with
    | some (.flowMappingEnd :: ts) => some ([], ts)
    | some (.key :: ts) => do
      let (key, ts) ←
        if isLeftOut [.value, .separator, .flowMappingEnd] ts then some (absent, ts)
        else value? fuel false false ts
      let (value, ts) ← flowValue? fuel .flowMappingEnd ts
      let (entries, ts) ← flowEntries? fuel false ts
      return ((key, value) :: entries, ts)
    | some ts => do
      let (key, ts) ← value? fuel false false ts
      let (entries, ts) ← flowEntries? fuel false ts
      return ((key, absent) :: entries, ts)
    | none => none

/-- The value of a key in a flow collection that has some end. -/
def flowValue? : Nat → Token → List Token → Option (Yaml × List Token)
  | 0, _, _ => none
  | fuel + 1, ending, ts =>
    match ts with
    | .value :: ts =>
      if isLeftOut [.separator, ending] ts then some (absent, ts) else value? fuel false false ts
    | ts => some (absent, ts)

end

/-! ## Documents -/

/-- The value of the only document, which starts with a mark or with its value. -/
def document? (ts : List Token) : Option (Yaml × List Token) :=
  let fuel := 3 * ts.length + 3
  match ts with
  | [] => some (absent, [])
  | [.documentStart] => some (absent, [])
  | .documentStart :: ts =>
    if isLeftOut [.documentStart, .documentEnd] ts then some (absent, ts)
    else value? fuel true false ts
  | ts => value? fuel true false ts

/-- The value a text denotes. Nothing but end marks may follow its document. -/
def read? (s : String) : Option Yaml := do
  let (value, ts) ← document? (← tokens? s)
  if ts.all (· == .documentEnd) then some value else none

end SvgWorkbench.Yaml
