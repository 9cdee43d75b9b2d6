import SvgWorkbench.Gate.Reference

/-!
# What surrounds the root element

Comments and instructions, the XML declaration, and the document type declaration with its internal
subset. Of the subset only entities matter: element, attribute list and notation declarations are
skipped up to the next greater-than sign.
-/

namespace SvgWorkbench.Gate

open Text Xml

/-! ## Comments and instructions -/

/-- Skips spaces, comments and instructions. -/
def misc (cs : List Char) : Except Fault (List Char) :=
  if startsWith ['<', '!', '-', '-'] (skipSpaces cs) then
    match _h : comment (skipSpaces cs) with
    | .error fault => .error fault
    | .ok rest => misc rest
  else if startsWith ['<', '?'] (skipSpaces cs) then
    match _h : instruction (skipSpaces cs) with
    | .error fault => .error fault
    | .ok rest => misc rest
  else .ok (skipSpaces cs)
termination_by cs.length
decreasing_by
  · exact Nat.lt_of_lt_of_le (comment_length _h) (skipSpaces_length_le cs)
  · exact Nat.lt_of_lt_of_le (instruction_length _h) (skipSpaces_length_le cs)

/-! ## The XML declaration -/

/-- Skips spaces, which may be absent only before the end of a declaration. -/
def declarationSpaces (cs : List Char) : Except Fault (List Char) :=
  match cs with
  | [] => .ok []
  | c :: rest =>
    if isSpace c then .ok (skipSpaces rest)
    else if startsWith Mark.closeInstruction cs then .ok cs
    else fail (.unexpected .space (leadingOctet c)) cs

/-- Reads an attribute of a declaration if its name starts with a given word. -/
def optionalAttribute (word cs : List Char) : Except Fault (List Char) :=
  if startsWith word cs then (writtenAttribute cs).map Prod.snd else .ok cs

/-- Reads an XML declaration after its opening mark. -/
def declaration (cs : List Char) : Except Fault (List Char) := do
  let rest ← declarationSpaces cs
  let _ ← mark Mark.version rest
  let (_, rest) ← writtenAttribute rest
  let rest ← declarationSpaces rest
  let rest ←
    if startsWith Mark.encoding rest then
      (optionalAttribute Mark.encoding rest).bind declarationSpaces
    else .ok rest
  let rest ← optionalAttribute Mark.standalone rest
  mark Mark.closeInstruction (skipSpaces rest)

/-- Reads an XML declaration, if the text starts with one; a byte order mark may stand before it. -/
def optionalDeclaration (cs : List Char) : Except Fault (List Char) :=
  let cs := (afterPrefix? ['\uFEFF'] cs).getD cs
  if startsWith Mark.declaration cs then declaration (cs.drop 5) else .ok cs

/-! ## External identifiers -/

/-- Reads spaces and a quoted literal. -/
def spacedLiteral (cs : List Char) : Except Fault (List Char) := do
  let rest ← spaces cs
  let (q, rest) ← quote rest
  let (_, rest) ← quotedRest q rest
  return rest

/-- Reads an external identifier, if there is one; the flag says whether there was. -/
def externalId (cs : List Char) : Except Fault (Bool × List Char) :=
  match afterPrefix? Mark.system cs, afterPrefix? Mark.publicWord cs with
  | some rest, _ => do
    let rest ← spacedLiteral rest
    return (true, rest)
  | none, some rest => do
    let rest ← spacedLiteral rest
    let rest ← spacedLiteral rest
    return (true, rest)
  | none, none => .ok (false, cs)

/-! ## Entity declarations -/

/-- Reads what an entity stands for; only a quoted value is kept. A `general` entity may name a
notation after its external identifier. -/
def entityDefinition (general : Bool) (cs : List Char) :
    Except Fault (Option (List Char × Nat) × List Char) :=
  match cs with
  | [] => fail .endOfText []
  | c :: rest =>
    if c = '"' ∨ c = '\x27' then do
      let (value, after) ← quotedRest c rest
      return (some (value, after.length + 1), after)
    else if c = 'S' ∨ c = 'P' then do
      let (present, rest) ← externalId cs
      if !present then fail .invalidExternalId rest
      else if !general then return (none, rest)
      else match afterPrefix? Mark.notationWord (skipSpaces rest) with
        | none => return (none, skipSpaces rest)
        | some rest => do
          let rest ← spaces rest
          let (_, rest) ← optionalName rest
          return (none, rest)
    else fail (.unexpected .entityDefinition (leadingOctet c)) cs

/-- Reads an entity declaration after its opening mark. -/
def entityDeclaration (cs : List Char) : Except Fault (Option Entity × List Char) := do
  let rest ← spaces cs
  let (general, rest) ← match rest with
    | '%' :: rest => do
      let rest ← spaces rest
      pure (false, rest)
    | rest => pure (true, rest)
  let (entityName, rest) ← name rest
  let rest ← spaces rest
  let (definition, rest) ← entityDefinition general rest
  let rest ← char '>' (skipSpaces rest)
  return (definition.map fun (value, after) ↦ ⟨entityName, value, after⟩, rest)

/-! ## The document type declaration -/

/-- Whether a declaration starts whose content does not matter. -/
def startsSkipped (cs : List Char) : Bool :=
  startsWith Mark.elementType cs || startsWith Mark.attributeList cs ||
    startsWith Mark.notationType cs

/-- One piece of an internal subset. -/
inductive SubsetPiece where
  /-- A declaration, which may be of an entity, or something without meaning here. -/
  | item (entity : Option Entity)
  /-- The end of the document type declaration. -/
  | done

/-- Reads the piece of an internal subset that stands first; `start` is what was left of the text
at the document type declaration. -/
def subsetPiece (start cs : List Char) : Except Fault (SubsetPiece × List Char) :=
  match afterPrefix? Mark.entity cs with
  | some rest => do
    let (entity, rest) ← entityDeclaration rest
    return (.item entity, rest)
  | none =>
    if startsWith Mark.openComment cs then do
      let rest ← comment cs
      return (.item none, rest)
    else if startsWith Mark.openInstruction cs then do
      let rest ← instruction cs
      return (.item none, rest)
    else if startsSkipped cs then
      match cs.dropWhile (· ≠ '>') with
      | [] => fail .unknownToken start
      | _ :: rest => return (.item none, rest)
    else match cs with
      | ']' :: rest => do
        let rest ← char '>' (skipSpaces rest)
        return (.done, rest)
      | _ => fail .unknownToken cs

/-- Reads an internal subset up to the end of the document type declaration or of the text. The
bound `fuel` is at least the length of the text. -/
def subset (start : List Char) : Nat → List Char → Except Fault (List Entity × List Char)
  | 0, cs => .ok ([], cs)
  | fuel + 1, cs =>
    if cs.isEmpty then .ok ([], [])
    else do
      let (piece, rest) ← subsetPiece start (skipSpaces cs)
      match piece with
      | .done => return ([], rest)
      | .item entity => do
        let (entities, after) ← subset start fuel rest
        return (entity.toList ++ entities, after)

/-- Reads a document type declaration; `start` is the text from its opening mark, `cs` the text
after that mark. -/
def doctype (start cs : List Char) : Except Fault (List Entity × List Char) := do
  let rest ← spaces cs
  let (_, rest) ← optionalName rest
  let (_, rest) ← externalId (skipSpaces rest)
  match skipSpaces rest with
  | [] => fail .endOfText []
  | '[' :: rest => subset start rest.length rest
  | '>' :: rest => return ([], rest)
  | c :: rest => fail (.unexpected .subsetOrEnd (leadingOctet c)) (c :: rest)

end SvgWorkbench.Gate
