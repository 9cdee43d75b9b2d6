import SvgWorkbench.Gate.Lexeme
import SvgWorkbench.Text.Numeral

/-!
# References

A reference stands for a character, by number or by one of five predefined names, or for a declared
entity. Entities are expanded where they are met, so a text that looks short can unfold without end.
Two bounds refuse that: no more than ten entities inside one another, and no more than 255
references met inside entities since the text itself was last read.
-/

namespace SvgWorkbench.Gate

open Text Xml

/-! ## Reading a reference -/

/-- What a reference stands for. -/
inductive Reference where
  /-- A character. -/
  | char (c : Char)
  /-- The entity of a name. -/
  | entity (name : List Char)
  deriving DecidableEq, Repr

/-- The character with a number, or the replacement character where there is none. -/
def charOfNumber (n : Nat) : Char := if n.isValidChar then Char.ofNat n else '\uFFFD'

/-- A character reference to a number of 32 bits, unless no document may hold the character. -/
def Reference.ofNumber? (n : Nat) : Option Reference :=
  if n < UInt32.size && isDocumentChar (charOfNumber n) then some (.char (charOfNumber n)) else none

/-- The character a name stands for without being declared. -/
def predefined? (name : List Char) : Option Char :=
  if name = ['l', 't'] then some '<'
  else if name = ['g', 't'] then some '>'
  else if name = ['a', 'm', 'p'] then some '&'
  else if name = ['a', 'p', 'o', 's'] then some '\x27'
  else if name = ['q', 'u', 'o', 't'] then some '"'
  else none

/-- Reads a reference after its ampersand, without the closing semicolon. -/
def referenceBody? : List Char → Option (Reference × List Char)
  | '#' :: 'x' :: cs => do
    let n ← numeral? 16 (cs.takeWhile (isDigit 16))
    let r ← Reference.ofNumber? n
    return (r, cs.dropWhile (isDigit 16))
  | '#' :: cs => do
    let n ← numeral? 10 (cs.takeWhile (isDigit 10))
    let r ← Reference.ofNumber? n
    return (r, cs.dropWhile (isDigit 10))
  | cs =>
    match name cs with
    | .ok (n, rest) => some ((predefined? n).elim (.entity n) .char, rest)
    | .error _ => none

/-- Reads a reference after its ampersand, up to and including the semicolon. -/
def reference? (cs : List Char) : Option (Reference × List Char) :=
  match referenceBody? cs with
  | some (r, ';' :: rest) => some (r, rest)
  | _ => none

theorem referenceBody?_length {cs rest : List Char} {r : Reference}
    (h : referenceBody? cs = some (r, rest)) : rest.length ≤ cs.length := by
  unfold referenceBody? at h
  split at h
  · next cs =>
    simp only [bind, Option.bind_eq_some_iff, pure, Option.some.injEq, Prod.mk.injEq] at h
    obtain ⟨_, _, _, _, _, rfl⟩ := h
    have : (cs.dropWhile (isDigit 16)).length ≤ cs.length := (List.dropWhile_suffix _).length_le
    simp only [List.length_cons]
    omega
  · next cs _ =>
    simp only [bind, Option.bind_eq_some_iff, pure, Option.some.injEq, Prod.mk.injEq] at h
    obtain ⟨_, _, _, _, _, rfl⟩ := h
    have : (cs.dropWhile (isDigit 10)).length ≤ cs.length := (List.dropWhile_suffix _).length_le
    simp only [List.length_cons]
    omega
  · split at h
    · next hn => cases h; exact Nat.le_of_lt (name_length hn)
    · cases h

theorem reference?_length {cs rest : List Char} {r : Reference}
    (h : reference? cs = some (r, rest)) : rest.length < cs.length := by
  unfold reference? at h
  split at h
  · next hb => cases h; exact referenceBody?_length hb
  · cases h

/-! ## Entities and bounds -/

/-- A declared entity with its text, which is a piece of the markup. -/
structure Entity where
  /-- The name it is referred to by. -/
  name : List Char
  /-- The text between the quotes of its declaration. -/
  value : List Char
  /-- How many characters of the markup follow the text. -/
  after : Nat
  deriving Repr

/-- How deep entities may be nested. -/
def maxDepth : Nat := 10

/-- How many references may be met inside entities. -/
def maxReferences : Nat := 255

/-- The entity a reference names: the one declared first. -/
def declared? (entities : List Entity) (name : List Char) : Option Entity :=
  entities.find? (·.name == name)

/-- Counts a reference that is met inside an entity. -/
def countReference (nested : Bool) (place references : Nat) : Except Fault Nat :=
  if !nested then .ok references
  else if references = maxReferences then .error ⟨.referenceLoop, place⟩
  else .ok (references + 1)

/-- The count after an entity has been read; it starts anew in the text itself. -/
def recount (nested : Bool) (references : Nat) : Nat := if nested then references else 0

/-! ## Attribute values -/

/-- A space of markup in an attribute value counts as a space character. -/
def blankToSpace (c : Char) : Char := if isSpace c then ' ' else c

/-- A way to read an entity in an attribute value: from the place after the reference, the entity
and the references counted so far to its text and the references counted then. -/
abbrev ValueExpansion := Nat → Entity → Nat → Except Fault (List Char × Nat)

/-- Resolves the references of an attribute value that is followed by `after` characters. -/
def valueText (entities : List Entity) (expand : ValueExpansion) (nested : Bool) (after : Nat)
    (references : Nat) (cs : List Char) : Except Fault (List Char × Nat) :=
  match cs with
  | [] => .ok ([], references)
  | '\r' :: '\n' :: rest => valueText entities expand nested after references ('\n' :: rest)
  | '&' :: rest =>
    let place := rest.length + 1 + after
    match _h : reference? rest with
    | none => .error ⟨.malformedReference, place⟩
    | some (.char c, rest') =>
      if nested && c == '<' then .error ⟨.unescapedLessThan, place⟩
      else do
        let (text, references) ← valueText entities expand nested after references rest'
        return ((if nested then blankToSpace c else c) :: text, references)
    | some (.entity name, rest') =>
      match declared? entities name with
      | none => .error ⟨.unknownReference (String.ofList name), place⟩
      | some entity => do
        let place := rest'.length + after
        let references ← countReference nested place references
        let (inner, references) ← expand place entity references
        let (text, references) ←
          valueText entities expand nested after (recount nested references) rest'
        return (inner ++ text, references)
  | c :: rest => do
    let (text, references) ← valueText entities expand nested after references rest
    return (blankToSpace c :: text, references)
termination_by cs.length
decreasing_by
  · simp
  · exact Nat.lt_succ_of_lt (reference?_length _h)
  · exact Nat.lt_succ_of_lt (reference?_length _h)
  · simp

/-- Reads an entity in an attribute value when that many more may be nested. -/
def expandValue (entities : List Entity) : Nat → ValueExpansion
  | 0 => fun place _ _ ↦ .error ⟨.referenceLoop, place⟩
  | depth + 1 => fun _ entity references ↦
    valueText entities (expandValue entities depth) true entity.after references entity.value

end SvgWorkbench.Gate
