import SvgWorkbench.Markup.Fault
import SvgWorkbench.Text.Blank
import SvgWorkbench.Text.Numeral
import SvgWorkbench.Text.Split
import SvgWorkbench.Xml.Mark

/-!
# References and entities of the reader

The reader resolves references in text and in attribute values, once: what an entity stands for is
not looked at again. Entities are collected from the internal subset by their declarations' shape
alone, wherever that shape occurs.
-/

namespace SvgWorkbench.Markup

open Text

/-! ## Character numbers -/

/-- Reads digits, stopping at the first character that is none. -/
def digits (radix : Nat) : Nat → List Char → Except Char Nat
  | n, [] => .ok n
  | n, c :: cs =>
    if isDigit radix c then digits radix (n * radix + (digitValue? c).getD 0) cs
    else .error (leadingOctet c)

/-- The number of a character reference after its hash sign; no digits at all mean zero. -/
def characterNumber : List Char → Except ReferenceFault Nat
  | 'x' :: cs =>
    if 6 < octets cs then .error .longHexadecimal
    else (digits 16 0 cs).mapError .badHexadecimal
  | cs =>
    if 7 < octets cs then .error .longDecimal
    else (digits 10 0 cs).mapError .badDecimal

/-- The character of a number, for a reference between two octets. -/
def character (first last n : Nat) : Except ReferenceFault Char :=
  if n = 0 then .error (.null first last)
  else if n.isValidChar then .ok (Char.ofNat n)
  else .error (.noCharacter n)

/-! ## Names -/

/-- Declared entities with what they stand for, first declaration first. -/
abbrev Entities := List (List Char × List Char)

/-- What a name stands for: the predefined names come before the declared ones. -/
def resolve? (entities : Entities) (name : List Char) : Option (List Char) :=
  if name = ['l', 't'] then some ['<']
  else if name = ['g', 't'] then some ['>']
  else if name = ['a', 'm', 'p'] then some ['&']
  else if name = ['a', 'p', 'o', 's'] then some ['\x27']
  else if name = ['q', 'u', 'o', 't'] then some ['"']
  else (entities.find? (·.1 == name)).map (·.2)

/-- What a reference stands for; `first` is the octet of its ampersand. -/
def replacement (entities : Entities) (first : Nat) (body : List Char) :
    Except ReferenceFault (List Char) :=
  let last := first + 1 + octets body
  match body with
  | '#' :: digits => do
    let n ← characterNumber digits
    let c ← character first last n
    return [c]
  | name =>
    match resolve? entities name with
    | some text => .ok text
    | none => .error (.unknownName (first + 1) last (String.ofList name))

/-! ## Whole texts -/

/-- Whether a character goes on with what follows an ampersand. -/
def isReferenceChar (c : Char) : Bool := c != '&' && c != ';'

/-- Resolves the references of a text whose first character is octet `offset` of a value. -/
def unescape (entities : Entities) (offset : Nat) (cs : List Char) :
    Except ReferenceFault (List Char) :=
  match cs with
  | [] => .ok []
  | '&' :: rest =>
    let body := rest.takeWhile isReferenceChar
    match _h : rest.dropWhile isReferenceChar with
    | ';' :: after => do
      let text ← replacement entities offset body
      let more ← unescape entities (offset + 2 + octets body) after
      return text ++ more
    | _ => .error (.unclosed offset (offset + 1 + octets rest))
  | c :: rest => do
    let more ← unescape entities (offset + c.utf8Size) rest
    return c :: more
termination_by cs.length
decreasing_by
  · have h₁ := (List.dropWhile_suffix isReferenceChar : _ <:+ rest).length_le
    rw [_h] at h₁
    simp only [List.length_cons] at h₁ ⊢
    omega
  · simp

/-- Line breaks and tabs of an attribute value become spaces; a carriage return with its line feed
is one break. -/
def spaced : List Char → List Char
  | [] => []
  | '\r' :: '\n' :: cs => ' ' :: spaced cs
  | c :: cs => (if c = '\t' ∨ c = '\n' ∨ c = '\r' then ' ' else c) :: spaced cs

/-! ## Entity declarations -/

/-- Characters of a declared name. -/
def isEntityNameChar (c : Char) : Bool :=
  !isBlank c && c != '%' && c != '"' && c != '\x27' && c != '>'

/-- The name and the value of an entity declaration that starts a text, and what follows it. -/
def entityDeclaration? (cs : List Char) : Option ((List Char × List Char) × List Char) := do
  let rest ← afterPrefix? Xml.Mark.entity cs
  let named := trimStart rest
  let spaced := named.dropWhile isEntityNameChar
  let quoted := trimStart spaced
  match quoted with
  | q :: value =>
    let closing := trimStart ((value.dropWhile (· ≠ q)).drop 1)
    if named.length = rest.length ∨ spaced.length = named.length ∨ quoted.length = spaced.length ∨
        (q ≠ '"' ∧ q ≠ '\x27') ∨ value.all (· ≠ q) then none
    else match closing with
      | '>' :: after =>
        some ((named.takeWhile isEntityNameChar, value.takeWhile (· ≠ q)), after)
      | _ => none
  | [] => none

/-- Adds an entity; references in its value are resolved, as far as they can be, and an earlier
declaration of the name stays in force. -/
def Entities.declare (entities : Entities) (name value : List Char) : Entities :=
  if entities.any (·.1 == name) then entities
  else
    let resolved := match unescape entities 0 value with
      | .ok text => text
      | .error _ => value
    entities ++ [(name, resolved)]

theorem entityDeclaration?_length {cs after : List Char} {e : List Char × List Char}
    (h : entityDeclaration? cs = some (e, after)) : after.length < cs.length := by
  simp only [entityDeclaration?, bind, Option.bind_eq_some_iff] at h
  obtain ⟨rest, hrest, h⟩ := h
  have h₀ := congrArg List.length (afterPrefix?_eq_some_iff.1 hrest)
  have h₁ : (trimStart rest).length ≤ rest.length := (List.dropWhile_suffix _).length_le
  have h₂ : ((trimStart rest).dropWhile isEntityNameChar).length ≤ (trimStart rest).length :=
    (List.dropWhile_suffix _).length_le
  have h₃ : (trimStart ((trimStart rest).dropWhile isEntityNameChar)).length ≤ _ :=
    (List.dropWhile_suffix _).length_le
  split at h
  · next q value hq =>
    split at h
    · cases h
    · split at h
      · next hc =>
        cases h
        have h₄ : (trimStart ((value.dropWhile (· ≠ q)).drop 1)).length ≤ _ :=
          (List.dropWhile_suffix _).length_le
        have h₅ : (value.dropWhile (· ≠ q)).length ≤ value.length :=
          (List.dropWhile_suffix _).length_le
        rw [hc] at h₄
        rw [hq] at h₃
        simp only [List.length_cons, List.length_drop, List.length_append] at h₀ h₃ h₄
        omega
      · cases h
  · cases h

/-- Adds the entities a document type declaration declares. -/
def Entities.collect (entities : Entities) (cs : List Char) : Entities :=
  match cs with
  | [] => entities
  | c :: rest =>
    match _h : entityDeclaration? (c :: rest) with
    | some ((name, value), after) => (entities.declare name value).collect after
    | none => entities.collect rest
termination_by cs.length
decreasing_by
  · exact entityDeclaration?_length _h
  · simp

end SvgWorkbench.Markup
