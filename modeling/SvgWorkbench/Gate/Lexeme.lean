import SvgWorkbench.Gate.Fault
import SvgWorkbench.Text.Octets
import SvgWorkbench.Text.Split
import SvgWorkbench.Xml.Character
import SvgWorkbench.Xml.Mark

/-!
# Lexemes of strict markup

The smallest pieces of the strict grammar: marks, spaces, names, quoted values, comments and
processing instructions. Each takes what is left of the text and returns what is left after it, or
the fault it stops at.

The loops of the grammar end because each lexeme takes at least one character. The section on
shrinking states this once for every lexeme a loop goes around on.
-/

namespace SvgWorkbench.Gate

open Text Xml

/-! ## Marks and spaces -/

/-- Reads one given character. -/
def char (b : Char) : List Char → Except Fault (List Char)
  | [] => fail .endOfText []
  | c :: rest =>
    if c = b then .ok rest else fail (.unexpected (.char b) (leadingOctet c)) (c :: rest)

/-- Reads a fixed word or mark. -/
def mark (word cs : List Char) : Except Fault (List Char) :=
  match afterPrefix? word cs with
  | some rest => .ok rest
  | none => fail (.missing (String.ofList word)) cs

/-- Reads one space or more. -/
def spaces : List Char → Except Fault (List Char)
  | [] => fail .endOfText []
  | c :: rest =>
    if isSpace c then .ok (skipSpaces rest)
    else fail (.unexpected .space (leadingOctet c)) (c :: rest)

/-- Reads an opening quote and says which one it is. -/
def quote : List Char → Except Fault (Char × List Char)
  | [] => fail .endOfText []
  | c :: rest =>
    if c = '"' ∨ c = '\x27' then .ok (c, rest)
    else fail (.unexpected .quote (leadingOctet c)) (c :: rest)

/-- Reads an equals sign with spaces around it. -/
def equals (cs : List Char) : Except Fault (List Char) := do
  let rest ← char '=' (skipSpaces cs)
  return skipSpaces rest

/-- Reads the characters before the first place where `stop` holds of what is left. -/
def charsUntil (stop : List Char → Bool) : List Char → Except Fault (List Char × List Char)
  | [] => .ok ([], [])
  | c :: rest =>
    if !isDocumentChar c then fail (.forbiddenChar c) (c :: rest)
    else if stop (c :: rest) then .ok ([], c :: rest)
    else match charsUntil stop rest with
      | .ok (text, after) => .ok (c :: text, after)
      | .error fault => .error fault

/-- Reads any characters up to and including a closing quote. -/
def quotedRest (q : Char) (cs : List Char) : Except Fault (List Char × List Char) := do
  let rest ← char q (cs.dropWhile (· ≠ q))
  return (cs.takeWhile (· ≠ q), rest)

/-! ## Names -/

/-- Reads a name that may be empty, but only where the text ends. -/
def optionalName : List Char → Except Fault (List Char × List Char)
  | [] => .ok ([], [])
  | c :: rest =>
    if isNameStart c then .ok (c :: rest.takeWhile isNameChar, rest.dropWhile isNameChar)
    else fail .invalidName (c :: rest)

/-- Reads a name. -/
def name (cs : List Char) : Except Fault (List Char × List Char) :=
  match cs with
  | [] => fail .invalidName []
  | c :: rest => optionalName (c :: rest)

/-- A name with an optional namespace prefix. -/
structure QName where
  /-- What stands before the colon; empty without one. -/
  space : List Char
  /-- What stands after the colon. -/
  base : List Char
  deriving DecidableEq, Repr

/-- How messages write a qualified name. -/
def QName.text (q : QName) : String :=
  String.ofList (if q.space.isEmpty then q.base else q.space ++ ':' :: q.base)

/-- Whether a text is empty or starts like a name. -/
def startsName : List Char → Bool
  | [] => true
  | c :: _ => isNameStart c

/-- The prefix and the local part of a run of name characters, if both start like names. -/
def QName.ofChars? (run : List Char) : Option QName :=
  match splitFirst ':' run with
  | none => if run.isEmpty || !startsName run then none else some ⟨[], run⟩
  | some (space, base) =>
    if base.contains ':' || base.isEmpty || !startsName space || !startsName base then none
    else some ⟨space, base⟩

/-- Reads a qualified name. -/
def qname (cs : List Char) : Except Fault (QName × List Char) :=
  match QName.ofChars? (cs.takeWhile isNameChar) with
  | some q => .ok (q, cs.dropWhile isNameChar)
  | none => fail .invalidName cs

/-! ## Comments, instructions, sections -/

/-- Reads a comment. -/
def comment (cs : List Char) : Except Fault (List Char) := do
  let rest ← mark Mark.openComment cs
  let (text, rest) ← charsUntil (startsWith Mark.closeComment) rest
  let rest ← mark Mark.closeComment rest
  if occursIn ['-', '-'] text || text.getLast? == some '-' then fail .hyphensInComment cs
  else return rest

/-- Reads a processing instruction, which an XML declaration is not. -/
def instruction (cs : List Char) : Except Fault (List Char) :=
  if startsWith Mark.declaration cs then fail .misplacedDeclaration cs
  else do
    let rest ← mark Mark.openInstruction cs
    let (_, rest) ← name rest
    let (_, rest) ← charsUntil (startsWith Mark.closeInstruction) (skipSpaces rest)
    mark Mark.closeInstruction rest

/-- Reads a CDATA section. -/
def cdata (cs : List Char) : Except Fault (List Char) := do
  let rest ← mark Mark.openSection cs
  let (_, rest) ← charsUntil (startsWith Mark.closeSection) rest
  mark Mark.closeSection rest

/-! ## Attributes -/

/-- An attribute as it is written, with the places messages may point to. -/
structure Attribute where
  /-- The name. -/
  qname : QName
  /-- The text between the quotes. -/
  value : List Char
  /-- How many characters there are from the name to the end. -/
  start : Nat
  /-- How many characters there are from the closing quote to the end. -/
  valueEnd : Nat
  deriving Repr

/-- Reads an attribute. -/
def writtenAttribute (cs : List Char) : Except Fault (Attribute × List Char) := do
  let (q, rest) ← qname cs
  let rest ← equals rest
  let (mark, rest) ← quote rest
  let (value, rest) ← charsUntil (fun r ↦ r.head? == some mark || r.head? == some '<') rest
  let after ← char mark rest
  return (⟨q, value, cs.length, rest.length⟩, after)

/-! ## Every lexeme shrinks the text -/

theorem char_length {b : Char} {cs rest : List Char} (h : char b cs = .ok rest) :
    rest.length < cs.length := by
  cases cs with
  | nil => simp [char, fail] at h
  | cons c cs =>
    simp only [char, fail] at h
    split at h <;> simp_all

theorem mark_length {word cs rest : List Char} (h : mark word cs = .ok rest) :
    rest.length + word.length = cs.length := by
  unfold mark at h
  split at h
  · next h' => cases h; rw [afterPrefix?_eq_some_iff.1 h']; simp; omega
  · simp [fail] at h

theorem quote_length {cs rest : List Char} {q : Char} (h : quote cs = .ok (q, rest)) :
    rest.length < cs.length := by
  cases cs with
  | nil => simp [quote, fail] at h
  | cons c cs =>
    simp only [quote, fail] at h
    split at h <;> simp_all

theorem equals_length {cs rest : List Char} (h : equals cs = .ok rest) :
    rest.length < cs.length := by
  have h₁ := skipSpaces_length_le cs
  simp only [equals, bind, Except.bind, pure, Except.pure] at h
  split at h
  · cases h
  · next r hr =>
    cases h
    have h₂ := char_length hr
    have h₃ := skipSpaces_length_le r
    omega

theorem charsUntil_length {stop : List Char → Bool} {cs text rest : List Char}
    (h : charsUntil stop cs = .ok (text, rest)) : rest.length ≤ cs.length := by
  induction cs generalizing text with
  | nil => simp_all [charsUntil]
  | cons c cs ih =>
    simp only [charsUntil, fail] at h
    split at h
    · cases h
    · split at h
      · cases h; simp
      · split at h
        · next hc => cases h; exact Nat.le_trans (ih hc) (by simp)
        · cases h

theorem name_length {cs text rest : List Char} (h : name cs = .ok (text, rest)) :
    rest.length < cs.length := by
  cases cs with
  | nil => simp [name, fail] at h
  | cons c cs =>
    simp only [name, optionalName, fail] at h
    split at h
    · cases h
      exact Nat.lt_succ_of_le (List.dropWhile_suffix isNameChar).length_le
    · cases h

theorem qname_length {cs rest : List Char} {q : QName} (h : qname cs = .ok (q, rest)) :
    rest.length ≤ cs.length := by
  unfold qname at h
  split at h
  · cases h; exact (List.dropWhile_suffix isNameChar).length_le
  · simp [fail] at h

theorem comment_length {cs rest : List Char} (h : comment cs = .ok rest) :
    rest.length < cs.length := by
  simp only [comment, bind, Except.bind, pure, Except.pure, fail] at h
  split at h
  · cases h
  · next r hr =>
    split at h
    · cases h
    · next p hp =>
      split at h
      · cases h
      · next r' hr' =>
        split at h
        · cases h
        · cases h
          have h₁ := mark_length hr
          have h₂ := charsUntil_length hp
          have h₃ := mark_length hr'
          simp only [Mark.openComment, List.length_cons] at h₁
          omega

theorem instruction_length {cs rest : List Char} (h : instruction cs = .ok rest) :
    rest.length < cs.length := by
  simp only [instruction, bind, Except.bind, fail] at h
  split at h
  · cases h
  · split at h
    · cases h
    · next r hr =>
      split at h
      · cases h
      · next p hp =>
        split at h
        · cases h
        · next p' hp' =>
          have h₁ := mark_length hr
          have h₂ := name_length hp
          have h₃ := charsUntil_length hp'
          have h₄ := mark_length h
          have h₅ := skipSpaces_length_le p.2
          simp only [Mark.openInstruction, List.length_cons] at h₁
          omega

theorem cdata_length {cs rest : List Char} (h : cdata cs = .ok rest) :
    rest.length < cs.length := by
  simp only [cdata, bind, Except.bind] at h
  split at h
  · cases h
  · next r hr =>
    split at h
    · cases h
    · next p hp =>
      have h₁ := mark_length hr
      have h₂ := charsUntil_length hp
      have h₃ := mark_length h
      simp only [Mark.openSection, List.length_cons] at h₁
      omega

theorem writtenAttribute_length {cs rest : List Char} {a : Attribute}
    (h : writtenAttribute cs = .ok (a, rest)) : rest.length < cs.length := by
  simp only [writtenAttribute, bind, Except.bind, pure, Except.pure] at h
  split at h
  · cases h
  · next p hp =>
    split at h
    · cases h
    · next r hr =>
      split at h
      · cases h
      · next p' hp' =>
        split at h
        · cases h
        · next p'' hp'' =>
          split at h
          · cases h
          · next r' hr' =>
            cases h
            have h₁ := qname_length hp
            have h₂ := equals_length hr
            have h₃ := quote_length hp'
            have h₄ := charsUntil_length hp''
            have h₅ := char_length hr'
            omega

end SvgWorkbench.Gate
