import SvgWorkbench.Gate.Lexeme

/-!
# The pieces of element content

Inside an element there are comments, sections, instructions, tags and runs of text. Scanning a
piece looks at its grammar only. What a tag means is checked attribute by attribute, in the order of
the text, so the scan of a start tag hands over the attributes it has read together with the way it
ended, which may be a fault: an earlier attribute's meaning is then looked at before that fault.
-/

namespace SvgWorkbench.Gate

open Text Xml

/-! ## Start tags -/

/-- How the scan of a start tag ends. -/
inductive TagEnd where
  /-- The tag closes itself. -/
  | empty
  /-- The tag opens an element. -/
  | opened
  /-- The text ends where an attribute or the end of the tag could stand; nothing is opened. -/
  | cut
  deriving DecidableEq, Repr

/-- Reads attributes up to the end of the tag. -/
def tagBody (cs : List Char) : List Attribute × Except Fault TagEnd × List Char :=
  match cs with
  | [] => ([], .ok .cut, [])
  | c :: cs' =>
    match skipSpaces (c :: cs') with
    | [] => ([], fail .endOfText [], [])
    | '/' :: rest =>
      match char '>' rest with
      | .ok after => ([], .ok .empty, after)
      | .error fault => ([], .error fault, [])
    | '>' :: rest => ([], .ok .opened, rest)
    | _ =>
      if !isSpace c then ([], fail (.unexpected .space (leadingOctet c)) (c :: cs'), [])
      else match _h : writtenAttribute (skipSpaces (c :: cs')) with
        | .error fault => ([], .error fault, [])
        | .ok (a, rest) =>
          let (as, ending, after) := tagBody rest
          (a :: as, ending, after)
termination_by cs.length
decreasing_by
  have h₁ := writtenAttribute_length _h
  have h₂ := skipSpaces_length_le (c :: cs')
  omega

/-- A start tag as it is written. -/
structure StartTag where
  /-- The name of the element. -/
  qname : QName
  /-- How many characters there are from the name to the end. -/
  start : Nat
  /-- The attributes that were read. -/
  attributes : List Attribute
  /-- How the tag ends after them. -/
  ending : Except Fault TagEnd

/-- Reads a start tag from its name on. -/
def startTag (cs : List Char) : Except Fault (StartTag × List Char) := do
  let (q, rest) ← qname cs
  let body := tagBody rest
  return (⟨q, cs.length, body.1, body.2.1⟩, body.2.2)

/-! ## Pieces -/

/-- A piece of element content. -/
inductive Piece where
  /-- A comment, a CDATA section or a processing instruction. -/
  | silent
  /-- A start tag. -/
  | startTag (tag : StartTag)
  /-- A close tag. -/
  | closeTag (qname : QName)
  /-- A run of characters without a less-than sign. -/
  | run (text : List Char)

/-- Reads a close tag. -/
def closeTag (cs : List Char) : Except Fault (QName × List Char) := do
  let rest ← mark Mark.closeTag cs
  let (q, rest) ← qname rest
  let rest ← char '>' (skipSpaces rest)
  return (q, rest)

/-- Reads a run of text, in which the end mark of a section must not stand. -/
def textRun (cs : List Char) : Except Fault (List Char × List Char) := do
  let (text, rest) ← charsUntil (fun r ↦ r.head? == some '<') cs
  if occursIn Mark.closeSection text then fail .sectionEndInText rest else return (text, rest)

/-- Reads the piece that stands first in a text that is not empty. -/
def piece (cs : List Char) : Except Fault (Piece × List Char) :=
  if startsWith Mark.openComment cs then (comment cs).map fun rest ↦ (.silent, rest)
  else if startsWith Mark.openSection cs then (cdata cs).map fun rest ↦ (.silent, rest)
  else if startsWith Mark.bang cs then fail .unknownToken cs
  else if startsWith Mark.openInstruction cs then (instruction cs).map fun rest ↦ (.silent, rest)
  else if startsWith Mark.closeTag cs then (closeTag cs).map fun (q, rest) ↦ (.closeTag q, rest)
  else match cs with
    | ['<'] => fail .unknownToken cs
    | '<' :: rest => (startTag rest).map fun (tag, after) ↦ (.startTag tag, after)
    | _ => (textRun cs).map fun (text, rest) ↦ (.run text, rest)

/-! ## Every piece shrinks the text -/

theorem tagBody_length (cs : List Char) : (tagBody cs).2.2.length ≤ cs.length := by
  fun_induction tagBody cs with
  | case1 => simp
  | case2 => simp
  | case3 c cs' rest h after h' =>
    have h₁ := char_length h'
    have h₂ := skipSpaces_length_le (c :: cs')
    rw [h] at h₂
    simp only [List.length_cons] at h₂ ⊢
    omega
  | case4 => simp
  | case5 c cs' rest h =>
    have h₂ := skipSpaces_length_le (c :: cs')
    rw [h] at h₂
    simp only [List.length_cons] at h₂ ⊢
    omega
  | case6 => simp
  | case7 => simp
  | case8 c cs' _ a rest h as ending after h' _ _ _ ih =>
    have h₁ := writtenAttribute_length h
    have h₂ := skipSpaces_length_le (c :: cs')
    simp only [h'] at ih
    simp only
    omega

private theorem length_of_map_ok {α β : Type} {r : Except Fault α} {f : α → β} {b : β}
    (h : r.map f = .ok b) : ∃ a, r = .ok a ∧ b = f a := by
  cases r with
  | error => simp [Except.map] at h
  | ok a => exact ⟨a, rfl, by simp [Except.map] at h; exact h.symm⟩

theorem startTag_length {cs rest : List Char} {tag : StartTag}
    (h : startTag cs = .ok (tag, rest)) : rest.length ≤ cs.length := by
  simp only [startTag, bind, Except.bind, pure, Except.pure] at h
  split at h
  · cases h
  · next p hp =>
    cases h
    have h₁ := qname_length hp
    have h₂ := tagBody_length p.2
    omega

theorem closeTag_length {cs rest : List Char} {q : QName}
    (h : closeTag cs = .ok (q, rest)) : rest.length < cs.length := by
  simp only [closeTag, bind, Except.bind, pure, Except.pure] at h
  split at h
  · cases h
  · next r hr =>
    split at h
    · cases h
    · next p hp =>
      split at h
      · cases h
      · next r' hr' =>
        cases h
        have h₁ := mark_length hr
        have h₂ := qname_length hp
        have h₃ := skipSpaces_length_le p.2
        have h₄ := char_length hr'
        simp only [Mark.closeTag, List.length_cons] at h₁
        omega

theorem textRun_length {c : Char} {cs text rest : List Char} (hc : c ≠ '<')
    (h : textRun (c :: cs) = .ok (text, rest)) : rest.length < (c :: cs).length := by
  simp only [textRun, bind, Except.bind, pure, Except.pure, fail, charsUntil] at h
  split at h
  · cases h
  · next p hp =>
    split at hp
    · cases hp
    · simp only [List.head?_cons, beq_iff_eq, Option.some.injEq, hc, if_false] at hp
      split at hp
      · next text' after hp' =>
        cases hp
        have h₁ := charsUntil_length hp'
        split at h <;> cases h
        simp only [List.length_cons]
        omega
      · cases hp

theorem piece_length {cs rest : List Char} {p : Piece} (hcs : cs ≠ [])
    (h : piece cs = .ok (p, rest)) : rest.length < cs.length := by
  unfold piece at h
  repeat' split at h
  · obtain ⟨a, ha, hb⟩ := length_of_map_ok h
    cases hb; exact comment_length ha
  · obtain ⟨a, ha, hb⟩ := length_of_map_ok h
    cases hb; exact cdata_length ha
  · simp [fail] at h
  · obtain ⟨a, ha, hb⟩ := length_of_map_ok h
    cases hb; exact instruction_length ha
  · obtain ⟨a, ha, hb⟩ := length_of_map_ok h
    cases hb; exact closeTag_length ha
  · simp [fail] at h
  · obtain ⟨a, ha, hb⟩ := length_of_map_ok h
    cases hb; exact Nat.lt_succ_of_le (startTag_length ha)
  · next hne =>
    obtain ⟨a, ha, hb⟩ := length_of_map_ok h
    cases hb
    cases cs with
    | nil => exact absurd rfl hcs
    | cons c cs =>
      exact textRun_length (fun hc ↦ hne cs (by rw [hc])) ha

end SvgWorkbench.Gate
