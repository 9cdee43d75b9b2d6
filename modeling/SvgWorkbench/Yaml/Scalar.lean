import SvgWorkbench.Text.Numeral

/-!
# YAML scalars

Scalars are plain or stand between quotes, and may go on over several lines. The blanks and line
breaks among their characters make up gaps: a gap on one line stays as it is, and one with breaks
is folded, so that a single break counts as a space. A text has been given line feeds for all breaks
that are no separators of Unicode before scalars are read.
-/

namespace SvgWorkbench.Yaml

open Text

/-! ## Gaps -/

/-- A space or a tab. -/
def isInline (c : Char) : Bool := c == ' ' || c == '\t'

/-- A line break: a line feed or one of the separators of lines and paragraphs. -/
def isBreak (c : Char) : Bool := c == '\n' || c == '\u2028' || c == '\u2029'

/-- A blank or a line break. -/
def isGap (c : Char) : Bool := isInline c || isBreak c

/-- Whether the text ends here or goes on with a blank or a line break. -/
def atGap (cs : List Char) : Bool := cs.head?.all isGap

/-- What a gap stands for in a scalar. The first line feed joins the lines and only the breaks after
it remain; a separator remains as well. -/
def fold (gap : List Char) : List Char :=
  match gap.filter isBreak with
  | [] => gap
  | ['\n'] => [' ']
  | '\n' :: breaks => breaks
  | breaks => breaks

/-- The character a document mark at the start of a line is made of: three hyphens start a document
and three periods end it. -/
def documentMark? : List Char → Option Char
  | a :: b :: c :: cs =>
    if a = b ∧ b = c ∧ (a = '-' ∨ a = '.') ∧ atGap cs then some a else none
  | _ => none

/-- Whether a line starts with a document mark after a gap, which is held latest character first. -/
def marksDocument (gap cs : List Char) : Bool :=
  gap.head?.any isBreak && (documentMark? cs).isSome

/-! ## Single quotes -/

/-- The rest of a scalar in single quotes, after a gap that is held latest character first. A quote
inside is written twice. -/
def singleQuoted? (gap : List Char) : List Char → Option (List Char × List Char)
  | [] => none
  | c :: cs =>
    if isGap c then singleQuoted? (c :: gap) cs
    else if marksDocument gap (c :: cs) then none
    else if c = '\x27' then
      match cs with
      | '\x27' :: cs' =>
        (singleQuoted? [] cs').map fun (text, rest) ↦ (fold gap.reverse ++ '\x27' :: text, rest)
      | _ => some (fold gap.reverse, cs)
    else (singleQuoted? [] cs).map fun (text, rest) ↦ (fold gap.reverse ++ c :: text, rest)

/-! ## Double quotes -/

/-- The character a letter escape stands for. -/
def letterEscape? : Char → Option Char
  | '0' => some '\x00'
  | 'a' => some '\x07'
  | 'b' => some '\x08'
  | 't' => some '\t'
  | '\t' => some '\t'
  | 'n' => some '\n'
  | 'v' => some '\x0b'
  | 'f' => some '\x0c'
  | 'r' => some '\r'
  | 'e' => some '\x1b'
  | ' ' => some ' '
  | '"' => some '"'
  | '/' => some '/'
  | '\\' => some '\\'
  | 'N' => some '\u0085'
  | '_' => some '\u00a0'
  | 'L' => some '\u2028'
  | 'P' => some '\u2029'
  | _ => none

/-- The number of digits of a numeric escape. -/
def escapeWidth? : Char → Option Nat
  | 'x' => some 2
  | 'u' => some 4
  | 'U' => some 8
  | _ => none

/-- The character of an escape after its backslash, and what follows it. -/
def escape? : List Char → Option (Char × List Char)
  | [] => none
  | c :: cs =>
    match escapeWidth? c with
    | some width => do
      let n ← numeral? 16 (cs.take width)
      if cs.length < width || !n.isValidChar then none
      return (Char.ofNat n, cs.drop width)
    | none => (letterEscape? c).map (·, cs)

theorem escape?_length {cs rest : List Char} {c : Char} (h : escape? cs = some (c, rest)) :
    rest.length < cs.length := by
  cases cs with
  | nil => simp [escape?] at h
  | cons d ds =>
    simp only [escape?] at h
    split at h
    · simp only [bind, Option.bind_eq_some_iff] at h
      obtain ⟨n, -, h⟩ := h
      split at h
      · simp at h
      · cases h
        simp only [List.length_drop, List.length_cons]
        omega
    · obtain ⟨e, -, h⟩ := Option.map_eq_some_iff.1 h
      cases h
      simp

/-- What stands for a gap in double quotes. After a break with a backslash in front, the lines are
joined without a space. -/
def gapText (joined : Bool) (gap : List Char) : List Char :=
  if joined then gap.filter isBreak else fold gap

/-- The rest of a scalar in double quotes, after a gap that is held latest character first;
`joined` tells that a break with a backslash stands before the gap. -/
def doubleQuoted? (joined : Bool) (gap : List Char) (cs : List Char) :
    Option (List Char × List Char) :=
  match cs with
  | [] => none
  | '"' :: cs => some (gapText joined gap.reverse, cs)
  | '\\' :: cs =>
    if cs.head?.any isBreak then
      (doubleQuoted? true [] (cs.drop 1)).map fun (text, rest) ↦
        (gapText joined gap.reverse ++ text, rest)
    else
      match _h : escape? cs with
      | none => none
      | some (c, rest) =>
        (doubleQuoted? false [] rest).map fun (text, rest) ↦
          (gapText joined gap.reverse ++ c :: text, rest)
  | c :: cs =>
    if isGap c then doubleQuoted? joined (c :: gap) cs
    else if marksDocument (if joined then gap ++ ['\n'] else gap) (c :: cs) then none
    else
      (doubleQuoted? false [] cs).map fun (text, rest) ↦
        (gapText joined gap.reverse ++ c :: text, rest)
termination_by cs.length
decreasing_by
  · simp only [List.length_drop, List.length_cons]
    omega
  · exact Nat.lt_succ_of_lt (escape?_length _h)
  · simp
  · simp

/-! ## Plain scalars -/

/-- Characters that structure flow collections. -/
def isFlowMark (c : Char) : Bool := c == ',' || c == '[' || c == ']' || c == '\x7b' || c == '\x7d'

/-- Characters no plain scalar starts with. -/
def isIndicator (c : Char) : Bool :=
  isFlowMark c || c == '#' || c == '&' || c == '*' || c == '!' || c == '|' || c == '>' ||
    c == '\x27' || c == '"' || c == '%' || c == '@' || c == '\x60'

/-- Whether a tab stands among the first `margin` characters of a line that starts in a gap; `room`
more of them are to come on the line where the gap starts. -/
def tabInMargin (margin : Nat) : Nat → List Char → Bool
  | _, [] => false
  | room, c :: cs =>
    if isBreak c then tabInMargin margin margin cs
    else (c == '\t' && 0 < room) || tabInMargin margin (room - 1) cs

/-- Whether a line that starts in a gap, which is held latest character first, has fewer than
`margin` characters before its text. -/
def outsideMargin (margin : Nat) (gap : List Char) : Bool :=
  gap.any isBreak && (gap.takeWhile (!isBreak ·)).length < margin

/-- Whether a plain scalar ends here, after a gap that is held latest character first. -/
def endsPlain (inFlow : Bool) (margin : Nat) (gap : List Char) (c : Char) (cs : List Char) :
    Bool :=
  (c == '#' && !gap.isEmpty) || (c == ':' && atGap cs) || marksDocument gap (c :: cs) ||
    (if inFlow then isFlowMark c else outsideMargin margin gap)

/-- A plain scalar that has been read. -/
structure Plain where
  /-- Its characters. -/
  text : List Char
  /-- What follows it and the gap after it. -/
  rest : List Char
  /-- Whether there is a line break in the gap after it. -/
  lineEnded : Bool

/-- The rest of a plain scalar, after a gap that is held latest character first. Lines in a block
belong to it as long as they leave the margin free. -/
def plainText? (inFlow : Bool) (margin : Nat) (gap : List Char) : List Char → Option Plain
  | [] => if tabInMargin margin 0 gap.reverse then none else some ⟨[], [], gap.any isBreak⟩
  | c :: cs =>
    if isGap c then plainText? inFlow margin (c :: gap) cs
    else if tabInMargin margin 0 gap.reverse then none
    else if endsPlain inFlow margin gap c cs then some ⟨[], c :: cs, gap.any isBreak⟩
    else if inFlow ∧ c = ':' ∧ cs.head?.any (fun d ↦ isFlowMark d || d == '?') then none
    else
      (plainText? inFlow margin [] cs).map fun more ↦
        { more with text := fold gap.reverse ++ c :: more.text }

end SvgWorkbench.Yaml
