import SvgWorkbench.Markup.Fault
import SvgWorkbench.Text.AsciiCase
import SvgWorkbench.Text.Split
import SvgWorkbench.Xml.Character
import SvgWorkbench.Xml.Mark

/-!
# Tokens of markup

The text is cut into runs of character data and constructs between angle brackets. A token keeps the
text it was cut from and says how many octets it takes, brackets included, so that the reader can
tell where the next one starts.
-/

namespace SvgWorkbench.Markup

open Text Xml

/-! ## Tokens -/

/-- A piece of markup. -/
inductive Token where
  /-- Character data as it is written. -/
  | text (raw : List Char)
  /-- The inside of a start tag. -/
  | openTag (body : List Char)
  /-- The inside of a tag that closes itself, without its slash. -/
  | emptyTag (body : List Char)
  /-- A close tag that fits. -/
  | closeTag
  /-- The text of a comment. -/
  | comment (text : List Char)
  /-- The text of a CDATA section. -/
  | cdata (text : List Char)
  /-- The text of an instruction. -/
  | instruction (text : List Char)
  /-- What follows the word of a document type declaration. -/
  | doctype (text : List Char)
  deriving DecidableEq, Repr

/-- A token, the octets it takes, and the text after it. -/
structure Cut where
  /-- The token. -/
  token : Token
  /-- The octets from its first to its last character. -/
  size : Nat
  /-- The text after the token. -/
  rest : List Char

/-- The tag name at the start of a tag's inside. -/
def tagName (body : List Char) : List Char := body.takeWhile (!isSpace ·)

/-! ## Constructs that start with an exclamation mark -/

/-- Cuts at the first greater-than sign before which the text satisfies a condition. The condition
looks at what stands before the sign, last character first; so does the argument `before`. -/
def cutAtEnd (closes : List Char → Bool) (before : List Char) :
    List Char → Option (List Char × List Char)
  | [] => none
  | c :: cs =>
    if c = '>' && closes before then some (before.reverse, cs)
    else cutAtEnd closes (c :: before) cs

/-- Whether a comment may end here: two hyphens stand before, and not those of its own start. -/
def endsComment (before : List Char) : Bool := 4 < before.length && startsWith ['-', '-'] before

/-- Whether a section may end here: two brackets stand before. -/
def endsCdata (before : List Char) : Bool := startsWith [']', ']'] before

/-- Whether a document type may end here: every bracket inside has its partner. -/
def endsDoctype (before : List Char) : Bool := before.count '<' == before.count '>'

/-- What follows a given beginning in any letter case. -/
def afterWord? (word : List Char) (cs : List Char) : Option (List Char) :=
  if (cs.take word.length).map asciiLower = word.map asciiLower then some (cs.drop word.length)
  else none

/-- The token of a comment, section or document type from its exclamation mark to its end. -/
def Construct.token (what : Construct) (body : List Char) : Except Cause Token :=
  match what with
  | .comment =>
    match afterPrefix? (Mark.openComment.drop 1) body with
    | some text => .ok (.comment (text.take (text.length - 2)))
    | none => .error (.unfinished what)
  | .cdata =>
    match afterWord? (Mark.openSection.drop 1) body with
    | some text => .ok (.cdata (text.take (text.length - 2)))
    | none => .error (.unfinished what)
  | .doctype =>
    match afterWord? (Mark.doctype.drop 1) body with
    | some text =>
      if (skipSpaces text).isEmpty then .error .emptyDoctype
      else .ok (.doctype (skipSpaces text))
    | none => .error (.unfinished what)
  | _ => .error (.unfinished what)

/-- Cuts a construct of a kind whose exclamation mark is octet `offset + 1`. -/
def cutConstruct (what : Construct) (closes : List Char → Bool) (offset : Nat) (cs : List Char) :
    Except Fault Cut :=
  match cutAtEnd closes [] cs with
  | none => .error ⟨offset + 1, .unfinished what⟩
  | some (body, rest) =>
    let size := octets body + 2
    match what.token body with
    | .ok token => .ok ⟨token, size, rest⟩
    | .error cause => .error ⟨offset + size, cause⟩

/-- Cuts a construct that starts with an exclamation mark. -/
def cutBang (offset : Nat) (cs : List Char) : Except Fault Cut :=
  match cs.drop 1 with
  | [] => .error ⟨offset + 1, .unfinished .bang⟩
  | c :: _ =>
    if c = '-' then cutConstruct .comment endsComment offset cs
    else if c = '[' then cutConstruct .cdata endsCdata offset cs
    else if c = 'D' ∨ c = 'd' then cutConstruct .doctype endsDoctype offset cs
    else .error ⟨offset + 1, .unknownBang (leadingOctet c)⟩

/-! ## Close tags and instructions -/

/-- A name without the spaces after it; a name of spaces alone stays as it is. -/
def trimName (cs : List Char) : List Char :=
  if cs.all isSpace then cs else (cs.reverse.dropWhile isSpace).reverse

/-- Cuts a close tag from its slash on; `innermost` is the name it has to have. -/
def cutCloseTag (innermost : Option String) (offset : Nat) (cs : List Char) : Except Fault Cut :=
  let body := cs.takeWhile (· ≠ '>')
  let rest := cs.dropWhile (· ≠ '>')
  let size := octets body + 1 + octets (rest.take 1)
  let place := offset + size - octets body
  match innermost with
  | none => .error ⟨place, .mismatchedCloseTag "" (String.ofList (body.drop 1))⟩
  | some expected =>
    let found := String.ofList (trimName (body.drop 1))
    if found = expected then .ok ⟨.closeTag, size, rest.drop 1⟩
    else .error ⟨place, .mismatchedCloseTag expected found⟩

/-- Cuts an instruction from its first question mark on. -/
def cutInstruction (offset : Nat) (cs : List Char) : Except Fault Cut :=
  let body := cs.takeWhile (· ≠ '>')
  let rest := cs.dropWhile (· ≠ '>')
  let size := octets body + 1 + octets (rest.take 1)
  if 2 < body.length && body.getLast? == some '?' then
    .ok ⟨.instruction (body.drop 1).dropLast, size, rest.drop 1⟩
  else .error ⟨offset + size - octets body, .unfinished .instruction⟩

/-! ## Start tags -/

/-- Cuts at the first greater-than sign outside quotes; `quote` is the quote that is open. -/
def cutTagBody (quote : Option Char) : List Char → Option (List Char × List Char)
  | [] => none
  | c :: cs =>
    if quote = none ∧ c = '>' then some ([], cs)
    else
      let quote := match quote with
        | some q => if c = q then none else some q
        | none => if c = '"' ∨ c = '\x27' then some c else none
      (cutTagBody quote cs).map fun (body, rest) ↦ (c :: body, rest)

/-- Cuts a start tag or a tag that closes itself from its name on. -/
def cutTag (offset : Nat) (cs : List Char) : Except Fault Cut :=
  match cutTagBody none cs with
  | none => .error ⟨offset + 1, .unfinished .tag⟩
  | some (body, rest) =>
    let size := octets body + 2
    if body.getLast? == some '/' then .ok ⟨.emptyTag body.dropLast, size, rest⟩
    else .ok ⟨.openTag body, size, rest⟩

/-! ## One token -/

/-- Cuts the first token off a text whose first character is octet `offset`. -/
def cut (innermost : Option String) (offset : Nat) (cs : List Char) : Except Fault Cut :=
  match cs with
  | '<' :: '!' :: rest => cutBang offset ('!' :: rest)
  | '<' :: '/' :: rest => cutCloseTag innermost offset ('/' :: rest)
  | '<' :: '?' :: rest => cutInstruction offset ('?' :: rest)
  | '<' :: rest => cutTag offset rest
  | cs =>
    let raw := cs.takeWhile (· ≠ '<')
    .ok ⟨.text raw, octets raw, cs.dropWhile (· ≠ '<')⟩

/-! ## Every token shrinks the text -/

theorem cutAtEnd_length {closes : List Char → Bool} {before cs body rest : List Char}
    (h : cutAtEnd closes before cs = some (body, rest)) : rest.length < cs.length := by
  induction cs generalizing before with
  | nil => simp [cutAtEnd] at h
  | cons c cs ih =>
    simp only [cutAtEnd] at h
    split at h
    · cases h; simp
    · exact Nat.lt_succ_of_lt (ih h)

theorem cutConstruct_length {what : Construct} {closes : List Char → Bool} {offset : Nat}
    {cs : List Char} {x : Cut} (h : cutConstruct what closes offset cs = .ok x) :
    x.rest.length < cs.length := by
  unfold cutConstruct at h
  split at h
  · cases h
  · next hc =>
    simp only at h
    split at h
    · cases h; exact cutAtEnd_length hc
    · cases h

theorem cutBang_length {offset : Nat} {cs : List Char} {x : Cut}
    (h : cutBang offset cs = .ok x) : x.rest.length < cs.length := by
  unfold cutBang at h
  split at h
  · cases h
  · split at h
    · exact cutConstruct_length h
    · split at h
      · exact cutConstruct_length h
      · split at h
        · exact cutConstruct_length h
        · cases h

private theorem length_drop_dropWhile_le (p : Char → Bool) (n : Nat) (cs : List Char) :
    ((cs.dropWhile p).drop n).length ≤ cs.length := by
  have := (List.dropWhile_suffix p : _ <:+ cs).length_le
  simp only [List.length_drop]
  omega

theorem cutCloseTag_length {innermost : Option String} {offset : Nat} {cs : List Char} {x : Cut}
    (h : cutCloseTag innermost offset cs = .ok x) : x.rest.length ≤ cs.length := by
  unfold cutCloseTag at h
  simp only at h
  split at h
  · cases h
  · split at h
    · cases h; exact length_drop_dropWhile_le _ _ _
    · cases h

theorem cutInstruction_length {offset : Nat} {cs : List Char} {x : Cut}
    (h : cutInstruction offset cs = .ok x) : x.rest.length ≤ cs.length := by
  unfold cutInstruction at h
  simp only at h
  split at h
  · cases h; exact length_drop_dropWhile_le _ _ _
  · cases h

theorem cutTagBody_length {quote : Option Char} {cs body rest : List Char}
    (h : cutTagBody quote cs = some (body, rest)) : rest.length < cs.length := by
  induction cs generalizing quote body with
  | nil => simp [cutTagBody] at h
  | cons c cs ih =>
    simp only [cutTagBody] at h
    split at h
    · cases h; simp
    · obtain ⟨p, hp, he⟩ := Option.map_eq_some_iff.1 h
      cases he
      exact Nat.lt_succ_of_lt (ih hp)

theorem cutTag_length {offset : Nat} {cs : List Char} {x : Cut}
    (h : cutTag offset cs = .ok x) : x.rest.length < cs.length := by
  unfold cutTag at h
  split at h
  · cases h
  · next hc =>
    simp only at h
    split at h <;> (cases h; exact cutTagBody_length hc)

theorem cut_length {innermost : Option String} {offset : Nat} {c : Char} {cs : List Char} {x : Cut}
    (h : cut innermost offset (c :: cs) = .ok x) : x.rest.length < (c :: cs).length := by
  unfold cut at h
  split at h
  · next heq => rw [heq]; exact Nat.lt_succ_of_lt (cutBang_length h)
  · next heq => rw [heq]; exact Nat.lt_succ_of_le (cutCloseTag_length h)
  · next heq => rw [heq]; exact Nat.lt_succ_of_le (cutInstruction_length h)
  · next heq => rw [heq]; exact Nat.lt_succ_of_lt (cutTag_length h)
  · next hne =>
    cases h
    have hc : c ≠ '<' := fun hc ↦ hne cs (by rw [hc])
    simp only [List.dropWhile_cons, ne_eq, hc, not_false_eq_true, decide_true, if_true,
      List.length_cons]
    exact Nat.lt_succ_of_le (List.dropWhile_suffix _).length_le

end SvgWorkbench.Markup
