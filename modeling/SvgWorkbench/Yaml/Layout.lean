import SvgWorkbench.Yaml.Scalar

/-!
# The layout of YAML text

The blocks of a text are told by its indentation, and the keys of its mappings by a colon that comes
only after them. Reading the layout makes both explicit: the text becomes a list of tokens in which
every block has a start and an end and every key has a mark in front. While it is read, the columns
of the open blocks are kept, and the places where a key may have started.
-/

namespace SvgWorkbench.Yaml

open Text

/-! ## Tokens -/

/-- A token of YAML. -/
inductive Token where
  /-- The mark a document starts with. -/
  | documentStart
  /-- The mark a document ends with. -/
  | documentEnd
  /-- The start of a sequence told by its indentation. -/
  | blockSequence
  /-- The start of a mapping told by its indentation. -/
  | blockMapping
  /-- The end of a sequence or mapping told by its indentation. -/
  | blockEnd
  /-- An opening bracket. -/
  | flowSequence
  /-- A closing bracket. -/
  | flowSequenceEnd
  /-- An opening brace. -/
  | flowMapping
  /-- A closing brace. -/
  | flowMappingEnd
  /-- A comma between the parts of a flow collection. -/
  | separator
  /-- The hyphen before an item of a block sequence. -/
  | item
  /-- The mark before a key. -/
  | key
  /-- The colon before the value of a key. -/
  | value
  /-- A scalar. -/
  | scalar (plain : Bool) (text : String)
  deriving DecidableEq, Repr

/-! ## Places -/

/-- A place in a text, counted from zero. -/
structure Place where
  /-- How many line breaks there are before. -/
  line : Nat := 0
  /-- How many characters there are since the last line break. -/
  column : Nat := 0
  deriving DecidableEq, Repr

/-- The place after one more character. -/
def Place.step (p : Place) (c : Char) : Place :=
  if isBreak c then ⟨p.line + 1, 0⟩ else ⟨p.line, p.column + 1⟩

/-- The place after a part of a text is read that leaves `rest` of `cs`. -/
def Place.past (p : Place) (cs rest : List Char) : Place :=
  (cs.take (cs.length - rest.length)).foldl Place.step p

/-- A place where a key may have started. -/
structure Candidate where
  /-- How many tokens stand before it. -/
  before : Nat
  /-- The place. -/
  place : Place
  /-- Whether nothing but a key may start there. -/
  required : Bool
  deriving DecidableEq, Repr

/-- How many characters there may be from the start of a key to its colon. -/
def maxKeyLength : Nat := 1024

/-- Whether a place is too far away for the colon of a key; a key stays on one line. -/
def Candidate.isPast (c : Candidate) (p : Place) : Bool :=
  c.place.line < p.line || c.place.column + maxKeyLength < p.column

/-! ## State -/

/-- What is known when a part of a text has been read. -/
structure Layout where
  /-- The tokens, latest first. -/
  tokens : List Token := []
  /-- The place that has been reached. -/
  place : Place := {}
  /-- The columns of the open blocks, innermost first. -/
  blocks : List Nat := []
  /-- Where a key may have started in the innermost flow collection, or in the block around all. -/
  candidate : Option Candidate := none
  /-- The same for the flow collections around it and the block around all, innermost first. -/
  around : List (Option Candidate) := []
  /-- Whether a key may start here. -/
  keyAllowed : Bool := true

namespace Layout

/-- Whether a flow collection is open. -/
def inFlow (l : Layout) : Bool := !l.around.isEmpty

/-- How many characters at the start of a line the innermost block leaves free. -/
def margin (l : Layout) : Nat := (l.blocks.head?.map (· + 1)).getD 0

/-- Adds a token. -/
def push (l : Layout) (t : Token) : Layout := { l with tokens := t :: l.tokens }

/-- Adds a token in front of all but the first `before` ones. -/
def insertAfter (l : Layout) (before : Nat) (t : Token) : Layout :=
  { l with tokens := l.tokens.insertIdx (l.tokens.length - before) t }

/-! ## Blocks -/

/-- Opens a block at a column unless one is open there or further in; its start is put after that
many tokens. -/
def openBlock (l : Layout) (column before : Nat) (t : Token) : Layout :=
  if l.inFlow || l.blocks.any (column ≤ ·) then l
  else { l.insertAfter before t with blocks := column :: l.blocks }

/-- Closes the innermost blocks up to the first to whose column the text that follows belongs. -/
def closeBlocks (l : Layout) (belongs : Nat → Bool) : Layout :=
  if l.inFlow then l
  else
    let closed := l.blocks.takeWhile (!belongs ·)
    { l with
      tokens := closed.map (fun _ ↦ Token.blockEnd) ++ l.tokens
      blocks := l.blocks.dropWhile (!belongs ·) }

/-! ## Keys -/

/-- Gives up the place where a key may have started. -/
def dropCandidate? (l : Layout) : Option Layout :=
  if l.candidate.any (·.required) then none else some { l with candidate := none }

/-- Remembers that a key may start here. -/
def saveCandidate? (l : Layout) : Option Layout :=
  if l.keyAllowed then do
    let l ← l.dropCandidate?
    let required := !l.inFlow && l.blocks.head? == some l.place.column
    return { l with candidate := some ⟨l.tokens.length, l.place, required⟩ }
  else some l

/-- Gives up the places that are too far away for a colon. -/
def expire? (l : Layout) : Option Layout :=
  let past (c : Option Candidate) := c.any (·.isPast l.place)
  if (l.candidate :: l.around).any fun c ↦ past c && c.any (·.required) then none
  else
    let keep (c : Option Candidate) := if past c then none else c
    some { l with candidate := keep l.candidate, around := l.around.map keep }

/-! ## Between tokens -/

/-- Skips blanks, line breaks and comments. A line may start with a byte order mark. Tabs count as
blanks only where no key of a block may start. -/
def skipIdle (l : Layout) (inComment : Bool) : List Char → Layout × List Char
  | [] => (l, [])
  | c :: cs =>
    let next := { l with place := l.place.step c }
    if isBreak c then
      skipIdle { next with keyAllowed := l.keyAllowed || !l.inFlow } false cs
    else if inComment || c == ' ' || (c == '\t' && (l.inFlow || !l.keyAllowed)) ||
        (c == '\uFEFF' && l.place.column == 0) then
      skipIdle next inComment cs
    else if c = '#' then skipIdle next true cs
    else (l, c :: cs)

/-! ## Tokens one by one -/

/-- Takes the mark of a document. -/
def documentMark? (l : Layout) (t : Token) : Option Layout := do
  let l ← (l.closeBlocks fun _ ↦ false).dropCandidate?
  return { l with keyAllowed := false }.push t

/-- Takes an opening bracket or brace. -/
def flowStart? (l : Layout) (t : Token) : Option Layout := do
  let l ← l.saveCandidate?
  return { l with candidate := none, around := l.candidate :: l.around, keyAllowed := true }.push t

/-- Takes a closing bracket or brace. -/
def flowEnd? (l : Layout) (t : Token) : Option Layout := do
  let l ← l.dropCandidate?
  let l := { l with keyAllowed := false }.push t
  match l.around with
  | [] => return l
  | c :: around => return { l with candidate := c, around }

/-- Takes a comma. -/
def separator? (l : Layout) : Option Layout := do
  let l ← l.dropCandidate?
  return { l with keyAllowed := true }.push .separator

/-- Opens a block of its own for an indicator in block context, where keys have to be allowed. -/
def indicator? (l : Layout) (t : Token) : Option Layout :=
  if l.inFlow then some l
  else if l.keyAllowed then some (l.openBlock l.place.column l.tokens.length t)
  else none

/-- Takes the hyphen before an item. -/
def item? (l : Layout) : Option Layout := do
  let l ← (← l.indicator? .blockSequence).dropCandidate?
  return { l with keyAllowed := true }.push .item

/-- Takes the question mark before a key. -/
def key? (l : Layout) : Option Layout := do
  let l ← (← l.indicator? .blockMapping).dropCandidate?
  return { l with keyAllowed := !l.inFlow }.push .key

/-- Takes the colon before a value. What started at the candidate is its key. -/
def value? (l : Layout) : Option Layout :=
  match l.candidate with
  | some c =>
    let l := (l.insertAfter c.before .key).openBlock c.place.column c.before .blockMapping
    some ({ l with candidate := none, keyAllowed := false }.push .value)
  | none => do
    let l ← l.indicator? .blockMapping
    return { l with keyAllowed := !l.inFlow }.push .value

/-- Takes a scalar in quotes after its opening quote. -/
def quoted? (l : Layout) (read : Option (List Char × List Char)) :
    Option (Layout × List Char) := do
  let l ← l.saveCandidate?
  let (text, rest) ← read
  return ({ l with keyAllowed := false }.push (.scalar false (String.ofList text)), rest)

/-- Takes a plain scalar. After it a key may start if its line has ended. -/
def plain? (l : Layout) (cs : List Char) : Option (Layout × List Char) := do
  let l ← l.saveCandidate?
  let read ← plainText? l.inFlow l.margin [] cs
  return ({ l with keyAllowed := read.lineEnded }.push (.scalar true (String.ofList read.text)),
    read.rest)

/-- Takes the token that starts with a character. -/
def token? (l : Layout) (c : Char) (cs : List Char) : Option (Layout × List Char) :=
  let mark := if l.place.column = 0 then Yaml.documentMark? (c :: cs) else none
  match mark with
  | some '-' => (l.documentMark? .documentStart).map (·, cs.drop 2)
  | some _ => (l.documentMark? .documentEnd).map (·, cs.drop 2)
  | none =>
    match c with
    | '[' => (l.flowStart? .flowSequence).map (·, cs)
    | ']' => (l.flowEnd? .flowSequenceEnd).map (·, cs)
    | '\x7b' => (l.flowStart? .flowMapping).map (·, cs)
    | '\x7d' => (l.flowEnd? .flowMappingEnd).map (·, cs)
    | ',' => l.separator?.map (·, cs)
    | '\x27' => l.quoted? (singleQuoted? [] cs)
    | '"' => l.quoted? (doubleQuoted? false [] cs)
    | '-' => if atGap cs then l.item?.map (·, cs) else l.plain? (c :: cs)
    | '?' => if l.inFlow || atGap cs then l.key?.map (·, cs) else l.plain? (c :: cs)
    | ':' => if l.inFlow || atGap cs then l.value?.map (·, cs) else l.plain? (c :: cs)
    | _ => if isGap c || isIndicator c then none else l.plain? (c :: cs)

/-! ## Whole texts -/

/-- Reads to the end of a text, with `fuel` bounding the tokens. -/
def run? : Nat → Layout → List Char → Option Layout
  | 0, _, _ => none
  | fuel + 1, l, cs => do
    let (l, cs) := l.skipIdle false cs
    let l ← l.expire?
    match cs with
    | [] => (l.closeBlocks fun _ ↦ false).dropCandidate?
    | c :: cs =>
      let l := l.closeBlocks (· ≤ l.place.column)
      let (next, rest) ← l.token? c cs
      run? fuel { next with place := l.place.past (c :: cs) rest } rest

end Layout

/-! ## Characters -/

/-- Whether a text may hold a character. -/
def isAllowed (c : Char) : Bool :=
  let n := c.toNat
  n == 0x09 || n == 0x0A || n == 0x0D || (0x20 ≤ n && n ≤ 0x7E) || n == 0x85 ||
    (0xA0 ≤ n && n ≤ 0xFFFD) || 0x10000 ≤ n

/-- A text with line feeds for all breaks that are no separators of Unicode. -/
def unifyBreaks : List Char → List Char
  | [] => []
  | '\r' :: '\n' :: cs => '\n' :: unifyBreaks cs
  | c :: cs => (if c = '\r' ∨ c = '\u0085' then '\n' else c) :: unifyBreaks cs

/-- The characters of a text as they are read, without a byte order mark at the start. -/
def source? (s : String) : Option (List Char) :=
  if s.toList.all isAllowed then
    match unifyBreaks s.toList with
    | '\uFEFF' :: cs => some cs
    | cs => some cs
  else none

/-- The tokens of a text. -/
def tokens? (s : String) : Option (List Token) := do
  let cs ← source? s
  let l ← Layout.run? (cs.length + 1) {} cs
  return l.tokens.reverse

end SvgWorkbench.Yaml
