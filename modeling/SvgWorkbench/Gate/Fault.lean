import SvgWorkbench.Text.Quoted

/-!
# Faults of markup

The strict check stops at the first fault it meets. A fault has a cause and, for most causes, a
place in the text. Scanning works on what is left of the text, so a place is recorded as the number
of characters from there to the end; only the message turns it into a row and a column.
-/

namespace SvgWorkbench.Gate

/-! ## Causes -/

/-- What the grammar wanted at a place where one of several characters could stand. -/
inductive Wanted where
  /-- This very character. -/
  | char (c : Char)
  /-- A space of markup. -/
  | space
  /-- A single or a double quote. -/
  | quote
  /-- The start of an internal subset or the end of a document type declaration. -/
  | subsetOrEnd
  /-- The value of an entity or its external identifier. -/
  | entityDefinition
  deriving DecidableEq, Repr

/-- How a message names what was wanted. -/
def Wanted.name : Wanted → String
  | .char c => String.join ["'", String.ofList [c], "'"]
  | .space => "a whitespace"
  | .quote => "a quote"
  | .subsetOrEnd => "'[' or '>'"
  | .entityDefinition => "a quote, SYSTEM or PUBLIC"

/-- Why markup is not well-formed. -/
inductive Cause where
  /-- The text ends inside a construct. -/
  | endOfText
  /-- A character stands where another was wanted; it is given by its first octet. -/
  | unexpected (wanted : Wanted) (found : Char)
  /-- A fixed word or mark is missing. -/
  | missing (mark : String)
  /-- A name is empty or has a character that names do not have there. -/
  | invalidName
  /-- A character that no document may hold. -/
  | forbiddenChar (c : Char)
  /-- Nothing of the grammar starts here. -/
  | unknownToken
  /-- An XML declaration that is not at the very start. -/
  | misplacedDeclaration
  /-- A comment that holds two hyphens in a row or ends in one. -/
  | hyphensInComment
  /-- An external identifier that is neither a system nor a public one. -/
  | invalidExternalId
  /-- The end mark of a CDATA section in character data. -/
  | sectionEndInText
  /-- A reference that is not closed, has no name or stands for no character. -/
  | malformedReference
  /-- A reference to an entity nobody declared. -/
  | unknownReference (name : String)
  /-- References nested too deeply or too many of them. -/
  | referenceLoop
  /-- A less-than sign that an entity brings into an attribute value. -/
  | unescapedLessThan
  /-- A close tag that does not name the innermost open element. -/
  | mismatchedCloseTag (expected found : String)
  /-- A close tag in an entity's text that opened nothing. -/
  | strayCloseTag
  /-- An element whose prefix is `xmlns`. -/
  | reservedElementPrefix
  /-- A declaration that binds the namespace of namespace declarations. -/
  | reservedNamespace
  /-- The prefix `xml` bound to a namespace that is not its own. -/
  | wrongXmlNamespace
  /-- The namespace of the prefix `xml` bound to something else. -/
  | xmlNamespaceElsewhere
  /-- A prefix declared twice on one element. -/
  | repeatedNamespace (name : String)
  /-- A prefix that no element around declares. -/
  | unknownPrefix (name : String)
  /-- Two attributes of one element with the same expanded name. -/
  | repeatedAttribute (name : String)
  /-- No element at the top level. -/
  | noRoot
  /-- An element that is still open at the end. -/
  | unclosedRoot
  deriving DecidableEq, Repr

/-- A cause and the number of characters from its place to the end of the text. -/
structure Fault where
  /-- What is wrong. -/
  cause : Cause
  /-- How many characters there are from the place of the fault to the end. -/
  remaining : Nat
  deriving DecidableEq, Repr

/-- The fault moved into a text that goes on for `n` more characters. -/
def Fault.shift (n : Nat) (fault : Fault) : Fault := { fault with remaining := fault.remaining + n }

/-- Stops at the start of what is left of the text. -/
def fail {α : Type} (cause : Cause) (cs : List Char) : Except Fault α := .error ⟨cause, cs.length⟩

/-! ## Places -/

/-- A row and a column, both counted from one. -/
structure Position where
  /-- One more than the number of line feeds before. -/
  row : Nat
  /-- One more than the number of characters since the last line feed. -/
  column : Nat
  deriving DecidableEq, Repr

/-- The position after one more character. -/
def Position.step (p : Position) (c : Char) : Position :=
  if c = '\n' then ⟨p.row + 1, 1⟩ else ⟨p.row, p.column + 1⟩

/-- The position after a text. -/
def Position.after (cs : List Char) : Position := cs.foldl Position.step ⟨1, 1⟩

/-- How messages write a position. -/
def Position.text (p : Position) : String := toString p.row ++ ":" ++ toString p.column

/-! ## Messages -/

/-- The wording of a cause at a position. -/
def Cause.message (place : String) : Cause → String
  | .endOfText => "unexpected end of stream"
  | .unexpected wanted found =>
    String.join ["expected ", wanted.name, " not '", String.ofList [found], "' at ", place]
  | .missing mark => String.join ["expected '", mark, "' at ", place]
  | .invalidName => String.join ["invalid name token at ", place]
  | .forbiddenChar c => String.join ["a non-XML character ", Text.quotedChar c, " found at ", place]
  | .unknownToken => String.join ["unknown token at ", place]
  | .misplacedDeclaration => String.join ["unexpected XML declaration at ", place]
  | .hyphensInComment => String.join ["comment at ", place, " contains '--'"]
  | .invalidExternalId => String.join ["invalid ExternalID at ", place]
  | .sectionEndInText => String.join ["']]>' at ", place, " is not allowed inside a character data"]
  | .malformedReference => String.join ["malformed entity reference at ", place]
  | .unknownReference name => String.join ["unknown entity reference '", name, "' at ", place]
  | .referenceLoop => String.join ["a possible entity reference loop is detected at ", place]
  | .unescapedLessThan => String.join ["unescaped '<' found at ", place]
  | .mismatchedCloseTag expected found =>
    String.join ["expected '", expected, "' tag, not '", found, "' at ", place]
  | .strayCloseTag => String.join ["unexpected close tag at ", place]
  | .reservedElementPrefix =>
    String.join ["the 'xmlns' prefix is used at ", place, ", but it must not be"]
  | .reservedNamespace =>
    String.join ["the 'xmlns' URI is used at ", place, ", but it must not be declared"]
  | .wrongXmlNamespace => String.join ["'xml' namespace prefix mapped to wrong URI at ", place]
  | .xmlNamespaceElsewhere =>
    String.join ["the 'xml' namespace URI is used for not 'xml' prefix at ", place]
  | .repeatedNamespace name =>
    String.join ["namespace '", name, "' at ", place, " is already defined"]
  | .unknownPrefix name => String.join ["an unknown namespace prefix '", name, "' at ", place]
  | .repeatedAttribute name =>
    String.join ["attribute '", name, "' at ", place, " is already defined"]
  | .noRoot => "the document does not have a root node"
  | .unclosedRoot => "the root node was opened but never closed"

/-- A cause with the position it was met at. -/
structure Refusal where
  /-- What is wrong. -/
  cause : Cause
  /-- Where it is. -/
  position : Position
  deriving DecidableEq, Repr

/-- The position of a fault met in a text. -/
def Fault.locate (text : List Char) (fault : Fault) : Refusal :=
  ⟨fault.cause, Position.after (text.take (text.length - fault.remaining))⟩

/-- The message of a refusal. -/
def Refusal.message (r : Refusal) : String := r.cause.message r.position.text

end SvgWorkbench.Gate
