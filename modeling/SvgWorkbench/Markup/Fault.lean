import SvgWorkbench.Text.Octets
import SvgWorkbench.Text.Quoted

/-!
# Faults of the reader

The reader is lax about names and nesting but it does refuse tags it cannot take apart. A fault
points to an octet of the text; faults of attributes and references count from the start of the tag
or the value they lie in.
-/

namespace SvgWorkbench.Markup

/-! ## References -/

/-- Why a reference cannot be resolved. -/
inductive ReferenceFault where
  /-- No semicolon follows before the next ampersand or the end. -/
  | unclosed (first last : Nat)
  /-- The null character. -/
  | null (first last : Nat)
  /-- No character has the number. -/
  | noCharacter (number : Nat)
  /-- More than six hexadecimal digits. -/
  | longHexadecimal
  /-- More than seven decimal digits. -/
  | longDecimal
  /-- Something that is no hexadecimal digit, given by its first octet. -/
  | badHexadecimal (found : Char)
  /-- Something that is no decimal digit, given by its first octet. -/
  | badDecimal (found : Char)
  /-- A name nobody declared. -/
  | unknownName (first last : Nat) (name : String)
  deriving DecidableEq, Repr

/-- The wording of a fault that lies between two octets. -/
def rangeMessage (first last : Nat) (what : String) : String :=
  String.join ["Error while escaping character at range ", toString first, "..", toString last,
    ": ", what]

/-- The wording of a fault in a reference. -/
def ReferenceFault.message : ReferenceFault → String
  | .unclosed first last => rangeMessage first last "Cannot find ';' after '&'"
  | .null first last => rangeMessage first last "Null character entity not allowed"
  | .noCharacter number => String.join ["'", toString number, "' is not a valid codepoint"]
  | .longHexadecimal => "Cannot convert hexadecimal to utf8"
  | .longDecimal => "Cannot convert decimal to utf8"
  | .badHexadecimal found =>
    String.join ["'", String.ofList [found], "' is not a valid hexadecimal character"]
  | .badDecimal found =>
    String.join ["'", String.ofList [found], "' is not a valid decimal character"]
  | .unknownName first last name =>
    rangeMessage first last ("Unrecognized escape symbol: " ++ Text.quoted name)

/-! ## Attributes -/

/-- Why an attribute cannot be read. -/
inductive AttributeFault where
  /-- No equals sign follows the name. -/
  | noEquals
  /-- The name stands on the tag already, at the given octet. -/
  | repeated (earlier : Nat)
  /-- The tag ends after the equals sign. -/
  | noValue
  /-- The value does not start with a quote. -/
  | unquoted
  /-- The value is not closed by its quote. -/
  | unclosed (quote : Char)
  deriving DecidableEq, Repr

/-- The wording of a fault in an attribute. -/
def AttributeFault.message : AttributeFault → String
  | .noEquals => "attribute key must be directly followed by `=` or space"
  | .repeated earlier =>
    String.join ["duplicated attribute, previous declaration at position ", toString earlier]
  | .noValue => "`=` must be followed by an attribute value"
  | .unquoted => "attribute value must be enclosed in `\"` or `'`"
  | .unclosed quote =>
    String.join ["missing closing quote `", String.ofList [quote], "` in attribute value"]

/-! ## The whole reader -/

/-- The constructs the text can end in. -/
inductive Construct where
  /-- A less-than sign followed by an exclamation mark. -/
  | bang
  /-- A comment. -/
  | comment
  /-- A CDATA section. -/
  | cdata
  /-- A document type declaration. -/
  | doctype
  /-- An instruction or declaration. -/
  | instruction
  /-- A tag. -/
  | tag
  deriving DecidableEq, Repr

/-- How messages name a construct. -/
def Construct.name : Construct → String
  | .bang => "Bang"
  | .comment => "Comment"
  | .cdata => "CData"
  | .doctype => "DOCTYPE"
  | .instruction => "XmlDecl"
  | .tag => "Element"

/-- Why a text cannot be read. -/
inductive Cause where
  /-- The text ends inside a construct, or the construct is not what it looked like. -/
  | unfinished (what : Construct)
  /-- An exclamation mark followed by something else than a known construct. -/
  | unknownBang (found : Char)
  /-- A document type declaration without content. -/
  | emptyDoctype
  /-- A close tag that does not name the innermost open element. -/
  | mismatchedCloseTag (expected found : String)
  /-- A fault in an attribute, at an octet of its tag. -/
  | badAttribute (place : Nat) (fault : AttributeFault)
  /-- A fault in a reference. -/
  | badReference (fault : ReferenceFault)
  deriving DecidableEq, Repr

/-- The wording of a cause. -/
def Cause.message : Cause → String
  | .unfinished what => String.join ["Unexpected EOF during reading ", what.name]
  | .unknownBang found =>
    String.join ["Only Comment (`--`), CDATA (`[CDATA[`) and DOCTYPE (`DOCTYPE`) nodes ",
      "can start with a '!', but symbol `", String.ofList [found], "` found"]
  | .emptyDoctype => "DOCTYPE declaration must not be empty"
  | .mismatchedCloseTag expected found =>
    String.join ["Expecting </", expected, "> found </", found, ">"]
  | .badAttribute place fault => String.join ["position ", toString place, ": ", fault.message]
  | .badReference fault => fault.message

/-- A cause and the octet it is reported at. -/
structure Fault where
  /-- The octet of the text. -/
  position : Nat
  /-- What is wrong. -/
  cause : Cause
  deriving DecidableEq, Repr

/-- The wording of a fault. -/
def Fault.message (f : Fault) : String :=
  String.join ["markup read error at byte ", toString f.position, ": ", f.cause.message]

end SvgWorkbench.Markup
