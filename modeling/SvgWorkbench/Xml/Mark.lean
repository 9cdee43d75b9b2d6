/-!
# Marks of XML markup

The fixed words of the grammar as lists of characters, which is how every reader here meets them.
-/

namespace SvgWorkbench.Xml.Mark

/-! ## Declarations and document types -/

/-- What an XML declaration starts with. -/
def declaration : List Char := ['<', '?', 'x', 'm', 'l', ' ']

/-- The first word of an XML declaration. -/
def version : List Char := ['v', 'e', 'r', 's', 'i', 'o', 'n']

/-- The second word of an XML declaration. -/
def encoding : List Char := ['e', 'n', 'c', 'o', 'd', 'i', 'n', 'g']

/-- The last word of an XML declaration. -/
def standalone : List Char := ['s', 't', 'a', 'n', 'd', 'a', 'l', 'o', 'n', 'e']

/-- What a document type declaration starts with. -/
def doctype : List Char := ['<', '!', 'D', 'O', 'C', 'T', 'Y', 'P', 'E']

/-- What an external identifier without a public part starts with. -/
def system : List Char := ['S', 'Y', 'S', 'T', 'E', 'M']

/-- What an external identifier with a public part starts with. -/
def publicWord : List Char := ['P', 'U', 'B', 'L', 'I', 'C']

/-- What stands before the notation of an external entity. -/
def notationWord : List Char := ['N', 'D', 'A', 'T', 'A']

/-- What an entity declaration starts with. -/
def entity : List Char := ['<', '!', 'E', 'N', 'T', 'I', 'T', 'Y']

/-- What an element type declaration starts with. -/
def elementType : List Char := ['<', '!', 'E', 'L', 'E', 'M', 'E', 'N', 'T']

/-- What an attribute list declaration starts with. -/
def attributeList : List Char := ['<', '!', 'A', 'T', 'T', 'L', 'I', 'S', 'T']

/-- What a notation declaration starts with. -/
def notationType : List Char := ['<', '!', 'N', 'O', 'T', 'A', 'T', 'I', 'O', 'N']

/-! ## Constructs in content -/

/-- What a comment starts with. -/
def openComment : List Char := ['<', '!', '-', '-']

/-- What a comment ends with. -/
def closeComment : List Char := ['-', '-', '>']

/-- What an instruction starts with. -/
def openInstruction : List Char := ['<', '?']

/-- What an instruction ends with. -/
def closeInstruction : List Char := ['?', '>']

/-- What a CDATA section starts with. -/
def openSection : List Char := ['<', '!', '[', 'C', 'D', 'A', 'T', 'A', '[']

/-- What a CDATA section ends with. -/
def closeSection : List Char := [']', ']', '>']

/-- What all constructs but tags and instructions start with. -/
def bang : List Char := ['<', '!']

/-- What a close tag starts with. -/
def closeTag : List Char := ['<', '/']

/-! ## Reserved names -/

/-- The prefix that is always declared. -/
def xml : List Char := ['x', 'm', 'l']

/-- The prefix of namespace declarations, and the name of a declaration without a prefix. -/
def xmlns : List Char := ['x', 'm', 'l', 'n', 's']

/-- The namespace of the prefix that is always declared. -/
def xmlNamespace : List Char :=
  ['h', 't', 't', 'p', ':', '/', '/', 'w', 'w', 'w', '.', 'w', '3', '.', 'o', 'r', 'g', '/', 'X',
    'M', 'L', '/', '1', '9', '9', '8', '/', 'n', 'a', 'm', 'e', 's', 'p', 'a', 'c', 'e']

/-- The namespace of namespace declarations. -/
def xmlnsNamespace : List Char :=
  ['h', 't', 't', 'p', ':', '/', '/', 'w', 'w', 'w', '.', 'w', '3', '.', 'o', 'r', 'g', '/', '2',
    '0', '0', '0', '/', 'x', 'm', 'l', 'n', 's', '/']

end SvgWorkbench.Xml.Mark
