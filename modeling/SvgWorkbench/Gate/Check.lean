import SvgWorkbench.Gate.Content
import SvgWorkbench.Gate.Prolog

/-!
# The strict check

Markup is let through when it is a well-formed document: an optional declaration and document type,
one root element, and around them nothing but spaces, comments and instructions. Every later stage
works on markup that has passed here.
-/

namespace SvgWorkbench.Gate

open Text Xml

/-- Reads the parts before the root element. -/
def prolog (cs : List Char) : Except Fault (List Entity × List Char) := do
  let rest ← optionalDeclaration cs
  let rest ← misc rest
  match afterPrefix? Mark.doctype rest with
  | none => return ([], rest)
  | some inner => do
    let (entities, after) ← doctype rest inner
    let rest ← misc after
    return (entities, rest)

/-- Reads the root element with its content. -/
def root (entities : List Entity) (cs : List Char) : Except Fault (State × List Char) := do
  let (tag, rest) ← startTag cs
  let st ← State.readStartTag {} entities maxDepth false 0 tag
  if tag.opens then
    content entities (expandContent entities maxDepth) maxDepth false 0 1 st rest
  else return (st, rest)

/-- Reads a whole document. An empty text is refused before anything is looked for in it. -/
def document : List Char → Except Fault Unit
  | [] => fail .noRoot []
  | cs => do
    let (entities, rest) ← prolog cs
    let (st, rest) ← match rest with
      | '<' :: rest => root entities rest
      | rest => pure ({}, rest)
    let rest ← misc rest
    if !rest.isEmpty then fail .unknownToken rest
    else if !st.rooted then fail .noRoot []
    else if !st.opened.isEmpty then fail .unclosedRoot []
    else return ()

/-- Checks that a text is a well-formed document. -/
def check (markup : String) : Except Refusal Unit :=
  (document markup.toList).mapError (·.locate markup.toList)

end SvgWorkbench.Gate
