import SvgWorkbench.Markup.Content
import SvgWorkbench.Markup.Reference
import SvgWorkbench.Markup.Token

/-!
# Reading markup

Tokens are put together with a stack of the elements that are open. Text keeps its blanks, sections
become text, and elements that are still open at the end are closed there. A document type
declaration always belongs to the top level; inside an element it waits until the outermost element
is closed, which then stands before it.
-/

namespace SvgWorkbench.Markup

open Text Xml

/-! ## Attributes -/

/-- The attributes after a tag name. The first character is octet `offset` of the tag, and `seen`
holds the names so far with the octets they start at. -/
def readAttributes (entities : Entities) (seen : List (List Char × Nat)) (offset : Nat)
    (cs : List Char) : Except Cause (List (String × String)) :=
  match _h : skipSpaces cs with
  | [] => .ok []
  | k :: tail =>
    let start := offset + octets (cs.takeWhile isSpace)
    let more := tail.takeWhile fun c ↦ c != '=' && !isSpace c
    let key := k :: more
    let beyond := tail.dropWhile fun c ↦ c != '=' && !isSpace c
    let equalsAt := start + octets key + octets (beyond.takeWhile isSpace)
    match _h₂ : skipSpaces beyond with
    | '=' :: afterEquals =>
      match seen.find? (·.1 == key) with
      | some (_, earlier) => .error (.badAttribute start (.repeated earlier))
      | none =>
        let valueAt := equalsAt + 1 + octets (afterEquals.takeWhile isSpace)
        match _h₃ : skipSpaces afterEquals with
        | [] => .error (.badAttribute valueAt .noValue)
        | q :: value =>
          if q ≠ '"' ∧ q ≠ '\x27' then .error (.badAttribute valueAt .unquoted)
          else
            let raw := value.takeWhile (· ≠ q)
            match _h₄ : value.dropWhile (· ≠ q) with
            | [] => .error (.badAttribute (valueAt + 1 + octets raw) (.unclosed q))
            | _ :: rest =>
              match unescape entities 0 (spaced raw) with
              | .error fault => .error (.badReference fault)
              | .ok text => do
                let others ← readAttributes entities ((key, start) :: seen)
                  (valueAt + 2 + octets raw) rest
                return (String.ofList key, String.ofList text) :: others
    | _ => .error (.badAttribute equalsAt .noEquals)
termination_by cs.length
decreasing_by
  have h₁ := skipSpaces_length_le cs
  have h₂ := skipSpaces_length_le (tail.dropWhile fun c ↦ c != '=' && !isSpace c)
  have h₃ := skipSpaces_length_le afterEquals
  have h₄ : (value.dropWhile (· ≠ q)).length ≤ value.length := (List.dropWhile_suffix _).length_le
  have h₅ : (tail.dropWhile fun c ↦ c != '=' && !isSpace c).length ≤ tail.length :=
    (List.dropWhile_suffix _).length_le
  rw [_h] at h₁
  rw [_h₂] at h₂
  rw [_h₃] at h₃
  rw [_h₄] at h₄
  simp only [List.length_cons] at h₁ h₂ h₃ h₄ h₅ ⊢
  omega

/-- The element of a tag. -/
def readElement (entities : Entities) (body : List Char) : Except Cause Element := do
  let name := tagName body
  let attributes ← readAttributes entities [] (octets name) (body.drop name.length)
  return ⟨String.ofList name, attributes⟩

/-! ## The stack of open elements -/

/-- An element that is open, with the children it has so far, last one first. -/
structure Frame where
  /-- The element. -/
  element : Element
  /-- Its children so far, last one first. -/
  children : List (Tree Content) := []

/-- The element closed. -/
def Frame.close (f : Frame) : Tree Content := .node (.element f.element) f.children.reverse

/-- What has been read. -/
structure Reading where
  /-- The finished nodes of the top level, last one first. -/
  finished : List (Tree Content) := []
  /-- The open elements, innermost first. -/
  opened : List Frame := []
  /-- The document types met inside the outermost open element, last one first. -/
  waiting : List (Tree Content) := []
  /-- The entities declared so far. -/
  entities : Entities := []

namespace Reading

/-- The name of the innermost open element. -/
def innermost? (r : Reading) : Option String := r.opened.head?.map (·.element.name)

/-- Adds a finished node to the innermost open element. -/
def add (r : Reading) (t : Tree Content) : Reading :=
  match r.opened with
  | [] => { r with finished := t :: r.finished }
  | f :: fs => { r with opened := { f with children := t :: f.children } :: fs }

/-- Adds a node without children. -/
def addLeaf (r : Reading) (c : Content) : Reading := r.add (.node c [])

/-- Adds a document type to the top level. -/
def addDoctype (r : Reading) (text : List Char) : Reading :=
  let t := Tree.node (Content.doctype (String.ofList (trimStart text))) []
  let r := { r with entities := r.entities.collect text }
  if r.opened.isEmpty then { r with finished := t :: r.finished }
  else { r with waiting := t :: r.waiting }

/-- Closes the innermost open element. -/
def close (r : Reading) : Reading :=
  match r.opened with
  | [] => r
  | [f] => { r with finished := r.waiting ++ f.close :: r.finished, opened := [], waiting := [] }
  | f :: g :: fs => { r with opened := { g with children := f.close :: g.children } :: fs }

/-- Adds a token. -/
def step (r : Reading) : Token → Except Cause Reading
  | .text raw =>
    match unescape r.entities 0 raw with
    | .ok text => .ok (r.addLeaf (.text (String.ofList text)))
    | .error fault => .error (.badReference fault)
  | .openTag body => do
    let e ← readElement r.entities body
    return { r with opened := ⟨e, []⟩ :: r.opened }
  | .emptyTag body => do
    let e ← readElement r.entities body
    return r.addLeaf (.element e)
  | .closeTag => .ok r.close
  | .comment text => .ok (r.addLeaf (.comment (String.ofList text)))
  | .cdata text => .ok (r.addLeaf (.text (String.ofList text)))
  | .instruction text => .ok (r.addLeaf (.instruction (String.ofList text)))
  | .doctype text => .ok (r.addDoctype text)

/-- Closes that many open elements. -/
def closeAll (r : Reading) : Nat → Reading
  | 0 => r
  | n + 1 => r.close.closeAll n

/-- The nodes of the top level once everything is closed. -/
def markup (r : Reading) : Markup := (r.closeAll r.opened.length).finished.reverse

end Reading

/-! ## Whole texts -/

/-- Reads what is left of a text, whose first character is octet `offset`. A less-than sign at the
very end is not looked at. -/
def readFrom (r : Reading) (offset : Nat) (cs : List Char) : Except Fault Reading :=
  match cs with
  | [] => .ok r
  | c :: rest =>
    if c = '<' ∧ rest = [] then .ok r
    else match _h : cut r.innermost? offset (c :: rest) with
      | .error fault => .error fault
      | .ok x =>
        match r.step x.token with
        | .error cause => .error ⟨offset, cause⟩
        | .ok r => readFrom r (offset + x.size) x.rest
termination_by cs.length
decreasing_by exact cut_length _h

/-- Reads a text. A byte order mark at the start is dropped and does not count as octets. -/
def read (s : String) : Except Fault Markup :=
  let cs := (afterPrefix? ['\uFEFF'] s.toList).getD s.toList
  (readFrom {} 0 cs).map Reading.markup

end SvgWorkbench.Markup
