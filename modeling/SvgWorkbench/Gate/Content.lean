import SvgWorkbench.Gate.Namespace

/-!
# Element content

Content is read piece by piece with a list of the elements that are open. An entity in a run of text
is read as content too, on the same list of open elements: its text may open elements for the text
after it to close, and the other way round. Each text therefore counts the tags it has opened
itself, and the tag that closes more than those ends that text. A text that ends inside a start tag
leaves the attributes of that tag to the next tag that ends, wherever it stands.
-/

namespace SvgWorkbench.Gate

open Xml

/-! ## State -/

/-- An element that is open. -/
structure OpenElement where
  /-- The name its close tag has to have. -/
  qname : QName
  /-- The namespaces declared inside it. -/
  scope : List Binding

/-- What has been read so far. -/
structure State where
  /-- The open elements, innermost first. -/
  opened : List OpenElement := []
  /-- Whether an element stands at the top level. -/
  rooted : Bool := false
  /-- Whether the present text has had a start tag. -/
  tagSeen : Bool := false
  /-- The attributes read since a tag ended. -/
  pending : Sorted := {}
  /-- The references met inside entities. -/
  references : Nat := 0

/-! ## Tags -/

/-- The namespaces declared where the next tag stands. -/
def State.scope (st : State) : List Binding := (st.opened.head?.map (·.scope)).getD []

/-- Reads the meaning of a start tag that is followed by `after` characters. -/
def State.readStartTag (st : State) (entities : List Entity) (depth : Nat) (nested : Bool)
    (after : Nat) (tag : StartTag) : Except Fault State := do
  if tag.qname.space = Mark.xmlns then
    throw ⟨.reservedElementPrefix, tag.start + after⟩
  let (sorted, references) ←
    sortAttributes entities depth nested after st.pending st.references tag.attributes
  let st := { st with tagSeen := true, references }
  match tag.ending with
  | .error fault => .error (fault.shift after)
  | .ok .cut => return { st with pending := sorted }
  | .ok .empty => do
    let _ ← closeScope st.scope sorted tag.qname (tag.start + after)
    return { st with rooted := true, pending := {} }
  | .ok .opened => do
    let scope ← closeScope st.scope sorted tag.qname (tag.start + after)
    return { st with rooted := true, pending := {}, opened := ⟨tag.qname, scope⟩ :: st.opened }

/-- Whether a start tag opens an element. -/
def StartTag.opens (tag : StartTag) : Bool :=
  match tag.ending with
  | .ok .opened => true
  | _ => false

/-- Reads a close tag at a place; attributes a cut tag has left are checked first. -/
def State.readCloseTag (st : State) (q : QName) (place : Nat) : Except Fault State := do
  if !st.tagSeen then throw ⟨.strayCloseTag, place⟩
  let _ ← st.pending.resolve st.scope
  match st.opened with
  | [] => .error ⟨.strayCloseTag, place⟩
  | e :: rest =>
    if e.qname = q then return { st with pending := {}, opened := rest }
    else .error ⟨.mismatchedCloseTag e.qname.text q.text, place⟩

/-! ## Text -/

/-- A way to read an entity in content: from the place after the reference and the entity. -/
abbrev ContentExpansion := Nat → Entity → State → Except Fault State

/-- Resolves the references in a run of text that is followed by `after` characters. -/
def State.readText (entities : List Entity) (expand : ContentExpansion) (nested : Bool)
    (after : Nat) (st : State) (cs : List Char) : Except Fault State :=
  match cs with
  | [] => .ok st
  | '&' :: rest =>
    match _h : reference? rest with
    | none => .error ⟨.malformedReference, rest.length + 1 + after⟩
    | some (.char _, rest') => State.readText entities expand nested after st rest'
    | some (.entity name, rest') =>
      match declared? entities name with
      | none => .error ⟨.unknownReference (String.ofList name), rest.length + 1 + after⟩
      | some entity => do
        let place := rest'.length + after
        let references ← countReference nested place st.references
        let st ← expand place entity { st with references }
        State.readText entities expand nested after
          { st with references := recount nested st.references } rest'
  | _ :: rest => State.readText entities expand nested after st rest
termination_by cs.length
decreasing_by
  · exact Nat.lt_succ_of_lt (reference?_length _h)
  · exact Nat.lt_succ_of_lt (reference?_length _h)
  · simp

/-! ## Content -/

/-- Reads content in which this text has opened `level` elements, up to the tag that closes the
last of them or the end of the text; `after` characters of the markup follow the text. -/
def content (entities : List Entity) (expand : ContentExpansion) (depth : Nat) (nested : Bool)
    (after level : Nat) (st : State) (cs : List Char) : Except Fault (State × List Char) :=
  match cs with
  | [] => .ok (st, [])
  | c :: cs' =>
    match _h : piece (c :: cs') with
    | .error fault => .error (fault.shift after)
    | .ok (.silent, rest) => content entities expand depth nested after level st rest
    | .ok (.run text, rest) => do
      let st ← st.readText entities expand nested (rest.length + after) text
      content entities expand depth nested after level st rest
    | .ok (.startTag tag, rest) => do
      let st ← st.readStartTag entities depth nested after tag
      content entities expand depth nested after (if tag.opens then level + 1 else level) st rest
    | .ok (.closeTag q, rest) => do
      let st ← st.readCloseTag q (cs'.length + 1 + after)
      if level ≤ 1 then return (st, rest)
      else content entities expand depth nested after (level - 1) st rest
termination_by cs.length
decreasing_by
  all_goals exact piece_length (List.cons_ne_nil c cs') _h

/-- Reads an entity in content when that many more may be nested. -/
def expandContent (entities : List Entity) : Nat → ContentExpansion
  | 0 => fun place _ _ ↦ .error ⟨.referenceLoop, place⟩
  | depth + 1 => fun _ entity st ↦ do
    let (inner, _) ← content entities (expandContent entities depth) depth true entity.after 1
      { st with tagSeen := false } entity.value
    return { inner with tagSeen := st.tagSeen }

end SvgWorkbench.Gate
