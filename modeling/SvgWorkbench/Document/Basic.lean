import SvgWorkbench.Document.Direction
import SvgWorkbench.Markup.Content
import SvgWorkbench.Text.AsciiCase

/-!
# Documents

Edits have to say which node they mean, so a document gives every node a *handle*, a number that no
other node of it has or will have. Nodes are trees, and a node that has been taken out of the
document is kept as a tree of its own: its handle still means it, but it is not part of the text any
more. A node therefore has a parent exactly when it stands in some tree below that parent; nothing
has to be kept in step.

Handles are given out in growing order and a new node is always put below an older one, so handles
grow from parent to child.
-/

namespace SvgWorkbench

/-! ## Nodes -/

/-- The number that names a node of a document. -/
abbrev Handle := Nat

/-- The content of a node with its handle. -/
structure Slot where
  /-- The handle of the node. -/
  handle : Handle
  /-- What the node holds. -/
  content : Content
  deriving DecidableEq, Repr

/-- A node of a document with everything below it. -/
abbrev Node := Tree Slot

namespace Node

/-- The handle of a node. -/
def handle (n : Node) : Handle := n.label.handle

/-- What a node holds. -/
def content (n : Node) : Content := n.label.content

/-- The element of a node, if it holds one. -/
def element? (n : Node) : Option Element := n.content.element?

/-- Whether a node holds an element. -/
def isElement (n : Node) : Bool := n.content.isElement

/-- The children that are elements. -/
def childElements (n : Node) : List Node := n.children.filter isElement

mutual

/-- The elements of a tree in document order. Below other nodes there are none. -/
def elements : Node → List Node
  | .node s ts => if s.content.isElement then .node s ts :: elementsAll ts else []

/-- The elements of a forest in document order. -/
def elementsAll : List Node → List Node
  | [] => []
  | t :: ts => elements t ++ elementsAll ts

end

mutual

/-- The text of a node and of the elements below it. Comments and instructions have none. -/
def textContent : Node → String
  | .node s ts =>
    match s.content with
    | .text t => t
    | .element _ => textContentAll ts
    | _ => ""

/-- The text of a forest. -/
def textContentAll : List Node → String
  | [] => ""
  | t :: ts => textContent t ++ textContentAll ts

end

mutual

/-- Changes the node of a handle together with everything below it. -/
def modify (h : Handle) (f : Node → Node) : Node → Node
  | .node s ts => if s.handle = h then f (.node s ts) else .node s (modifyAll h f ts)

/-- Changes the node of a handle in a forest. -/
def modifyAll (h : Handle) (f : Node → Node) : List Node → List Node
  | [] => []
  | t :: ts => modify h f t :: modifyAll h f ts

end

mutual

/-- Takes the node of a handle out from below a node. -/
def prune (h : Handle) : Node → Node
  | .node s ts => .node s (pruneAll h ts)

/-- Takes the node of a handle out of a forest. -/
def pruneAll (h : Handle) : List Node → List Node
  | [] => []
  | t :: ts => if t.label.handle = h then pruneAll h ts else prune h t :: pruneAll h ts

end

/-- A node with a child more at its end. -/
def addChild (child : Node) (n : Node) : Node := .node n.label (n.children ++ [child])

/-- A node with its children replaced. -/
def withChildren (ts : List Node) (n : Node) : Node := .node n.label ts

/-- A node with its element changed; other nodes stay as they are. -/
def mapElement (f : Element → Element) (n : Node) : Node :=
  match n.label.content with
  | .element e => .node ⟨n.label.handle, .element (f e)⟩ n.children
  | _ => n

/-- A node without handles. -/
def bare (n : Node) : Tree Content := n.map Slot.content

end Node

/-! ## Documents -/

/-- The nodes of a text, the nodes that have been taken out of it, and the next handle. -/
structure Document where
  /-- The nodes of the top level. -/
  topLevel : List Node := []
  /-- The nodes that belong to no text any more. -/
  loose : List Node := []
  /-- The handle of the next new node. -/
  next : Handle := 0
  deriving DecidableEq, Repr

namespace Document

mutual

/-- A node with handles given out in preorder from a number on, and the next number. -/
def number (next : Handle) : Tree Content → Node × Handle
  | .node c ts =>
    let (children, after) := numberAll (next + 1) ts
    (.node ⟨next, c⟩ children, after)

/-- A forest with handles given out in preorder from a number on, and the next number. -/
def numberAll (next : Handle) : List (Tree Content) → List Node × Handle
  | [] => ([], next)
  | t :: ts =>
    let (node, after) := number next t
    let (nodes, last) := numberAll after ts
    (node :: nodes, last)

end

/-- The document of some markup. -/
def ofMarkup (m : Markup) : Document :=
  let (nodes, next) := numberAll 0 m
  { topLevel := nodes, next }

/-- The markup of a document. -/
def markup (d : Document) : Markup := d.topLevel.map Node.bare

/-! ### Finding nodes -/

/-- All nodes, those of the text first. -/
def nodes (d : Document) : List Node := Tree.subtreesAll (d.topLevel ++ d.loose)

/-- The node of a handle. -/
def node? (d : Document) (h : Handle) : Option Node := d.nodes.find? (·.handle == h)

/-- The element of a node. -/
def element? (d : Document) (h : Handle) : Option Element := (d.node? h).bind Node.element?

/-- The node that has a given node among its children. -/
def parent? (d : Document) (h : Handle) : Option Node :=
  d.nodes.find? fun n ↦ n.children.any fun (child : Node) ↦ child.handle == h

/-- The elements of the text in document order. -/
def elements (d : Document) : List Node := Node.elementsAll d.topLevel

/-- The first element whose tag is `svg` in any letter case. -/
def root? (d : Document) : Option Node :=
  d.elements.find? fun n ↦ n.element?.any fun e ↦ Text.eqIgnoringAsciiCase e.name "svg"

/-- The ids that are not empty, in document order. -/
def ids (d : Document) : List String := d.elements.filterMap fun n ↦ n.element?.bind Element.id?

/-- The first element of the root's subtree with an id. -/
def find? (d : Document) (id : String) : Option Node :=
  d.root?.bind fun root ↦ root.elements.find? fun n ↦ n.element?.bind Element.id? == some id

/-! ### Changing nodes -/

/-- Changes the node of a handle together with everything below it. -/
def modify (d : Document) (h : Handle) (f : Node → Node) : Document :=
  { d with topLevel := Node.modifyAll h f d.topLevel, loose := Node.modifyAll h f d.loose }

/-- Changes the element of a node. -/
def modifyElement (d : Document) (h : Handle) (f : Element → Element) : Document :=
  d.modify h (Node.mapElement f)

/-- Adds a new node as the last child of a node, or at the end of the top level. The handle of the
new node is the document's next one. -/
def append (d : Document) (parent : Option Handle) (content : Content) : Document :=
  let leaf : Node := .node ⟨d.next, content⟩ []
  let d := { d with next := d.next + 1 }
  match parent with
  | some h => d.modify h (Node.addChild leaf)
  | none => { d with topLevel := d.topLevel ++ [leaf] }

/-- Takes all children off a node and gives it a text instead, unless that is empty. -/
def setText (d : Document) (h : Handle) (text : String) : Document :=
  let freed := ((d.node? h).map (·.children)).getD []
  let d := d.modify h (Node.withChildren [])
  let d := { d with loose := d.loose ++ freed }
  if text.isEmpty then d else d.append (some h) (.text text)

/-- Whether a node stands at the top level or below another node. -/
def isAttached (d : Document) (h : Handle) : Bool :=
  (d.parent? h).isSome || d.topLevel.any (·.handle == h)

/-- Takes a node off its parent or the top level. -/
def detach (d : Document) (h : Handle) : Document :=
  if d.isAttached h then
    { d with
      topLevel := Node.pruneAll h d.topLevel
      loose := Node.pruneAll h d.loose ++ (d.node? h).toList }
  else d

/-! ### Exchanging neighbours -/

/-- Puts a node where the first element of a list stands, and gives that element. -/
def takePlace (x : Node) : List Node → Option (Node × List Node)
  | [] => none
  | y :: ts =>
    if y.isElement then some (y, x :: ts)
    else (takePlace x ts).map fun (found, rest) ↦ (found, y :: rest)

/-- Exchanges the element of a handle with the next element of a list; nodes that are no elements
stay where they are. -/
def swapNext (h : Handle) : List Node → Option (List Node)
  | [] => none
  | t :: ts =>
    if t.handle = h && t.isElement then (takePlace t ts).map fun (y, rest) ↦ y :: rest
    else (swapNext h ts).map (t :: ·)

/-- Exchanges the element of a handle with the element before it. -/
def swapPrevious (h : Handle) (ts : List Node) : Option (List Node) :=
  (swapNext h ts.reverse).map List.reverse

/-- Exchanges an element with its neighbour in a direction among its parent's elements, if it has a
parent and such a neighbour. -/
def swap? (d : Document) (h : Handle) (direction : Direction) : Option Document := do
  let parent ← d.parent? h
  let children ← match direction with
    | .raise => swapNext h parent.children
    | .lower => swapPrevious h parent.children
  return d.modify (Node.handle parent) (Node.withChildren children)

end Document

end SvgWorkbench
