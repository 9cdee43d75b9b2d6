import Mathlib.Logic.Relation
import SvgWorkbench.Proofs.Document.Handle

/-!
# Arenas

A document may also be kept as one table of cells, where the handle of a node is the place of its
cell. Trees are not there as such: every cell has the handle of its parent and the list of the
handles below it. So it is said twice how nodes hang together, and every change has to keep the two
in step. No cell is ever taken away. That of a node which has been taken out stays where it is, and
its parent is missing, as is that of a node of the top level.

Changes are applied to trees and to arenas alike, one after the other. An arena has the nodes of a
document when its cells say of each node what the trees say of it.
-/

namespace SvgWorkbench

/-! ## Cells -/

/-- A node in an arena. -/
structure Cell where
  /-- What the node holds. -/
  content : Content
  /-- The node it hangs below. -/
  parent : Option Handle
  /-- The nodes that hang below it, in order. -/
  children : List Handle := []
  deriving DecidableEq, Repr

/-- A cell with its element changed; other cells stay as they are. -/
def Cell.mapElement (f : Element → Element) (c : Cell) : Cell :=
  match c.content with
  | .element e => { c with content := .element (f e) }
  | _ => c

/-- A table of nodes that refer to each other by their places in it. -/
structure Arena where
  /-- All nodes there have ever been. -/
  cells : List Cell := []
  /-- The nodes of the top level, in order. -/
  topLevel : List Handle := []
  deriving DecidableEq, Repr

/-! ## Changes -/

/-- A change of a document. -/
inductive Change where
  /-- A new node at the end of a node or of the top level. -/
  | append (parent : Option Handle) (content : Content)
  /-- An attribute of an element gets a value. -/
  | setAttribute (h : Handle) (key value : String)
  /-- An attribute of an element is removed. -/
  | removeAttribute (h : Handle) (key : String)
  /-- A text takes the place of all that is below a node. -/
  | setText (h : Handle) (text : String)
  /-- A node is taken off its parent or the top level. -/
  | detach (h : Handle)
  /-- An element changes places with the next element in a direction. -/
  | swap (h : Handle) (direction : Direction)
  deriving DecidableEq, Repr

/-- The node that a change is about. -/
def Change.target? : Change → Option Handle
  | .append parent _ => parent
  | .setAttribute h _ _ => some h
  | .removeAttribute h _ => some h
  | .setText h _ => some h
  | .detach h => some h
  | .swap h _ => some h

namespace Change

mutual

/-- The changes that add a tree to a document, node by node in document order, where the next handle
is known. -/
def adding (parent : Option Handle) (next : Handle) : Tree Content → List Change
  | .node c ts => .append parent c :: addingAll (some next) (next + 1) ts

/-- The changes that add the trees of a forest. -/
def addingAll (parent : Option Handle) (next : Handle) : List (Tree Content) → List Change
  | [] => []
  | t :: ts => adding parent next t ++ addingAll parent (next + t.size) ts

end

end Change

namespace Document

/-- The document after a change. -/
def apply (d : Document) : Change → Document
  | .append parent content => d.append parent content
  | .setAttribute h key value => d.modifyElement h (·.set key value)
  | .removeAttribute h key => d.modifyElement h (·.erase key)
  | .setText h text => d.setText h text
  | .detach h => d.detach h
  | .swap h direction => (d.swap? h direction).getD d

/-- The document after some changes. -/
def run (d : Document) (changes : List Change) : Document := changes.foldl apply d

/-- Whether each of some changes is about a node that exists when its turn comes. -/
def Allows (d : Document) : List Change → Prop
  | [] => True
  | c :: cs => (∀ h ∈ c.target?, h < d.next) ∧ (d.apply c).Allows cs

/-- Decides whether changes are allowed, one after the other. -/
def decAllows : (d : Document) → (cs : List Change) → Decidable (d.Allows cs)
  | _, [] => isTrue trivial
  | d, c :: cs => @instDecidableAnd _ _ inferInstance (decAllows (d.apply c) cs)

instance (d : Document) (cs : List Change) : Decidable (d.Allows cs) := decAllows d cs

end Document

namespace Arena

variable (a : Arena)

/-! ## Looking nodes up -/

/-- The nodes below a node. -/
def children (h : Handle) : List Handle := (a.cells[h]?.map Cell.children).getD []

/-- The parent of a node. -/
def parent? (h : Handle) : Option Handle := a.cells[h]?.bind Cell.parent

/-- Whether a node is an element. -/
def isElement (h : Handle) : Bool := a.cells[h]?.any (·.content.isElement)

/-! ## Changing nodes -/

/-- Changes the cell of a node. -/
def alter (h : Handle) (f : Cell → Cell) : Arena := { a with cells := a.cells.modify h f }

/-- Adds a cell, which no list has in it yet. -/
def push (c : Cell) : Arena := { a with cells := a.cells ++ [c] }

/-- Adds a new node at the end of a node or of the top level. -/
def append (parent : Option Handle) (content : Content) : Arena :=
  let fresh := a.cells.length
  let a := a.push { content, parent }
  match parent with
  | some h => a.alter h fun c ↦ { c with children := c.children ++ [fresh] }
  | none => { a with topLevel := a.topLevel ++ [fresh] }

/-- Takes their parent away from some nodes. -/
def release (hs : List Handle) : Arena :=
  hs.foldl (fun a h ↦ a.alter h fun c ↦ { c with parent := none }) a

/-- Takes all nodes below a node off it. -/
def clear (h : Handle) : Arena :=
  (a.alter h fun c ↦ { c with children := [] }).release (a.children h)

/-- Takes all nodes below a node off it and gives it a text instead, unless that is empty. -/
def setText (h : Handle) (text : String) : Arena :=
  let a := a.clear h
  if text.isEmpty then a else a.append (some h) (.text text)

/-- Takes a node off its parent. -/
def takeOff (p h : Handle) : Arena :=
  (a.alter p fun c ↦ { c with children := c.children.erase h }).release [h]

/-- Takes a node off the top level. -/
def takeOffTop (h : Handle) : Arena := { a with topLevel := a.topLevel.erase h }.release [h]

/-- Takes a node off the list it should be in, if it is there. -/
def detach? (h : Handle) : Option Arena :=
  match a.parent? h with
  | some p => if h ∈ a.children p then some (a.takeOff p h) else none
  | none => if h ∈ a.topLevel then some (a.takeOffTop h) else none

/-- The places, counted from a number on, of those nodes of a list that are elements. -/
def slots (isElement : Handle → Bool) (start : Nat) (hs : List Handle) : List Nat :=
  ((hs.zipIdx start).filter fun entry ↦ isElement entry.1).map Prod.snd

/-- The place next to that of a position in a direction. -/
def neighbour? (places : List Nat) (position : Nat) : Direction → Option Nat
  | .raise => places[position + 1]?
  | .lower => if position = 0 then none else places[position - 1]?

/-- A list in which an element has changed places with its neighbour among the elements, if there is
one in that direction. All other nodes keep their places. -/
def exchange? (isElement : Handle → Bool) (h : Handle) (direction : Direction)
    (siblings : List Handle) : Option (List Handle) := do
  let places := slots isElement 0 siblings
  let position ← places.findIdx? fun place ↦ siblings[place]? == some h
  let place ← places[position]?
  let neighbour ← neighbour? places position direction
  let other ← siblings[neighbour]?
  return (siblings.set place other).set neighbour h

/-- Exchanges an element with its neighbour among the elements below its parent. -/
def swap? (h : Handle) (direction : Direction) : Option Arena := do
  let parent ← a.parent? h
  let children ← exchange? a.isElement h direction (a.children parent)
  return a.alter parent fun c ↦ { c with children }

/-- The arena after a change. -/
def apply (a : Arena) : Change → Arena
  | .append parent content => a.append parent content
  | .setAttribute h key value => a.alter h (Cell.mapElement (·.set key value))
  | .removeAttribute h key => a.alter h (Cell.mapElement (·.erase key))
  | .setText h text => a.setText h text
  | .detach h => (a.detach? h).getD a
  | .swap h direction => (a.swap? h direction).getD a

/-- The arena after some changes. -/
def run (changes : List Change) : Arena := changes.foldl apply a

/-- The arena of some markup, whose nodes are added to an empty one. -/
def ofMarkup (m : Markup) : Arena := ({} : Arena).run (Change.addingAll none 0 m)

/-- The nodes that a change takes out: one that is detached, or all that make room for a text. -/
def takenOut : Change → List Handle
  | .detach h => if (a.detach? h).isSome then [h] else []
  | .setText h _ => a.children h
  | _ => []

/-! ## Going through an arena -/

/-- An element and the elements below it in document order, where nothing is deeper than a bound. -/
def collect? : Nat → Handle → Option (List Handle)
  | 0, _ => none
  | depth + 1, h =>
    if a.isElement h then
      ((a.children h).mapM (collect? depth)).map fun below ↦ h :: below.flatten
    else some []

/-- The elements of the text in document order, where nothing is deeper than a bound. -/
def elements? (depth : Nat) : Option (List Handle) :=
  (a.topLevel.mapM (a.collect? depth)).map List.flatten

/-- Whether a node is another one or hangs below it, at whatever depth. -/
def IsBelow (p q : Handle) : Prop := Relation.ReflTransGen (fun p q ↦ q ∈ a.children p) p q

/-- Whether a node is an element of the top level or below an element that is such a one. -/
inductive Reaches : Handle → Prop where
  /-- An element of the top level. -/
  | top {h : Handle} : h ∈ a.topLevel → a.isElement h → Reaches h
  /-- An element below an element. -/
  | child {p h : Handle} : Reaches p → h ∈ a.children p → a.isElement h → Reaches h

/-- Whether some nodes stand together in a list, that of the top level or that of a node. -/
def IsRow (hs : List Handle) : Prop := hs = a.topLevel ∨ ∃ p, hs = a.children p

/-- Whether a node stands before another one in document order: the other one hangs below it, or
they hang at or below two nodes of one list, in its order. -/
def Precedes (q r : Handle) : Prop :=
  q ≠ r ∧ (a.IsBelow q r ∨
    ∃ row x y, a.IsRow row ∧ [x, y].Sublist row ∧ a.IsBelow x q ∧ a.IsBelow y r)

/-! ## Forests -/

/-- Whether parents and lists of children say the same, and what they say is a forest. -/
structure IsForest : Prop where
  /-- A node is in the list of another one exactly if that is its parent. -/
  mem_children_iff : ∀ p q, q ∈ a.children p ↔ a.parent? q = some p
  /-- No node is twice in a list. -/
  nodup_children : ∀ p, (a.children p).Nodup
  /-- No node is twice at the top level. -/
  nodup_topLevel : a.topLevel.Nodup
  /-- No node is both at the top level and in a list. -/
  notMem_children : ∀ q ∈ a.topLevel, ∀ p, q ∉ a.children p
  /-- Handles grow from parent to child. -/
  lt_of_mem_children : ∀ p, ∀ q ∈ a.children p, p < q
  /-- What is in a list exists. -/
  lt_length : ∀ row, a.IsRow row → ∀ q ∈ row, q < a.cells.length

/-- Whether a list is that of the elements of a text: it is what going through the arena gives, in
steps that come to an end, each element that can be reached through elements is in it once, and it
is in document order. -/
structure ListsElements (hs : List Handle) : Prop where
  /-- No way down is longer than there are cells. -/
  collected : ∀ depth, a.cells.length ≤ depth → a.elements? depth = some hs
  /-- The list has the elements that can be reached. -/
  mem_iff : ∀ q, q ∈ hs ↔ a.Reaches q
  /-- It has each once. -/
  nodup : hs.Nodup
  /-- An element stands before those that follow it in the document. -/
  ordered : hs.Pairwise a.Precedes

end Arena

/-! ## The trees of an arena -/

namespace Arena

mutual

/-- Whether an arena has a tree below a parent, cell by cell. -/
def Holds (a : Arena) (parent : Option Handle) : Node → Prop
  | .node s ts =>
    a.cells[s.handle]? = some ⟨s.content, parent, ts.map Node.handle⟩ ∧
      (∀ k ∈ ts.map Node.handle, s.handle < k) ∧ a.HoldsAll (some s.handle) ts

/-- Whether an arena has the trees of a forest below a parent. -/
def HoldsAll (a : Arena) (parent : Option Handle) : List Node → Prop
  | [] => True
  | t :: ts => a.Holds parent t ∧ a.HoldsAll parent ts

end

/-- Whether an arena has the nodes of a document and no others. -/
structure Stores (a : Arena) (d : Document) : Prop where
  /-- The top levels are the same. -/
  topLevel : a.topLevel = d.topLevel.map Node.handle
  /-- What is in the text and what has been taken out stand in trees that nothing is above. -/
  holds : a.HoldsAll none (d.topLevel ++ d.loose)
  /-- Each handle that has been given means one node. -/
  numbered : (Node.handlesAll (d.topLevel ++ d.loose)).Perm (List.range d.next)
  /-- There is a cell for each handle that has been given. -/
  length : a.cells.length = d.next

end Arena

end SvgWorkbench
