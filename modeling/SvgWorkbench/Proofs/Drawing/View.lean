import SvgWorkbench.Drawing
import SvgWorkbench.Proofs.Document.Handle

/-!
# Components are a view of the markup

A drawing is made by walking its nodes once, giving out ids and building components on the way. Once
every element has an id the components depend on the markup alone: not on the handles, and not on
the names that were taken. This file describes them as such a function of the markup and shows that
giving out ids produces the components of the markup it produces.
-/

namespace SvgWorkbench

open SvgWorkbench.Tree

/-! ## Texts and elements of markup -/

namespace Markup

mutual

/-- The text of a node and of the elements inside. Comments and instructions have none. -/
def textOf : Tree Content → String
  | .node (.element _) ts => textOfAll ts
  | .node (.text s) _ => s
  | .node _ _ => ""

/-- The text of a forest. -/
def textOfAll : List (Tree Content) → String
  | [] => ""
  | t :: ts => textOf t ++ textOfAll ts

end

/-- Whether some of the nodes are elements. -/
def hasElements (ts : List (Tree Content)) : Bool := ts.any fun t ↦ t.label.isElement

mutual

/-- The elements of a tree in document order. -/
def elementsOf : Tree Content → List (Tree Content)
  | .node c ts => if c.isElement then .node c ts :: elementsOfAll ts else []

/-- The elements of a forest in document order. -/
def elementsOfAll : List (Tree Content) → List (Tree Content)
  | [] => []
  | t :: ts => elementsOf t ++ elementsOfAll ts

end

/-- Whether a content is an element whose tag is `svg`. -/
def isRoot (c : Content) : Bool :=
  c.element?.any fun e ↦ Text.eqIgnoringAsciiCase e.name "svg"

/-- The first element whose tag is `svg`. -/
def root? (m : Markup) : Option (Tree Content) := (elementsOfAll m).find? (isRoot ·.label)

/-! ## The view -/

/-- The attributes of the component of an element with some children. -/
def attributesOf (e : Element) (ts : List (Tree Content)) : Attributes :=
  let attributes := Drawing.withStyle e (SortedMap.ofList e.attributes)
  if hasElements ts || (Text.trim (textOfAll ts)).isEmpty then attributes
  else attributes.insert textKey (Text.trim (textOfAll ts))

/-- What the component of an element holds besides its children. -/
def entryOf (parent : Option String) (e : Element) (ts : List (Tree Content)) : Entry :=
  ⟨e.id?.getD "", e.kind, parent, attributesOf e ts⟩

mutual

/-- The component of a node whose elements have ids, or nothing for a node that is no element. -/
def view (parent : Option String) : Tree Content → List Component
  | .node (.element e) ts =>
    [.node (entryOf parent e ts) (viewAll (some (e.id?.getD "")) ts)]
  | .node _ _ => []

/-- The components of the elements of a forest. -/
def viewAll (parent : Option String) : List (Tree Content) → List Component
  | [] => []
  | t :: ts => view parent t ++ viewAll parent ts

end

/-- The components of markup whose elements have ids. -/
def components (m : Markup) : List Component := (root? m).elim [] (view none)

mutual

/-- Whether every element of a tree has an id. -/
def HasIds : Tree Content → Prop
  | .node (.element e) ts => e.id?.isSome ∧ HaveIds ts
  | .node _ _ => True

/-- Whether every element of a forest has an id. -/
def HaveIds : List (Tree Content) → Prop
  | [] => True
  | t :: ts => HasIds t ∧ HaveIds ts

end

theorem view_of_isElement_eq_false {c : Content} (h : c.isElement = false)
    (parent : Option String) (ts : List (Tree Content)) : view parent (.node c ts) = [] := by
  cases c <;> first | rfl | cases h

theorem hasIds_of_isElement_eq_false {c : Content} (h : c.isElement = false)
    (ts : List (Tree Content)) : HasIds (.node c ts) := by
  cases c <;> trivial

end Markup

/-! ## Nodes and their markup -/

namespace Node

/-- The id of a node that is an element, unless it is empty. -/
def id? (n : Node) : Option String := n.element?.bind Element.id?

theorem elements_element (h : Handle) (e : Element) (ts : List Node) :
    elements (.node ⟨h, .element e⟩ ts) = .node ⟨h, .element e⟩ ts :: elementsAll ts := rfl

theorem elements_of_isElement_eq_false {c : Content} (hc : c.isElement = false) (h : Handle)
    (ts : List Node) : elements (.node ⟨h, c⟩ ts) = [] := by
  rw [elements, if_neg (ne_true_of_eq_false hc)]

@[simp] theorem label_bare (n : Node) : n.bare.label = n.label.content := by
  obtain ⟨s, ts⟩ := n
  rw [bare_node, label_node, label_node]

@[simp] theorem children_bare (n : Node) : n.bare.children = n.children.map bare := by
  obtain ⟨s, ts⟩ := n
  rw [bare_node, children_node, children_node]

mutual

theorem textOf_bare (n : Node) : Markup.textOf n.bare = n.textContent := by
  match n with
  | .node ⟨h, c⟩ ts =>
    rw [bare_node, textContent]
    cases c with
    | element e => exact textOfAll_map_bare ts
    | text s => rfl
    | comment s => rfl
    | instruction s => rfl
    | doctype s => rfl

theorem textOfAll_map_bare (ns : List Node) :
    Markup.textOfAll (ns.map bare) = textContentAll ns := by
  match ns with
  | [] => rfl
  | n :: ns => rw [List.map_cons, Markup.textOfAll, textOf_bare n, textOfAll_map_bare ns,
      textContentAll]

end

theorem hasElements_map_bare (ns : List Node) :
    Markup.hasElements (ns.map bare) = !(ns.filter isElement).isEmpty := by
  induction ns with
  | nil => rfl
  | cons n ns ih =>
    rw [Markup.hasElements] at ih
    rw [List.map_cons, Markup.hasElements, List.any_cons, label_bare, ih, List.filter_cons]
    cases hn : n.label.content.isElement
    · simp [isElement, content, hn]
    · simp [isElement, content, hn]

section

variable {g : Slot → Content}

mutual

/-- A change of labels that leaves elements elements takes the elements of a node along. -/
theorem elementsOf_map (hg : ∀ s, (g s).isElement = s.content.isElement) (n : Node) :
    Markup.elementsOf (n.map g) = n.elements.map (Tree.map g) := by
  match n with
  | .node s ts =>
    rw [Tree.map, Markup.elementsOf, elements, hg]
    split
    · rw [List.map_cons, Tree.map, elementsOfAll_mapAll hg ts]
    · rfl

theorem elementsOfAll_mapAll (hg : ∀ s, (g s).isElement = s.content.isElement) (ns : List Node) :
    Markup.elementsOfAll (mapAll g ns) = (elementsAll ns).map (Tree.map g) := by
  match ns with
  | [] => rfl
  | n :: ns =>
    rw [mapAll, Markup.elementsOfAll, elementsOf_map hg n, elementsOfAll_mapAll hg ns, elementsAll,
      List.map_append]

end

end

theorem elementsOf_bare (n : Node) : Markup.elementsOf n.bare = n.elements.map bare :=
  elementsOf_map (fun _ ↦ rfl) n

end Node

/-- The root after a change of labels that leaves elements elements and tags what they are. -/
theorem Document.root?_mapAll {g : Slot → Content}
    (helement : ∀ s, (g s).isElement = s.content.isElement)
    (hroot : ∀ s, Markup.isRoot (g s) = Markup.isRoot s.content) (d : Document) :
    Markup.root? (mapAll g d.topLevel) = d.root?.map (Tree.map g) := by
  rw [Markup.root?, Node.elementsOfAll_mapAll helement, root?, elements, List.find?_map]
  refine congrArg (Option.map _) (congrArg (List.find? · _) (funext fun n ↦ ?_))
  obtain ⟨s, ts⟩ := n
  exact hroot s

theorem Document.root?_markup (d : Document) :
    Markup.root? d.markup = d.root?.map Node.bare := by
  rw [markup, show Node.bare = Tree.map Slot.content from rfl, ← mapAll_eq_map]
  exact root?_mapAll (fun _ ↦ rfl) (fun _ ↦ rfl) d

end SvgWorkbench
