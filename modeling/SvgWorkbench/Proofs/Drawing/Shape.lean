import SvgWorkbench.Proofs.Drawing.Settled

/-!
# Components depend on the shape of the markup

The components of a document are made of its elements and of their texts. Where a text is cut into
runs, and what comments and instructions stand between, is not seen in them. So markup is reduced to
its *shape*, a forest of elements with their texts, and ids are given out on shapes in the same way
as on documents: markup of one shape makes the same components.
-/

namespace SvgWorkbench

open SvgWorkbench.Tree

namespace Markup

/-! ## Shapes -/

/-- An element with the text of all that is inside. -/
abbrev Shape := Tree (Element × String)

mutual

/-- The shape of a node, or nothing for a node that is no element. -/
def shape : Tree Content → List Shape
  | .node (.element e) ts => [.node (e, textOfAll ts) (shapeAll ts)]
  | .node _ _ => []

/-- The shapes of the elements of a forest. -/
def shapeAll : List (Tree Content) → List Shape
  | [] => []
  | t :: ts => shape t ++ shapeAll ts

end

theorem shape_of_isElement_eq_false {c : Content} (h : c.isElement = false)
    (ts : List (Tree Content)) : shape (.node c ts) = [] := by
  cases c <;> first | rfl | cases h

theorem shapeAll_append (ts us : List (Tree Content)) :
    shapeAll (ts ++ us) = shapeAll ts ++ shapeAll us := by
  induction ts with
  | nil => rfl
  | cons t ts ih => rw [List.cons_append, shapeAll, shapeAll, ih, List.append_assoc]

/-- Nodes that are no elements have no shape. -/
theorem shapeAll_eq_nil {ts : List (Tree Content)} (h : ∀ t ∈ ts, t.label.isElement = false) :
    shapeAll ts = [] := by
  induction ts with
  | nil => rfl
  | cons t ts ih =>
    obtain ⟨c, us⟩ := t
    obtain ⟨hc, hts⟩ := List.forall_mem_cons.1 h
    have hc' : c.isElement = false := hc
    rw [shapeAll, shape_of_isElement_eq_false hc', ih hts]
    rfl

/-- Elements are inside if there are shapes. -/
theorem hasElements_eq (ts : List (Tree Content)) : hasElements ts = !(shapeAll ts).isEmpty := by
  induction ts with
  | nil => rfl
  | cons t ts ih =>
    obtain ⟨c, us⟩ := t
    rw [hasElements] at ih
    rw [hasElements, List.any_cons, ih, shapeAll]
    rcases c.eq_element_or with ⟨e, rfl⟩ | hc
    · rfl
    · rw [shape_of_isElement_eq_false hc, label_node, hc]
      rfl

/-- Two forests look alike if they have the same shape and the same text. -/
structure LookAlike (ts us : List (Tree Content)) : Prop where
  /-- The elements and what is inside them are the same. -/
  shape : shapeAll ts = shapeAll us
  /-- The text is the same. -/
  text : textOfAll ts = textOfAll us

theorem LookAlike.refl (ts : List (Tree Content)) : LookAlike ts ts := ⟨rfl, rfl⟩

theorem LookAlike.append {ts us ts' us' : List (Tree Content)} (h : LookAlike ts us)
    (h' : LookAlike ts' us') : LookAlike (ts ++ ts') (us ++ us') :=
  ⟨by rw [shapeAll_append, shapeAll_append, h.shape, h'.shape],
    by rw [textOfAll_append, textOfAll_append, h.text, h'.text]⟩

/-- An element looks the same if what is inside does. -/
theorem LookAlike.element {ts us : List (Tree Content)} (h : LookAlike ts us) (e : Element) :
    LookAlike [.node (.element e) ts] [.node (.element e) us] := by
  constructor
  · simp only [shapeAll, Markup.shape, h.shape, h.text]
  · simp only [textOfAll, textOf, h.text]

/-- A run of no characters is not seen. -/
theorem lookAlike_empty : LookAlike [.node (.text "") []] [] := ⟨rfl, rfl⟩

end Markup

/-! ## Giving out ids on shapes -/

namespace Drawing

open Markup

/-- The attributes of the component of an element with a text and with some shapes inside. -/
def shapeAttributes (e : Element) (text : String) (inside : List Shape) : Attributes :=
  let attributes := withStyle e (SortedMap.ofList e.attributes)
  if !inside.isEmpty || (Text.trim text).isEmpty then attributes
  else attributes.insert textKey (Text.trim text)

mutual

/-- The component of a shape, and the naming afterwards. -/
def nameShape (parent scope : Option String) (naming : Naming) : Shape → Component × Naming
  | .node (e, text) inside =>
    let i := identify e scope naming
    let r := nameShapes (some i.1) (parent.map fun _ ↦ i.1) i.2.2 inside
    (.node ⟨i.1, i.2.1.kind, parent, shapeAttributes i.2.1 text inside⟩ r.1, r.2)

/-- The components of some shapes, and the naming afterwards. -/
def nameShapes (parent scope : Option String) (naming : Naming) :
    List Shape → List Component × Naming
  | [] => ([], naming)
  | t :: ts =>
    let r := nameShape parent scope naming t
    let rs := nameShapes parent scope r.2 ts
    (r.1 :: rs.1, rs.2)

end

theorem nameShapes_append (parent scope : Option String) (naming : Naming) (ts us : List Shape) :
    nameShapes parent scope naming (ts ++ us) =
      let r := nameShapes parent scope naming ts
      let rs := nameShapes parent scope r.2 us
      (r.1 ++ rs.1, rs.2) := by
  induction ts generalizing naming with
  | nil => rfl
  | cons t ts ih => simp only [List.cons_append, nameShapes, ih]

mutual

/-- **Ids are given out to a node as to its shape.** -/
theorem name_eq_nameShapes (n : Node) (parent scope : Option String) (naming : Naming) :
    ((name parent scope naming n).1, (name parent scope naming n).2.2)
      = nameShapes parent scope naming (shape n.bare) := by
  match n with
  | .node ⟨h, c⟩ ts =>
    rw [Node.bare_node]
    rcases c.eq_element_or with ⟨e, rfl⟩ | hc
    · have hinside := nameAll_eq_nameShapes ts (some (identify e scope naming).1)
        (parent.map fun _ ↦ (identify e scope naming).1) (identify e scope naming).2.2
      have hattributes : attributesOf (identify e scope naming).2.1 (.node ⟨h, .element e⟩ ts)
          = shapeAttributes (identify e scope naming).2.1 (textOfAll (ts.map Node.bare))
              (shapeAll (ts.map Node.bare)) := by
        rw [attributesOf_eq _ rfl, Markup.attributesOf, hasElements_eq]
        rfl
      simp only [name_element, shape, nameShapes, nameShape, ← hinside, hattributes]
    · rw [name_of_isElement_eq_false hc, shape_of_isElement_eq_false hc]
      rfl

theorem nameAll_eq_nameShapes (ns : List Node) (parent scope : Option String) (naming : Naming) :
    ((nameAll parent scope naming ns).1, (nameAll parent scope naming ns).2.2)
      = nameShapes parent scope naming (shapeAll (ns.map Node.bare)) := by
  match ns with
  | [] => rfl
  | n :: ns =>
    rw [nameAll_cons, List.map_cons, shapeAll, nameShapes_append,
      ← name_eq_nameShapes n parent scope naming]
    simp only
    rw [← nameAll_eq_nameShapes ns]

end

end Drawing

/-! ## The components of a document -/

namespace Markup

mutual

/-- The elements of a node are seen in its shape, in the same order. -/
theorem flatMap_shape_elementsOf (t : Tree Content) :
    (elementsOf t).flatMap shape = subtreesAll (shape t) := by
  match t with
  | .node c ts =>
    rcases c.eq_element_or with ⟨e, rfl⟩ | hc
    · have hinside := flatMap_shape_elementsOfAll ts
      have helement : elementsOf (.node (.element e) ts)
          = .node (.element e) ts :: elementsOfAll ts := rfl
      rw [helement, List.flatMap_cons, hinside]
      simp [shape, subtreesAll, subtrees]
    · rw [elementsOf, if_neg (by simp [hc]), shape_of_isElement_eq_false hc]
      rfl

theorem flatMap_shape_elementsOfAll (ts : List (Tree Content)) :
    (elementsOfAll ts).flatMap shape = subtreesAll (shapeAll ts) := by
  match ts with
  | [] => rfl
  | t :: ts =>
    rw [elementsOfAll, List.flatMap_append, flatMap_shape_elementsOf t,
      flatMap_shape_elementsOfAll ts, shapeAll, subtreesAll_append]

end

mutual

theorem isElement_of_mem_elementsOf {t u : Tree Content} (h : u ∈ elementsOf t) :
    u.label.isElement = true := by
  match t with
  | .node c ts =>
    rw [elementsOf] at h
    split at h
    · next hc =>
      rcases List.mem_cons.1 h with rfl | h
      · exact hc
      · exact isElement_of_mem_elementsOfAll h
    · cases h

theorem isElement_of_mem_elementsOfAll {ts : List (Tree Content)} {u : Tree Content}
    (h : u ∈ elementsOfAll ts) : u.label.isElement = true := by
  match ts with
  | [] => cases h
  | t :: ts =>
    rcases List.mem_append.1 h with h | h
    · exact isElement_of_mem_elementsOf h
    · exact isElement_of_mem_elementsOfAll h

end

/-- Whether the element of a shape has the tag `svg`. -/
def isRootShape (s : Shape) : Bool := Text.eqIgnoringAsciiCase s.label.1.name "svg"

/-- A root is looked for among shapes as among the elements they are the shapes of. -/
theorem find?_flatMap_shape {es : List (Tree Content)} (h : ∀ t ∈ es, t.label.isElement = true) :
    (es.flatMap shape).find? isRootShape
      = (es.find? (isRoot ·.label)).bind fun t ↦ (shape t).head? := by
  induction es with
  | nil => rfl
  | cons t es ih =>
    obtain ⟨c, ts⟩ := t
    obtain ⟨hc, hes⟩ := List.forall_mem_cons.1 h
    rcases c.eq_element_or with ⟨e, rfl⟩ | hc'
    · rw [List.flatMap_cons, List.find?_append, ih hes, List.find?_cons, shape]
      by_cases hroot : Text.eqIgnoringAsciiCase e.name "svg" = true
      · simp [isRootShape, isRoot, Content.element?, hroot, shape]
      · simp [isRootShape, isRoot, Content.element?, hroot]
    · exact absurd hc (by simp [hc'])

/-- Ids are the same in shapes as in the elements they are the shapes of. -/
theorem filterMap_id?_flatMap_shape {es : List (Tree Content)}
    (h : ∀ t ∈ es, t.label.isElement = true) :
    (es.flatMap shape).filterMap (·.label.1.id?)
      = es.filterMap fun t ↦ t.label.element?.bind Element.id? := by
  induction es with
  | nil => rfl
  | cons t es ih =>
    obtain ⟨c, ts⟩ := t
    obtain ⟨hc, hes⟩ := List.forall_mem_cons.1 h
    rcases c.eq_element_or with ⟨e, rfl⟩ | hc'
    · rw [List.flatMap_cons, List.filterMap_append, ih hes, shape]
      cases hid : e.id? <;> simp [Content.element?, hid]
    · exact absurd hc (by simp [hc'])

end Markup

namespace Drawing

open Markup Document

/-- The components of a forest of shapes. -/
def componentsOfShapes (shapes : List Shape) : List Component :=
  match (subtreesAll shapes).find? isRootShape with
  | none => []
  | some root =>
    (nameShapes none none (Naming.ofIds ((subtreesAll shapes).filterMap (·.label.1.id?))) [root]).1

private theorem ids_ofMarkup (m : Markup) :
    (ofMarkup m).ids = (subtreesAll (shapeAll m)).filterMap (·.label.1.id?) := by
  rw [← flatMap_shape_elementsOfAll,
    filterMap_id?_flatMap_shape fun t ht ↦ isElement_of_mem_elementsOfAll ht]
  conv => rhs; rw [← markup_ofMarkup m]
  rw [markup, show Node.bare = Tree.map Slot.content from rfl, ← mapAll_eq_map,
    Node.elementsOfAll_mapAll fun _ ↦ rfl, List.filterMap_map, ids, elements]
  refine congrArg (List.filterMap · _) (funext fun n ↦ ?_)
  obtain ⟨s, ts⟩ := n
  rfl

/-- **The components of a document are those of its shapes.** -/
theorem components_ofMarkup_eq (m : Markup) :
    (ofDocument (ofMarkup m)).components = componentsOfShapes (shapeAll m) := by
  have hfind : (subtreesAll (shapeAll m)).find? isRootShape
      = (ofMarkup m).root?.bind fun root ↦ (shape root.bare).head? := by
    rw [← flatMap_shape_elementsOfAll,
      find?_flatMap_shape fun t ht ↦ isElement_of_mem_elementsOfAll ht]
    have hroot := root?_markup (ofMarkup m)
    rw [markup_ofMarkup, Markup.root?] at hroot
    rw [hroot, Option.bind_map]
    rfl
  rw [componentsOfShapes, hfind, ← ids_ofMarkup]
  cases hroot : (ofMarkup m).root? with
  | none =>
    rw [ofDocument_of_root?_eq_none hroot]
    rfl
  | some root =>
    have hname := name_eq_nameShapes root none none (Naming.ofIds (ofMarkup m).ids)
    obtain ⟨⟨h, c⟩, ts⟩ := root
    rw [ofDocument_of_root? hroot]
    rcases c.eq_element_or with ⟨e, rfl⟩ | hc
    · exact congrArg Prod.fst hname
    · exact absurd (Node.isElement_of_isRoot (isRoot_of_root? hroot))
        (by simp [Node.isElement, Node.content, hc])

/-- **Markup of one shape has the same components.** -/
theorem components_ofMarkup_congr {m m' : Markup} (h : shapeAll m = shapeAll m') :
    (ofDocument (ofMarkup m)).components = (ofDocument (ofMarkup m')).components := by
  rw [components_ofMarkup_eq, components_ofMarkup_eq, h]

end Drawing

end SvgWorkbench
