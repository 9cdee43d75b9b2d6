import Mathlib.Data.List.Forall2
import Mathlib.Data.List.Nodup
import SvgWorkbench.Proofs.Component.Lookup
import SvgWorkbench.Proofs.Drawing.Reparse
import SvgWorkbench.Proofs.SortedMap
import SvgWorkbench.Proofs.Style

/-!
# Components are an image of the document

The components of a drawing stand for the elements of its root, one for one and in document order:
with the id of the element, its type, what it shows of attributes, style and text, and linked like
the elements. A document without a root has no components. The document of the drawing is the one
that was read, but that elements of the root without an id have got one.
-/

namespace SvgWorkbench

open SvgWorkbench.Tree

/-! ## What a component shows of an element -/

namespace Drawing

/-- The value a key has by a declaration of the style. -/
def styled? (e : Element) (key : String) : Option String :=
  (styleName? key).bind fun name ↦ (e.get? "style").bind fun style ↦ (Style.ofText style).get? name

/-- The value of a key of the component of an element: the text without the blanks around it, if
there is any and no element inside; what the style declares; or the attribute. -/
def shown? (n : Node) (e : Element) (key : String) : Option String :=
  if key = textKey ∧ n.childElements = [] ∧ Text.trim n.textContent ≠ "" then
    some (Text.trim n.textContent)
  else (styled? e key).or (e.get? key)

/-- Whether a component has the id of an element and hangs below a given one. -/
structure HangsBelow (parent : Option String) (n : Node) (c : Component) : Prop where
  /-- The id is that of the element. -/
  id : n.id? = some c.id
  /-- The parent is the one that is given. -/
  parent : c.parent = parent

/-- Whether a component stands for an element. -/
structure Depicts (n : Node) (c : Component) : Prop where
  /-- The id is that of the element. -/
  id : n.id? = some c.id
  /-- The type is the tag name in lower case. -/
  kind : n.element?.map Element.kind = some c.kind
  /-- The attributes are what is shown of the element. -/
  attributes : ∀ e, n.element? = some e → ∀ key, c.attributes.get? key = shown? n e key
  /-- The children are those of the elements among its children, and this is their parent. -/
  children : List.Forall₂ (HangsBelow (some c.id)) n.childElements c.children

theorem styleName?_eq_some_iff {key name : String} :
    styleName? key = some name ↔ key = styleKeyStart ++ name := by
  rw [styleName?, Option.map_eq_some_iff]
  constructor
  · rintro ⟨cs, hcs, rfl⟩
    rw [← String.toList_inj, String.toList_append, String.toList_ofList]
    exact Text.afterPrefix?_eq_some_iff.1 hcs
  · rintro rfl
    refine ⟨name.toList, ?_, String.ofList_toList⟩
    rw [Text.afterPrefix?_eq_some_iff, String.toList_append]

/-- The declaration of a key is found by the name the key was made from. -/
private theorem find?_styleKey (s : Style) (key : String) :
    (s.entries.find? fun d ↦ styleKeyStart ++ d.1 == key).map (·.2)
      = (styleName? key).bind s.get? := by
  cases hname : styleName? key with
  | none =>
    have hnone : s.entries.find? (fun d ↦ styleKeyStart ++ d.1 == key) = none := by
      refine List.find?_eq_none.2 fun d _ heq ↦ ?_
      cases hname.symm.trans (styleName?_eq_some_iff.2 (beq_iff_eq.1 heq).symm)
    rw [hnone, Option.map_none, Option.bind_none]
  | some name =>
    obtain rfl := styleName?_eq_some_iff.1 hname
    have hsame : (fun d : String × String ↦ styleKeyStart ++ d.1 == styleKeyStart ++ name)
        = fun d ↦ d.1 == name := by
      funext d
      rw [Bool.eq_iff_iff, beq_iff_eq, beq_iff_eq, String.append_right_inj]
    rw [hsame, Option.bind_some, Style.get?]

/-- The declarations of a style overlay the attributes. -/
theorem get?_withStyle (e : Element) (attributes : Attributes) (key : String) :
    (withStyle e attributes).get? key = (styled? e key).or (attributes.get? key) := by
  rw [withStyle, styled?]
  cases e.get? "style" with
  | none => simp
  | some style =>
    -- no key is declared twice, so it does not matter in which order the declarations are put in
    have hnodup : ((Style.ofText style).entries.map fun d ↦ styleKeyStart ++ d.1).Nodup := by
      have hmap := (Style.isDistinct_ofText style).map_on (f := (styleKeyStart ++ ·))
        fun a _ b _ heq ↦ (String.append_right_inj styleKeyStart).1 heq
      rwa [List.map_map] at hmap
    simp only [SortedMap.get?_foldl_insert (styleKeyStart ++ ·) hnodup, find?_styleKey,
      Option.bind_some]

/-- The text of an element without elements inside overlays the attributes. -/
theorem get?_withText (n : Node) (attributes : Attributes) (key : String) :
    (withText n attributes).get? key =
      if key = textKey ∧ n.childElements = [] ∧ Text.trim n.textContent ≠ "" then
        some (Text.trim n.textContent)
      else attributes.get? key := by
  rw [withText]
  by_cases hchildren : n.childElements = []
  · by_cases htext : Text.trim n.textContent = ""
    · simp [hchildren, htext]
    · by_cases hkey : key = textKey
      · simp [hchildren, htext, SortedMap.get?_insert, hkey]
      · simp [hchildren, htext, SortedMap.get?_insert, hkey, Ne.symm hkey]
  · simp [hchildren]

/-- **What a component made of an element shows.** -/
theorem get?_attributesOf {e : Element} (he : e.keys.Nodup) (n : Node) (key : String) :
    (attributesOf e n).get? key = shown? n e key := by
  rw [attributesOf, get?_withText, get?_withStyle, SortedMap.get?_ofList he]
  rfl

/-! ## The elements of a tree and their components -/

/-- The components of some nodes stand for the elements among them, with a parent that is given. -/
private theorem forall₂_viewAll_children {ns : List Node}
    (hns : Markup.HaveIds (ns.map Node.bare)) (parent : Option String) :
    List.Forall₂ (HangsBelow parent) (ns.filter Node.isElement)
      (Markup.viewAll parent (ns.map Node.bare)) := by
  induction ns with
  | nil => exact .nil
  | cons n ns ih =>
    obtain ⟨⟨h, c⟩, ts⟩ := n
    rw [List.map_cons, Node.bare_node] at hns
    rw [List.map_cons, Markup.viewAll, Node.bare_node]
    rcases c.eq_element_or with ⟨e, rfl⟩ | hc
    · obtain ⟨id, hid⟩ := Option.isSome_iff_exists.1 hns.1.1
      rw [List.filter_cons_of_pos rfl]
      refine .cons ⟨?_, rfl⟩ (ih hns.2)
      show e.id? = some (e.id?.getD "")
      rw [hid, Option.getD_some]
    · have hn : ¬ Node.isElement (.node ⟨h, c⟩ ts) = true := ne_true_of_eq_false hc
      rw [List.filter_cons_of_neg hn, Markup.view_of_isElement_eq_false hc]
      exact ih hns.2

/-- The component of an element with an id stands for it. -/
private theorem depicts_element {e : Element} {id : String} (hid : e.id? = some id)
    (hkeys : e.keys.Nodup) (h : Handle) {ts : List Node} (hts : Markup.HaveIds (ts.map Node.bare))
    (parent : Option String) :
    Depicts (.node ⟨h, .element e⟩ ts) (.node (Markup.entryOf parent e (ts.map Node.bare))
      (Markup.viewAll (some id) (ts.map Node.bare))) := by
  have hentry : (Markup.entryOf parent e (ts.map Node.bare)).id = id := by
    rw [Markup.entryOf, hid, Option.getD_some]
  refine ⟨hid.trans (congrArg some hentry.symm), rfl, fun e' he' key ↦ ?_, ?_⟩
  · obtain rfl : e = e' := Option.some.inj he'
    rw [← get?_attributesOf hkeys, attributesOf_eq e rfl]
    rfl
  · show List.Forall₂ (HangsBelow (some (Markup.entryOf parent e (ts.map Node.bare)).id)) _ _
    rw [hentry]
    exact forall₂_viewAll_children hts (some id)

mutual

/-- **In document order the components of a tree stand for its elements.** -/
theorem forall₂_depicts_view {n : Node} (hids : Markup.HasIds n.bare)
    (hkeys : ∀ e, .element e ∈ n.bare.preorder → e.keys.Nodup) (parent : Option String) :
    List.Forall₂ Depicts n.elements (subtreesAll (Markup.view parent n.bare)) := by
  match n with
  | .node ⟨h, c⟩ ts =>
    rw [Node.bare_node] at hids hkeys ⊢
    rcases c.eq_element_or with ⟨e, rfl⟩ | hc
    · obtain ⟨id, hid⟩ := Option.isSome_iff_exists.1 hids.1
      rw [preorder] at hkeys
      have hchildren := forall₂_depicts_viewAll hids.2
        (fun e he ↦ hkeys e (List.mem_cons_of_mem _ he)) (some id)
      rw [Node.elements_element, Markup.view, hid, Option.getD_some, subtreesAll, subtreesAll,
        List.append_nil, subtrees]
      exact .cons (depicts_element hid (hkeys e List.mem_cons_self) h hids.2 parent) hchildren
    · rw [Node.elements_of_isElement_eq_false hc, Markup.view_of_isElement_eq_false hc]
      exact .nil

theorem forall₂_depicts_viewAll {ns : List Node} (hids : Markup.HaveIds (ns.map Node.bare))
    (hkeys : ∀ e, .element e ∈ preorderAll (ns.map Node.bare) → e.keys.Nodup)
    (parent : Option String) :
    List.Forall₂ Depicts (Node.elementsAll ns)
      (subtreesAll (Markup.viewAll parent (ns.map Node.bare))) := by
  match ns with
  | [] => exact .nil
  | n :: ns =>
    rw [List.map_cons] at hids hkeys ⊢
    rw [Node.elementsAll, Markup.viewAll, subtreesAll_append]
    exact List.rel_append (forall₂_depicts_view hids.1
      (fun e he ↦ hkeys e (List.mem_append_left _ he)) parent)
      (forall₂_depicts_viewAll hids.2 (fun e he ↦ hkeys e (List.mem_append_right _ he)) parent)

end

/-! ## Drawings and documents -/

/-- What a drawing makes of a node: nothing, or an element among some handles that has no id gets
one. -/
inductive GetsId (within : List Handle) : Slot → Slot → Prop where
  /-- The node stays. -/
  | same (s : Slot) : GetsId within s s
  /-- The element gets an id. -/
  | given {h : Handle} {e : Element} {id : String} (hwithin : h ∈ within) (hnone : e.id? = none)
    (hid : id ≠ "") : GetsId within ⟨h, .element e⟩ ⟨h, .element (e.set "id" id)⟩

/-- Whether a drawing is an image of a document. -/
structure IsImage (d : Document) (p : Drawing) : Prop where
  /-- There are components exactly if there is an element whose tag is `svg`. -/
  empty : p.components = [] ↔
    ∀ n ∈ d.elements, ∀ e, n.element? = some e → Text.eqIgnoringAsciiCase e.name "svg" = false
  /-- Then there is one component without a parent, and in document order it and the components
  below it stand for the elements of the root. -/
  depicts : p.components ≠ [] → ∃ root c, p.document.root? = some root ∧ p.components = [c] ∧
    c.parent = none ∧ List.Forall₂ Depicts root.elements (Component.all p.components)
  /-- Of the nodes only elements of the root without an id are changed, and only in their ids. -/
  topLevel : RelAll (GetsId (d.root?.elim [] Node.handles)) d.topLevel p.document.topLevel
  /-- Nothing has been taken out. -/
  loose : p.document.loose = d.loose
  /-- No handle has been given out. -/
  next : p.document.next = d.next

theorem getsId_of_slotGiven {within : List Handle} {s s' : Slot} (h : SlotGiven (· ≠ "") s s')
    (hwithin : s.handle ∈ within) : GetsId within s s' := by
  obtain ⟨k, c⟩ := s
  obtain ⟨k', c'⟩ := s'
  obtain ⟨hhandle, hcontent⟩ := h
  obtain rfl : k' = k := hhandle
  cases hcontent with
  | same => exact .same _
  | given hnone hgood => exact .given hwithin hnone hgood

/-- The elements of the root of a drawing and its components. -/
private theorem depicts_ofDocument {m : Markup} {root : Node}
    (hroot : (Document.ofMarkup m).root? = some root)
    (hkeys : ∀ e, .element e ∈ preorderAll (ofDocument (.ofMarkup m)).document.markup →
      e.keys.Nodup) :
    ∃ named c, (ofDocument (.ofMarkup m)).document.root? = some named ∧
      (ofDocument (.ofMarkup m)).components = [c] ∧ c.parent = none ∧
      List.Forall₂ Depicts named.elements
        (Component.all (ofDocument (.ofMarkup m)).components) := by
  have hnamed := root?_ofDocument hroot
  have hids := hasIds_name root none none (Naming.ofIds (Document.ofMarkup m).ids)
  -- of the named root only its ids are used from here on
  generalize (name none none (Naming.ofIds (Document.ofMarkup m).ids) root).2.1 = named at hnamed hids
  have hcomponents : (ofDocument (.ofMarkup m)).components = Markup.view none named.bare := by
    rw [components_ofDocument, Markup.components, Document.root?_markup, hnamed]
    rfl
  have hmem : named ∈ subtreesAll (ofDocument (.ofMarkup m)).document.topLevel :=
    Node.mem_subtreesAll_of_mem_elementsAll (List.mem_of_find?_eq_some hnamed)
  have hdepicts := forall₂_depicts_view hids
    (fun e he ↦ hkeys e (Node.mem_preorderAll_map_bare hmem he)) none
  obtain ⟨⟨h, c⟩, ts⟩ := named
  obtain ⟨e, rfl⟩ := c.eq_element_or.resolve_right fun hc ↦ by
    cases hc.symm.trans (Node.isElement_of_isRoot (isRoot_of_root? hnamed))
  rw [hcomponents, Component.all_eq]
  exact ⟨_, _, hnamed, rfl, rfl, hdepicts⟩

/-- **The drawing of a text is an image of the document that is read.** -/
theorem isImage_of_parse {markup : String} {p : Drawing} (h : parse markup = .ok p) :
    ∃ d, Document.read markup = .ok d ∧ IsImage d p := by
  obtain ⟨-, m, hread, rfl⟩ := exists_markup_of_parse h
  refine ⟨.ofMarkup m, Document.read_eq_ok_iff.2 ⟨m, hread, rfl⟩, ?_⟩
  have hkeys : ∀ e, .element e ∈ preorderAll (ofDocument (.ofMarkup m)).document.markup →
      e.keys.Nodup := (areRead_of_parse h).nodup_keys
  cases hroot : (Document.ofMarkup m).root? with
  | none =>
    rw [ofDocument_of_root?_eq_none hroot]
    refine ⟨⟨fun _ n hn e he ↦ ?_, fun _ ↦ rfl⟩, fun hne ↦ absurd rfl hne, relAll_refl .same _, rfl,
      rfl⟩
    have hnot := List.find?_eq_none.1 hroot n hn
    rw [he] at hnot
    exact eq_false_of_ne_true hnot
  | some root =>
    obtain ⟨named, c, hnamed, hcomponents, hdepicts⟩ := depicts_ofDocument hroot hkeys
    refine ⟨⟨fun hnil ↦ ?_, fun hnone ↦ ?_⟩, fun _ ↦ ⟨named, c, hnamed, hcomponents, hdepicts⟩, ?_, ?_,
      ?_⟩
    · cases hcomponents.symm.trans hnil
    · obtain ⟨e, he, hsvg⟩ := (Option.any_eq_true _ _).1 (isRoot_of_root? hroot)
      cases hsvg.symm.trans (hnone root (List.mem_of_find?_eq_some hroot) e he)
    · rw [ofDocument_of_root? hroot, hroot]
      refine relAll_modify_root .same hroot ?_
      exact (rel_name givesGood_ne_empty root (fun _ _ ↦ trivial) none none nofun _).imp
        fun s hs s' hslot ↦ getsId_of_slotGiven hslot (List.mem_map_of_mem hs)
    · rw [loose_ofDocument, Document.loose_ofMarkup]
    · rw [ofDocument_of_root? hroot]
      rfl

/-- A root inside the root, a comment, an empty id, a style and a text. -/
theorem isImage_of_layers :
    ∃ p d, parse "<svg style=\"fill: red\"><!-- a --><svg id=\"\"/><text id=\"t\"> b </text></svg>"
        = .ok p ∧
      Document.read "<svg style=\"fill: red\"><!-- a --><svg id=\"\"/><text id=\"t\"> b </text></svg>"
        = .ok d ∧ IsImage d p := by
  have hparse := parse_of_read (m := [.node (.element ⟨"svg", [("style", "fill: red")]⟩)
    [.node (.comment " a ") [], .node (.element ⟨"svg", [("id", "")]⟩) [],
      .node (.element ⟨"text", [("id", "t")]⟩) [.node (.text " b ") []]]])
    (s := "<svg style=\"fill: red\"><!-- a --><svg id=\"\"/><text id=\"t\"> b </text></svg>")
    (by cbv) (by cbv)
  obtain ⟨d, hread, himage⟩ := isImage_of_parse hparse
  exact ⟨_, d, hparse, hread, himage⟩

end Drawing

end SvgWorkbench
