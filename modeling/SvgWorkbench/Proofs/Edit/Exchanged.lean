import SvgWorkbench.Proofs.Drawing.Restored
import SvgWorkbench.Proofs.Edit.Unique

/-!
# Reordering exchanges neighbours

An element that is moved changes places with the next element or with the one before. Whatever else
stands between the two stays in its place, and so does everything around them, so the components are
those there were with two neighbours exchanged. Moving the element back exchanges the same two again.
-/

namespace SvgWorkbench

open Xml SvgWorkbench.Tree Markup Component

namespace Direction

variable {α β : Type*}

theorem apply_pick (f : α → β) (direction : Direction) (x y : α) :
    f (direction.pick x y) = direction.pick (f x) (f y) := by cases direction <;> rfl

end Direction

/-! ## Neighbours at a site -/

namespace Markup

theorem exists_view_of_isElement {t : Tree Content} (h : t.label.isElement = true)
    (parent : Option String) : ∃ x, view parent t = [x] := by
  obtain ⟨c, ts⟩ := t
  obtain ⟨e, rfl⟩ := c.eq_element_or.resolve_right (ne_false_of_eq_true h)
  exact ⟨_, rfl⟩

/-- Two elements that are neighbours among the children of an element. -/
structure Neighbours (e : Element) where
  /-- The element around them. -/
  site : Site e
  /-- The children before them. -/
  left : List (Tree Content)
  /-- The first one. -/
  first : Tree Content
  /-- The children between them. -/
  between : List (Tree Content)
  /-- The second one. -/
  second : Tree Content
  /-- The children after them. -/
  right : List (Tree Content)
  /-- The first one is an element. -/
  isElement_first : first.label.isElement = true
  /-- The second one is an element. -/
  isElement_second : second.label.isElement = true
  /-- No element is between them. -/
  apart : hasElements between = false

namespace Neighbours

variable {e : Element} (k : Neighbours e)

/-- The children of the element around. -/
def children : List (Tree Content) := k.left ++ k.first :: k.between ++ k.second :: k.right

/-- The markup with the neighbours. -/
def markup : Markup := k.site.fill k.children

/-- The neighbours in each other's place. -/
def exchanged : Neighbours e :=
  { k with
    first := k.second
    second := k.first
    isElement_first := k.isElement_second
    isElement_second := k.isElement_first }

/-- The neighbours in settled markup. -/
def settled : Neighbours e where
  site := k.site.settled
  left := settledAll "" k.left
  first := Markup.settled k.first
  between := settledAll "" k.between
  second := Markup.settled k.second
  right := settledAll "" k.right
  isElement_first := by rw [label_settled]; exact k.isElement_first
  isElement_second := by rw [label_settled]; exact k.isElement_second
  apart := by rw [hasElements_settledAll]; exact k.apart

/-- Neighbours settle where they stand. -/
theorem settledAll_markup : settledAll "" k.markup = k.settled.markup := by
  obtain ⟨s, left, ⟨c, ts⟩, between, ⟨d, us⟩, right, hc, hd, -⟩ := k
  obtain ⟨e₁, rfl⟩ := c.eq_element_or.resolve_right (ne_false_of_eq_true hc)
  obtain ⟨e₂, rfl⟩ := d.eq_element_or.resolve_right (ne_false_of_eq_true hd)
  show settledAll "" (s.fill (left ++ _ :: between ++ _ :: right)) = _
  rw [s.settledAll_fill, settledAll_append_cons rfl, settledAll_append_cons rfl]
  rfl

theorem mem_preorderAll_exchanged {c : Content} (h : c ∈ preorderAll k.children) :
    c ∈ preorderAll k.exchanged.children := by
  simp only [children, exchanged, mem_preorderAll_append, preorderAll, List.mem_append] at h ⊢
  tauto

/-- What is around the components of neighbours. -/
def around : Context Entry :=
  k.site.around.under (framed k.site.scope e) (viewAll (some (e.id?.getD "")) k.left)
    (viewAll (some (e.id?.getD "")) k.right)

/-- **The components of neighbours are neighbours.** -/
theorem components_markup {x y : Component} (hx : view (some (e.id?.getD "")) k.first = [x])
    (hy : view (some (e.id?.getD "")) k.second = [y]) :
    components k.markup = k.around.plug [x, y] := by
  have helements : hasElements k.children = true := by
    simp [children, hasElements, k.isElement_first]
  rw [markup, k.site.components_fill, view, entryOf_of_hasElements helements, around,
    Context.plug_under, children, viewAll_append, viewAll_append, viewAll, viewAll, hx, hy,
    viewAll_eq_nil k.apart]
  simp

/-- **Neighbours in a document change places**, whichever of them is moved. -/
theorem exists_swap {d : Document} (hloose : d.loose = [])
    (hnodup : (Node.handlesAll d.topLevel).Nodup) (h : d.markup = k.markup)
    (direction : Direction) : ∃ (root n child : Node) (swapped : Document),
      d.root? = some root ∧ n ∈ root.elements ∧ child ∈ n.children ∧
      child.bare = direction.pick k.first k.second ∧ d.parentBelowRoot? child = some n ∧
      d.swap? child.handle direction = some swapped ∧ swapped.markup = k.exchanged.markup := by
  obtain ⟨s, left, t, between, u, right, ht, hu, hbetween⟩ := k
  obtain ⟨root, n, hroot, hn, hchildren, hof⟩ := Site.exists_isOf hnodup h
  obtain ⟨front, rest, hns, hfront, hrest⟩ := List.map_eq_append_iff.1 hchildren
  obtain ⟨left, mid, rfl, rfl, hmid⟩ := List.map_eq_append_iff.1 hfront
  obtain ⟨x, between, rfl, rfl, rfl⟩ := List.map_eq_cons_iff.1 hmid
  obtain ⟨y, right, rfl, rfl, rfl⟩ := List.map_eq_cons_iff.1 hrest
  rw [Node.label_bare] at ht hu
  have hnone : ∀ m ∈ between, Node.isElement m = false := by
    simpa [hasElements, Node.isElement, Node.content] using hbetween
  have hhandles :=
    Node.nodup_handles_children hnodup (Document.mem_topLevel_of_mem_root hroot hn)
  have hswap := Document.exchanged?_pick (hns ▸ hhandles) ht hu hnone direction
  have hmem : direction.pick x y ∈ Tree.children n := by
    rw [hns]
    cases direction <;> simp [Direction.pick]
  have hparent := Document.parentBelowRoot?_of_mem_children hloose hnodup hroot hn hmem
  refine ⟨root, n, direction.pick x y,
    d.modify n.handle (Node.withChildren (left ++ y :: between ++ x :: right)), hroot, hn, hmem,
    Direction.apply_pick _ _ _ _, hparent, ?_, ?_⟩
  · rw [Document.swap?_of_parent? (Document.parent?_of_parentBelowRoot? hparent), hns, hswap,
      Option.map_some]
  · refine (hof.modify ((Node.bare_node _ _).trans (congrArg (Tree.node · _) hof.content))).trans ?_
    simp [markup, children, exchanged]

end Neighbours

end Markup

namespace Edit

open Drawing Document

variable {p q : Drawing} {text w id : String} {n parent : Node} {direction : Direction}

/-- Whether a drawing is another one with two neighbours exchanged. -/
structure IsExchanged (p q : Drawing) (x y : Component) : Prop where
  /-- The components are the same but for the order of the two. -/
  components : ∃ around : Context Entry,
    p.components = around.plug [x, y] ∧ q.components = around.plug [y, x]
  /-- The elements they are of stand in each other's place, and all else where it was. -/
  slots : ∃ (e : Element) (k : Neighbours e), p.document.markup = k.markup ∧
    q.document.markup = settledAll "" k.exchanged.markup ∧
    view (some (e.id?.getD "")) k.first = [x] ∧ view (some (e.id?.getD "")) k.second = [y]

/-- What an id means is a child in the component of the element around it. -/
theorem exists_view_of_parentBelowRoot? (hparse : parse text = .ok p)
    (hdistinct : ((all p.components).map Component.id).Nodup)
    (hlocate : p.locate? id = some n) (hparent : p.document.parentBelowRoot? n = some parent) :
    ∃ (e : Element) (s : Site e) (c : Component) (root : Node), p.document.root? = some root ∧
      parent ∈ root.elements ∧ s.IsOf p.document parent ∧ n ∈ Tree.children parent ∧
      n.isElement = true ∧ n.id? = some c.id ∧
      find? p.components id = some c ∧ view (some (e.id?.getD "")) n.bare = [c] := by
  obtain ⟨c, root, hfind, hroot, hn, hid⟩ := exists_root_of_locate? hlocate
  have hnodup := nodup_handlesAll_of_parse hparse
  obtain ⟨hin, hchild, -⟩ := Document.mem_elements_of_parentBelowRoot? (loose_of_parse hparse) hnodup
    hroot hn hparent
  obtain ⟨e, he⟩ := Node.exists_content_of_isElement (Node.isElement_of_mem_elements hin)
  obtain ⟨e', he'⟩ := Node.exists_content_of_isElement (Node.isElement_of_mem_elements hn)
  obtain ⟨s, hof⟩ := Document.exists_isOf hnodup hroot hin he
  refine ⟨e, s, c, root, hroot, hin, hof, hchild, Node.isElement_of_mem_elements hn, hid, hfind, ?_⟩
  -- no other component has its id
  have hview := Node.view_bare_of_content he' (some (e.id?.getD ""))
  rw [hview]
  refine congrArg (fun x ↦ [x]) (List.inj_on_of_nodup_map hdistinct ?_ ?_ ?_)
  · rw [all_eq, components_of_parse hparse, hof.markup, s.components_fill]
    refine mem_subtreesAll_of_mem_children (Context.mem_subtreesAll_plug _ _) ?_
    rw [children_node]
    exact Node.mem_viewAll_of_mem hchild hview
  · exact all_eq p.components ▸ mem_of_find? hfind
  · rw [Node.id?_of_content he'] at hid
    exact congrArg (Option.getD · "") hid

/-- **At the end of its parent, an element stays**: its component is the last one, or the first
one. -/
theorem exists_children_eq_of_exchanged? (hparse : parse text = .ok p)
    (hdistinct : ((all p.components).map Component.id).Nodup) (hlocate : p.locate? id = some n)
    (hparent : p.document.parentBelowRoot? n = some parent)
    (hnone : exchanged? n.handle direction (Tree.children parent) = none) :
    ∃ c, find? p.components id = some c ∧ ∃ around ∈ all p.components, ∃ cs,
      Tree.children around = direction.pick (cs ++ [c]) (c :: cs) := by
  obtain ⟨e, s, c, root, hroot, hin, hof, hchild, helement, -, hfind, hview⟩ :=
    exists_view_of_parentBelowRoot? hparse hdistinct hlocate hparent
  have hhandles := Node.nodup_handles_children (nodup_handlesAll_of_parse hparse)
    (mem_topLevel_of_mem_root hroot hin)
  obtain ⟨left, right, hsplit⟩ := List.append_of_mem hchild
  rw [hsplit] at hhandles hnone
  have hend := isElement_eq_false_of_exchanged? hhandles helement hnone
  have hempty : ∀ ns : List Node, (∀ m ∈ ns, Node.isElement m = false) →
      viewAll (some (e.id?.getD "")) (ns.map Node.bare) = [] := fun ns hns ↦
    viewAll_eq_nil (by simpa [hasElements, Node.isElement, Node.content] using hns) _
  refine ⟨c, hfind, .node (entryOf s.scope e ((Tree.children parent).map Node.bare))
    (viewAll (some (e.id?.getD "")) ((Tree.children parent).map Node.bare)), ?_, ?_⟩
  · rw [all_eq, components_of_parse hparse, hof.markup, s.components_fill]
    exact Context.mem_subtreesAll_plug _ _
  · rw [children_node, hsplit, List.map_append, List.map_cons, viewAll_append, viewAll, hview]
    cases direction with
    | raise => exact ⟨_, by rw [hempty right hend]; rfl⟩
    | lower => exact ⟨_, by rw [hempty left hend]; rfl⟩

/-- Whether a text is a drawing with two neighbours exchanged, and is read as another one. -/
structure Exchanges (p : Drawing) (w : String) {e : Element} (k : Neighbours e) (q : Drawing) :
    Prop where
  /-- What was there. -/
  before : p.document.markup = k.markup
  /-- What is written. -/
  written : ∃ d : Document, d.IsSound ∧ w = d.text ∧ d.markup = k.exchanged.markup
  /-- The text can be read. -/
  read : parse w = .ok q
  /-- What is read. -/
  after : q.document.markup = settledAll "" k.exchanged.markup

/-- **What is read after an exchange** is the markup there was, with two neighbours in each other's
place. -/
theorem exists_exchanges (hparse : parse text = .ok p) (hclean : p.IsClean)
    (hdistinct : ((all p.components).map Component.id).Nodup) (hlocate : p.locate? id = some n)
    (hparent : p.document.parentBelowRoot? n = some parent) {children : List Node} {d : Document}
    (hexchanged : exchanged? n.handle direction (Tree.children parent) = some children)
    (hd : d.topLevel = Node.modifyAll parent.handle (Node.withChildren children) p.document.topLevel)
    (hsound : d.IsSound) (hfinish : finish d = .ok w) :
    ∃ (e : Element) (k : Neighbours e) (q : Drawing) (c : Component), Exchanges p w k q ∧
      find? p.components id = some c ∧ n.id? = some c.id ∧
      n.bare = direction.pick k.first k.second ∧ view (some (e.id?.getD "")) n.bare = [c] := by
  obtain ⟨⟨q, hq⟩, rfl⟩ := finish_eq_ok_iff.1 hfinish
  obtain ⟨e, s, c, root, hroot, hin, hof, hchild, helement, hid, hfind, hview⟩ :=
    exists_view_of_parentBelowRoot? hparse hdistinct hlocate hparent
  obtain ⟨left, x, between, y, right, hsplit, rfl, hn, hx, hy, hbetween⟩ :=
    exists_of_exchanged? hexchanged
  let k : Neighbours e :=
    { site := s
      left := left.map Node.bare
      first := x.bare
      between := between.map Node.bare
      second := y.bare
      right := right.map Node.bare
      isElement_first := by rwa [Node.label_bare]
      isElement_second := by rwa [Node.label_bare]
      apart := by simpa [hasElements, Node.isElement, Node.content] using hbetween }
  have hbefore : p.document.markup = k.markup := by
    rw [hof.markup, hsplit]
    simp [k, Neighbours.markup, Neighbours.children]
  have hmarkup : d.markup = k.exchanged.markup := by
    rw [Document.markup, hd]
    refine (hof.modify ((Node.bare_node _ _).trans (congrArg (Tree.node · _) hof.content))).trans ?_
    simp [k, Neighbours.markup, Neighbours.children, Neighbours.exchanged]
  have hkept : ∀ c ∈ preorderAll k.exchanged.children, c ∈ preorderAll k.children := fun c ↦
    k.exchanged.mem_preorderAll_exchanged
  have hafter := markup_of_parse_text hparse hclean hbefore hsound hmarkup hkept hq
  have hhandles := Node.nodup_handles_children (nodup_handlesAll_of_parse hparse)
    (mem_topLevel_of_mem_root hroot hin)
  obtain rfl : direction.pick x y = n := List.inj_on_of_nodup_map hhandles (by
    rw [hsplit]
    cases direction <;> simp [Direction.pick]) hchild hn
  exact ⟨e, k, q, c, ⟨hbefore, ⟨d, hsound, rfl, hmarkup⟩, hq, hafter⟩, hfind, hid,
    Direction.apply_pick _ _ _ _, hview⟩

/-- **Moving an element back takes an exchange back.** -/
theorem componentsOf_reorder_opposite (hparse : parse text = .ok p) (hclean : p.IsClean)
    {e : Element} {k : Neighbours e} (h : Exchanges p w k q)
    (hnodup : ((all q.components).map Component.id).Nodup) {c : Component} (hid : n.id? = some c.id)
    (hn : n.bare = direction.pick k.first k.second) :
    (∀ r, reorder direction.opposite w c.id = .ok r → componentsOf r = .ok p.components) ∧
      (IsSteady text → ∃ r, reorder direction.opposite w c.id = .ok r) := by
  obtain ⟨root, parent, child, swapped, hroot, hparent, hchild, hbare, hbelow, hswap, hmarkup⟩ :=
    k.settled.exchanged.exists_swap (loose_of_parse h.read) (nodup_handlesAll_of_parse h.read)
      (h.after.trans k.exchanged.settledAll_markup) direction.opposite
  replace hmarkup : swapped.markup = settledAll "" p.document.markup := by
    rw [hmarkup, h.before, k.settledAll_markup]
    rfl
  -- the id means the element that has been moved
  have hcontent : Node.content child = n.content := by
    rw [Node.content, ← Node.label_bare, hbare, Node.content, ← Node.label_bare, hn]
    cases direction <;> exact label_settled _
  have helement : Node.isElement child = true := by
    rw [Node.isElement, hcontent, Node.content, ← Node.label_bare, hn]
    cases direction
    exacts [k.isElement_first, k.isElement_second]
  have hchildId : child.id? = some c.id := by rw [← hid, Node.id?, Node.element?, hcontent]; rfl
  have hlocate := locate?_of_mem h.read hnodup hroot
    (Node.mem_elements_of_mem_children hparent hchild helement) hchildId
  have hreorder : ∀ r, reorder direction.opposite w c.id = .ok r ↔ finish swapped = .ok r := by
    intro r
    rw [reorder_eq_ok_iff]
    constructor
    · rintro ⟨q', n', parent', hq', hlocate', -, hcase⟩
      cases h.read.symm.trans hq'
      cases hlocate.symm.trans hlocate'
      rcases hcase with ⟨swapped', hswap', hr⟩ | ⟨hnone, -⟩
      · cases hswap.symm.trans hswap'
        exact hr
      · cases hswap.symm.trans hnone
    · exact fun hr ↦ ⟨q, child, parent, h.read, hlocate, hbelow, .inl ⟨swapped, hswap, hr⟩⟩
  refine ⟨fun r hr ↦ ?_, fun hsteady ↦ ?_⟩
  · obtain ⟨hread, rfl⟩ := finish_eq_ok_iff.1 ((hreorder r).1 hr)
    exact componentsOf_text_of_restored hparse hclean hmarkup hread
  · obtain ⟨d, hsound, rfl, hd⟩ := h.written
    have hfree := isClashFree_of_fill hparse hsteady h.before hsound hd h.read fun c ↦
      k.mem_preorderAll_exchanged
    exact ⟨_, (hreorder _).2 (finish_eq_ok_iff.2
      ⟨exists_parse_of_restored hparse hsteady hclean hfree hmarkup, rfl⟩)⟩

/-- **Reordering exchanges neighbours and is undone by reordering**: an element that has no neighbour
in the direction stays with all of the text, and another one changes places with its neighbour.
Moving it back gives the components there were. It can be moved back if the check and the reader
agree where the declaration and the document type end. -/
theorem exists_isExchanged (hparse : parse text = .ok p) (hclean : p.IsClean)
    (hdistinct : ((all p.components).map Component.id).Nodup)
    (hedit : reorder direction text id = .ok w) :
    ∃ c, find? p.components id = some c ∧
      ((w = text ∧ ∃ around ∈ all p.components, ∃ cs,
          Tree.children around = direction.pick (cs ++ [c]) (c :: cs)) ∨
        ∃ q x y, parse w = .ok q ∧ c = direction.pick x y ∧ IsExchanged p q x y ∧
          (∀ r, reorder direction.opposite w c.id = .ok r → componentsOf r = .ok p.components) ∧
          (Gate.HasPlainDeclaration (Gate.unmarked text.toList) →
            Gate.HasPlainDoctype text.toList →
              ∃ r, reorder direction.opposite w c.id = .ok r)) := by
  have hids : ((headings p.components).map Heading.id).Nodup := by rwa [map_id_headings]
  obtain ⟨q', hq', hnodup⟩ := nodup_ids_reorder hparse hclean hids hedit
  obtain ⟨n, parent, hlocate, hparent, ⟨hnone, rfl⟩ | ⟨root, children, d, -, -, hexchanged, -, hd,
    hsound, hfinish⟩⟩ := exists_change_of_reorder hparse hclean.isNamed hedit
  · obtain ⟨c, hfind, hend⟩ := exists_children_eq_of_exchanged? hparse hdistinct hlocate hparent hnone
    exact ⟨c, hfind, .inl ⟨rfl, hend⟩⟩
  obtain ⟨e, k, q, c, hexchanges, hfind, hid, hn, hview⟩ :=
    exists_exchanges hparse hclean hdistinct hlocate hparent hexchanged hd hsound hfinish
  obtain rfl : q = q' := Except.ok.inj (hexchanges.read.symm.trans hq')
  rw [map_id_headings] at hnodup
  obtain ⟨x, hx⟩ := exists_view_of_isElement k.isElement_first (some (e.id?.getD ""))
  obtain ⟨y, hy⟩ := exists_view_of_isElement k.isElement_second (some (e.id?.getD ""))
  have hc : c = direction.pick x y := by
    rw [hn] at hview
    cases direction
    exacts [(List.singleton_inj.1 (hx.symm.trans hview)).symm,
      (List.singleton_inj.1 (hy.symm.trans hview)).symm]
  have hcomponents : q.components = k.around.plug [y, x] := by
    rw [components_of_parse hexchanges.read, hexchanges.after, components_settledAll]
    exact k.exchanged.components_markup hy hx
  have hbefore : p.components = k.around.plug [x, y] := by
    rw [components_of_parse hparse, hexchanges.before]
    exact k.components_markup hx hy
  obtain ⟨hback, hreorder⟩ := componentsOf_reorder_opposite hparse hclean hexchanges hnodup hid hn
  exact ⟨c, hfind, .inr ⟨q, x, y, hexchanges.read, hc, ⟨⟨k.around, hbefore, hcomponents⟩,
    e, k, hexchanges.before, hexchanges.after, hx, hy⟩, hback, fun hdeclaration hdoctype ↦
    hreorder (isSteady_of_isClean hparse hclean hdeclaration hdoctype)⟩⟩

set_option maxRecDepth 4000 in
/-- Of two shapes with a text between them, the first one is raised and lowered again. -/
theorem isExchanged_of_shapes : ∃ p,
    parse "<svg><rect id=\"a\"/>t<g id=\"b\"/></svg>" = .ok p ∧ p.IsClean ∧
    ((all p.components).map Component.id).Nodup ∧
    ∃ w q x y r, reorder .raise "<svg><rect id=\"a\"/>t<g id=\"b\"/></svg>" "a" = .ok w ∧
      parse w = .ok q ∧ find? p.components "a" = some x ∧ IsExchanged p q x y ∧
      reorder .lower w x.id = .ok r ∧ componentsOf r = .ok p.components := by
  have hread : Markup.read "<svg><rect id=\"a\"/>t<g id=\"b\"/></svg>"
      = .ok [.node (.element ⟨"svg", []⟩) [.node (.element ⟨"rect", [("id", "a")]⟩) [],
        .node (.text "t") [], .node (.element ⟨"g", [("id", "b")]⟩) []]] := by cbv
  have hedit : reorder .raise "<svg><rect id=\"a\"/>t<g id=\"b\"/></svg>" "a"
      = .ok "<svg id=\"svg-0\"><g id=\"b\"/>t<rect id=\"a\"/></svg>" := by cbv
  obtain ⟨hdeclaration, hdoctype⟩ := Gate.hasPlainDeclaration_and_doctype_of_tag
    (c := 's') (by decide) ("vg><rect id=\"a\"/>t<g id=\"b\"/></svg>".toList)
  have hparse := parse_of_read (by cbv) hread
  generalize hp : ofDocument _ = p at hparse
  have hclean : p.IsClean := by
    rw [← hp]
    exact ⟨by decide +kernel, by decide +kernel⟩
  have hids : ((all p.components).map Component.id).Nodup := by
    rw [← hp, all_eq]
    decide +kernel
  obtain ⟨c, hfind, ⟨hsame, -⟩ | ⟨q, _, y, hq, rfl, hexchanged, hback, hreorder⟩⟩ :=
    exists_isExchanged hparse hclean hids hedit
  · exact absurd hsame (by decide)
  · obtain ⟨r, hr⟩ := hreorder hdeclaration hdoctype
    exact ⟨p, hparse, hclean, hids, _, q, c, y, r, hedit, hq, hfind, hexchanged, hr, hback r hr⟩

/-- Markup that the check takes for values in the document type, up to a root behind it. The quotes
in its text are those of the last value. -/
def outward : String :=
  "<!DOCTYPE svg [<!ENTITY b '>><svg><rect id=\" \"/><!--'><!ENTITY a PUBLIC \"--><g id='g'/>\" \"" ++
    "</svg><!--\">]><svg/><!-- -->"

/-- The same markup with the two shapes exchanged. The quotes of the last value are those of the
rectangle now. -/
def inward : String :=
  "<!DOCTYPE svg [<!ENTITY b '>><svg id=\"svg-0\"><g id=\"g\"/><!--'><!ENTITY a PUBLIC \"-->" ++
    "<rect id=\" \"/>&quot; &quot;</svg><!--\">]><svg/><!-- -->"

set_option maxRecDepth 8000 in
/-- **Where the check reads on in the document type, an exchange may not be taken back**: with the
shapes in their old places, the check misses the quotes of a value, and the text stays. -/
theorem componentsOf_reorder_ne_of_quoted_value : ∃ p q, parse outward = .ok p ∧ p.IsClean ∧
    (all p.components).map Component.id = ["svg-0", " ", "g"] ∧
    reorder .lower outward "g" = .ok inward ∧ parse inward = .ok q ∧
    (all q.components).map Component.id = ["svg-0", "g", " "] ∧
    orKeep inward (reorder .raise inward "g") = inward ∧
    componentsOf (orKeep inward (reorder .raise inward "g")) ≠ .ok p.components := by
  have hread : Markup.read outward = .ok [.node (.doctype "svg [<!ENTITY b '>") [],
      .node (.element ⟨"svg", []⟩) [.node (.element ⟨"rect", [("id", " ")]⟩) [],
        .node (.comment "'><!ENTITY a PUBLIC \"") [], .node (.element ⟨"g", [("id", "g")]⟩) [],
        .node (.text "\" \"") []],
      .node (.comment "\">]><svg/><!-- ") []] := by cbv
  have hread' : Markup.read inward = .ok [.node (.doctype "svg [<!ENTITY b '>") [],
      .node (.element ⟨"svg", [("id", "svg-0")]⟩) [.node (.element ⟨"g", [("id", "g")]⟩) [],
        .node (.comment "'><!ENTITY a PUBLIC \"") [], .node (.element ⟨"rect", [("id", " ")]⟩) [],
        .node (.text "\" \"") []],
      .node (.comment "\">]><svg/><!-- ") []] := by cbv
  have hkept : orKeep inward (reorder .raise inward "g") = inward := by cbv
  have hparse := parse_of_read (by cbv) hread
  have hparse' := parse_of_read (by cbv) hread'
  generalize hp : ofDocument _ = p at hparse
  generalize hq : ofDocument _ = q at hparse'
  have hids : (all p.components).map Component.id = ["svg-0", " ", "g"] := by
    rw [← hp, all_eq]
    decide +kernel
  have hids' : (all q.components).map Component.id = ["svg-0", "g", " "] := by
    rw [← hq, all_eq]
    decide +kernel
  have hclean : p.IsClean := by
    rw [← hp]
    exact ⟨by decide +kernel, by decide +kernel⟩
  refine ⟨p, q, hparse, hclean, hids, by cbv, hparse', hids', hkept, fun hsame ↦ ?_⟩
  rw [hkept, componentsOf, hparse'] at hsame
  have hcomponents : q.components = p.components := Except.ok.inj hsame
  rw [hcomponents, hids] at hids'
  exact absurd hids' (by decide)

end Edit

end SvgWorkbench
