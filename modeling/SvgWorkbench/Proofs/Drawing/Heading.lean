import SvgWorkbench.Proofs.Drawing.Sound
import SvgWorkbench.Proofs.Drawing.Spared

/-!
# The headings of components in document order

What a component is called, what type it has and where it belongs depend on the elements around it
and on nothing that stands elsewhere. So the list of these headings in document order is the same
before and after a change of one element, except for one stretch: that of the element and of what is
inside it.

When the changed document is written and read again, an element without an id gets one, which none
has had so far. All else stays in the list.
-/

namespace SvgWorkbench

open SvgWorkbench.Tree Markup

/-! ## Lists of headings -/

namespace Component

/-- The headings of a forest in document order. -/
def headings (forest : List Component) : List Heading := (all forest).map fun c ↦ c.label.heading

@[simp] theorem headings_nil : headings [] = [] := rfl

@[simp] theorem headings_append (cs ds : List Component) :
    headings (cs ++ ds) = headings cs ++ headings ds := by
  rw [headings, all_eq, subtreesAll_append, List.map_append, headings, headings, all_eq, all_eq]

@[simp] theorem headings_cons_node (e : Entry) (cs ds : List Component) :
    headings (.node e cs :: ds) = e.heading :: (headings cs ++ headings ds) := by
  rw [headings, headings, headings, all_eq, all_eq, all_eq, subtreesAll, subtrees, List.cons_append,
    List.map_cons, List.map_append, label_node]

theorem map_id_headings (forest : List Component) :
    (headings forest).map Heading.id = (all forest).map Component.id := by
  rw [headings, List.map_map]
  rfl

/-- A flat list without attributes is the list of headings. -/
theorem flatten_false (forest : List Component) :
    flatten false forest = (headings forest).map fun h ↦ ⟨h, none⟩ := by
  rw [flatten, headings, List.map_map]
  rfl

end Component

namespace Markup

open Component

/-- What an element is called, its type and where it belongs. -/
def headingOf (parent : Option String) (e : Element) : Heading := ⟨e.id?.getD "", e.kind, parent⟩

theorem headings_view_element (parent : Option String) (e : Element) (ts : List (Tree Content)) :
    headings (view parent (.node (.element e) ts))
      = headingOf parent e :: headings (viewAll (some (e.id?.getD "")) ts) := by
  rw [view, headings_cons_node, headings_nil, List.append_nil]
  rfl

theorem headings_viewAll (parent : Option String) (ts : List (Tree Content)) :
    headings (viewAll parent ts) = ts.flatMap fun t ↦ headings (view parent t) := by
  induction ts with
  | nil => rfl
  | cons t ts ih => rw [viewAll, headings_append, ih, List.flatMap_cons]

mutual

/-- The ids of components are those of the elements, wherever these stand. -/
theorem map_id_headings_view (t : Tree Content) (parent : Option String) :
    (headings (view parent t)).map Heading.id
      = (elementsOf t).map fun u ↦ (u.label.element?.bind Element.id?).getD "" := by
  match t with
  | .node c ts =>
    rcases c.eq_element_or with ⟨e, rfl⟩ | hc
    · rw [headings_view_element, List.map_cons, map_id_headings_viewAll ts]
      rfl
    · rw [view_of_isElement_eq_false hc, elementsOf, if_neg (ne_true_of_eq_false hc)]
      rfl

theorem map_id_headings_viewAll (ts : List (Tree Content)) (parent : Option String) :
    (headings (viewAll parent ts)).map Heading.id
      = (elementsOfAll ts).map fun u ↦ (u.label.element?.bind Element.id?).getD "" := by
  match ts with
  | [] => rfl
  | t :: ts =>
    rw [viewAll, headings_append, List.map_append, map_id_headings_view t,
      map_id_headings_viewAll ts, elementsOfAll, List.map_append]

end

end Markup

/-! ## Changes of one element -/

namespace Node

open Component

theorem map_id_headings_view_bare (n : Node) (parent : Option String) :
    (headings (view parent n.bare)).map Heading.id = n.elements.map fun n ↦ n.id?.getD "" := by
  rw [map_id_headings_view, elementsOf_bare, List.map_map]
  refine List.map_congr_left fun m _ ↦ ?_
  rw [Function.comp_apply, label_bare]
  rfl

mutual

/-- **A change of an element changes one stretch of the headings**, the one of the element. -/
theorem exists_headings_view_modify {n t : Node} (hnodup : t.handles.Nodup) (hn : n ∈ t.elements)
    (hunbroken : ∀ c ∈ t.bare.preorder, c.IsUnbroken) (parent : Option String) :
    ∃ around left right,
      headings (view parent t.bare) = left ++ headings (view around n.bare) ++ right ∧
      ∀ f : Node → Node, headings (view parent ((modify n.handle f t).bare.map Content.spaced))
        = left ++ headings (view around ((f n).bare.map Content.spaced)) ++ right := by
  match t with
  | .node s ts =>
    rw [elements] at hn
    split at hn
    case isFalse => cases hn
    next hs =>
    rcases List.mem_cons.1 hn with rfl | hbelow
    · refine ⟨parent, [], [], by simp, fun f ↦ ?_⟩
      rw [modify_handle]
      simp
    rw [handles_node, List.nodup_cons] at hnodup
    rw [bare_node, preorder, List.forall_mem_cons] at hunbroken
    obtain ⟨k, c⟩ := s
    obtain ⟨e, rfl⟩ := c.eq_element_or.resolve_right fun hc ↦ by cases hc.symm.trans hs
    have hne : k ≠ n.handle := fun heq ↦
      hnodup.1 (heq ▸ handle_mem_handlesAll (mem_subtreesAll_of_mem_elementsAll hbelow))
    obtain ⟨around, left, right, hbefore, hafter⟩ :=
      exists_headings_viewAll_modifyAll hnodup.2 hbelow hunbroken.2 (some (e.id?.getD ""))
    refine ⟨around, headingOf parent e :: left, right, ?_, fun f ↦ ?_⟩
    · rw [bare_node, headings_view_element, hbefore]
      rfl
    · rw [modify, if_neg hne, bare_node, Tree.map, hunbroken.1.spaced_eq, headings_view_element,
        hafter]
      rfl

theorem exists_headings_viewAll_modifyAll {n : Node} {ts : List Node}
    (hnodup : (handlesAll ts).Nodup) (hn : n ∈ elementsAll ts)
    (hunbroken : ∀ c ∈ preorderAll (ts.map bare), c.IsUnbroken) (parent : Option String) :
    ∃ around left right,
      headings (viewAll parent (ts.map bare)) = left ++ headings (view around n.bare) ++ right ∧
      ∀ f : Node → Node, headings (viewAll parent
          (mapAll Content.spaced ((modifyAll n.handle f ts).map bare)))
        = left ++ headings (view around ((f n).bare.map Content.spaced)) ++ right := by
  match ts with
  | [] => cases hn
  | t :: ts =>
    rw [handlesAll_cons, List.nodup_append] at hnodup
    obtain ⟨hhead, htail, hdisjoint⟩ := hnodup
    rw [List.map_cons, preorderAll, List.forall_mem_append] at hunbroken
    -- the element stands on one side, and the other side has no node of its handle
    rcases List.mem_append.1 hn with hn | hn
    · obtain ⟨around, left, right, hbefore, hafter⟩ :=
        exists_headings_view_modify hhead hn hunbroken.1 parent
      have hin := handle_mem_handles (mem_subtrees_of_mem_elements hn)
      refine ⟨around, left, right ++ headings (viewAll parent (ts.map bare)), ?_, fun f ↦ ?_⟩
      · rw [List.map_cons, viewAll, headings_append, hbefore, List.append_assoc]
      · rw [modifyAll, modifyAll_of_notMem fun hmem ↦ hdisjoint _ hin _ hmem rfl, List.map_cons,
          mapAll, viewAll, headings_append, hafter, mapAll_spaced hunbroken.2, List.append_assoc]
    · obtain ⟨around, left, right, hbefore, hafter⟩ :=
        exists_headings_viewAll_modifyAll htail hn hunbroken.2 parent
      have hin := handle_mem_handlesAll (mem_subtreesAll_of_mem_elementsAll hn)
      refine ⟨around, headings (view parent t.bare) ++ left, right, ?_, fun f ↦ ?_⟩
      · rw [List.map_cons, viewAll, headings_append, hbefore]
        simp only [List.append_assoc]
      · rw [modifyAll, modify_eq_self fun m hm heq ↦
            absurd heq (hdisjoint _ (handle_mem_handles hm) _ hin), List.map_cons, mapAll, viewAll,
          headings_append, hafter, map_spaced hunbroken.1]
        simp only [List.append_assoc]

end

end Node

namespace Document

open Component

variable {d : Document} {root n : Node}

/-- A change of an element of the root changes one stretch of the headings of the document. -/
theorem exists_headings_modifyAll (hnodup : (Node.handlesAll d.topLevel).Nodup)
    (hunbroken : ∀ c ∈ preorderAll d.markup, c.IsUnbroken) (hroot : d.root? = some root)
    (hn : n ∈ root.elements) :
    ∃ around left right,
      headings (components d.markup) = left ++ headings (view around n.bare) ++ right ∧
      ∀ (f : Node → Node) (d' : Document), (n = root → (f n).isRoot = true) →
        d'.topLevel = Node.modifyAll n.handle f d.topLevel →
          headings (components (mapAll Content.spaced d'.markup))
            = left ++ headings (view around ((f n).bare.map Content.spaced)) ++ right := by
  have hmem := Node.mem_subtreesAll_of_mem_elementsAll (List.mem_of_find?_eq_some hroot)
  obtain ⟨around, left, right, hbefore, hafter⟩ := Node.exists_headings_view_modify
    (Node.nodup_handles_of_mem_subtreesAll hnodup hmem) hn
    (fun c hc ↦ hunbroken c (Node.mem_preorderAll_map_bare hmem hc)) none
  refine ⟨around, left, right, ?_, fun f d' hisRoot hd' ↦ ?_⟩
  · rw [components, root?_markup, hroot]
    exact hbefore
  · have hfind := Node.find?_elementsAll_modifyAll_inside hnodup hroot
      (Node.mem_subtrees_of_mem_elements hn) hisRoot
    rw [← hd'] at hfind
    rw [components, root?_mapAll_spaced, root?_markup, show d'.root? = _ from hfind]
    exact hafter f

end Document

namespace Markup

open Component

mutual

private theorem forall_headings_view {t : Tree Content} (ht : HasIds t) {parent : Option String}
    (hparent : parent ≠ some "") :
    ∀ h ∈ headings (view parent t), h.id ≠ "" ∧ h.parent ≠ some "" := by
  match t with
  | .node c ts =>
    rcases c.eq_element_or with ⟨e, rfl⟩ | hc
    · obtain ⟨id, hid⟩ := Option.isSome_iff_exists.1 ht.1
      have hne := Element.ne_empty_of_id? hid
      rw [headings_view_element, headingOf, hid, Option.getD_some, List.forall_mem_cons]
      exact ⟨⟨hne, hparent⟩, forall_headings_viewAll ht.2 fun heq ↦ hne (Option.some.inj heq)⟩
    · rw [view_of_isElement_eq_false hc]
      exact nofun

private theorem forall_headings_viewAll {ts : List (Tree Content)} (hts : HaveIds ts)
    {parent : Option String} (hparent : parent ≠ some "") :
    ∀ h ∈ headings (viewAll parent ts), h.id ≠ "" ∧ h.parent ≠ some "" := by
  match ts with
  | [] => exact nofun
  | t :: ts =>
    rw [viewAll, headings_append, List.forall_mem_append]
    exact ⟨forall_headings_view hts.1 hparent, forall_headings_viewAll hts.2 hparent⟩

end

end Markup

/-- The ids of a drawing are those of the elements of its root. -/
theorem Drawing.ids_of_parse {text : String} {p : Drawing} (hparse : parse text = .ok p) {root : Node}
    (hroot : p.document.root? = some root) : (Component.all p.components).map Component.id
      = root.elements.map fun n ↦ n.id?.getD "" := by
  rw [← Component.map_id_headings, components_of_parse hparse, Markup.components,
    Document.root?_markup, hroot, Option.map_some, Option.elim_some, Node.map_id_headings_view_bare]

/-- No heading of a drawing is without an id, nor is a parent. -/
theorem Drawing.headings_ne_empty {text : String} {p : Drawing} (hparse : parse text = .ok p) :
    ∀ h ∈ Component.headings p.components, h.id ≠ "" ∧ h.parent ≠ some "" := by
  obtain ⟨-, m, -, rfl⟩ := exists_markup_of_parse hparse
  rw [components_ofDocument, Markup.components]
  cases hroot : Markup.root? (ofDocument (.ofMarkup m)).document.markup with
  | none => exact List.forall_mem_nil _
  | some root => exact Markup.forall_headings_view (hasIds_ofDocument hroot) (by rintro ⟨⟩)

/-! ## Ids that are given out -/

/-- Whether a heading is another one after ids have been given out: the type stays, the id too, if
there was one, and so does the parent, if it had an id. -/
structure Heading.NamedAs (h h' : Heading) : Prop where
  /-- The type stays. -/
  kind : h'.kind = h.kind
  /-- An id stays. -/
  id : h.id ≠ "" → h'.id = h.id
  /-- A parent stays. -/
  parent : h.parent ≠ some "" → h'.parent = h.parent

namespace Drawing

open Component

variable {good : String → Prop}

mutual

private theorem forall₂_headings_view {t u : Tree Content} (h : Rel (IdGiven good) t u)
    {parent parent' : Option String} (hparent : parent ≠ some "" → parent' = parent) :
    List.Forall₂ Heading.NamedAs (headings (view parent t)) (headings (view parent' u)) := by
  match t, u, h with
  | .node c ts, .node _ us, ⟨.same _, hchildren⟩ =>
    rcases c.eq_element_or with ⟨e, rfl⟩ | hc
    · rw [headings_view_element, headings_view_element]
      exact .cons ⟨rfl, fun _ ↦ rfl, hparent⟩ (forall₂_headings_viewAll hchildren fun _ ↦ rfl)
    · rw [view_of_isElement_eq_false hc, view_of_isElement_eq_false hc]
      exact .nil
  | .node (.element e) ts, .node _ us, ⟨.given hnone _, hchildren⟩ =>
    -- what is inside had no parent with an id so far
    rw [headings_view_element, headings_view_element, headingOf, hnone]
    exact .cons ⟨rfl, fun hne ↦ absurd rfl hne, hparent⟩
      (forall₂_headings_viewAll hchildren fun hne ↦ absurd rfl hne)

private theorem forall₂_headings_viewAll {ts us : List (Tree Content)}
    (h : RelAll (IdGiven good) ts us) {parent parent' : Option String}
    (hparent : parent ≠ some "" → parent' = parent) :
    List.Forall₂ Heading.NamedAs (headings (viewAll parent ts))
      (headings (viewAll parent' us)) := by
  match ts, us, h with
  | [], [], _ => exact .nil
  | t :: ts, u :: us, h =>
    rw [viewAll, viewAll, headings_append, headings_append]
    exact List.rel_append (forall₂_headings_view h.1 hparent) (forall₂_headings_viewAll h.2 hparent)

end

mutual

theorem view_eq_of_hasIds {t u : Tree Content} (h : Rel (IdGiven good) t u) (ht : HasIds t)
    (parent : Option String) : view parent u = view parent t := by
  match t, u, h with
  | .node c ts, .node _ us, ⟨.same _, hchildren⟩ =>
    rcases c.eq_element_or with ⟨e, rfl⟩ | hc
    · rw [view, view, entryOf, entryOf, attributesOf_eq_of_relAll (relAll_retouched hchildren),
        viewAll_eq_of_haveIds hchildren ht.2]
    · rw [view_of_isElement_eq_false hc, view_of_isElement_eq_false hc]
  | .node (.element e) ts, .node _ us, ⟨.given hnone _, _⟩ =>
    obtain ⟨id, hid⟩ := Option.isSome_iff_exists.1 ht.1
    cases hnone.symm.trans hid

/-- Where no id is missing, none is given out. -/
theorem viewAll_eq_of_haveIds {ts us : List (Tree Content)} (h : RelAll (IdGiven good) ts us)
    (hts : HaveIds ts) (parent : Option String) : viewAll parent us = viewAll parent ts := by
  match ts, us, h with
  | [], [], _ => rfl
  | t :: ts, u :: us, h =>
    rw [viewAll, viewAll, view_eq_of_hasIds h.1 hts.1, viewAll_eq_of_haveIds h.2 hts.2]

end

/-- The components of a drawing are those of its root with ids where there were none. -/
theorem exists_view_ofDocument {m : Markup} {t : Tree Content} (hroot : Markup.root? m = some t) :
    ∃ u, Rel (IdGiven fun _ ↦ True) t u ∧ HasIds u ∧
      (ofDocument (.ofMarkup m)).components = view none u := by
  have hmarkup := Document.root?_markup (.ofMarkup m)
  rw [Document.markup_ofMarkup, hroot] at hmarkup
  obtain ⟨root, hfind, rfl⟩ := Option.map_eq_some_iff.1 hmarkup.symm
  have hgiven := rel_name givesGood_true root (fun _ _ ↦ trivial) none none (fun _ _ ↦ trivial)
    (Naming.ofIds (Document.ofMarkup m).ids)
  rw [ofDocument_of_root? hfind]
  exact ⟨_, Rel.map (fun _ _ hslot ↦ hslot.content) hgiven, hasIds_name root none none _,
    name_fst_eq_view root none none _⟩

/-- The headings of a drawing are those of the markup, with ids where there were none. -/
theorem forall₂_headings_ofDocument (m : Markup) :
    List.Forall₂ Heading.NamedAs (headings (Markup.components m))
      (headings (ofDocument (.ofMarkup m)).components) := by
  rw [Markup.components]
  cases hroot : Markup.root? m with
  | none =>
    have hmarkup := Document.root?_markup (.ofMarkup m)
    rw [Document.markup_ofMarkup, hroot] at hmarkup
    rw [ofDocument_of_root?_eq_none (Option.map_eq_none_iff.1 hmarkup.symm)]
    exact .nil
  | some t =>
    obtain ⟨u, hgiven, -, hview⟩ := exists_view_ofDocument hroot
    rw [hview]
    exact forall₂_headings_view hgiven fun _ ↦ rfl

private theorem filterMap_id? (ns : List Node) :
    ns.filterMap Node.id? = (ns.map fun n ↦ n.id?.getD "").filter (· != "") := by
  induction ns with
  | nil => rfl
  | cons n ns ih =>
    cases hid : n.id? with
    | none => simp [hid, ih]
    | some id =>
      have hne : id ≠ "" := by
        obtain ⟨e, -, he⟩ := Option.bind_eq_some_iff.1 hid
        exact Element.ne_empty_of_id? he
      simp [hid, ih, hne]

/-- No two ids of a drawing are the same if no two of those in the markup are. -/
theorem nodup_ids_of_headings {m : Markup}
    (h : (((headings (Markup.components m)).map Heading.id).filter (· != "")).Nodup) :
    ((headings (ofDocument (.ofMarkup m)).components).map Heading.id).Nodup := by
  rw [map_id_headings]
  apply nodup_ids_ofDocument
  have hmarkup := Document.root?_markup (.ofMarkup m)
  rw [Document.markup_ofMarkup] at hmarkup
  rw [Markup.components, hmarkup] at h
  rw [Document.drawn]
  cases hroot : (Document.ofMarkup m).root? with
  | none => exact .nil
  | some root =>
    rw [hroot, Option.map_some, Option.elim_some, Node.map_id_headings_view_bare,
      ← filterMap_id?] at h
    exact h

end Drawing

/-- **What is written and read again has the headings it had**, with ids where there were none, and
no id twice if it had none twice. -/
theorem Document.IsSound.headings_of_parse {d : Document} (h : d.IsSound) {q : Drawing}
    (hq : Drawing.parse d.text = .ok q) :
    List.Forall₂ Heading.NamedAs
      (Component.headings (components (mapAll Content.spaced d.markup)))
      (Component.headings q.components) ∧
    ((((Component.headings (components (mapAll Content.spaced d.markup))).map Heading.id).filter
      (· != "")).Nodup → ((Component.headings q.components).map Heading.id).Nodup) := by
  obtain ⟨-, m, hread, rfl⟩ := Drawing.exists_markup_of_parse hq
  obtain rfl := Except.ok.inj (hread.symm.trans h.read_text)
  rw [← components_settledAll]
  exact ⟨Drawing.forall₂_headings_ofDocument _, Drawing.nodup_ids_of_headings⟩

end SvgWorkbench
