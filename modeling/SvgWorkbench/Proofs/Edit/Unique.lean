import SvgWorkbench.Proofs.Document.Insert
import SvgWorkbench.Proofs.Document.Neighbour
import SvgWorkbench.Proofs.Drawing.Heading
import SvgWorkbench.Proofs.Edit.Spared

/-!
# Edits keep ids distinct

Every edit changes one element, so of the headings of a drawing it changes one stretch. What is put
in has no id, and what is taken out or exchanged leaves no id that was not there; when the text is
read again new names are given out only where there are no ids. So no id occurs twice after an edit
if none did before. The exception is the edit that sets an id: nothing keeps it from setting one
that another element has.
-/

namespace SvgWorkbench

open Xml SvgWorkbench.Tree Markup Component

/-! ## Headings that are read again -/

/-- Headings of which none is without an id are read as they are. -/
private theorem eq_of_namedAs {hs hs' : List Heading} (h : List.Forall₂ Heading.NamedAs hs hs')
    (hne : ∀ x ∈ hs, x.id ≠ "" ∧ x.parent ≠ some "") : hs' = hs := by
  induction h with
  | nil => rfl
  | @cons x x' hs hs' hnamed _ ih =>
    rw [List.forall_mem_cons] at hne
    have hx : x' = x := by
      obtain ⟨id, kind, parent⟩ := x
      obtain ⟨id', kind', parent'⟩ := x'
      rw [Heading.mk.injEq]
      exact ⟨hnamed.id hne.1.1, hnamed.kind, hnamed.parent hne.1.2⟩
    rw [hx, ih hne.2]

/-- A heading without an id among others is the only one that changes. -/
theorem exists_of_namedAs {left right hs : List Heading} {x : Heading}
    (h : List.Forall₂ Heading.NamedAs (left ++ x :: right) hs)
    (hne : ∀ y ∈ left ++ right, y.id ≠ "" ∧ y.parent ≠ some "") :
    ∃ x', hs = left ++ x' :: right ∧ x.NamedAs x' := by
  induction left generalizing hs with
  | nil =>
    obtain _ | ⟨hnamed, hrest⟩ := h
    exact ⟨_, congrArg _ (eq_of_namedAs hrest hne), hnamed⟩
  | cons y left ih =>
    rw [List.cons_append, List.forall_mem_cons] at hne
    obtain _ | ⟨hnamed, hrest⟩ := h
    obtain ⟨x', rfl, hx'⟩ := ih hrest hne.2
    have hy := eq_of_namedAs (.cons hnamed .nil) (List.forall_mem_singleton.2 hne.1)
    exact ⟨x', congrArg (· ++ (left ++ x' :: right)) hy, hx'⟩

private theorem filter_ids {hs : List Heading} (hne : ∀ x ∈ hs, x.id ≠ "" ∧ x.parent ≠ some "") :
    (hs.map Heading.id).filter (· != "") = hs.map Heading.id := by
  refine List.filter_eq_self.2 fun id hid ↦ ?_
  obtain ⟨x, hx, rfl⟩ := List.mem_map.1 hid
  simpa using (hne x hx).1

/-! ## Where an edit takes place -/

namespace Drawing

variable {p : Drawing} {text id : String}

/-- What a drawing finds by an id is an element of the root, which has the id of the component that
is meant. -/
theorem exists_root_of_locate? {n : Node} (h : p.locate? id = some n) :
    ∃ c root, find? p.components id = some c ∧ p.document.root? = some root ∧
      n ∈ root.elements ∧ n.id? = some c.id := by
  obtain ⟨c, hfind, hlocate⟩ := Option.bind_eq_some_iff.1 h
  obtain ⟨root, hroot, hlocate⟩ := Option.bind_eq_some_iff.1 hlocate
  have hid := List.find?_some hlocate
  rw [beq_iff_eq] at hid
  exact ⟨c, root, hfind, hroot, List.mem_of_find?_eq_some hlocate, hid⟩

/-- Where ids are distinct, an element of the root is found by its id. -/
theorem locate?_of_mem (hparse : parse text = .ok p)
    (hdistinct : ((all p.components).map Component.id).Nodup) {root n : Node}
    (hroot : p.document.root? = some root) (hn : n ∈ root.elements) (hid : n.id? = some id) :
    p.locate? id = some n := by
  have hids := ids_of_parse hparse hroot
  have hmem : id ∈ (all p.components).map Component.id := by
    rw [hids, List.mem_map]
    exact ⟨n, hn, by rw [hid, Option.getD_some]⟩
  obtain ⟨c, hfind, rfl⟩ := exists_find?_of_mem hmem
  have hsome : (root.elements.find? fun m ↦ m.id? == some c.id).isSome = true :=
    List.find?_isSome.2 ⟨n, hn, beq_iff_eq.2 hid⟩
  obtain ⟨m, hm⟩ := Option.isSome_iff_exists.1 hsome
  have hmid := List.find?_some hm
  rw [beq_iff_eq] at hmid
  rw [hids] at hdistinct
  obtain rfl := List.inj_on_of_nodup_map hdistinct (List.mem_of_find?_eq_some hm) hn
    (by rw [hmid, hid])
  rw [locate?, hfind, Option.bind_some, Document.find?, hroot, Option.bind_some]
  exact hm

/-- Nothing has been taken out of a drawing that was read. -/
theorem loose_of_parse (hparse : parse text = .ok p) : p.document.loose = [] := by
  obtain ⟨-, m, -, rfl⟩ := exists_markup_of_parse hparse
  exact loose_ofDocument m

end Drawing

/-- The parent of an element of the root is an element of the root. -/
theorem Document.mem_elements_of_parentBelowRoot? {d : Document} (hloose : d.loose = [])
    (hnodup : (Node.handlesAll d.topLevel).Nodup) {root n parent : Node}
    (hroot : d.root? = some root) (hn : n ∈ root.elements)
    (hparent : d.parentBelowRoot? n = some parent) :
    parent ∈ root.elements ∧ n ∈ Tree.children parent ∧ n ≠ root := by
  have hne : n ≠ root := by
    rintro rfl
    simp [parentBelowRoot?, hroot] at hparent
  obtain ⟨hmem, child, hchild, hhandle⟩ :=
    exists_of_parent? (parent?_of_parentBelowRoot? hparent)
  rw [nodes_of_loose_eq_nil hloose] at hmem
  obtain rfl := Node.eq_of_handle_eq_all hnodup (mem_subtreesAll_of_mem_children hmem hchild)
    (mem_topLevel_of_mem_root hroot hn) hhandle
  obtain ⟨around, haround, hin⟩ := (Node.eq_or_exists_mem_children hn).resolve_left hne
  obtain rfl := Node.eq_of_mem_children hnodup (mem_topLevel_of_mem_root hroot haround) hmem hin
    hchild
  exact ⟨haround, hin, hne⟩

/-- An element right below an element of the root is below the root. -/
theorem Document.parentBelowRoot?_of_mem_children {d : Document} (hloose : d.loose = [])
    (hnodup : (Node.handlesAll d.topLevel).Nodup) {root n child : Node}
    (hroot : d.root? = some root) (hn : n ∈ root.elements) (hchild : child ∈ Tree.children n) :
    d.parentBelowRoot? child = some n := by
  have hmem := mem_topLevel_of_mem_root hroot hn
  have hinside := Node.nodup_handles_of_mem_subtreesAll hnodup
    (Node.mem_subtreesAll_of_mem_elementsAll (List.mem_of_find?_eq_some hroot))
  have hne : root.handle ≠ child.handle := Node.handle_ne_of_mem_children
    (show (Node.handlesAll [root]).Nodup by
      rwa [Node.handlesAll_cons, Node.handlesAll_nil, List.append_nil])
    (List.mem_append_left _ (Node.mem_subtrees_of_mem_elements hn)) hchild root
    (List.mem_singleton_self root)
  rw [parentBelowRoot?, hroot, Option.any_some, if_neg (by simpa using hne)]
  exact parent?_of_mem_children (by rwa [hloose, List.append_nil])
    (by rwa [nodes_of_loose_eq_nil hloose]) hchild

namespace Node

variable {n : Node} {e : Element}

theorem exists_content_of_isElement (h : n.isElement = true) : ∃ e, n.content = .element e :=
  n.content.eq_element_or.resolve_right fun hc ↦ by cases hc.symm.trans h

theorem id?_of_content (he : n.content = .element e) : n.id? = e.id? := by
  rw [id?, element?_of_content he, Option.bind_some]

theorem mem_preorderAll_of_content {ts : List Node} (hn : n ∈ subtreesAll ts)
    (he : n.content = .element e) : .element e ∈ preorderAll (ts.map bare) := by
  refine mem_preorderAll_map_bare hn ?_
  rw [bare_of_content he, preorder]
  exact List.mem_cons_self

theorem view_bare_of_content (he : n.content = .element e) (parent : Option String) :
    view parent n.bare = [.node (entryOf parent e (n.children.map bare))
      (viewAll (some (e.id?.getD "")) (n.children.map bare))] := by
  rw [bare_of_content he, view]

/-- A child that is an element has its component in that of its parent. -/
theorem mem_viewAll_of_mem {ns : List Node} (hn : n ∈ ns) {parent : Option String} {c : Component}
    (hview : view parent n.bare = [c]) : c ∈ viewAll parent (ns.map bare) := by
  obtain ⟨left, right, rfl⟩ := List.append_of_mem hn
  rw [List.map_append, List.map_cons, viewAll_append, viewAll, hview]
  exact List.mem_append_right _ (List.mem_append_left _ (List.mem_singleton_self _))

/-- The stretch of an element starts with its own heading. -/
theorem headings_view_bare (he : n.content = .element e) (parent : Option String) :
    headings (view parent n.bare) = headingOf parent e ::
      headings (viewAll (some (e.id?.getD "")) ((Tree.children n).map bare)) := by
  rw [bare_of_content he, headings_view_element]

/-- The stretch of an element whose children have been replaced. -/
theorem headings_view_withChildren (he : n.content = .element e) (hunbroken : e.IsUnbroken)
    (ts : List Node) (parent : Option String) :
    headings (view parent ((withChildren ts n).bare.map Content.spaced)) = headingOf parent e ::
      headings (viewAll (some (e.id?.getD "")) (mapAll Content.spaced (ts.map bare))) := by
  obtain ⟨⟨k, c⟩, us⟩ := n
  obtain rfl : c = .element e := he
  rw [withChildren, label_node, bare_node, Tree.map, Content.spaced_element, hunbroken.spaced_eq,
    headings_view_element]

/-- The stretch of an element that has been changed, but for what is inside. -/
theorem headings_view_mapElement (he : n.content = .element e)
    (hunbroken : ∀ c ∈ n.bare.preorder, c.IsUnbroken) (f : Element → Element)
    (parent : Option String) :
    headings (view parent ((mapElement f n).bare.map Content.spaced))
      = headingOf parent (f e).spaced :: headings (viewAll (some ((f e).spaced.id?.getD ""))
        ((Tree.children n).map bare)) := by
  obtain ⟨⟨k, c⟩, ts⟩ := n
  obtain rfl : c = .element e := he
  rw [bare_node, preorder, List.forall_mem_cons] at hunbroken
  rw [mapElement, label_node]
  simp only
  rw [bare_node, Tree.map, Content.spaced_element, children_node, mapAll_spaced hunbroken.2,
    headings_view_element]

end Node

/-- The component of the root stands alone, and no id is missing in it. -/
theorem Drawing.exists_element_of_root? {p : Drawing} {text : String} (hparse : parse text = .ok p)
    {root : Node} (hroot : p.document.root? = some root) :
    ∃ e id, root.content = .element e ∧ e.id? = some id ∧ HaveIds (root.children.map Node.bare) ∧
      p.components = [.node (entryOf none e (root.children.map Node.bare))
        (viewAll (some id) (root.children.map Node.bare))] := by
  obtain ⟨e, he⟩ :=
    Node.exists_content_of_isElement (Node.isElement_of_isRoot (isRoot_of_root? hroot))
  have hids := hasIds_of_parse hparse hroot
  rw [Node.bare_of_content he] at hids
  obtain ⟨id, hid⟩ := Option.isSome_iff_exists.1 hids.1
  refine ⟨e, id, he, hid, hids.2, ?_⟩
  rw [components_of_parse hparse, Markup.components, Document.root?_markup, hroot, Option.map_some,
    Option.elim_some, Node.view_bare_of_content he, hid, Option.getD_some]

theorem Markup.AreRead.of_perm {top : Bool} {ts us : List (Tree Content)} (h : us.Perm ts)
    (hts : AreRead top ts) : AreRead top us := by
  induction h with
  | nil => exact trivial
  | cons t _ ih => exact ⟨hts.1, ih hts.2⟩
  | swap t u ts => exact ⟨hts.2.1, hts.1, hts.2.2⟩
  | trans _ _ ih ih' => exact ih (ih' hts)

namespace Node

mutual

theorem sublist_headings_prune {h : Handle} (t : Node) (parent : Option String) :
    (headings (view parent (prune h t).bare)).Sublist (headings (view parent t.bare)) := by
  match t with
  | .node ⟨k, c⟩ ts =>
    rw [prune, bare_node, bare_node]
    rcases c.eq_element_or with ⟨e, rfl⟩ | hc
    · rw [headings_view_element, headings_view_element]
      exact (sublist_headings_pruneAll ts _).cons_cons _
    · rw [view_of_isElement_eq_false hc, headings_nil]
      exact List.nil_sublist _

/-- Taking a node out leaves headings that were there. -/
theorem sublist_headings_pruneAll {h : Handle} (ts : List Node) (parent : Option String) :
    (headings (viewAll parent ((pruneAll h ts).map bare))).Sublist
      (headings (viewAll parent (ts.map bare))) := by
  match ts with
  | [] => exact List.Sublist.refl _
  | t :: ts =>
    rw [pruneAll, List.map_cons, viewAll, headings_append]
    split
    · exact (sublist_headings_pruneAll ts parent).trans (List.sublist_append_right _ _)
    · rw [List.map_cons, viewAll, headings_append]
      exact (sublist_headings_prune t parent).append (sublist_headings_pruneAll ts parent)

end

end Node

/-! ## Copies -/

variable {n : Node} {e : Element}

/-- An element with a copy put in, as it is written. -/
theorem Node.bare_addChild (he : n.content = .element e)
    (hunbroken : ∀ c ∈ n.bare.preorder, c.IsUnbroken) (c : Copied) (next : Handle) :
    (addChild (c.node next) n).bare.map Content.spaced = .node (.element e)
      ((Tree.children n).map bare ++ [.node (.element c.element.spaced) c.texts]) := by
  have htexts : mapAll Content.spaced c.texts = c.texts := by
    rw [Copied.texts]
    cases c.text? <;> rfl
  obtain ⟨⟨k, c'⟩, ts⟩ := n
  obtain rfl : c' = .element e := he
  rw [bare_node, preorder, List.forall_mem_cons] at hunbroken
  rw [addChild, label_node, children_node, bare_node, Tree.map, hunbroken.1.spaced_eq,
    mapAll_eq_map, List.map_append, List.map_append, ← mapAll_eq_map, mapAll_spaced hunbroken.2,
    List.map_singleton, List.map_singleton, Copied.bare_node, Tree.map, Content.spaced_element,
    htexts]

/-- A copy has no elements inside. -/
theorem Copied.hasElements_texts (c : Copied) : hasElements c.texts = false := by
  rw [texts]
  cases c.text? <;> rfl

theorem Copied.id?_spaced_element (c : Copied) : c.element.spaced.id? = none := by
  rw [Element.id?_spaced, c.id?_element, Option.map_none]

namespace Edit

open Drawing Document

variable {p : Drawing} {text id w : String} {root n : Node}

/-- **A copy that is put in adds one heading**, below the one of the element it is put into, and no
other heading changes. -/
theorem exists_headings_insertCopy (hparse : parse text = .ok p) (hclean : p.IsClean)
    (hroot : p.document.root? = some root) (hn : n ∈ root.elements) {copy : Copied}
    (hcopy : copy.IsOrdinary fun k ↦ IsName k.toList)
    (hfinish : finish (p.document.insertCopy n.handle copy) = .ok w) :
    ∃ q left right, ∃ new : Heading, parse w = .ok q ∧ q.IsClean ∧
      headings p.components = left ++ right ∧ headings q.components = left ++ new :: right ∧
      new.kind = copy.element.kind ∧ new.parent = n.id? ∧
      (((headings p.components).map Heading.id).Nodup →
        ((headings q.components).map Heading.id).Nodup) := by
  obtain ⟨⟨q, hq⟩, rfl⟩ := finish_eq_ok_iff.1 hfinish
  have hnodup := nodup_handlesAll_of_parse hparse
  have hfresh := next_notMem_of_parse hparse
  have hin := mem_topLevel_of_mem_root hroot hn
  have helement := Node.isElement_of_mem_elements hn
  have hsound :=
    (isSound_of_parse hparse hclean.isNamed).insertCopy hfresh hnodup hin helement hcopy
  have hne := headings_ne_empty hparse
  obtain ⟨around, left, right, hbefore, hafter⟩ :=
    exists_headings_modifyAll hnodup hclean.isUnbroken hroot hn
  have hunbroken : ∀ c ∈ n.bare.preorder, c.IsUnbroken :=
    fun c hc ↦ hclean.isUnbroken c (Node.mem_preorderAll_map_bare hin hc)
  obtain ⟨e, he⟩ := Node.exists_content_of_isElement helement
  -- the stretch of the element has one heading more, at its end
  have hstretch : headings (view around
      ((Node.addChild (copy.node p.document.next) n).bare.map Content.spaced))
        = headings (view around n.bare) ++ [⟨"", copy.element.kind, some (e.id?.getD "")⟩] := by
    rw [Node.bare_addChild he hunbroken, Node.headings_view_bare he, headings_view_element,
      viewAll_append, headings_append, viewAll, viewAll, List.append_nil, headings_view_element,
      viewAll_eq_nil copy.hasElements_texts, headings_nil, headingOf, headingOf,
      copy.id?_spaced_element]
    rfl
  have hisRoot := isRoot_of_root? hroot
  have hafter' := hafter (Node.addChild (copy.node p.document.next)) _
    (fun heq ↦ by rw [heq]; exact hisRoot) (topLevel_insertCopy hfresh n.handle copy)
  rw [hstretch, ← List.append_assoc, List.append_assoc _ [_] right,
    List.singleton_append] at hafter'
  rw [← components_of_parse hparse] at hbefore
  rw [hbefore] at hne
  have hparent : e.id?.getD "" ≠ "" := by
    refine (hne (headingOf around e) (List.mem_append_left _ (List.mem_append_right _ ?_))).1
    rw [Node.headings_view_bare he]
    exact List.mem_cons_self
  have hid : some (e.id?.getD "") = n.id? := by
    obtain ⟨id, hid⟩ := Option.ne_none_iff_exists'.1 fun hnone : e.id? = none ↦
      hparent (by rw [hnone]; rfl)
    rw [Node.id?_of_content he, hid, Option.getD_some]
  obtain ⟨hnamed, hdistinct⟩ := hsound.headings_of_parse hq
  rw [hafter'] at hnamed hdistinct
  obtain ⟨new, hnew, hx⟩ := exists_of_namedAs hnamed hne
  refine ⟨q, _, right, new, hq, (isClean_of_parse_text hsound hq).1, hbefore, hnew, hx.kind,
    (hx.parent fun heq ↦ hparent (Option.some.inj heq)).trans hid, fun hids ↦ hdistinct ?_⟩
  rw [List.map_append, List.map_cons, List.filter_append, List.filter_cons_of_neg (by simp),
    ← List.filter_append, ← List.map_append, filter_ids hne, ← hbefore]
  exact hids

/-- What is found in a drawing whose names are names of XML has an ordinary copy. -/
theorem isOrdinary_ofNode_of_isNamed (hparse : parse text = .ok p)
    (hnamed : ∀ c ∈ preorderAll p.document.markup, c.IsNamed) (hlocate : p.locate? id = some n) :
    (Copied.ofNode n).IsOrdinary fun k ↦ IsName k.toList := by
  obtain ⟨hmem, e, he⟩ := exists_of_locate? hlocate
  have hcontent := Node.mem_preorderAll_of_content hmem he
  obtain ⟨hname, hkeys⟩ := hnamed _ hcontent
  exact Copied.isOrdinary_ofNode he
    ⟨hname, (isSound_of_parse hparse hnamed).isRead.nodup_keys e hcontent, hkeys⟩

/-- Duplicating puts a moved copy of an element of the root into the element around it. -/
theorem exists_duplicated (hparse : parse text = .ok p)
    (hnamed : ∀ c ∈ preorderAll p.document.markup, c.IsNamed) {config : Config}
    (hedit : duplicate config text id = .ok w) :
    ∃ root n parent, p.document.root? = some root ∧ p.locate? id = some n ∧ n ∈ root.elements ∧
      parent ∈ root.elements ∧ n ∈ Tree.children parent ∧
      ((config.offsetAttributes.foldl (Copied.shift config.duplicateOffset) (.ofNode n)).IsOrdinary
        fun k ↦ IsName k.toList) ∧
      finish (p.document.insertCopy (Node.handle parent)
        (config.offsetAttributes.foldl (Copied.shift config.duplicateOffset) (.ofNode n)))
          = .ok w := by
  obtain ⟨q, n, parent, hq, hlocate, hparent, hfinish⟩ := duplicate_eq_ok_iff.1 hedit
  cases hq.symm.trans hparse
  obtain ⟨-, root, -, hroot, hn, -⟩ := exists_root_of_locate? hlocate
  obtain ⟨hin, hchild, -⟩ := Document.mem_elements_of_parentBelowRoot? (loose_of_parse hparse)
    (nodup_handlesAll_of_parse hparse) hroot hn hparent
  have hcopy := isOrdinary_ofNode_of_isNamed hparse hnamed hlocate
  exact ⟨root, n, parent, hroot, hlocate, hn, hin, hchild, hcopy.foldl_shift _ _, hfinish⟩

/-- Duplicating puts an ordinary copy into an element of the root. -/
theorem exists_insertCopy_of_duplicate (hparse : parse text = .ok p)
    (hnamed : ∀ c ∈ preorderAll p.document.markup, c.IsNamed) {config : Config}
    (hedit : duplicate config text id = .ok w) :
    ∃ root parent copy, p.document.root? = some root ∧ parent ∈ root.elements ∧
      (copy.IsOrdinary fun k ↦ IsName k.toList) ∧
      finish (p.document.insertCopy (Node.handle parent) copy) = .ok w := by
  obtain ⟨root, _, parent, hroot, -, -, hin, -, hcopy, hfinish⟩ :=
    exists_duplicated hparse hnamed hedit
  exact ⟨root, parent, _, hroot, hin, hcopy, hfinish⟩

/-- Pasting puts the copy into an element of the root. -/
theorem exists_insertCopy_of_paste (hparse : parse text = .ok p) {parent : Option String}
    {copy : Copied} (hedit : paste parent text copy = .ok w) :
    ∃ root n, p.document.root? = some root ∧ n ∈ root.elements ∧
      finish (p.document.insertCopy (Node.handle n) copy) = .ok w := by
  obtain ⟨q, n, hq, htarget, hfinish⟩ := paste_eq_ok_iff.1 hedit
  cases hq.symm.trans hparse
  cases parent with
  | none =>
    have hself := Node.mem_elements_self (Node.isElement_of_isRoot (isRoot_of_root? htarget))
    exact ⟨n, n, htarget, hself, hfinish⟩
  | some id =>
    obtain ⟨-, root, -, hroot, hn, -⟩ := exists_root_of_locate? htarget
    exact ⟨root, n, hroot, hn, hfinish⟩

/-! ## Edits of what is there -/

/-- A stretch of headings whose ids are among those that were there before leaves the ids
distinct. -/
private theorem nodup_filter_of_subperm {left middle middle' right : List Heading}
    (h : ((left ++ middle ++ right).map Heading.id).Nodup)
    (hmiddle : ((middle'.map Heading.id).filter (· != "")).Subperm (middle.map Heading.id)) :
    (((left ++ middle' ++ right).map Heading.id).filter (· != "")).Nodup := by
  have hall : (((left ++ middle' ++ right).map Heading.id).filter (· != "")).Subperm
      ((left ++ middle ++ right).map Heading.id) := by
    simp only [List.map_append, List.filter_append]
    exact (List.filter_sublist.subperm.append hmiddle).append List.filter_sublist.subperm
  obtain ⟨ids, hperm, hsublist⟩ := hall
  exact hperm.nodup_iff.1 (h.sublist hsublist)

/-- A change of one element leaves the ids distinct if they are so with the stretch that the
element has after it. -/
private theorem nodup_of_change (hparse : parse text = .ok p) (hclean : p.IsClean)
    (hroot : p.document.root? = some root) (hn : n ∈ root.elements) {d : Document} {f : Node → Node}
    (hd : d.topLevel = Node.modifyAll n.handle f p.document.topLevel) (hsound : d.IsSound)
    (hisRoot : n.isRoot = true → (f n).isRoot = true) (hfinish : finish d = .ok w)
    (h : ∀ around left right,
      headings p.components = left ++ headings (view around n.bare) ++ right →
      (((left ++ headings (view around ((f n).bare.map Content.spaced)) ++ right).map
        Heading.id).filter (· != "")).Nodup) :
    ∃ q, parse w = .ok q ∧ ((headings q.components).map Heading.id).Nodup := by
  obtain ⟨⟨q, hq⟩, rfl⟩ := finish_eq_ok_iff.1 hfinish
  obtain ⟨around, left, right, hbefore, hafter⟩ :=
    exists_headings_modifyAll (nodup_handlesAll_of_parse hparse) hclean.isUnbroken hroot hn
  refine ⟨q, hq, (hsound.headings_of_parse hq).2 ?_⟩
  rw [hafter f d (fun heq ↦ hisRoot (heq ▸ isRoot_of_root? hroot)) hd]
  exact h around left right (components_of_parse hparse ▸ hbefore)

/-- Removing an element changes the element around it. -/
theorem exists_change_of_remove (hparse : parse text = .ok p)
    (hnamed : ∀ c ∈ preorderAll p.document.markup, c.IsNamed) (hedit : remove text id = .ok w) :
    ∃ root around k d, p.document.root? = some root ∧ around ∈ root.elements ∧
      d.topLevel = Node.modifyAll around.handle (Node.prune k) p.document.topLevel ∧ d.IsSound ∧
      finish d = .ok w := by
  obtain ⟨q, n, parent, hq, hlocate, hparent, hfinish⟩ := remove_eq_ok_iff.1 hedit
  cases hq.symm.trans hparse
  obtain ⟨c, root, -, hroot, hn, -⟩ := exists_root_of_locate? hlocate
  have hnodup := nodup_handlesAll_of_parse hparse
  obtain ⟨-, -, hne⟩ := Document.mem_elements_of_parentBelowRoot? (loose_of_parse hparse) hnodup
    hroot hn hparent
  have hattached : p.document.isAttached n.handle = true := by
    rw [Document.isAttached, Document.parent?_of_parentBelowRoot? hparent]
    rfl
  obtain ⟨around, hin, -, hd⟩ := Document.exists_topLevel_detach hnodup hroot hn hne hattached
  exact ⟨root, around, n.handle, _, hroot, hin, hd, (isSound_of_parse hparse hnamed).of_modifyAll hd
    (fun _ _ _ _ ↦ Node.isRead_prune) (fun _ ↦ Node.forall_preorder_prune) fun m ↦ by
      cases m; rfl, hfinish⟩

/-- Exchanging two neighbours changes the order of the children of one element, if it does not leave
the text as it is. -/
theorem exists_change_of_reorder (hparse : parse text = .ok p)
    (hnamed : ∀ c ∈ preorderAll p.document.markup, c.IsNamed) {direction : Direction}
    (hedit : reorder direction text id = .ok w) :
    ∃ n parent, p.locate? id = some n ∧ p.document.parentBelowRoot? n = some parent ∧
      (exchanged? n.handle direction (Tree.children parent) = none ∧ w = text ∨
        ∃ root children d, p.document.root? = some root ∧ parent ∈ root.elements ∧
          exchanged? n.handle direction (Tree.children parent) = some children ∧
          (∀ c ∈ preorderAll (children.map Node.bare), c ∈ preorderAll p.document.markup) ∧
          d.topLevel
            = Node.modifyAll parent.handle (Node.withChildren children) p.document.topLevel ∧
          d.IsSound ∧ finish d = .ok w) := by
  obtain ⟨q, n, parent, hq, hlocate, hparent, hcase⟩ := reorder_eq_ok_iff.1 hedit
  cases hq.symm.trans hparse
  rw [swap?_of_parent? (Document.parent?_of_parentBelowRoot? hparent), Option.map_eq_none_iff]
    at hcase
  obtain ⟨swapped, hswap, hfinish⟩ | hnone := hcase
  case inr => exact ⟨n, parent, hlocate, hparent, .inl hnone⟩
  obtain ⟨children, hexchanged, rfl⟩ := Option.map_eq_some_iff.1 hswap
  obtain ⟨c, root, -, hroot, hn, -⟩ := exists_root_of_locate? hlocate
  have hnodup := nodup_handlesAll_of_parse hparse
  obtain ⟨hin, -, -⟩ := Document.mem_elements_of_parentBelowRoot? (loose_of_parse hparse) hnodup
    hroot hn hparent
  have hperm := perm_exchanged? hexchanged
  have hmem := mem_topLevel_of_mem_root hroot hin
  have hinside : ∀ c ∈ preorderAll (children.map Node.bare), c ∈ preorderAll p.document.markup := by
    intro c hc
    have hc' : c ∈ preorderAll ((Tree.children parent).map Node.bare) := by
      rw [preorderAll_eq_flatMap] at hc ⊢
      exact ((hperm.map Node.bare).flatMap_right _).mem_iff.1 hc
    refine Node.mem_preorderAll_map_bare hmem ?_
    obtain ⟨s, ts⟩ := parent
    rw [Node.bare_node, preorder]
    exact List.mem_cons_of_mem _ hc'
  refine ⟨n, parent, hlocate, hparent, .inr
    ⟨root, children, _, hroot, hin, hexchanged, hinside, rfl, ?_, hfinish⟩⟩
  exact (isSound_of_parse hparse hnamed).withChildren hnodup hmem (Node.isElement_of_mem_elements hin)
    (AreRead.of_perm (hperm.map Node.bare)) (fun c hc ↦ hnamed c (hinside c hc)) rfl

/-- Removing an element leaves ids that were there. -/
theorem nodup_ids_remove (hparse : parse text = .ok p) (hclean : p.IsClean)
    (hids : ((headings p.components).map Heading.id).Nodup) (hedit : remove text id = .ok w) :
    ∃ q, parse w = .ok q ∧ ((headings q.components).map Heading.id).Nodup := by
  obtain ⟨root, around, k, d, hroot, hin, hd, hsound, hfinish⟩ :=
    exists_change_of_remove hparse hclean.isNamed hedit
  have hunbroken : ∀ c ∈ (Node.bare around).preorder, c.IsUnbroken := fun c hc ↦
    hclean.isUnbroken c (Node.mem_preorderAll_map_bare (mem_topLevel_of_mem_root hroot hin) hc)
  refine nodup_of_change hparse hclean hroot hin hd hsound ?_ hfinish
    fun parent left right hbefore ↦ ?_
  · obtain ⟨s, ts⟩ := around
    exact fun h ↦ h
  · rw [hbefore] at hids
    rw [map_spaced (Node.forall_preorder_prune hunbroken)]
    refine nodup_filter_of_subperm hids (List.filter_sublist.trans (List.Sublist.map _ ?_)).subperm
    exact Node.sublist_headings_prune around parent

/-- Exchanging two neighbours leaves the ids in another order. -/
theorem nodup_ids_reorder (hparse : parse text = .ok p) (hclean : p.IsClean)
    (hids : ((headings p.components).map Heading.id).Nodup) {direction : Direction}
    (hedit : reorder direction text id = .ok w) :
    ∃ q, parse w = .ok q ∧ ((headings q.components).map Heading.id).Nodup := by
  obtain ⟨n, parent, -, -, ⟨-, rfl⟩ | ⟨root, children, d, hroot, hin, hexchanged, hinside, hd, hsound,
    hfinish⟩⟩ := exists_change_of_reorder hparse hclean.isNamed hedit
  · exact ⟨p, hparse, hids⟩
  have hperm := perm_exchanged? hexchanged
  refine nodup_of_change hparse hclean hroot hin hd hsound (fun h ↦ h) hfinish
    fun around left right hbefore ↦ ?_
  rw [hbefore] at hids
  refine nodup_filter_of_subperm hids (List.filter_sublist.subperm.trans ?_)
  obtain ⟨e, he⟩ := Node.exists_content_of_isElement (Node.isElement_of_mem_elements hin)
  have hunbroken := hclean.isUnbroken (.element e)
    (Node.mem_preorderAll_of_content (mem_topLevel_of_mem_root hroot hin) he)
  rw [Node.headings_view_withChildren he hunbroken, Node.headings_view_bare he,
    mapAll_spaced fun c hc ↦ hclean.isUnbroken c (hinside c hc), headings_viewAll, headings_viewAll]
  exact ((((hperm.map Node.bare).flatMap_right _).cons _).map Heading.id).subperm

/-- Setting a text leaves the id of the element and takes away those inside. -/
theorem nodup_ids_setText (hparse : parse text = .ok p) (hclean : p.IsClean)
    (hids : ((headings p.components).map Heading.id).Nodup) {value : String}
    (hedit : setProperty text id textKey value = .ok w) :
    ∃ q, parse w = .ok q ∧ ((headings q.components).map Heading.id).Nodup := by
  obtain ⟨q, n, hq, hlocate, hfinish⟩ := setProperty_eq_ok_iff.1 hedit
  cases hq.symm.trans hparse
  obtain ⟨c, root, -, hroot, hn, -⟩ := exists_root_of_locate? hlocate
  have hin := mem_topLevel_of_mem_root hroot hn
  have helement := Node.isElement_of_mem_elements hn
  rw [Document.setProperty, if_pos rfl] at hfinish
  obtain ⟨ts, hread, hnamed, hnone, hd⟩ := p.document.exists_topLevel_setText n.handle value
  have hsound := (isSound_of_parse hparse hclean.isNamed).withChildren
    (nodup_handlesAll_of_parse hparse) hin helement (fun _ ↦ hread) hnamed hd
  refine nodup_of_change hparse hclean hroot hn hd hsound (fun h ↦ h) hfinish
    fun around left right hbefore ↦ ?_
  rw [hbefore] at hids
  refine nodup_filter_of_subperm hids (List.filter_sublist.trans (List.Sublist.map _ ?_)).subperm
  obtain ⟨e, he⟩ := Node.exists_content_of_isElement helement
  have hunbroken := hclean.isUnbroken (.element e) (Node.mem_preorderAll_of_content hin he)
  have hempty : hasElements (mapAll Content.spaced (ts.map Node.bare)) = false := by
    rw [hasElements_eq_of_relAll (relAll_mapAll_spaced (ts.map Node.bare)), hnone]
  rw [Node.headings_view_withChildren he hunbroken, Node.headings_view_bare he,
    viewAll_eq_nil hempty, headings_nil]
  exact (List.nil_sublist _).cons_cons _

/-- An id exchanged for one that no other has leaves the ids distinct. -/
private theorem nodup_filter_of_exchanged {ids ids' : List String} {id id' : String}
    (h : (ids ++ id :: ids').Nodup) (hid' : id' ≠ "" → id' ∉ ids ++ ids') :
    ((ids ++ id' :: ids').filter (· != "")).Nodup := by
  rw [List.nodup_middle, List.nodup_cons] at h
  by_cases hempty : id' = ""
  · rw [List.filter_append, List.filter_cons_of_neg (by simpa using hempty), ← List.filter_append]
    exact h.2.filter _
  · exact (List.nodup_middle.2 (List.nodup_cons.2 ⟨hid' hempty, h.2⟩)).filter _

/-- Setting an attribute leaves the ids distinct, if it sets none that another component has. -/
theorem nodup_ids_setAttribute (hparse : parse text = .ok p) (hclean : p.IsClean)
    (hids : ((headings p.components).map Heading.id).Nodup) {key value : String}
    (hne : key ≠ textKey) (hkey : IsPropertyKey (fun k ↦ IsName k.toList) key)
    (hfree : key = "id" → ∀ c ∈ all p.components,
      Component.id c = String.ofList (spaced value.toList) → find? p.components id = some c)
    (hedit : setProperty text id key value = .ok w) :
    ∃ q, parse w = .ok q ∧ ((headings q.components).map Heading.id).Nodup := by
  obtain ⟨q, n, hq, hlocate, hfinish⟩ := setProperty_eq_ok_iff.1 hedit
  cases hq.symm.trans hparse
  obtain ⟨c, root, hfind, hroot, hn, hid⟩ := exists_root_of_locate? hlocate
  have hin := mem_topLevel_of_mem_root hroot hn
  have hsound := isSound_of_parse hparse hclean.isNamed
  obtain ⟨e, he⟩ := Node.exists_content_of_isElement (Node.isElement_of_mem_elements hn)
  have hcontent := Node.mem_preorderAll_of_content hin he
  rw [Document.setProperty, if_neg hne] at hfinish
  refine nodup_of_change hparse hclean hroot hn
    (f := Node.mapElement fun e ↦ e.setProperty key value) rfl
    (hsound.setAttribute n.handle (hkey.resolve_left hne) value) ?_ hfinish
    fun around left right hbefore ↦ ?_
  · obtain ⟨⟨k, c⟩, ts⟩ := n
    obtain rfl : c = .element e := he
    intro h
    show Text.eqIgnoringAsciiCase (e.setProperty key value).name "svg" = true
    rw [Element.name_setProperty]
    exact h
  have hmem : ∀ x ∈ (headings p.components).map Heading.id, ∃ c ∈ all p.components, c.id = x := by
    rw [map_id_headings]
    exact fun x hx ↦ List.mem_map.1 hx
  rw [hbefore, Node.headings_view_bare he] at hids hmem
  rw [Node.headings_view_mapElement he fun c hc ↦
    hclean.isUnbroken c (Node.mem_preorderAll_map_bare hin hc)]
  simp only [List.map_append, List.map_cons, List.append_assoc, List.cons_append,
    map_id_headings_viewAll, headingOf] at hids hmem ⊢
  refine nodup_filter_of_exchanged hids fun hnew hother ↦ ?_
  have hold := (List.nodup_cons.1 (List.nodup_middle.1 hids)).1
  have hkeys := (hsound.isRead.nodup_keys _ hcontent)
  rcases Element.id?_setProperty hkeys key value with hsame | ⟨rfl, hvalue⟩
  · have hunbroken : e.spaced = e := Content.element.inj (hclean.isUnbroken _ hcontent).spaced_eq
    rw [Element.id?_spaced, hsame, ← Element.id?_spaced, hunbroken] at hother
    exact hold hother
  · -- the one other component with the id would be the element itself
    have hspaced := Element.getD_id?_spaced (e.setProperty "id" value)
    rw [hvalue] at hspaced
    obtain ⟨c', hc', hid'⟩ := hmem _ (List.perm_middle.mem_iff.2 (List.mem_cons_of_mem _ hother))
    cases (hfree rfl c' hc' (hid'.trans hspaced)).symm.trans hfind
    rw [Node.id?_of_content he] at hid
    rw [hid] at hold
    exact hold (hid' ▸ hother)

/-! ## Every edit -/

/-- Whether a text is a drawing no two of whose components have the same id. -/
def IsDistinct (text : String) : Prop :=
  ∃ p, parse text = .ok p ∧ ((all p.components).map Component.id).Nodup

private theorem isDistinct_orKeep (h : IsDistinct text) {result : Except EditError String}
    (hresult : ∀ w, result = .ok w →
      ∃ q, parse w = .ok q ∧ ((headings q.components).map Heading.id).Nodup) :
    IsDistinct (orKeep text result) := by
  cases result with
  | error cause => exact h
  | ok w =>
    obtain ⟨q, hq, hids⟩ := hresult w rfl
    exact ⟨q, hq, map_id_headings q.components ▸ hids⟩

/-- Whether the ids are distinct after every edit of a text, but for one that sets an id that
another component has. -/
structure KeepsDistinct (text : String) (p : Drawing) : Prop where
  /-- Setting a property, where an id that is set is no other component's. -/
  setProperty : ∀ id key value, IsPropertyKey (fun k ↦ IsName k.toList) key →
    (key = "id" → ∀ c ∈ all p.components, Component.id c = String.ofList (spaced value.toList) →
      find? p.components id = some c) →
    IsDistinct (orKeep text (Edit.setProperty text id key value))
  /-- Adding a moved copy. -/
  duplicate : ∀ config id, IsDistinct (orKeep text (Edit.duplicate config text id))
  /-- Exchanging an element with a neighbour. -/
  reorder : ∀ direction id, IsDistinct (orKeep text (Edit.reorder direction text id))
  /-- Removing an element. -/
  remove : ∀ id, IsDistinct (orKeep text (Edit.remove text id))
  /-- Putting in a copy that was taken from any text whose names are names of XML. -/
  paste : ∀ source id copy parent,
    (∀ p, parse source = .ok p → ∀ c ∈ preorderAll p.document.markup, c.IsNamed) →
    copy? source id = some copy → IsDistinct (orKeep text (Edit.paste parent text copy))

/-- **Edits keep ids distinct** in texts whose names are names of XML, unless they set one that
another component has. -/
theorem keepsDistinct_of_parse (hparse : parse text = .ok p) (hclean : p.IsClean)
    (hdistinct : ((all p.components).map Component.id).Nodup) : KeepsDistinct text p := by
  have htext : IsDistinct text := ⟨p, hparse, hdistinct⟩
  have hids : ((headings p.components).map Heading.id).Nodup := by rwa [map_id_headings]
  have hcopied : ∀ (n root : Node) (copy : Copied) (w : String), p.document.root? = some root →
      n ∈ root.elements → (copy.IsOrdinary fun k ↦ IsName k.toList) →
      finish (p.document.insertCopy n.handle copy) = .ok w →
      ∃ q, parse w = .ok q ∧ ((headings q.components).map Heading.id).Nodup := by
    intro n root copy w hroot hn hcopy hfinish
    obtain ⟨q, -, -, -, hq, -, -, -, -, -, hq'⟩ :=
      exists_headings_insertCopy hparse hclean hroot hn hcopy hfinish
    exact ⟨q, hq, hq' hids⟩
  constructor
  case setProperty =>
    refine fun id key value hkey hfree ↦ isDistinct_orKeep htext fun w hedit ↦ ?_
    by_cases htextKey : key = textKey
    · subst htextKey
      exact nodup_ids_setText hparse hclean hids hedit
    · exact nodup_ids_setAttribute hparse hclean hids htextKey hkey hfree hedit
  case duplicate =>
    refine fun config id ↦ isDistinct_orKeep htext fun w hedit ↦ ?_
    obtain ⟨root, parent, copy, hroot, hin, hcopy, hfinish⟩ :=
      exists_insertCopy_of_duplicate hparse hclean.isNamed hedit
    exact hcopied parent root copy w hroot hin hcopy hfinish
  case reorder =>
    exact fun direction id ↦
      isDistinct_orKeep htext fun w hedit ↦ nodup_ids_reorder hparse hclean hids hedit
  case remove =>
    exact fun id ↦ isDistinct_orKeep htext fun w hedit ↦ nodup_ids_remove hparse hclean hids hedit
  case paste =>
    refine fun source id copy parent hnamed hcopy ↦ isDistinct_orKeep htext fun w hedit ↦ ?_
    obtain ⟨p', n', hp', hlocate', rfl⟩ := copy?_eq_some_iff.1 hcopy
    have hordinary := isOrdinary_ofNode_of_isNamed hp' (hnamed p' hp') hlocate'
    obtain ⟨root, n, hroot, hn, hfinish⟩ := exists_insertCopy_of_paste hparse hedit
    exact hcopied n root _ w hroot hn hordinary hfinish

/-- A free id is set on the second of two shapes, and the copy of the first one is put into a group
that has been read elsewhere. -/
theorem isDistinct_of_free_id :
    ∃ p, parse "<svg><g id=\"a\"><rect x=\"1\"/></g><rect/></svg>" = .ok p ∧ p.IsClean ∧
      ((all p.components).map Component.id).Nodup ∧
      IsDistinct (orKeep "<svg><g id=\"a\"><rect x=\"1\"/></g><rect/></svg>"
        (setProperty "<svg><g id=\"a\"><rect x=\"1\"/></g><rect/></svg>" "rect-0" "id" "b")) ∧
      ∃ copy, copy? "<svg><circle r=\"2\"/></svg>" "circle-0" = some copy ∧
        IsDistinct (orKeep "<svg><g id=\"a\"><rect x=\"1\"/></g><rect/></svg>"
          (paste (some "a") "<svg><g id=\"a\"><rect x=\"1\"/></g><rect/></svg>" copy)) := by
  have hread : Markup.read "<svg><g id=\"a\"><rect x=\"1\"/></g><rect/></svg>"
      = .ok [.node (.element ⟨"svg", []⟩) [.node (.element ⟨"g", [("id", "a")]⟩)
        [.node (.element ⟨"rect", [("x", "1")]⟩) []], .node (.element ⟨"rect", []⟩) []]] := by cbv
  have hsource : Markup.read "<svg><circle r=\"2\"/></svg>" = .ok [.node (.element ⟨"svg", []⟩)
      [.node (.element ⟨"circle", [("r", "2")]⟩) []]] := by cbv
  have hparse := parse_of_read (by cbv) hread
  have hparse' := parse_of_read (by cbv) hsource
  have hids : (all (ofDocument (.ofMarkup [.node (.element ⟨"svg", []⟩)
      [.node (.element ⟨"g", [("id", "a")]⟩) [.node (.element ⟨"rect", [("x", "1")]⟩) []],
        .node (.element ⟨"rect", []⟩) []]])).components).map Component.id
      = ["svg-0", "a", "a-rect-0", "rect-0"] := by
    rw [all_eq]
    decide +kernel
  have hkeeps := keepsDistinct_of_parse hparse ⟨by decide +kernel, by decide +kernel⟩
    (by rw [hids]; decide)
  refine ⟨_, hparse, ⟨by decide +kernel, by decide +kernel⟩, by rw [hids]; decide,
    hkeeps.setProperty "rect-0" "id" "b" (.inr (.inr (by decide))) fun _ c hc heq ↦ ?_,
    _, by cbv, hkeeps.paste "<svg><circle r=\"2\"/></svg>" "circle-0" _ (some "a") ?_ (by cbv)⟩
  · have hmem := List.mem_map_of_mem (f := Component.id) hc
    rw [hids, heq] at hmem
    exact absurd hmem (by decide +kernel)
  · intro q hq
    cases hparse'.symm.trans hq
    decide +kernel

/-- **An id that another component has can be set**, and then two have the same one. -/
theorem not_isDistinct_of_taken_id :
    ∃ p, parse "<svg><rect id=\"a\"/><rect id=\"b\"/></svg>" = .ok p ∧ p.IsClean ∧
      ((all p.components).map Component.id).Nodup ∧
      IsPropertyKey (fun k ↦ IsName k.toList) "id" ∧
      ¬ IsDistinct (orKeep "<svg><rect id=\"a\"/><rect id=\"b\"/></svg>"
        (setProperty "<svg><rect id=\"a\"/><rect id=\"b\"/></svg>" "a" "id" "b")) := by
  have hread : Markup.read "<svg><rect id=\"a\"/><rect id=\"b\"/></svg>"
      = .ok [.node (.element ⟨"svg", []⟩) [.node (.element ⟨"rect", [("id", "a")]⟩) [],
        .node (.element ⟨"rect", [("id", "b")]⟩) []]] := by cbv
  have hedit : orKeep "<svg><rect id=\"a\"/><rect id=\"b\"/></svg>"
      (setProperty "<svg><rect id=\"a\"/><rect id=\"b\"/></svg>" "a" "id" "b")
      = "<svg id=\"svg-0\"><rect id=\"b\"/><rect id=\"b\"/></svg>" := by cbv
  have hread' : Markup.read "<svg id=\"svg-0\"><rect id=\"b\"/><rect id=\"b\"/></svg>"
      = .ok [.node (.element ⟨"svg", [("id", "svg-0")]⟩)
        [.node (.element ⟨"rect", [("id", "b")]⟩) [],
          .node (.element ⟨"rect", [("id", "b")]⟩) []]] := by cbv
  refine ⟨_, parse_of_read (by cbv) hread, ⟨by decide +kernel, by decide +kernel⟩, ?_,
    .inr (.inr (by decide)), ?_⟩
  · rw [all_eq]
    decide +kernel
  · rw [hedit]
    rintro ⟨q, hq, hnodup⟩
    cases (parse_of_read (by cbv) hread').symm.trans hq
    rw [all_eq] at hnodup
    revert hnodup
    decide +kernel

/-! ## Names that are not read back -/

/-- Markup that is read in another way once it has been written: the quotes in the names shift the
ends of tags, and what is the inside of a comment is markup. -/
def misread : String :=
  "<!DOCTYPE svg [<!ENTITY a \"<\">]><?p >><svg><a\" b='\"' c'='1' id='t'/><!--=\"'-->" ++
    "<rect id='k'/><!--'=\"1\"/><u id=\"u\"/>--><u id='u'/></svg><?q?><svg/>"

/-- The same markup with a rectangle put in. -/
def rewritten : String :=
  "<!DOCTYPE svg [<!ENTITY a \"<\">]><?p >><svg id=\"svg-0\">" ++
    "<a\" b=\"&quot;\" c'=\"1\" id=\"t\"/><!--=\"'--><rect id=\"k\"/>" ++
    "<!--'=\"1\"/><u id=\"u\"/>--><u id=\"u\"/><rect/></svg><?q?><svg/>"

/-- The drawing of the misread markup. -/
def misreadDrawing : Drawing := ofDocument (.ofMarkup [
    .node (.doctype "svg [<!ENTITY a \"<\">]><?p >") [], .node (.element ⟨"svg", []⟩)
      [.node (.element ⟨"a\"", [("b", "\""), ("c'", "1"), ("id", "t")]⟩) [],
        .node (.comment "=\"'") [], .node (.element ⟨"rect", [("id", "k")]⟩) [],
        .node (.comment "'=\"1\"/><u id=\"u\"/>") [], .node (.element ⟨"u", [("id", "u")]⟩) []],
    .node (.instruction "q") [], .node (.element ⟨"svg", []⟩) []])

set_option maxRecDepth 4000 in
theorem parse_misread : parse misread = .ok misreadDrawing := parse_of_read (by cbv) (by cbv)

theorem isUnbroken_misread : ∀ c ∈ preorderAll misreadDrawing.document.markup, c.IsUnbroken := by
  decide +kernel

theorem textKey_notMem_misread {e : Element}
    (he : .element e ∈ preorderAll misreadDrawing.document.markup) : textKey ∉ e.keys := by
  have hkeys : ∀ c ∈ preorderAll misreadDrawing.document.markup, ∀ e ∈ c.element?,
      textKey ∉ e.keys := by decide +kernel
  exact hkeys _ he e rfl

theorem ids_misread : (all misreadDrawing.components).map Component.id
    = ["svg-0", "t", "k", "u"] := by
  rw [all_eq]
  decide +kernel

theorem nodup_ids_misread : ((all misreadDrawing.components).map Component.id).Nodup := by
  rw [ids_misread]
  decide

/-- The last element of the misread markup, in its document. -/
theorem find?_misread : misreadDrawing.document.find? "u"
    = some (.node ⟨6, .element ⟨"u", [("id", "u")]⟩⟩ []) := by decide +kernel

set_option maxRecDepth 4000 in
theorem parse_rewritten : parse rewritten = .ok (ofDocument (.ofMarkup [
    .node (.doctype "svg [<!ENTITY a \"<\">]><?p >") [], .node (.element ⟨"svg", [("id", "svg-0")]⟩)
      [.node (.element ⟨"a\"", [("b", "\""), ("c'", "1"), ("id", "t"), ("/><!--", "'--><rect id="),
          ("k\"/><!--'", "1")]⟩) [],
        .node (.element ⟨"u", [("id", "u")]⟩) [], .node (.text "-->") [],
        .node (.element ⟨"u", [("id", "u")]⟩) [], .node (.element ⟨"rect", []⟩) []],
    .node (.instruction "q") [], .node (.element ⟨"svg", []⟩) []])) :=
  parse_of_read (by cbv) (by cbv)

theorem duplicate_misread : duplicate {} misread "k" = .ok rewritten :=
  duplicate_eq_ok (.node ⟨4, .element ⟨"rect", [("id", "k")]⟩⟩ []) 1 parse_misread
    (by decide +kernel) (by decide +kernel) (by decide +kernel) parse_rewritten

/-- **Where names are no names of XML, a copy that is put in can make ids repeat**, since an element
that has a taken id comes out of a comment. -/
theorem not_isDistinct_of_misread_names :
    ∃ p, parse misread = .ok p ∧ (∀ c ∈ preorderAll p.document.markup, c.IsUnbroken) ∧
      ((all p.components).map Component.id).Nodup ∧
      ¬ IsDistinct (orKeep misread (duplicate {} misread "k")) := by
  refine ⟨_, parse_misread, isUnbroken_misread, nodup_ids_misread, ?_⟩
  rw [duplicate_misread]
  rintro ⟨q, hq, hnodup⟩
  cases parse_rewritten.symm.trans hq
  rw [all_eq] at hnodup
  revert hnodup
  decide +kernel

end Edit

end SvgWorkbench
