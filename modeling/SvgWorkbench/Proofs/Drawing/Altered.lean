import SvgWorkbench.Proofs.Drawing.Image
import SvgWorkbench.Proofs.Drawing.Normal
import SvgWorkbench.Proofs.Drawing.Spared

/-!
# Components after a change of attributes

When the element of one node is changed and keeps its tag and its id, the document keeps its shape
and its texts, and after it has been written and read again so do the components. They then differ
entry by entry, and what an entry has become is known from the element it was made of: it shows the
text it showed, and the attributes the element has now.
-/

namespace SvgWorkbench

open SvgWorkbench.Tree Markup

/-- Content with its element changed; other content stays as it is. -/
def Content.mapElement (f : Element → Element) : Content → Content
  | .element e => .element (f e)
  | c => c

namespace Content

variable {f : Element → Element}

theorem exists_of_mapElement {c : Content} {e' : Element} (h : c.mapElement f = .element e') :
    ∃ e, c = .element e ∧ f e = e' := by
  cases c with
  | element e => exact ⟨e, rfl, Content.element.inj h⟩
  | _ => exact nomatch h

theorem retouched_mapElement (hname : ∀ e, (f e).name = e.name) (c : Content) :
    Retouched (fun _ ↦ True) c (c.mapElement f) := by
  cases c with
  | element e => exact .element (hname e) trivial
  | _ => exact .same _

end Content

namespace Node

variable {h : Handle} {f : Element → Element}

/-- What a slot holds after the element of a handle has been changed. -/
def altered (h : Handle) (f : Element → Element) (s : Slot) : Content :=
  if s.handle = h then s.content.mapElement f else s.content

theorem altered_of_content {n : Node} {e : Element} (he : n.content = .element e) :
    altered h f n.label = .element (if n.handle = h then f e else e) := by
  rw [altered, show n.label.content = .element e from he]
  exact (apply_ite Content.element _ _ _).symm

theorem mapElement_eq (f : Element → Element) (n : Node) :
    mapElement f n = .node ⟨n.handle, n.content.mapElement f⟩ n.children := by
  obtain ⟨⟨k, c⟩, ts⟩ := n
  cases c <;> rfl

theorem bare_mapElement (f : Element → Element) (n : Node) : (mapElement f n).bare
    = .node (n.content.mapElement f) (n.children.map bare) := by
  rw [mapElement_eq, bare_node]

/-- A slot with its element changed, if its handle is one of some. -/
def alter (hs : List Handle) (f : Element → Element) (s : Slot) : Slot :=
  if s.handle ∈ hs then ⟨s.handle, s.content.mapElement f⟩ else s

@[simp] theorem handle_alter (hs : List Handle) (f : Element → Element) (s : Slot) :
    (alter hs f s).handle = s.handle := by
  rw [alter]
  split <;> rfl

theorem content_alter (hs : List Handle) (f : Element → Element) (s : Slot) :
    (alter hs f s).content = if s.handle ∈ hs then s.content.mapElement f else s.content := by
  rw [alter]
  split <;> rfl

/-- Changing the elements of some handles and then those of others changes those of all of them, if
a second change of an element does nothing. -/
theorem alter_alter (hf : ∀ e, f (f e) = f e) (hs hs' : List Handle) (s : Slot) :
    alter hs' f (alter hs f s) = alter (hs ++ hs') f s := by
  have hcontent : ∀ c : Content, (c.mapElement f).mapElement f = c.mapElement f := by
    intro c
    cases c with
    | element e => exact congrArg Content.element (hf e)
    | _ => rfl
  by_cases hmem : s.handle ∈ hs
  · rw [alter, handle_alter, alter, if_pos hmem, hcontent, ite_self, alter,
      if_pos (List.mem_append_left hs' hmem)]
  · rw [show alter hs f s = s from if_neg hmem]
    simp only [alter, List.mem_append, hmem, false_or]

theorem handlesAll_mapAll_alter (hs : List Handle) (f : Element → Element) (ts : List Node) :
    handlesAll (mapAll (alter hs f) ts) = handlesAll ts := by
  rw [handlesAll, preorderAll_mapAll, List.map_map]
  exact List.map_congr_left fun s _ ↦ handle_alter hs f s

/-- Changing elements without their tags retouches what the slots hold. -/
theorem retouched_alter (hname : ∀ e, (f e).name = e.name) (hs : List Handle) (s : Slot) :
    Retouched (fun _ ↦ True) s.content (alter hs f s).content := by
  rw [content_alter]
  split
  · exact Content.retouched_mapElement hname s.content
  · exact .same _

theorem content_alter_singleton (h : Handle) (f : Element → Element) (s : Slot) :
    (alter [h] f s).content = altered h f s := by
  simp only [content_alter, List.mem_singleton, altered]

theorem retouched_altered (hname : ∀ e, (f e).name = e.name) (h : Handle) (s : Slot) :
    Retouched (fun _ ↦ True) s.content (altered h f s) := by
  rw [← content_alter_singleton]
  exact retouched_alter hname [h] s

mutual

/-- **Changing the element of a node** changes one slot: no other node has its handle. -/
theorem modify_mapElement {t : Node} (hnodup : t.handles.Nodup) :
    modify h (mapElement f) t = t.map (alter [h] f) := by
  match t with
  | .node s ts =>
    rw [handles_node, List.nodup_cons] at hnodup
    rw [modify, Tree.map]
    split
    · next hs =>
      -- what is below the node is not visited, and holds no node of the handle
      have hbelow : mapAll (alter [h] f) ts = ts := by
        refine mapAll_eq_self fun a ha ↦ if_neg fun heq ↦ hnodup.1 ?_
        rw [hs, ← List.mem_singleton.1 heq]
        exact List.mem_map_of_mem ha
      rw [mapElement_eq, hbelow, alter, if_pos (List.mem_singleton.2 hs)]
      rfl
    · next hs =>
      rw [alter, if_neg (mt List.mem_singleton.1 hs), modifyAll_mapElement hnodup.2]

theorem modifyAll_mapElement {ts : List Node} (hnodup : (handlesAll ts).Nodup) :
    modifyAll h (mapElement f) ts = mapAll (alter [h] f) ts := by
  match ts with
  | [] => rfl
  | t :: ts =>
    rw [handlesAll_cons, List.nodup_append] at hnodup
    rw [modifyAll, mapAll, modify_mapElement hnodup.1, modifyAll_mapElement hnodup.2.1]

end

theorem map_bare_modifyAll_mapElement {ts : List Node} (hnodup : (handlesAll ts).Nodup) :
    (modifyAll h (mapElement f) ts).map bare = mapAll (altered h f) ts := by
  rw [modifyAll_mapElement hnodup, show bare = Tree.map Slot.content from rfl, ← mapAll_eq_map,
    mapAll_mapAll]
  exact congrArg (mapAll · ts) (funext (content_alter_singleton h f))

/-! ## Entries -/

variable {among : List Node} {g : Slot → Content} {rename : String → String}

/-- Whether two entries are made of one of some elements, before and after its content and the ids
around have been changed. -/
def Redrawn (among : List Node) (g : Slot → Content) (rename : String → String) (a b : Entry) :
    Prop :=
  ∃ n ∈ among, ∃ e e' parent, n.content = .element e ∧ g n.label = .element e' ∧
    a = entryOf parent e (n.children.map bare) ∧
    b = entryOf (parent.map rename) e' (n.children.map bare)

mutual

/-- A change of labels that leaves texts and tags redraws the components entry by entry. -/
theorem relAll_view (hg : ∀ s, Retouched (fun _ ↦ True) s.content (g s)) {t : Node}
    (hamong : ∀ n ∈ t.elements, n ∈ among)
    (hid : ∀ n ∈ t.elements, ∀ e e', n.content = .element e → g n.label = .element e' →
      e'.id?.getD "" = rename (e.id?.getD "")) (parent : Option String) :
    RelAll (Redrawn among g rename) (view parent t.bare) (view (parent.map rename) (t.map g)) := by
  match t with
  | .node ⟨h, c⟩ ts =>
    rw [bare_node, Tree.map]
    have hlabel := hg ⟨h, c⟩
    rcases c.eq_element_or with ⟨e, rfl⟩ | hc
    · obtain ⟨e', he'⟩ : ∃ e', g ⟨h, .element e⟩ = .element e' :=
        (g _).eq_element_or.resolve_right fun hc ↦ by cases hc.symm.trans hlabel.isElement_eq
      rw [elements_element, List.forall_mem_cons] at hamong hid
      have hsame := hid.1 e e' rfl he'
      have hbelow : RelAll (Retouched fun _ ↦ True) (ts.map bare) (mapAll g ts) := by
        rw [← show mapAll Slot.content ts = ts.map bare from mapAll_eq_map Slot.content ts]
        exact (relAll_refl (R := Eq) (fun _ ↦ rfl) ts).mapAll fun s _ heq ↦ heq ▸ hg s
      have hattributes := attributesOf_eq_of_relAll hbelow e'
      rw [he', view, view]
      refine ⟨⟨⟨.node ⟨h, .element e⟩ ts, hamong.1, e, e', parent, rfl, he', rfl, ?_⟩, ?_⟩, trivial⟩
      · rw [entryOf, hattributes]
        rfl
      · rw [hsame]
        exact relAll_viewAll hg hamong.2 hid.2 (some (e.id?.getD ""))
    · rw [view_of_isElement_eq_false hc, view_of_isElement_eq_false (hlabel.isElement_eq.trans hc)]
      trivial

theorem relAll_viewAll (hg : ∀ s, Retouched (fun _ ↦ True) s.content (g s)) {ts : List Node}
    (hamong : ∀ n ∈ elementsAll ts, n ∈ among)
    (hid : ∀ n ∈ elementsAll ts, ∀ e e', n.content = .element e → g n.label = .element e' →
      e'.id?.getD "" = rename (e.id?.getD "")) (parent : Option String) :
    RelAll (Redrawn among g rename) (viewAll parent (ts.map bare))
      (viewAll (parent.map rename) (mapAll g ts)) := by
  match ts with
  | [] => exact trivial
  | t :: ts =>
    rw [elementsAll, List.forall_mem_append] at hamong hid
    rw [List.map_cons, mapAll, viewAll, viewAll]
    exact (relAll_view hg hamong.1 hid.1 parent).append (relAll_viewAll hg hamong.2 hid.2 parent)

end

end Node

/-! ## Documents -/

namespace Document

variable {d : Document} {root n : Node} {f : Element → Element}

/-- The root after an element in it has been changed. -/
theorem root?_modifyElement (hnodup : (Node.handlesAll d.topLevel).Nodup)
    (hroot : d.root? = some root) (hn : n ∈ root.elements) (hname : ∀ e, (f e).name = e.name) :
    (d.modifyElement n.handle f).root? = some (Node.modify n.handle (Node.mapElement f) root) := by
  refine Node.find?_elementsAll_modifyAll_inside hnodup hroot (Node.mem_subtrees_of_mem_elements hn)
    fun heq ↦ ?_
  have hisRoot := Drawing.isRoot_of_root? hroot
  rw [← heq] at hisRoot
  obtain ⟨⟨k, c⟩, ts⟩ := n
  cases c with
  | element e =>
    show Text.eqIgnoringAsciiCase (f e).name "svg" = true
    rwa [hname e]
  | _ => cases hisRoot

/-- **The components after a change of labels** that leaves texts and tags, entry by entry. -/
theorem relAll_components_mapAll {g : Slot → Content}
    (hg : ∀ s, Retouched (fun _ ↦ True) s.content (g s)) (hroot : d.root? = some root)
    {rename : String → String}
    (hid : ∀ m ∈ root.elements, ∀ e e', m.content = .element e → g m.label = .element e' →
      e'.id?.getD "" = rename (e.id?.getD "")) :
    RelAll (Node.Redrawn root.elements g rename) (components d.markup)
      (components (mapAll g d.topLevel)) := by
  rw [components, components, root?_mapAll (fun s ↦ (hg s).isElement_eq) (fun s ↦ (hg s).isRoot_eq),
    root?_markup, hroot]
  exact Node.relAll_view hg (fun _ hm ↦ hm) hid none

/-- The components after a change of one element, entry by entry. -/
theorem relAll_components_modifyElement (hnodup : (Node.handlesAll d.topLevel).Nodup)
    (hroot : d.root? = some root) (hname : ∀ e, (f e).name = e.name) {h : Handle}
    {rename : String → String}
    (hid : ∀ m ∈ root.elements, ∀ e e', m.content = .element e →
      (Node.altered h f m.label).spaced = .element e' → e'.id?.getD "" = rename (e.id?.getD "")) :
    RelAll (Node.Redrawn root.elements (fun s ↦ (Node.altered h f s).spaced) rename)
      (components d.markup)
      (components (mapAll Content.spaced (d.modifyElement h f).markup)) := by
  have hmarkup : mapAll Content.spaced (d.modifyElement h f).markup
      = mapAll (fun s ↦ (Node.altered h f s).spaced) d.topLevel := by
    rw [markup, show (d.modifyElement h f).topLevel
      = Node.modifyAll h (Node.mapElement f) d.topLevel from rfl,
      Node.map_bare_modifyAll_mapElement hnodup, mapAll_mapAll]
    rfl
  rw [hmarkup]
  exact relAll_components_mapAll (fun s ↦ (Node.retouched_altered hname h s).spaced) hroot hid

/-- **Changing the elements of some nodes in turn** changes the slots of their handles, if a second
change of an element does nothing: neither the order nor how often a node has its turn is seen. -/
theorem topLevel_foldl_modifyElement (hf : ∀ e, f (f e) = f e) (nodes : List Node) {d : Document}
    (hnodup : (Node.handlesAll d.topLevel).Nodup) :
    (nodes.foldl (fun d n ↦ d.modifyElement n.handle f) d).topLevel
      = mapAll (Node.alter (nodes.map Node.handle) f) d.topLevel := by
  induction nodes generalizing d with
  | nil => exact (mapAll_eq_self fun s _ ↦ if_neg List.not_mem_nil).symm
  | cons n nodes ih =>
    have hfirst : (d.modifyElement n.handle f).topLevel
        = mapAll (Node.alter [n.handle] f) d.topLevel := Node.modifyAll_mapElement hnodup
    rw [List.foldl_cons, ih, hfirst, mapAll_mapAll]
    · exact mapAll_congr fun s _ ↦ Node.alter_alter hf [n.handle] (nodes.map Node.handle) s
    · rwa [hfirst, Node.handlesAll_mapAll_alter]

end Document

end SvgWorkbench
