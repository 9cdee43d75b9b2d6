import SvgWorkbench.Proofs.Component.Lookup
import SvgWorkbench.Proofs.Drawing.Sound
import SvgWorkbench.Proofs.Drawing.Spared
import SvgWorkbench.Proofs.Edit.Written

/-!
# Edits are confined to what they are meant for

An edit of one element reads a drawing, changes one node and writes the document, which is read once
more. If the id means a component that has it, all components but those of this id and what is
inside them are in the new drawing as they were, and setting an attribute even leaves all other ids.
An id that no component has may still be read as the name of a place; whatever stands at that place
is then what the edit changes, so such ids are left out here.
-/

namespace SvgWorkbench

open Xml SvgWorkbench.Tree Markup Component

/-! ## Elements with a property set -/

namespace Element

variable {e : Element} {key : String}

@[simp] theorem name_setProperty (e : Element) (key value : String) :
    (e.setProperty key value).name = e.name := by
  rw [setProperty]
  split
  · simp only [setStyle]
    split <;> rfl
  · split <;> rfl

theorem nodup_keys_setProperty (h : e.keys.Nodup) (key value : String) :
    (e.setProperty key value).keys.Nodup := by
  rw [setProperty]
  split
  · simp only [setStyle]
    split
    · exact nodup_keys_erase h "style"
    · exact nodup_keys_set h "style" _
  · split
    · exact nodup_keys_erase h key
    · exact nodup_keys_set h key value

theorem HasXmlNames.setProperty (h : e.HasXmlNames)
    (hkey : (styleName? key).isSome = true ∨ IsName key.toList) (value : String) :
    (e.setProperty key value).HasXmlNames := by
  rw [Element.setProperty]
  split
  · simp only [setStyle]
    split
    · exact h.erase "style"
    · exact h.set (by decide) _
  · next hnone =>
    split
    · exact h.erase key
    · exact h.set (hkey.resolve_left (by simp [hnone])) value

theorem id?_setProperty_of_ne (e : Element) {key : String} (hkey : key ≠ "id") (value : String) :
    (e.setProperty key value).id? = e.id? := by
  have hstyle : "id" ≠ "style" := by decide
  rw [setProperty]
  split
  · rw [setStyle]
    split
    · rw [id?, id?, get?_erase_of_ne e hstyle]
    · rw [id?, id?, get?_set, if_neg hstyle.symm]
  · split
    · rw [id?, id?, get?_erase_of_ne e (Ne.symm hkey)]
    · rw [id?, id?, get?_set, if_neg hkey]

/-- Setting a property leaves the id, unless it is the id that is set. -/
theorem id?_setProperty (h : e.keys.Nodup) (key value : String) :
    (e.setProperty key value).id? = e.id? ∨
      key = "id" ∧ (e.setProperty key value).id?.getD "" = value := by
  by_cases hkey : key = "id"
  · subst hkey
    refine .inr ⟨rfl, ?_⟩
    rw [setProperty, show styleName? "id" = none from rfl]
    by_cases hempty : value = ""
    · rw [if_pos (String.isEmpty_iff.2 hempty), id?, get?_erase_self h, hempty]
      rfl
    · rw [if_neg (mt String.isEmpty_iff.1 hempty), id?_set e hempty, Option.getD_some]
  · exact .inl (id?_setProperty_of_ne e hkey value)

end Element

/-! ## Changed documents -/

namespace Document

variable {d : Document}

/-- An element of the root is a node of the text. -/
theorem mem_topLevel_of_mem_root {root n : Node} (hroot : d.root? = some root)
    (hn : n ∈ root.elements) : n ∈ subtreesAll d.topLevel :=
  Node.mem_subtreesAll_of_mem_elementsAll
    (Node.mem_elementsAll_trans (List.mem_of_find?_eq_some hroot) hn)

/-- Setting a text changes one node: its children are replaced, by a text or by nothing if the text
is empty. -/
theorem topLevel_setText (d : Document) (h : Handle) (text : String) :
    (d.setText h text).topLevel = Node.modifyAll h (Node.withChildren
      (if text.isEmpty then [] else [.node ⟨d.next, .text text⟩ []])) d.topLevel := by
  rw [setText]
  split
  · rfl
  · exact Node.modifyAll_modifyAll (f := Node.withChildren []) (g := Node.addChild _)
      (fun _ hn ↦ hn) d.topLevel

theorem exists_topLevel_setText (d : Document) (h : Handle) (text : String) :
    ∃ ts : List Node, AreRead false (ts.map Node.bare) ∧
      (∀ c ∈ preorderAll (ts.map Node.bare), c.IsNamed) ∧ hasElements (ts.map Node.bare) = false ∧
      (d.setText h text).topLevel = Node.modifyAll h (Node.withChildren ts) d.topLevel := by
  refine ⟨_, ?_, ?_, ?_, d.topLevel_setText h text⟩ <;> split
  · trivial
  · exact ⟨rfl, trivial⟩
  · exact List.forall_mem_nil _
  · intro c hc
    obtain rfl := List.mem_singleton.1 hc
    trivial
  · rfl
  · rfl

/-- Replacing the children of an element keeps a document sound if the new ones are read as the old
ones were, and are named. -/
theorem IsSound.withChildren (hsound : d.IsSound) (hnodup : (Node.handlesAll d.topLevel).Nodup)
    {n : Node} (hn : n ∈ subtreesAll d.topLevel) (helement : n.isElement = true) {ts : List Node}
    (hread : AreRead false ((Tree.children n).map Node.bare) → AreRead false (ts.map Node.bare))
    (hnamed : ∀ c ∈ preorderAll (ts.map Node.bare), c.IsNamed) {d' : Document}
    (hd' : d'.topLevel = Node.modifyAll n.handle (Node.withChildren ts) d.topLevel) :
    d'.IsSound := by
  refine hsound.of_modifyAll hd' ?_ ?_ fun m ↦ by cases m; rfl
  · intro m hm hhandle top hm'
    obtain rfl := Node.eq_of_handle_eq_all hnodup hm hn hhandle
    obtain ⟨⟨k, c⟩, us⟩ := m
    obtain ⟨e, rfl⟩ := c.eq_element_or.resolve_right fun hc ↦ by cases hc.symm.trans helement
    rw [Node.bare_node] at hm'
    rw [Node.withChildren, label_node, Node.bare_node]
    exact ⟨hm'.1, hread hm'.2⟩
  · intro m hm
    obtain ⟨s, us⟩ := m
    rw [Node.bare_node, preorder, List.forall_mem_cons] at hm
    rw [Node.withChildren, label_node, Node.bare_node, preorder, List.forall_mem_cons]
    exact ⟨hm.1, hnamed⟩

/-- Changing an element keeps a document sound if it keeps elements legal. -/
theorem IsSound.modifyElement (hsound : d.IsSound) (h : Handle) {f : Element → Element}
    (hkeys : ∀ e, e.keys.Nodup → (f e).keys.Nodup)
    (hnames : ∀ e, e.HasXmlNames → (f e).HasXmlNames) : (d.modifyElement h f).IsSound := by
  refine hsound.of_modifyAll (k := h) rfl ?_ ?_ ?_
  · rintro ⟨⟨k, c⟩, ts⟩ - - top hm
    cases c with
    | element e => exact ⟨hkeys e hm.1, hm.2⟩
    | _ => exact hm
  · rintro ⟨⟨k, c⟩, ts⟩ hm
    cases c with
    | element e =>
      rw [Node.bare_node, preorder, List.forall_mem_cons] at hm
      show ∀ c ∈ (Node.bare (.node ⟨k, .element (f e)⟩ ts)).preorder, _
      rw [Node.bare_node, preorder, List.forall_mem_cons]
      exact ⟨hnames e hm.1, hm.2⟩
    | _ => exact hm
  · rintro ⟨⟨k, c⟩, ts⟩
    cases c <;> rfl

/-- Setting an attribute or a declaration of the style keeps a document sound. -/
theorem IsSound.setAttribute (hsound : d.IsSound) (h : Handle) {key : String}
    (hkey : (styleName? key).isSome = true ∨ IsName key.toList) (value : String) :
    (d.modifyElement h fun e ↦ e.setProperty key value).IsSound :=
  hsound.modifyElement h (fun _ he ↦ Element.nodup_keys_setProperty he key value)
    fun _ he ↦ Element.HasXmlNames.setProperty he hkey value

/-- Taking out an element below the root changes one node: the element around it. -/
theorem exists_topLevel_detach (hnodup : (Node.handlesAll d.topLevel).Nodup) {root n : Node}
    (hroot : d.root? = some root) (hn : n ∈ root.elements) (hne : n ≠ root)
    (hattached : d.isAttached n.handle = true) :
    ∃ around ∈ root.elements, n ∈ Tree.children around ∧
      (d.detach n.handle).topLevel
        = Node.modifyAll (Node.handle around) (Node.prune n.handle) d.topLevel := by
  obtain ⟨around, haround, hchild⟩ := (Node.eq_or_exists_mem_children hn).resolve_left hne
  refine ⟨around, haround, hchild, ?_⟩
  rw [detach, if_pos hattached]
  exact Node.pruneAll_eq_modifyAll hnodup (mem_topLevel_of_mem_root hroot haround) hchild

end Document

namespace Drawing

variable {p p' : Drawing} {text id : String}

/-! ## What is found -/

theorem nodup_handlesAll_of_parse (hparse : parse text = .ok p) :
    (Node.handlesAll p.document.topLevel).Nodup := by
  obtain ⟨-, m, -, rfl⟩ := exists_markup_of_parse hparse
  exact nodup_handlesAll_ofDocument m

/-- What a certain id finds is an element of the root that has it. -/
theorem exists_element_of_locate? (hcertain : IsCertain p.components id) {n : Node}
    (hlocate : p.locate? id = some n) : ∃ root, p.document.root? = some root ∧
      n ∈ root.elements ∧ ∃ e, n.content = .element e ∧ e.id? = some id := by
  obtain ⟨c, hfind, hlocate⟩ := Option.bind_eq_some_iff.1 hlocate
  obtain ⟨root, hroot, hlocate⟩ := Option.bind_eq_some_iff.1 hlocate
  have hmem := List.mem_of_find?_eq_some hlocate
  have hid : n.id? = some id := by
    have hfound := List.find?_some hlocate
    rw [beq_iff_eq, hcertain.id_eq hfind] at hfound
    exact hfound
  obtain ⟨e, he, hid⟩ := Option.bind_eq_some_iff.1 hid
  refine ⟨root, hroot, hmem, e, ?_, hid⟩
  obtain ⟨⟨k, c'⟩, ts⟩ := n
  cases c' with
  | element e' => cases he; rfl
  | _ => cases he

/-! ## What is written and read again -/

/-- The drawing of a document that an edit has made has the components of the document, with ids
where there were none. -/
theorem relAll_of_isSound {d : Document} (hsound : d.IsSound) (hparse' : parse d.text = .ok p') :
    ∃ m, Markup.components m = Markup.components (mapAll Content.spaced d.markup) ∧
      p'.components = Markup.components p'.document.markup ∧
      RelAll (Retouched (· = "")) m p'.document.markup :=
  ⟨_, components_settledAll _, components_of_parse hparse',
    (isClean_of_parse_text hsound hparse').2⟩

/-- What an edit spares in the document, it spares in the drawing. -/
theorem sparesAll_of_isSound (hparse : parse text = .ok p) {d : Document} (hsound : d.IsSound)
    (hparse' : parse d.text = .ok p')
    (hspares : SparesAll (· = id) (Markup.components p.document.markup)
      (Markup.components (mapAll Content.spaced d.markup))) :
    SparesAll (· = id) p.components p'.components := by
  obtain ⟨m, hm, hcomponents', hrel⟩ := relAll_of_isSound hsound hparse'
  have hgiven := sparesAll_components_of_relAll hrel
  rw [hm, ← hcomponents'] at hgiven
  have hboth := hspares.trans hgiven
  rw [← components_of_parse hparse] at hboth
  -- no component of a drawing is without an id, so none has been given one
  exact hboth.mono fun c hc hid ↦ hid.resolve_right (id_ne_empty hparse hc)

/-- The ids that an edit leaves in the document are left in the drawing. -/
theorem exists_id_eq_of_isSound (hparse : parse text = .ok p) {d : Document} (hsound : d.IsSound)
    (hparse' : parse d.text = .ok p')
    (hrel : RelAll (Retouched (· = id)) p.document.markup (mapAll Content.spaced d.markup))
    {c : Component} (hc : c ∈ subtreesAll p.components) (hne : c.id ≠ id) :
    ∃ c' : Component, c' ∈ subtreesAll p'.components ∧ c'.id = c.id := by
  obtain ⟨m, hm, hcomponents', hgiven⟩ := relAll_of_isSound hsound hparse'
  have hid := id_ne_empty hparse hc
  rw [components_of_parse hparse] at hc
  obtain ⟨c', hc', heq⟩ := exists_id_eq_components hrel hc hne
  rw [← hm] at hc'
  obtain ⟨c'', hc'', heq'⟩ := exists_id_eq_components hgiven hc' (heq ▸ hid)
  rw [hcomponents']
  exact ⟨c'', hc'', heq'.trans heq⟩

end Drawing

/-! ## The edits -/

namespace Edit

open Drawing Document

variable {p : Drawing} {text id w : String}

/-- **Removing an element spares everything outside of it.** -/
theorem exists_sparesAll_remove (hparse : parse text = .ok p) (hclean : p.IsClean)
    (hcertain : IsCertain p.components id) (hedit : remove text id = .ok w) :
    ∃ p', parse w = .ok p' ∧ p'.IsClean ∧ SparesAll (· = id) p.components p'.components := by
  obtain ⟨q, n, parent, hq, hlocate, hparent, hfinish⟩ := remove_eq_ok_iff.1 hedit
  cases hq.symm.trans hparse
  obtain ⟨⟨p', hparse'⟩, rfl⟩ := finish_eq_ok_iff.1 hfinish
  obtain ⟨root, hroot, hn, e, he, hid⟩ := exists_element_of_locate? hcertain hlocate
  have hnodup := nodup_handlesAll_of_parse hparse
  have hne : n ≠ root := by
    rintro rfl
    simp [Document.parentBelowRoot?, hroot] at hparent
  have hattached : p.document.isAttached n.handle = true := by
    rw [Document.isAttached, Document.parent?_of_parentBelowRoot? hparent]
    rfl
  obtain ⟨around, haround, hchild, hd⟩ :=
    Document.exists_topLevel_detach hnodup hroot hn hne hattached
  have hsound := (isSound_of_parse hparse hclean.isNamed).of_modifyAll hd
    (fun _ _ _ _ ↦ Node.isRead_prune) (fun _ ↦ Node.forall_preorder_prune)
    fun m ↦ by cases m; rfl
  have hin := mem_topLevel_of_mem_root hroot haround
  have hspares : Node.SparesAt (· = id) (Node.prune n.handle) around :=
    Node.sparesAt_prune (Node.nodup_handles_of_mem_subtreesAll hnodup hin)
      (fun c hc ↦ hclean.isUnbroken c (Node.mem_preorderAll_map_bare hin hc))
      (Node.isElement_of_mem_elements haround) hchild he (by rw [hid, Option.getD_some])
  refine ⟨p', hparse', (isClean_of_parse_text hsound hparse').1,
    sparesAll_of_isSound hparse hsound hparse' ?_⟩
  refine Document.sparesAll_components_of_modifyAll hnodup hclean.isUnbroken hroot
    (Node.mem_subtrees_of_mem_elements haround) hspares ?_ hd
  rintro rfl
  -- the root keeps its tag when something is taken out of it
  have hisRoot := isRoot_of_root? hroot
  obtain ⟨s, ts⟩ := around
  exact hisRoot

/-- What is known of the element whose property is set. -/
private theorem exists_of_setProperty (hparse : parse text = .ok p)
    (hcertain : IsCertain p.components id) {key value : String}
    (hedit : setProperty text id key value = .ok w) :
    ∃ root n p' e, p.document.root? = some root ∧ n ∈ root.elements ∧ n.content = .element e ∧
      e.id? = some id ∧ parse w = .ok p' ∧
      w = (p.document.setProperty n.handle key value).text := by
  obtain ⟨q, n, hq, hlocate, hfinish⟩ := setProperty_eq_ok_iff.1 hedit
  cases hq.symm.trans hparse
  obtain ⟨⟨p', hparse'⟩, rfl⟩ := finish_eq_ok_iff.1 hfinish
  obtain ⟨root, hroot, hn, e, he, hid⟩ := exists_element_of_locate? hcertain hlocate
  exact ⟨root, n, p', e, hroot, hn, he, hid, hparse', rfl⟩

/-- **Setting a text spares everything outside of the element.** -/
theorem exists_sparesAll_setText (hparse : parse text = .ok p) (hclean : p.IsClean)
    (hcertain : IsCertain p.components id) {value : String}
    (hedit : setProperty text id textKey value = .ok w) :
    ∃ p', parse w = .ok p' ∧ p'.IsClean ∧ SparesAll (· = id) p.components p'.components := by
  obtain ⟨root, n, p', e, hroot, hn, he, hid, hparse', rfl⟩ :=
    exists_of_setProperty hparse hcertain hedit
  rw [Document.setProperty, if_pos rfl] at hparse' ⊢
  obtain ⟨ts, hread, hnamed, -, hd⟩ := p.document.exists_topLevel_setText n.handle value
  have hnodup := nodup_handlesAll_of_parse hparse
  have hin := mem_topLevel_of_mem_root hroot hn
  have helement := Node.isElement_of_mem_elements hn
  have hsound := (isSound_of_parse hparse hclean.isNamed).withChildren hnodup hin helement
    (fun _ ↦ hread) hnamed hd
  have hspares : Node.SparesAt (· = id) (Node.withChildren ts) n :=
    Node.sparesAt_of_meant he (by rw [hid, Option.getD_some]) helement
  refine ⟨p', hparse', (isClean_of_parse_text hsound hparse').1,
    sparesAll_of_isSound hparse hsound hparse' ?_⟩
  refine Document.sparesAll_components_of_modifyAll hnodup hclean.isUnbroken hroot
    (Node.mem_subtrees_of_mem_elements hn) hspares ?_ hd
  rintro rfl
  have hisRoot := isRoot_of_root? hroot
  exact hisRoot

/-- **Setting an attribute spares all other elements**, and leaves the ids even inside. -/
theorem exists_sparesAll_setAttribute (hparse : parse text = .ok p) (hclean : p.IsClean)
    (hcertain : IsCertain p.components id) {key value : String} (hne : key ≠ textKey)
    (hkey : IsPropertyKey (fun k ↦ IsName k.toList) key)
    (hedit : setProperty text id key value = .ok w) :
    ∃ p', parse w = .ok p' ∧ p'.IsClean ∧ SparesAll (· = id) p.components p'.components ∧
      ∀ c : Component, c ∈ subtreesAll p.components → c.id ≠ id →
        ∃ c' : Component, c' ∈ subtreesAll p'.components ∧ c'.id = c.id := by
  obtain ⟨root, n, p', e, hroot, hn, he, hid, hparse', rfl⟩ :=
    exists_of_setProperty hparse hcertain hedit
  rw [Document.setProperty, if_neg hne] at hparse' ⊢
  have hnodup := nodup_handlesAll_of_parse hparse
  have hin := mem_topLevel_of_mem_root hroot hn
  have hsound := (isSound_of_parse hparse hclean.isNamed).setAttribute n.handle
    (hkey.resolve_left hne) value
  have hrel : RelAll (Retouched (· = id)) p.document.markup
      (p.document.modifyElement n.handle fun e ↦ e.setProperty key value).markup := by
    refine relAll_map_bare (Node.relAll_modifyAll (fun s ↦ .same _) fun m hm hhandle ↦ ?_)
    obtain rfl := Node.eq_of_handle_eq_all hnodup hm hin hhandle
    obtain ⟨⟨k, c⟩, ts⟩ := m
    obtain rfl : c = .element e := he
    exact ⟨.element (Element.name_setProperty e key value) (by rw [hid, Option.getD_some]),
      relAll_refl (fun s ↦ .same _) ts⟩
  have hspaced := relAll_spaced hrel hclean.isUnbroken
  exact ⟨p', hparse', (isClean_of_parse_text hsound hparse').1,
    sparesAll_of_isSound hparse hsound hparse' (sparesAll_components_of_relAll hspaced),
    fun c hc hne ↦ exists_id_eq_of_isSound hparse hsound hparse' hspaced hc hne⟩

end Edit

end SvgWorkbench
