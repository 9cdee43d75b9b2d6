import SvgWorkbench.Proofs.Document.Change
import SvgWorkbench.Proofs.Document.Place

/-!
# Components after a change of one node

A change of one element leaves all components outside of it as they are: the elements around it have
an element inside before and after, so their attributes do not come from texts. Taking an element
out is a change of the element around it, which may be left without elements and then shows its
text.

An edited document is written and read again, which turns the tabs and line breaks in attribute
values into spaces. Where there were none, only the changed element can have any.
-/

namespace SvgWorkbench

open SvgWorkbench.Tree Markup Component

/-! ## Spaces for tabs and line breaks -/

namespace Markup

mutual

private theorem rel_map_spaced (t : Tree Content) :
    Rel (Retouched fun _ ↦ True) t (t.map Content.spaced) := by
  match t with
  | .node (.element e) ts => exact ⟨.element rfl trivial, relAll_mapAll_spaced ts⟩
  | .node (.text s) ts => exact ⟨.same _, relAll_mapAll_spaced ts⟩
  | .node (.comment s) ts => exact ⟨.same _, relAll_mapAll_spaced ts⟩
  | .node (.instruction s) ts => exact ⟨.same _, relAll_mapAll_spaced ts⟩
  | .node (.doctype s) ts => exact ⟨.same _, relAll_mapAll_spaced ts⟩

/-- Writing spaces for tabs and line breaks retouches elements. -/
theorem relAll_mapAll_spaced (ts : List (Tree Content)) :
    RelAll (Retouched fun _ ↦ True) ts (mapAll Content.spaced ts) := by
  match ts with
  | [] => exact trivial
  | t :: ts => exact ⟨rel_map_spaced t, relAll_mapAll_spaced ts⟩

end

/-- In markup without tabs and line breaks only what has been retouched can have any. -/
theorem relAll_spaced {meant : String → Prop} {m m' : Markup} (h : RelAll (Retouched meant) m m')
    (hunbroken : ∀ c ∈ preorderAll m, c.IsUnbroken) :
    RelAll (Retouched meant) m (mapAll Content.spaced m') := by
  have hlabel : ∀ c ∈ preorderAll m, ∀ c', Retouched meant c c' →
      Retouched meant c.spaced c'.spaced := by
    intro c hc c' hretouched
    rw [(hunbroken c hc).spaced_eq]
    cases hretouched with
    | same => rw [(hunbroken c hc).spaced_eq]; exact .same c
    | element hname hmeant => exact .element hname hmeant
  have hspaced := RelAll.mapAll (S := Retouched meant) (f := Content.spaced) (g := Content.spaced)
    (fun _ _ h ↦ h) (h.imp hlabel)
  rwa [mapAll_spaced hunbroken] at hspaced

section

variable {f : Content → Content}

mutual

/-- A change of contents that leaves elements elements takes the elements of a tree along. -/
theorem elementsOf_map (hf : ∀ c, (f c).isElement = c.isElement) (t : Tree Content) :
    elementsOf (t.map f) = (elementsOf t).map (Tree.map f) := by
  match t with
  | .node c ts =>
    rw [Tree.map, elementsOf, elementsOf, hf]
    split
    · rw [List.map_cons, elementsOfAll_mapAll hf ts, Tree.map]
    · rfl

theorem elementsOfAll_mapAll (hf : ∀ c, (f c).isElement = c.isElement)
    (ts : List (Tree Content)) :
    elementsOfAll (mapAll f ts) = (elementsOfAll ts).map (Tree.map f) := by
  match ts with
  | [] => rfl
  | t :: ts =>
    rw [mapAll, elementsOfAll, elementsOfAll, elementsOf_map hf t, elementsOfAll_mapAll hf ts,
      List.map_append]

end

end

theorem root?_mapAll_spaced (m : Markup) :
    root? (mapAll Content.spaced m) = (root? m).map (Tree.map Content.spaced) := by
  rw [root?, elementsOfAll_mapAll fun c ↦ by cases c <;> rfl, List.find?_map, root?]
  refine congrArg (Option.map _) (congrArg (List.find? · _) (funext fun t ↦ ?_))
  obtain ⟨c, ts⟩ := t
  cases c <;> rfl

theorem viewAll_eq_nil {ts : List (Tree Content)} (h : hasElements ts = false)
    (parent : Option String) : viewAll parent ts = [] := by
  induction ts with
  | nil => rfl
  | cons t ts ih =>
    obtain ⟨c, us⟩ := t
    rw [hasElements, List.any_cons, Bool.or_eq_false_iff, label_node] at h
    rw [viewAll, view_of_isElement_eq_false h.1, ih h.2, List.append_nil]

theorem viewAll_ne_nil {ts : List (Tree Content)} (h : hasElements ts = true)
    (parent : Option String) : viewAll parent ts ≠ [] := by
  obtain ⟨⟨c, us⟩, ht, hc⟩ := List.any_eq_true.1 h
  obtain ⟨e, rfl⟩ := c.eq_element_or.resolve_right (by simpa using hc)
  obtain ⟨front, back, rfl⟩ := List.append_of_mem ht
  rw [viewAll_append, viewAll, view]
  simp

/-- An element that has elements inside shows a text at most when it loses them all. -/
theorem attributesOf_eq_or (e : Element) {ts us : List (Tree Content)}
    (h : hasElements ts = true) : attributesOf e us = attributesOf e ts ∨
      hasElements us = false ∧
        ∃ text, attributesOf e us = (attributesOf e ts).insert textKey text := by
  cases hus : hasElements us with
  | true => exact .inl (by simp [attributesOf, h, hus])
  | false =>
    by_cases htext : (Text.trim (textOfAll us)).isEmpty = true
    · exact .inl (by simp [attributesOf, h, hus, htext])
    · exact .inr ⟨rfl, Text.trim (textOfAll us), by simp [attributesOf, h, hus, htext]⟩

end Markup

namespace Node

variable {meant : String → Prop} {h : Handle} {f : Node → Node}

/-! ## The elements around a change -/

/-- Whether a change of a node takes an element to an element, and spares what is not meant. -/
structure SparesAt (meant : String → Prop) (f : Node → Node) (n : Node) : Prop where
  /-- The node is an element. -/
  isElement : n.isElement = true
  /-- The node is an element afterwards. -/
  isElement_change : (f n).isElement = true
  /-- The component of the node is spared as far as it is not meant. -/
  spares : ∀ parent, SparesAll meant (view parent n.bare)
    (view parent ((f n).bare.map Content.spaced))

theorem hasElements_modifyAll {ts : List Node}
    (hf : ∀ n : Node, n ∈ subtreesAll ts → n.handle = h → SparesAt meant f n) :
    hasElements ((modifyAll h f ts).map bare) = hasElements (ts.map bare) := by
  induction ts with
  | nil => rfl
  | cons t ts ih =>
    have hrest := ih fun n hn ↦ hf n (List.mem_append_right _ hn)
    have hlabel : (modify h f t).label.content.isElement = t.label.content.isElement := by
      obtain ⟨s, us⟩ := t
      rw [modify]
      split
      · next hs =>
        have ht := hf (.node s us) (List.mem_append_left _ (mem_subtrees_self _)) hs
        exact ht.isElement_change.trans ht.isElement.symm
      · rfl
    rw [modifyAll, List.map_cons, List.map_cons, hasElements, hasElements, List.any_cons,
      List.any_cons, label_bare, label_bare, hlabel]
    exact congrArg _ hrest

/-- The text of an element without elements inside is not concerned by a change of an element. -/
theorem textOfAll_modifyAll {ts : List Node}
    (hf : ∀ n : Node, n ∈ subtreesAll ts → n.handle = h → SparesAt meant f n)
    (hnone : hasElements (ts.map bare) = false) :
    textOfAll ((modifyAll h f ts).map bare) = textOfAll (ts.map bare) := by
  induction ts with
  | nil => rfl
  | cons t ts ih =>
    rw [List.map_cons, hasElements, List.any_cons, Bool.or_eq_false_iff, label_bare] at hnone
    rw [modifyAll, List.map_cons, List.map_cons, textOfAll, textOfAll,
      ih (fun n hn ↦ hf n (List.mem_append_right _ hn)) hnone.2]
    refine congrArg (· ++ _) ?_
    obtain ⟨⟨k, c⟩, us⟩ := t
    rw [modify]
    split
    · next hk =>
      have helement := (hf _ (List.mem_append_left _ (mem_subtrees_self _)) hk).isElement
      cases helement.symm.trans hnone.1
    · rw [bare_node, bare_node]
      cases c with
      | element e => cases hnone.1
      | _ => rfl

mutual

theorem sparesAll_view_modify {t : Node}
    (hf : ∀ n : Node, n ∈ t.subtrees → n.handle = h → SparesAt meant f n)
    (hunbroken : ∀ c ∈ t.bare.preorder, c.IsUnbroken) (parent : Option String) :
    SparesAll meant (view parent t.bare)
      (view parent ((modify h f t).bare.map Content.spaced)) := by
  match t with
  | .node ⟨k, c⟩ us =>
    rw [modify]
    split
    · next hk => exact (hf _ (mem_subtrees_self _) hk).spares parent
    rw [bare_node, preorder, List.forall_mem_cons] at hunbroken
    rw [bare_node, bare_node, Tree.map, hunbroken.1.spaced_eq]
    rcases c.eq_element_or with ⟨e, rfl⟩ | hc
    · have hinside : ∀ n : Node, n ∈ subtreesAll us → n.handle = h → SparesAt meant f n :=
        fun n hn ↦ hf n (List.mem_cons_of_mem _ hn)
      have hspaced := relAll_mapAll_spaced ((modifyAll h f us).map bare)
      -- what is changed is an element before and after, so the text that counts is not concerned
      have hattributes : attributesOf e (mapAll Content.spaced ((modifyAll h f us).map bare))
          = attributesOf e (us.map bare) :=
        (attributesOf_eq_of_relAll hspaced e).trans
          (attributesOf_congr e (hasElements_modifyAll hinside) (textOfAll_modifyAll hinside))
      refine .keep ⟨rfl, .inl hattributes⟩ ?_ .nil
      exact sparesAll_viewAll_modifyAll hinside hunbroken.2 _
    · rw [view_of_isElement_eq_false hc, view_of_isElement_eq_false hc]
      exact .nil

/-- **A change of one element spares all components but its own.** -/
theorem sparesAll_viewAll_modifyAll {ts : List Node}
    (hf : ∀ n : Node, n ∈ subtreesAll ts → n.handle = h → SparesAt meant f n)
    (hunbroken : ∀ c ∈ preorderAll (ts.map bare), c.IsUnbroken) (parent : Option String) :
    SparesAll meant (viewAll parent (ts.map bare))
      (viewAll parent (mapAll Content.spaced ((modifyAll h f ts).map bare))) := by
  match ts with
  | [] => exact .nil
  | t :: ts =>
    rw [List.map_cons, preorderAll, List.forall_mem_append] at hunbroken
    exact (sparesAll_view_modify (fun n hn ↦ hf n (List.mem_append_left _ hn)) hunbroken.1
      parent).append (sparesAll_viewAll_modifyAll (fun n hn ↦ hf n (List.mem_append_right _ hn))
        hunbroken.2 parent)

end

/-! ## The element that is changed -/

/-- A change of an element that is meant may do with it what it likes. -/
theorem sparesAt_of_meant {n : Node} {e : Element} (hn : n.content = .element e)
    (hmeant : meant (e.id?.getD "")) (hchange : (f n).isElement = true) : SparesAt meant f n := by
  obtain ⟨⟨k, c⟩, ts⟩ := n
  obtain rfl : c = .element e := hn
  refine ⟨rfl, hchange, fun parent ↦ ?_⟩
  generalize f (.node ⟨k, .element e⟩ ts) = n' at hchange
  obtain ⟨⟨k', c'⟩, ts'⟩ := n'
  obtain ⟨e', rfl⟩ := c'.eq_element_or.resolve_right fun hc' ↦ by cases hc'.symm.trans hchange
  rw [bare_node, bare_node]
  exact .change hmeant .nil

/-- Taking an element out from among its neighbours spares these. -/
private theorem sparesAll_viewAll_pruneAll {ts : List Node} (hnodup : (handlesAll ts).Nodup)
    {n : Node} (hn : n ∈ ts) {e : Element} (helement : n.content = .element e)
    (hmeant : meant (e.id?.getD "")) (parent : Option String) :
    SparesAll meant (viewAll parent (ts.map bare))
      (viewAll parent ((pruneAll n.handle ts).map bare)) := by
  induction ts with
  | nil => cases hn
  | cons t ts ih =>
    rw [handlesAll_cons, List.nodup_append] at hnodup
    obtain ⟨-, htail, hdisjoint⟩ := hnodup
    rcases List.mem_cons.1 hn with rfl | hin
    · -- nothing else in the list has the handle, so this element alone is gone
      have hgone := pruneAll_of_notMem fun hmem ↦
        hdisjoint _ (handle_mem_handles (mem_subtrees_self n)) _ hmem rfl
      rw [pruneAll, if_pos (show n.label.handle = n.handle from rfl), hgone, List.map_cons, viewAll]
      obtain ⟨⟨k, c⟩, us⟩ := n
      obtain rfl : c = .element e := helement
      rw [bare_node]
      exact .drop hmeant (.refl _ _)
    · have hout : n.handle ∉ t.handles := fun hmem ↦
        hdisjoint _ hmem _ (handle_mem_handlesAll (mem_subtreesAll_of_mem hin)) rfl
      obtain ⟨s, us⟩ := t
      rw [handles_node, List.mem_cons, not_or] at hout
      rw [pruneAll, if_neg fun heq ↦ hout.1 heq.symm, prune_of_notMem hout.2]
      exact (SparesAll.refl _ _).append (ih htail hin)

/-- **Taking out an element that is meant** spares the element around it, which may show its text
afterwards. -/
theorem sparesAt_prune {n around : Node} (hnodup : around.handles.Nodup)
    (hunbroken : ∀ c ∈ around.bare.preorder, c.IsUnbroken) (haround : around.isElement = true)
    (hn : n ∈ around.children) {e : Element} (helement : n.content = .element e)
    (hmeant : meant (e.id?.getD "")) : SparesAt meant (prune n.handle) around := by
  obtain ⟨⟨k, c⟩, ts⟩ := around
  obtain ⟨e', rfl⟩ := c.eq_element_or.resolve_right fun hc ↦ by cases hc.symm.trans haround
  refine ⟨rfl, rfl, fun parent ↦ ?_⟩
  have hin : hasElements (ts.map bare) = true := by
    rw [hasElements, List.any_map]
    refine List.any_eq_true.2 ⟨n, hn, ?_⟩
    rw [Function.comp_apply, label_bare, show n.label.content = .element e from helement]
    rfl
  rw [handles_node, List.nodup_cons] at hnodup
  rw [map_spaced (forall_preorder_prune hunbroken), prune, bare_node, bare_node]
  refine .keep ⟨rfl, ?_⟩ (sparesAll_viewAll_pruneAll hnodup.2 hn helement hmeant _) .nil
  refine (attributesOf_eq_or e' hin).imp_right ?_
  rintro ⟨hnone, htext⟩
  exact ⟨viewAll_ne_nil hin _, viewAll_eq_nil hnone _, htext⟩

end Node

/-! ## The components of the document -/

namespace Document

variable {meant : String → Prop} {d d' : Document} {root n : Node} {f : Node → Node}

/-- **A change inside the root** spares the components of the document as the change of the node
spares the component of the node. -/
theorem sparesAll_components_of_modifyAll (hnodup : (Node.handlesAll d.topLevel).Nodup)
    (hunbroken : ∀ c ∈ preorderAll d.markup, c.IsUnbroken) (hroot : d.root? = some root)
    (hn : n ∈ root.subtrees) (hspares : Node.SparesAt meant f n)
    (hisRoot : n = root → (f n).isRoot = true)
    (hd' : d'.topLevel = Node.modifyAll n.handle f d.topLevel) :
    SparesAll meant (components d.markup) (components (mapAll Content.spaced d'.markup)) := by
  have hroot' : d'.root? = some (Node.modify n.handle f root) := by
    have hfind := Node.find?_elementsAll_modifyAll_inside hnodup hroot hn hisRoot
    rwa [← hd'] at hfind
  have hmem := Node.mem_subtreesAll_of_mem_elementsAll (List.mem_of_find?_eq_some hroot)
  rw [components, components, root?_mapAll_spaced, root?_markup, root?_markup, hroot, hroot']
  refine Node.sparesAll_view_modify (fun m hm hhandle ↦ ?_)
    (fun c hc ↦ hunbroken c (Node.mem_preorderAll_map_bare hmem hc)) none
  obtain rfl := Node.eq_of_handle_eq_all hnodup (mem_subtreesAll_trans hmem hm)
    (mem_subtreesAll_trans hmem hn) hhandle
  exact hspares

end Document

end SvgWorkbench
