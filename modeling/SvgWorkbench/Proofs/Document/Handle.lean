import SvgWorkbench.Document.Basic
import SvgWorkbench.Proofs.Tree.Subtrees

/-!
# Handles

A document gives its nodes the numbers from zero on in document order. So every handle means one
node, and taking the handles away gives the markup back.
-/

namespace SvgWorkbench

open SvgWorkbench.Tree

/-! ## Walks of the nodes -/

namespace Node

/-- The handles of a node and of everything below it, in document order. -/
def handles (n : Node) : List Handle := n.preorder.map Slot.handle

/-- The handles of a forest in document order. -/
def handlesAll (ns : List Node) : List Handle := (preorderAll ns).map Slot.handle

@[simp] theorem handles_node (s : Slot) (ts : List Node) :
    handles (.node s ts) = s.handle :: handlesAll ts := by
  rw [handles, preorder, List.map_cons, handlesAll]

@[simp] theorem handlesAll_nil : handlesAll [] = [] := rfl

@[simp] theorem handlesAll_cons (t : Node) (ts : List Node) :
    handlesAll (t :: ts) = t.handles ++ handlesAll ts := by
  rw [handlesAll, preorderAll, List.map_append, handles, handlesAll]

@[simp] theorem bare_node (s : Slot) (ts : List Node) :
    bare (.node s ts) = .node s.content (ts.map bare) := by
  rw [bare, map, mapAll_eq_map]
  rfl

theorem bare_of_content {n : Node} {c : Content} (hc : n.content = c) :
    n.bare = .node c (n.children.map bare) := by
  obtain ⟨⟨k, c'⟩, ts⟩ := n
  obtain rfl : c' = c := hc
  rw [bare_node, children_node]

theorem element?_of_content {n : Node} {e : Element} (he : n.content = .element e) :
    n.element? = some e := by
  rw [element?, he]
  rfl

/-! ## Nodes of a forest -/

mutual

theorem handle_mem_handles {n t : Node} (h : n ∈ t.subtrees) : n.handle ∈ t.handles := by
  match t with
  | .node s ts =>
    rw [handles_node]
    rcases List.mem_cons.1 h with rfl | h
    · exact List.mem_cons_self
    · exact List.mem_cons_of_mem _ (handle_mem_handlesAll h)

theorem handle_mem_handlesAll {n : Node} {ts : List Node} (h : n ∈ subtreesAll ts) :
    n.handle ∈ handlesAll ts := by
  match ts with
  | [] => cases h
  | t :: ts =>
    rw [handlesAll_cons]
    rcases List.mem_append.1 h with h | h
    · exact List.mem_append_left _ (handle_mem_handles h)
    · exact List.mem_append_right _ (handle_mem_handlesAll h)

end

mutual

/-- Where no handle stands twice, a handle means one node. -/
theorem eq_of_handle_eq {m n t : Node} (hnodup : t.handles.Nodup) (hm : m ∈ t.subtrees)
    (hn : n ∈ t.subtrees) (h : m.handle = n.handle) : m = n := by
  match t with
  | .node s ts =>
    rw [handles_node, List.nodup_cons] at hnodup
    have hs : ∀ {k : Node}, k ∈ subtreesAll ts → s.handle ≠ k.handle :=
      fun hk heq ↦ hnodup.1 (heq ▸ handle_mem_handlesAll hk)
    rcases List.mem_cons.1 hm with rfl | hm <;> rcases List.mem_cons.1 hn with rfl | hn
    · rfl
    · exact absurd h (hs hn)
    · exact absurd h.symm (hs hm)
    · exact eq_of_handle_eq_all hnodup.2 hm hn h

theorem eq_of_handle_eq_all {m n : Node} {ts : List Node} (hnodup : (handlesAll ts).Nodup)
    (hm : m ∈ subtreesAll ts) (hn : n ∈ subtreesAll ts) (h : m.handle = n.handle) : m = n := by
  match ts with
  | [] => cases hm
  | t :: ts =>
    rw [handlesAll_cons, List.nodup_append] at hnodup
    obtain ⟨hhead, htail, hdisjoint⟩ := hnodup
    rcases List.mem_append.1 hm with hm | hm <;> rcases List.mem_append.1 hn with hn | hn
    · exact eq_of_handle_eq hhead hm hn h
    · exact absurd h (hdisjoint _ (handle_mem_handles hm) _ (handle_mem_handlesAll hn))
    · exact absurd h.symm (hdisjoint _ (handle_mem_handles hn) _ (handle_mem_handlesAll hm))
    · exact eq_of_handle_eq_all htail hm hn h

end

/-! ## Elements are nodes -/

mutual

theorem mem_subtrees_of_mem_elements {n t : Node} (h : n ∈ t.elements) : n ∈ t.subtrees := by
  match t with
  | .node s ts =>
    rw [elements] at h
    split at h
    · rcases List.mem_cons.1 h with rfl | h
      · exact List.mem_cons_self
      · exact List.mem_cons_of_mem _ (mem_subtreesAll_of_mem_elementsAll h)
    · cases h

theorem mem_subtreesAll_of_mem_elementsAll {n : Node} {ts : List Node} (h : n ∈ elementsAll ts) :
    n ∈ subtreesAll ts := by
  match ts with
  | [] => cases h
  | t :: ts =>
    rcases List.mem_append.1 h with h | h
    · exact List.mem_append_left _ (mem_subtrees_of_mem_elements h)
    · exact List.mem_append_right _ (mem_subtreesAll_of_mem_elementsAll h)

end

mutual

theorem isElement_of_mem_elements {n t : Node} (h : n ∈ t.elements) : n.isElement = true := by
  match t with
  | .node s ts =>
    rw [elements] at h
    split at h
    · next hs =>
      rcases List.mem_cons.1 h with rfl | h
      · exact hs
      · exact isElement_of_mem_elementsAll h
    · cases h

theorem isElement_of_mem_elementsAll {n : Node} {ts : List Node} (h : n ∈ elementsAll ts) :
    n.isElement = true := by
  match ts with
  | [] => cases h
  | t :: ts =>
    rcases List.mem_append.1 h with h | h
    · exact isElement_of_mem_elements h
    · exact isElement_of_mem_elementsAll h

end

/-- An element is the first of its elements. -/
theorem mem_elements_self {n : Node} (h : n.isElement = true) : n ∈ n.elements := by
  obtain ⟨s, ts⟩ := n
  have hs : s.content.isElement = true := h
  rw [elements, if_pos hs]
  exact List.mem_cons_self

mutual

/-- The elements of an element of a tree are elements of the tree. -/
theorem mem_elements_trans {m n t : Node} (hn : n ∈ t.elements) (hm : m ∈ n.elements) :
    m ∈ t.elements := by
  match t with
  | .node s ts =>
    rw [elements] at hn ⊢
    split at hn
    · next hs =>
      rcases List.mem_cons.1 hn with rfl | hn
      · rwa [elements] at hm
      · rw [if_pos hs]
        exact List.mem_cons_of_mem _ (mem_elementsAll_trans hn hm)
    · cases hn

theorem mem_elementsAll_trans {m n : Node} {ts : List Node} (hn : n ∈ elementsAll ts)
    (hm : m ∈ n.elements) : m ∈ elementsAll ts := by
  match ts with
  | [] => cases hn
  | t :: ts =>
    rcases List.mem_append.1 hn with hn | hn
    · exact List.mem_append_left _ (mem_elements_trans hn hm)
    · exact List.mem_append_right _ (mem_elementsAll_trans hn hm)

end

/-! ## Children -/

/-- A node that has a parent does not stand at the top level. -/
theorem handle_ne_of_mem_children {ts : List Node} (hnodup : (handlesAll ts).Nodup) {n child : Node}
    (hn : n ∈ subtreesAll ts) (hchild : child ∈ n.children) :
    ∀ t ∈ ts, t.handle ≠ child.handle := by
  induction ts with
  | nil => exact nofun
  | cons t ts ih =>
    obtain ⟨s, us⟩ := t
    rw [handlesAll_cons, handles_node, List.cons_append, List.nodup_cons, List.mem_append, not_or,
      List.nodup_append] at hnodup
    obtain ⟨⟨hinside, hbeside⟩, -, hts, hdisjoint⟩ := hnodup
    rcases List.mem_append.1 hn with hn | hn
    · -- the parent is in the first tree, and no handle of this tree is found beside it
      have hmem := handle_mem_handlesAll (mem_subtreesAll_children hn hchild)
      refine List.forall_mem_cons.2 ⟨fun heq ↦ hinside ?_, fun t ht heq ↦ ?_⟩
      · rwa [show s.handle = child.handle from heq]
      exact hdisjoint _ hmem _ (handle_mem_handlesAll (mem_subtreesAll_of_mem ht)) heq.symm
    · refine List.forall_mem_cons.2 ⟨fun heq ↦ hbeside ?_, ih hts hn⟩
      rw [show s.handle = child.handle from heq]
      exact handle_mem_handlesAll (mem_subtreesAll_of_mem_children hn hchild)

/-! ## Changing the node of a handle -/

theorem modify_handle (n : Node) (f : Node → Node) : modify n.handle f n = f n := by
  obtain ⟨s, ts⟩ := n
  exact if_pos rfl

mutual

/-- A change that leaves the node of a handle as it is changes nothing. -/
theorem modify_eq_self {h : Handle} {f : Node → Node} {t : Node}
    (hf : ∀ n : Node, n ∈ t.subtrees → n.handle = h → f n = n) : modify h f t = t := by
  match t with
  | .node s ts =>
    rw [modify]
    split
    · next hs => exact hf _ List.mem_cons_self hs
    · rw [modifyAll_eq_self fun n hn ↦ hf n (List.mem_cons_of_mem _ hn)]

theorem modifyAll_eq_self {h : Handle} {f : Node → Node} {ts : List Node}
    (hf : ∀ n : Node, n ∈ subtreesAll ts → n.handle = h → f n = n) : modifyAll h f ts = ts := by
  match ts with
  | [] => rfl
  | t :: ts =>
    rw [modifyAll, modify_eq_self fun n hn ↦ hf n (List.mem_append_left _ hn),
      modifyAll_eq_self fun n hn ↦ hf n (List.mem_append_right _ hn)]

end

mutual

/-- A change that keeps the handles of the node keeps all handles. -/
theorem handles_modify {h : Handle} {f : Node → Node} {t : Node}
    (hf : ∀ n : Node, n ∈ t.subtrees → n.handle = h → (f n).handles = n.handles) :
    (modify h f t).handles = t.handles := by
  match t with
  | .node s ts =>
    rw [modify]
    split
    · next hs => exact hf _ List.mem_cons_self hs
    · rw [handles_node, handles_node,
        handlesAll_modifyAll fun n hn ↦ hf n (List.mem_cons_of_mem _ hn)]

theorem handlesAll_modifyAll {h : Handle} {f : Node → Node} {ts : List Node}
    (hf : ∀ n : Node, n ∈ subtreesAll ts → n.handle = h → (f n).handles = n.handles) :
    handlesAll (modifyAll h f ts) = handlesAll ts := by
  match ts with
  | [] => rfl
  | t :: ts =>
    rw [modifyAll, handlesAll_cons, handlesAll_cons,
      handles_modify fun n hn ↦ hf n (List.mem_append_left _ hn),
      handlesAll_modifyAll fun n hn ↦ hf n (List.mem_append_right _ hn)]

end

/-- A handle that is not there is not changed. -/
theorem modifyAll_of_notMem {h : Handle} {f : Node → Node} {ts : List Node}
    (hh : h ∉ handlesAll ts) : modifyAll h f ts = ts :=
  modifyAll_eq_self fun _ hn heq ↦ absurd (heq ▸ handle_mem_handlesAll hn) hh

end Node

namespace Document

/-! ## Numbering -/

mutual

theorem number_snd (next : Handle) (t : Tree Content) : (number next t).2 = next + t.size := by
  match t with
  | .node c ts =>
    rw [number, size]
    show (numberAll (next + 1) ts).2 = _
    rw [numberAll_snd (next + 1) ts, Nat.add_assoc]

theorem numberAll_snd (next : Handle) (ts : List (Tree Content)) :
    (numberAll next ts).2 = next + sizeAll ts := by
  match ts with
  | [] => rfl
  | t :: ts =>
    rw [numberAll, sizeAll]
    show (numberAll (number next t).2 ts).2 = _
    rw [numberAll_snd _ ts, number_snd next t, Nat.add_assoc]

end

mutual

theorem bare_number (next : Handle) (t : Tree Content) : (number next t).1.bare = t := by
  match t with
  | .node c ts =>
    rw [number]
    show Node.bare (.node ⟨next, c⟩ (numberAll (next + 1) ts).1) = _
    rw [Node.bare_node, map_bare_numberAll (next + 1) ts]

theorem map_bare_numberAll (next : Handle) (ts : List (Tree Content)) :
    (numberAll next ts).1.map Node.bare = ts := by
  match ts with
  | [] => rfl
  | t :: ts =>
    rw [numberAll]
    show (number next t).1.bare :: (numberAll (number next t).2 ts).1.map Node.bare = _
    rw [bare_number next t, map_bare_numberAll _ ts]

end

mutual

theorem handles_number (next : Handle) (t : Tree Content) :
    (number next t).1.handles = List.range' next t.size := by
  match t with
  | .node c ts =>
    rw [number]
    show Node.handles (.node ⟨next, c⟩ (numberAll (next + 1) ts).1) = _
    rw [Node.handles_node, handlesAll_numberAll (next + 1) ts, size,
      Nat.add_comm 1, List.range'_succ]

theorem handlesAll_numberAll (next : Handle) (ts : List (Tree Content)) :
    Node.handlesAll (numberAll next ts).1 = List.range' next (sizeAll ts) := by
  match ts with
  | [] => rfl
  | t :: ts =>
    rw [numberAll]
    show Node.handlesAll ((number next t).1 :: (numberAll (number next t).2 ts).1) = _
    rw [Node.handlesAll_cons, handles_number next t, handlesAll_numberAll _ ts, number_snd,
      sizeAll, List.range'_append_1]

end

/-! ## Documents of markup -/

@[simp] theorem topLevel_ofMarkup (m : Markup) : (ofMarkup m).topLevel = (numberAll 0 m).1 := rfl

@[simp] theorem loose_ofMarkup (m : Markup) : (ofMarkup m).loose = [] := rfl

/-- A document keeps the markup it was made from. -/
@[simp] theorem markup_ofMarkup (m : Markup) : (ofMarkup m).markup = m := map_bare_numberAll 0 m

theorem nodes_of_loose_eq_nil {d : Document} (h : d.loose = []) :
    d.nodes = subtreesAll d.topLevel := by
  rw [nodes, h, List.append_nil]

/-- The parent of a node has it among its children. -/
theorem exists_of_parent? {d : Document} {h : Handle} {parent : Node}
    (hparent : d.parent? h = some parent) :
    parent ∈ d.nodes ∧ ∃ child ∈ parent.children, Node.handle child = h := by
  refine ⟨List.mem_of_find?_eq_some hparent, ?_⟩
  simpa using List.find?_some hparent

/-- A handle that has a parent does not stand at the top level. -/
theorem handle_ne_of_parent? {d : Document} (hloose : d.loose = [])
    (hnodup : (Node.handlesAll d.topLevel).Nodup) {h : Handle} {parent : Node}
    (hparent : d.parent? h = some parent) : ∀ n ∈ d.topLevel, n.label.handle ≠ h := by
  obtain ⟨hmem, child, hchild, rfl⟩ := exists_of_parent? hparent
  rw [nodes_of_loose_eq_nil hloose] at hmem
  exact Node.handle_ne_of_mem_children hnodup hmem hchild

/-- No handle of a document that was made from markup means two nodes. -/
theorem nodup_handlesAll_ofMarkup (m : Markup) :
    (Node.handlesAll (ofMarkup m).topLevel).Nodup := by
  rw [topLevel_ofMarkup, handlesAll_numberAll]
  exact List.nodup_range'

end Document

end SvgWorkbench
