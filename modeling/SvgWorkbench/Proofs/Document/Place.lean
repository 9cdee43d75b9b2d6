import SvgWorkbench.Proofs.Drawing.OfDocument

/-!
# Changing one node of a document

Whatever an edit does to an element that is there, it does by changing one node: the element itself
or, to take it out, the node around it. Two changes of one node are one change of it, and a change
inside the root gives the root with that change made in it.
-/

namespace SvgWorkbench.Node

open SvgWorkbench.Tree

variable {h : Handle} {f g : Node → Node}

/-! ## Two changes of one node -/

mutual

theorem modify_modify (hf : ∀ n, handle n = h → handle (f n) = h) (t : Node) :
    modify h g (modify h f t) = modify h (fun n ↦ g (f n)) t := by
  match t with
  | .node s ts =>
    rw [modify.eq_1 h f, modify.eq_1 h fun n ↦ g (f n)]
    split
    · next hs =>
      have hlabel := hf (.node s ts) hs
      generalize f (.node s ts) = n at hlabel ⊢
      obtain ⟨s', ts'⟩ := n
      exact if_pos hlabel
    · next hs => rw [modify, if_neg hs, modifyAll_modifyAll hf ts]

theorem modifyAll_modifyAll (hf : ∀ n, handle n = h → handle (f n) = h) (ts : List Node) :
    modifyAll h g (modifyAll h f ts) = modifyAll h (fun n ↦ g (f n)) ts := by
  match ts with
  | [] => rfl
  | t :: ts => rw [modifyAll, modifyAll, modify_modify hf t, modifyAll_modifyAll hf ts, modifyAll]

end

/-! ## The node around an element -/

mutual

/-- An element of a tree is the tree itself or stands right below another element of it. -/
theorem eq_or_exists_mem_children {n t : Node} (hn : n ∈ t.elements) :
    n = t ∨ ∃ around ∈ t.elements, n ∈ Tree.children around := by
  match t with
  | .node s ts =>
    rw [elements] at hn ⊢
    split at hn
    case isFalse => cases hn
    next hs =>
    rw [if_pos hs]
    rcases List.mem_cons.1 hn with rfl | hn
    · exact .inl rfl
    right
    rcases mem_or_exists_mem_children hn with hn | ⟨around, haround, hchild⟩
    · exact ⟨_, List.mem_cons_self, hn⟩
    · exact ⟨around, List.mem_cons_of_mem _ haround, hchild⟩

theorem mem_or_exists_mem_children {n : Node} {ts : List Node} (hn : n ∈ elementsAll ts) :
    n ∈ ts ∨ ∃ around ∈ elementsAll ts, n ∈ Tree.children around := by
  match ts with
  | [] => cases hn
  | t :: ts =>
    rcases List.mem_append.1 hn with hn | hn
    · rcases eq_or_exists_mem_children hn with rfl | ⟨around, haround, hchild⟩
      · exact .inl List.mem_cons_self
      · exact .inr ⟨around, List.mem_append_left _ haround, hchild⟩
    · rcases mem_or_exists_mem_children hn with hn | ⟨around, haround, hchild⟩
      · exact .inl (List.mem_cons_of_mem _ hn)
      · exact .inr ⟨around, List.mem_append_right _ haround, hchild⟩

end

mutual

private theorem eq_of_mem_children_of_mem {around around' n t : Node} (hnodup : t.handles.Nodup)
    (h : around ∈ t.subtrees) (h' : around' ∈ t.subtrees) (hn : n ∈ around.children)
    (hn' : n ∈ around'.children) : around = around' := by
  match t with
  | .node s ts =>
    rw [handles_node, List.nodup_cons] at hnodup
    rcases List.mem_cons.1 h with rfl | h <;> rcases List.mem_cons.1 h' with rfl | h'
    · rfl
    · exact absurd rfl (handle_ne_of_mem_children hnodup.2 h' hn' n hn)
    · exact absurd rfl (handle_ne_of_mem_children hnodup.2 h hn n hn')
    · exact eq_of_mem_children hnodup.2 h h' hn hn'

/-- Where no handle stands twice, a node stands right below one other. -/
theorem eq_of_mem_children {around around' n : Node} {ts : List Node}
    (hnodup : (handlesAll ts).Nodup) (h : around ∈ subtreesAll ts) (h' : around' ∈ subtreesAll ts)
    (hn : n ∈ around.children) (hn' : n ∈ around'.children) : around = around' := by
  match ts with
  | [] => cases h
  | t :: ts =>
    rw [handlesAll_cons, List.nodup_append] at hnodup
    obtain ⟨hhead, htail, hdisjoint⟩ := hnodup
    rcases List.mem_append.1 h with h | h <;> rcases List.mem_append.1 h' with h' | h'
    · exact eq_of_mem_children_of_mem hhead h h' hn hn'
    · exact absurd rfl (hdisjoint _
        (handle_mem_handles (mem_subtrees_trans h (mem_subtrees_of_mem_children hn))) _
        (handle_mem_handlesAll (mem_subtreesAll_of_mem_children h' hn')))
    · exact absurd rfl (hdisjoint _
        (handle_mem_handles (mem_subtrees_trans h' (mem_subtrees_of_mem_children hn'))) _
        (handle_mem_handlesAll (mem_subtreesAll_of_mem_children h hn)))
    · exact eq_of_mem_children htail h h' hn hn'

end

/-! ## Taking a node out -/

mutual

/-- Where no handle stands twice, none does below a node. -/
theorem nodup_handles_of_mem_subtrees {n t : Node} (hnodup : t.handles.Nodup)
    (hn : n ∈ t.subtrees) : n.handles.Nodup := by
  match t with
  | .node s ts =>
    rcases List.mem_cons.1 hn with rfl | hn
    · exact hnodup
    · rw [handles_node, List.nodup_cons] at hnodup
      exact nodup_handles_of_mem_subtreesAll hnodup.2 hn

theorem nodup_handles_of_mem_subtreesAll {n : Node} {ts : List Node}
    (hnodup : (handlesAll ts).Nodup) (hn : n ∈ subtreesAll ts) : n.handles.Nodup := by
  match ts with
  | [] => cases hn
  | t :: ts =>
    rw [handlesAll_cons, List.nodup_append] at hnodup
    rcases List.mem_append.1 hn with hn | hn
    · exact nodup_handles_of_mem_subtrees hnodup.1 hn
    · exact nodup_handles_of_mem_subtreesAll hnodup.2.1 hn

end

mutual

theorem prune_of_notMem {t : Node} (hh : h ∉ handlesAll t.children) : prune h t = t := by
  match t with
  | .node s ts => exact congrArg (Tree.node s) (pruneAll_of_notMem hh)

/-- A handle that is not there is not taken out. -/
theorem pruneAll_of_notMem {ts : List Node} (hh : h ∉ handlesAll ts) : pruneAll h ts = ts := by
  match ts with
  | [] => rfl
  | .node s us :: ts =>
    rw [handlesAll_cons, handles_node, List.cons_append, List.mem_cons, List.mem_append, not_or,
      not_or] at hh
    have hout : h ∉ handlesAll (Tree.children (.node s us)) := hh.2.1
    rw [pruneAll, if_neg fun heq ↦ hh.1 heq.symm, prune_of_notMem hout, pruneAll_of_notMem hh.2.2]

end

mutual

private theorem prune_eq_modify {n around t : Node} (hnodup : t.handles.Nodup)
    (haround : around ∈ t.subtrees) (hn : n ∈ around.children) :
    prune n.handle t = modify around.handle (prune n.handle) t := by
  match t with
  | .node s ts =>
    rw [modify]
    split
    · rfl
    next hne =>
    rw [handles_node, List.nodup_cons] at hnodup
    rcases List.mem_cons.1 haround with rfl | haround
    · exact absurd rfl hne
    · rw [prune, pruneAll_eq_modifyAll hnodup.2 haround hn]

/-- **To take a node out is to change the node around it.** -/
theorem pruneAll_eq_modifyAll {n around : Node} {ts : List Node} (hnodup : (handlesAll ts).Nodup)
    (haround : around ∈ subtreesAll ts) (hn : n ∈ around.children) :
    pruneAll n.handle ts = modifyAll around.handle (prune n.handle) ts := by
  match ts with
  | [] => cases haround
  | t :: ts =>
    have hne : t.label.handle ≠ n.handle :=
      handle_ne_of_mem_children hnodup haround hn t List.mem_cons_self
    rw [handlesAll_cons, List.nodup_append] at hnodup
    obtain ⟨hhead, htail, hdisjoint⟩ := hnodup
    rw [pruneAll, if_neg hne, modifyAll]
    -- handles are given once, so only one of the two sides of the list is concerned
    rcases List.mem_append.1 haround with haround | haround
    · have hn' := handle_mem_handles (mem_subtrees_trans haround (mem_subtrees_of_mem_children hn))
      rw [prune_eq_modify hhead haround hn,
        pruneAll_of_notMem fun hmem ↦ hdisjoint _ hn' _ hmem rfl,
        modifyAll_of_notMem fun hmem ↦ hdisjoint _ (handle_mem_handles haround) _ hmem rfl]
    · have hn' := handle_mem_handlesAll (mem_subtreesAll_of_mem_children haround hn)
      have hout : n.handle ∉ t.handles := fun hmem ↦ hdisjoint _ hmem _ hn' rfl
      rw [pruneAll_eq_modifyAll htail haround hn, prune_of_notMem fun hmem ↦ hout ?_,
        modify_eq_self fun m hm heq ↦ ?_]
      · exact absurd heq (hdisjoint _ (handle_mem_handles hm) _ (handle_mem_handlesAll haround))
      · obtain ⟨s, us⟩ := t
        rw [handles_node]
        exact List.mem_cons_of_mem _ hmem

end

/-! ## Changes inside the root -/

mutual

/-- The first root of a tree after something in it has been changed. -/
theorem find?_elements_modify_inside {root n t : Node} (hnodup : t.handles.Nodup)
    (hfind : t.elements.find? isRoot = some root) (hn : n ∈ root.subtrees)
    (hf : n = root → (f n).isRoot = true) :
    (modify n.handle f t).elements.find? isRoot = some (modify n.handle f root) := by
  match t with
  | .node s ts =>
    have hmem := mem_subtrees_of_mem_elements (List.mem_of_find?_eq_some hfind)
    have hin := mem_subtrees_trans hmem hn
    rw [elements] at hfind
    split at hfind
    case isFalse => cases hfind
    next hs =>
    rw [List.find?_cons] at hfind
    split at hfind
    · next hroot =>
      cases hfind
      -- the tree is the root itself, which may be what is changed
      refine find?_elements_of_isRoot ?_
      rw [modify]
      split
      · next heq =>
        obtain rfl := eq_of_handle_eq hnodup hin (mem_subtrees_self _) heq.symm
        exact hf rfl
      · exact hroot
    · next hroot =>
      -- the root stands below, and so does what is changed
      have hbelow := mem_subtreesAll_of_mem_elementsAll (List.mem_of_find?_eq_some hfind)
      rw [handles_node, List.nodup_cons] at hnodup
      have hne : s.handle ≠ n.handle := fun heq ↦
        hnodup.1 (heq ▸ handle_mem_handlesAll (mem_subtreesAll_trans hbelow hn))
      have hroot' : ¬ isRoot (.node s (modifyAll n.handle f ts)) = true :=
        ne_true_of_eq_false hroot
      rw [modify, if_neg hne, elements, if_pos hs, List.find?_cons_of_neg hroot',
        find?_elementsAll_modifyAll_inside hnodup.2 hfind hn hf]

/-- **A change inside the root** gives the root with the change made in it. -/
theorem find?_elementsAll_modifyAll_inside {root n : Node} {ts : List Node}
    (hnodup : (handlesAll ts).Nodup) (hfind : (elementsAll ts).find? isRoot = some root)
    (hn : n ∈ root.subtrees) (hf : n = root → (f n).isRoot = true) :
    (elementsAll (modifyAll n.handle f ts)).find? isRoot = some (modify n.handle f root) := by
  match ts with
  | [] => cases hfind
  | t :: ts =>
    rw [handlesAll_cons, List.nodup_append] at hnodup
    obtain ⟨hhead, htail, hdisjoint⟩ := hnodup
    rw [elementsAll, List.find?_append] at hfind
    rw [modifyAll, elementsAll, List.find?_append]
    cases hfirst : t.elements.find? isRoot with
    | some first =>
      rw [hfirst] at hfind
      cases hfind
      rw [find?_elements_modify_inside hhead hfirst hn hf, Option.some_or]
    | none =>
      -- the root stands in a later tree, so this one is not concerned
      rw [hfirst, Option.none_or] at hfind
      have hin := mem_subtreesAll_trans
        (mem_subtreesAll_of_mem_elementsAll (List.mem_of_find?_eq_some hfind)) hn
      rw [modify_eq_self fun m hm heq ↦ absurd heq
          (hdisjoint _ (handle_mem_handles hm) _ (handle_mem_handlesAll hin)), hfirst,
        find?_elementsAll_modifyAll_inside htail hfind hn hf, Option.none_or]

end

end SvgWorkbench.Node

namespace SvgWorkbench.Document

open SvgWorkbench.Tree

/-- Where no handle stands twice, a node is found as the parent of its children. -/
theorem parent?_of_mem_children {d : Document}
    (hnodup : (Node.handlesAll (d.topLevel ++ d.loose)).Nodup) {m n : Node} (hm : m ∈ d.nodes) (hn : n ∈ m.children) : d.parent? n.handle = some m := by
  have hmem : n ∈ d.nodes := mem_subtreesAll_of_mem_children hm hn
  cases hfind : d.parent? n.handle with
  | none => exact absurd hfind (by simpa [parent?] using ⟨m, hm, n, hn, rfl⟩)
  | some m' =>
    obtain ⟨hm', child, hchild, heq⟩ := exists_of_parent? hfind
    obtain rfl := Node.eq_of_handle_eq_all hnodup (mem_subtreesAll_of_mem_children hm' hchild) hmem
      heq
    rw [Node.eq_of_mem_children hnodup hm' hm hchild hn]

end SvgWorkbench.Document
