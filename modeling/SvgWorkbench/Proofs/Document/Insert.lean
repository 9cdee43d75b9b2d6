import SvgWorkbench.Proofs.Edit.Written
import SvgWorkbench.Proofs.Drawing.Sound

/-!
# Copies put into a document

A copy is put into a document in two steps, the element first and its text into the element. Since
the handle of the new element is one that no node has, both steps together are one change of the
element around it: it gets one child more.
-/

namespace SvgWorkbench

open SvgWorkbench.Tree Markup

/-! ## A node that has been put in -/

namespace Node

variable {h k : Handle} {f f' g : Node → Node}

mutual

theorem modify_modify_of_notMem (hf : ∀ n : Node, k ∉ n.handles → modify k g (f n) = f' n)
    {t : Node} (hk : k ∉ t.handles) : modify k g (modify h f t) = modify h f' t := by
  match t with
  | .node s ts =>
    rw [modify.eq_1 h f, modify.eq_1 h f']
    split
    · exact hf _ hk
    · rw [handles_node, List.mem_cons, not_or] at hk
      rw [modify, if_neg (Ne.symm hk.1), modifyAll_modifyAll_of_notMem hf hk.2]

/-- A change of what an earlier change has put in is part of the earlier one. -/
theorem modifyAll_modifyAll_of_notMem
    (hf : ∀ n : Node, k ∉ n.handles → modify k g (f n) = f' n) {ts : List Node}
    (hk : k ∉ handlesAll ts) : modifyAll k g (modifyAll h f ts) = modifyAll h f' ts := by
  match ts with
  | [] => rfl
  | t :: ts =>
    rw [handlesAll_cons, List.mem_append, not_or] at hk
    rw [modifyAll, modifyAll, modifyAll, modify_modify_of_notMem hf hk.1,
      modifyAll_modifyAll_of_notMem hf hk.2]

end

theorem modifyAll_append (h : Handle) (f : Node → Node) (ts us : List Node) :
    modifyAll h f (ts ++ us) = modifyAll h f ts ++ modifyAll h f us := by
  induction ts with
  | nil => rfl
  | cons t ts ih => rw [List.cons_append, modifyAll, modifyAll, ih, List.cons_append]

/-- A change of a child that has been put in. -/
theorem modify_addChild (leaf : Node) {n : Node} (hleaf : leaf.handle ∉ n.handles) :
    modify leaf.handle g (addChild leaf n) = addChild (g leaf) n := by
  obtain ⟨s, ts⟩ := n
  rw [handles_node, List.mem_cons, not_or] at hleaf
  rw [addChild, label_node, children_node, modify, if_neg (Ne.symm hleaf.1), modifyAll_append,
    modifyAll_of_notMem hleaf.2, modifyAll, modifyAll, modify_handle]
  rfl

end Node

theorem Markup.AreRead.append {top : Bool} {ts us : List (Tree Content)} (hts : AreRead top ts)
    (hus : AreRead top us) : AreRead top (ts ++ us) := by
  induction ts with
  | nil => exact hus
  | cons t ts ih => exact ⟨hts.1, ih hts.2⟩

/-! ## The element of a copy -/

namespace Copied

/-- The text inside the element that a copy makes. -/
def texts (c : Copied) : List (Tree Content) := c.text?.toList.map fun text ↦ .node (.text text) []

/-- The node that a copy makes, with its text inside. -/
def node (c : Copied) (next : Handle) : Node :=
  .node ⟨next, .element c.element⟩ (c.text?.toList.map fun text ↦ .node ⟨next + 1, .text text⟩ [])

theorem bare_node (c : Copied) (next : Handle) :
    (c.node next).bare = .node (.element c.element) c.texts := by
  rw [node, Node.bare_node, texts]
  cases c.text? <;> rfl

/-- The element of a copy has no id. -/
theorem id?_element (c : Copied) : c.element.id? = none := by
  rw [element, Element.id?, Element.get?, List.find?_eq_none.2]
  · rfl
  · intro a ha
    have hkeeps := (List.mem_filter.1 ha).2
    simp only [keeps, Bool.and_eq_true, bne_iff_ne, ne_eq] at hkeeps
    simpa using hkeeps.2.1

end Copied

namespace Document

variable {d : Document}

/-- **A copy is put in by one change** of the element it is put into. -/
theorem topLevel_insertCopy (hfresh : d.next ∉ Node.handlesAll d.topLevel) (parent : Handle)
    (c : Copied) : (d.insertCopy parent c).topLevel
      = Node.modifyAll parent (Node.addChild (c.node d.next)) d.topLevel := by
  rw [insertCopy, Copied.node]
  cases c.text? with
  | none => rfl
  | some text =>
    exact Node.modifyAll_modifyAll_of_notMem (fun _ ↦
      Node.modify_addChild (.node ⟨d.next, .element c.element⟩ [])) hfresh

/-- A document stays sound when a copy of ordinary elements is put into one of its elements. -/
theorem IsSound.insertCopy (h : d.IsSound) (hfresh : d.next ∉ Node.handlesAll d.topLevel)
    (hnodup : (Node.handlesAll d.topLevel).Nodup) {n : Node} (hn : n ∈ subtreesAll d.topLevel)
    (helement : n.isElement = true) {c : Copied}
    (hc : c.IsOrdinary fun k ↦ Xml.IsName k.toList) : (d.insertCopy n.handle c).IsSound := by
  have hlegal := hc.element
  have htexts : AreRead false c.texts := by
    rw [Copied.texts]
    cases c.text? with
    | none => exact trivial
    | some text => exact ⟨rfl, trivial⟩
  refine h.of_modifyAll (topLevel_insertCopy hfresh n.handle c) ?_ ?_ ?_
  · intro m hm hhandle top hread
    obtain rfl := Node.eq_of_handle_eq_all hnodup hm hn hhandle
    obtain ⟨⟨k, content⟩, ts⟩ := m
    obtain ⟨e, rfl⟩ := content.eq_element_or.resolve_right fun hc ↦ by
      cases hc.symm.trans helement
    rw [Node.bare_node] at hread
    rw [Node.addChild, label_node, children_node, Node.bare_node, List.map_append,
      List.map_singleton, Copied.bare_node]
    exact ⟨hread.1, hread.2.append ⟨⟨hlegal.nodup, htexts⟩, trivial⟩⟩
  · rintro ⟨s, ts⟩ hnamed
    rw [Node.bare_node, preorder, List.forall_mem_cons] at hnamed
    rw [Node.addChild, label_node, children_node, Node.bare_node, List.map_append,
      List.map_singleton, Copied.bare_node, preorder, preorderAll_append, List.forall_mem_cons,
      List.forall_mem_append]
    refine ⟨hnamed.1, hnamed.2, ?_⟩
    rw [preorderAll, preorderAll, List.append_nil, preorder, List.forall_mem_cons, Copied.texts]
    refine ⟨⟨hlegal.isName, hlegal.keys⟩, ?_⟩
    cases c.text? with
    | none => exact List.forall_mem_nil _
    | some text => exact fun _ hmem ↦ List.mem_singleton.1 hmem ▸ trivial
  · rintro ⟨s, ts⟩
    rw [Node.addChild, label_node, children_node, Node.bare_node, Node.bare_node, label_node,
      label_node]

end Document

/-- The next handle of a drawing is one that no node has. -/
theorem Drawing.next_notMem_of_parse {text : String} {p : Drawing} (hparse : parse text = .ok p) :
    p.document.next ∉ Node.handlesAll p.document.topLevel := by
  obtain ⟨-, m, -, rfl⟩ := exists_markup_of_parse hparse
  have hnext : (ofDocument (.ofMarkup m)).document.next = sizeAll m := by
    have hsize := Document.numberAll_snd 0 m
    rw [Nat.zero_add] at hsize
    cases hroot : (Document.ofMarkup m).root? with
    | none => rw [ofDocument_of_root?_eq_none hroot]; exact hsize
    | some root => rw [ofDocument_of_root? hroot]; exact hsize
  rw [handlesAll_ofDocument, Document.topLevel_ofMarkup, Document.handlesAll_numberAll, hnext]
  simp

end SvgWorkbench
