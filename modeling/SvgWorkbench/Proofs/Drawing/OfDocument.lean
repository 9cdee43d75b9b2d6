import SvgWorkbench.Proofs.Drawing.Identify

/-!
# The drawing of a document

Ids are given out below the root only. The rest of the document stays as it is, so the drawing's
document has the markup of the document with some ids added, and the drawing's components are the
components of that markup. A document whose elements all have ids below the root is its own drawing.
-/

namespace SvgWorkbench

open SvgWorkbench.Tree

/-! ## Changing one node -/

namespace Node

mutual

/-- A change of one node that keeps to a relation keeps the whole document to it. -/
theorem rel_modify {R : Slot → Slot → Prop} (hrefl : ∀ s, R s s) {h : Handle} {f : Node → Node}
    {t : Node} (hf : ∀ n : Node, n ∈ t.subtrees → n.handle = h → Rel R n (f n)) :
    Rel R t (modify h f t) := by
  match t with
  | .node s ts =>
    rw [modify]
    split
    · next hs => exact hf _ List.mem_cons_self hs
    · exact ⟨hrefl _, relAll_modifyAll hrefl fun n hn ↦ hf n (List.mem_cons_of_mem _ hn)⟩

theorem relAll_modifyAll {R : Slot → Slot → Prop} (hrefl : ∀ s, R s s) {h : Handle}
    {f : Node → Node} {ts : List Node}
    (hf : ∀ n : Node, n ∈ subtreesAll ts → n.handle = h → Rel R n (f n)) :
    RelAll R ts (modifyAll h f ts) := by
  match ts with
  | [] => exact trivial
  | t :: ts =>
    rw [modifyAll]
    exact ⟨rel_modify hrefl fun n hn ↦ hf n (List.mem_append_left _ hn),
      relAll_modifyAll hrefl fun n hn ↦ hf n (List.mem_append_right _ hn)⟩

end

/-- Whether a node is an element whose tag is `svg`. -/
def isRoot (n : Node) : Bool := Markup.isRoot n.label.content

theorem isElement_of_isRoot {n : Node} (h : n.isRoot = true) : n.isElement = true := by
  obtain ⟨⟨k, c⟩, ts⟩ := n
  cases c <;> first | rfl | cases h

theorem find?_elements_of_isRoot {n : Node} (h : n.isRoot = true) :
    n.elements.find? isRoot = some n := by
  obtain ⟨s, ts⟩ := n
  have hs : s.content.isElement = true := isElement_of_isRoot h
  rw [elements, if_pos hs, List.find?_cons_of_pos h]

mutual

/-- The first root of a tree after a root of it has been changed into a root. -/
theorem find?_elements_modify {h : Handle} {f : Node → Node} {t : Node}
    (hf : ∀ n : Node, n ∈ t.subtrees → n.handle = h → n.isRoot = true ∧ (f n).isRoot = true) :
    (modify h f t).elements.find? isRoot = (t.elements.find? isRoot).map (modify h f) := by
  match t with
  | .node s ts =>
    -- the node that is changed is a root, so at the top of the tree it is the one that is found
    by_cases hs : s.handle = h
    · obtain ⟨hroot, hroot'⟩ := hf _ List.mem_cons_self hs
      rw [modify, if_pos hs, find?_elements_of_isRoot hroot', find?_elements_of_isRoot hroot,
        Option.map_some, modify, if_pos hs]
    · rw [modify, if_neg hs, elements, elements]
      split
      · by_cases hroot : isRoot (.node s ts) = true
        · have hroot' : isRoot (.node s (modifyAll h f ts)) = true := hroot
          rw [List.find?_cons_of_pos hroot, List.find?_cons_of_pos hroot', Option.map_some, modify,
            if_neg hs]
        · have hroot' : ¬ isRoot (.node s (modifyAll h f ts)) = true := hroot
          rw [List.find?_cons_of_neg hroot, List.find?_cons_of_neg hroot',
            find?_elementsAll_modifyAll fun n hn ↦ hf n (List.mem_cons_of_mem _ hn)]
      · rfl

theorem find?_elementsAll_modifyAll {h : Handle} {f : Node → Node} {ts : List Node}
    (hf : ∀ n : Node, n ∈ subtreesAll ts → n.handle = h → n.isRoot = true ∧ (f n).isRoot = true) :
    (elementsAll (modifyAll h f ts)).find? isRoot
      = ((elementsAll ts).find? isRoot).map (modify h f) := by
  match ts with
  | [] => rfl
  | t :: ts =>
    rw [modifyAll, elementsAll, elementsAll, List.find?_append, List.find?_append,
      find?_elements_modify fun n hn ↦ hf n (List.mem_append_left _ hn),
      find?_elementsAll_modifyAll fun n hn ↦ hf n (List.mem_append_right _ hn), Option.map_or]

end

mutual

/-- What stands in a node of a tree stands in the tree. -/
theorem mem_preorder_bare {n t : Node} {c : Content} (hn : n ∈ t.subtrees)
    (hc : c ∈ n.bare.preorder) : c ∈ t.bare.preorder := by
  match t with
  | .node s ts =>
    rcases List.mem_cons.1 hn with rfl | hn
    · exact hc
    · rw [bare_node, preorder]
      exact List.mem_cons_of_mem _ (mem_preorderAll_map_bare hn hc)

theorem mem_preorderAll_map_bare {n : Node} {ts : List Node} {c : Content}
    (hn : n ∈ subtreesAll ts) (hc : c ∈ n.bare.preorder) : c ∈ preorderAll (ts.map bare) := by
  match ts with
  | [] => cases hn
  | t :: ts =>
    rw [List.map_cons, preorderAll]
    rcases List.mem_append.1 hn with hn | hn
    · exact List.mem_append_left _ (mem_preorder_bare hn hc)
    · exact List.mem_append_right _ (mem_preorderAll_map_bare hn hc)

end

end Node

/-! ## Documents of markup -/

namespace Drawing

open Document

variable {m : Markup}

/-- The root of a document is one of its nodes, and the only one of its handle. -/
private theorem eq_of_handle_eq_root {root : Node} (hroot : (ofMarkup m).root? = some root)
    {n : Node} (hn : n ∈ subtreesAll (ofMarkup m).topLevel) (h : n.handle = root.handle) :
    n = root :=
  Node.eq_of_handle_eq_all (nodup_handlesAll_ofMarkup m) hn
    (Node.mem_subtreesAll_of_mem_elementsAll (List.mem_of_find?_eq_some hroot)) h

theorem isRoot_of_root? {d : Document} {root : Node} (h : d.root? = some root) :
    root.isRoot = true := List.find?_some h

private theorem isRoot_name {root : Node} (h : root.isRoot = true) (parent scope : Option String)
    (naming : Naming) : (name parent scope naming root).2.1.isRoot = true := by
  obtain ⟨⟨k, c⟩, ts⟩ := root
  rcases c.eq_element_or with ⟨e, rfl⟩ | hc
  · rw [name_element]
    simpa [Node.isRoot, Markup.isRoot, Content.element?] using h
  · rwa [name_of_isElement_eq_false hc]

/-- The drawing of a document with a root: the root is named. -/
theorem ofDocument_of_root? {d : Document} {root : Node} (h : d.root? = some root) :
    ofDocument d =
      let r := name none none (Naming.ofIds d.ids) root
      ⟨d.modify root.handle fun _ ↦ r.2.1, r.1⟩ := by
  rw [ofDocument, h]

theorem ofDocument_of_root?_eq_none {d : Document} (h : d.root? = none) :
    ofDocument d = ⟨d, []⟩ := by
  rw [ofDocument, h]

/-- Naming a root changes nothing in the document but that root. -/
theorem relAll_modify_root {R : Slot → Slot → Prop} (hrefl : ∀ s, R s s) {root named : Node}
    (hroot : (ofMarkup m).root? = some root) (hnamed : Rel R root named) :
    RelAll R (ofMarkup m).topLevel (Node.modifyAll root.handle (fun _ ↦ named)
      (ofMarkup m).topLevel) := by
  refine Node.relAll_modifyAll hrefl fun n hn hhandle ↦ ?_
  obtain rfl := eq_of_handle_eq_root hroot hn hhandle
  exact hnamed

/-- **The drawing's document is the document with some ids added.** -/
theorem relAll_topLevel_ofDocument {good : String → Prop} {P : Element → Prop}
    (hgives : GivesGood good P) (hP : ∀ e, .element e ∈ preorderAll m → P e) :
    RelAll (SlotGiven good) (ofMarkup m).topLevel (ofDocument (ofMarkup m)).document.topLevel := by
  cases hroot : (ofMarkup m).root? with
  | none =>
    rw [ofDocument_of_root?_eq_none hroot]
    exact relAll_refl .same _
  | some root =>
    have hmem := Node.mem_subtreesAll_of_mem_elementsAll (List.mem_of_find?_eq_some hroot)
    rw [ofDocument_of_root? hroot]
    refine relAll_modify_root .same hroot (rel_name hgives root (fun e he ↦ hP e ?_) none none
      (by simp) _)
    rw [← markup_ofMarkup m]
    exact Node.mem_preorderAll_map_bare hmem he

/-- The drawing's markup is the markup with some ids added. -/
theorem relAll_ofDocument {good : String → Prop} {P : Element → Prop} (hgives : GivesGood good P)
    (hP : ∀ e, .element e ∈ preorderAll m → P e) :
    RelAll (IdGiven good) m (ofDocument (ofMarkup m)).document.markup := by
  conv => arg 2; rw [← markup_ofMarkup m]
  exact relAll_bare (relAll_topLevel_ofDocument hgives hP)

theorem relAll_idGiven_ofDocument (m : Markup) :
    RelAll (IdGiven fun _ ↦ True) m (ofDocument (ofMarkup m)).document.markup :=
  relAll_ofDocument givesGood_true fun _ _ ↦ trivial

/-- Giving out ids leaves the handles. -/
theorem handlesAll_ofDocument (m : Markup) :
    Node.handlesAll (ofDocument (ofMarkup m)).document.topLevel
      = Node.handlesAll (ofMarkup m).topLevel := by
  have hrel := relAll_topLevel_ofDocument (m := m) givesGood_true fun _ _ ↦ trivial
  exact (hrel.map_preorderAll_eq fun _ _ hslot ↦ hslot.handle.symm).symm

/-- No handle of a drawing means two nodes. -/
theorem nodup_handlesAll_ofDocument (m : Markup) :
    (Node.handlesAll (ofDocument (ofMarkup m)).document.topLevel).Nodup := by
  rw [handlesAll_ofDocument]
  exact nodup_handlesAll_ofMarkup m

/-- Nothing has been taken out of a drawing. -/
@[simp] theorem loose_ofDocument (m : Markup) : (ofDocument (ofMarkup m)).document.loose = [] := by
  cases hroot : (ofMarkup m).root? with
  | none => rw [ofDocument_of_root?_eq_none hroot, loose_ofMarkup]
  | some root =>
    rw [ofDocument_of_root? hroot]
    rfl

/-- The root of a drawing is the root of the document after it has been named. -/
theorem root?_ofDocument {root : Node} (hroot : (ofMarkup m).root? = some root) :
    (ofDocument (ofMarkup m)).document.root?
      = some (name none none (Naming.ofIds (ofMarkup m).ids) root).2.1 := by
  have hroots : ∀ n : Node, n ∈ subtreesAll (ofMarkup m).topLevel → n.handle = root.handle →
      n.isRoot = true ∧
        (name none none (Naming.ofIds (ofMarkup m).ids) root).2.1.isRoot = true := by
    intro n hn hhandle
    obtain rfl := eq_of_handle_eq_root hroot hn hhandle
    exact ⟨isRoot_of_root? hroot, isRoot_name (isRoot_of_root? hroot) _ _ _⟩
  have hfind := Node.find?_elementsAll_modifyAll hroots
  have hfind' : (Node.elementsAll (ofMarkup m).topLevel).find? Node.isRoot = some root := hroot
  rw [hfind', Option.map_some, Node.modify_handle] at hfind
  rw [ofDocument_of_root? hroot]
  exact hfind

/-- **The components of a drawing are those of its markup.** -/
theorem components_ofDocument :
    (ofDocument (ofMarkup m)).components
      = Markup.components (ofDocument (ofMarkup m)).document.markup := by
  rw [Markup.components, root?_markup]
  cases hroot : (ofMarkup m).root? with
  | none =>
    rw [ofDocument_of_root?_eq_none hroot, hroot]
    rfl
  | some root =>
    rw [root?_ofDocument hroot, ofDocument_of_root? hroot]
    exact name_fst_eq_view root none none _

/-- Every element of a drawing has an id, from the root on. -/
theorem hasIds_ofDocument {root : Tree Content}
    (h : Markup.root? (ofDocument (ofMarkup m)).document.markup = some root) :
    Markup.HasIds root := by
  rw [root?_markup] at h
  cases hroot : (ofMarkup m).root? with
  | none =>
    rw [ofDocument_of_root?_eq_none hroot, hroot] at h
    cases h
  | some root' =>
    rw [root?_ofDocument hroot, Option.map_some, Option.some.injEq] at h
    rw [← h]
    exact hasIds_name root' none none _

/-- **A document in which no id is missing is its own drawing.** -/
theorem ofDocument_of_hasIds (h : ∀ root, Markup.root? m = some root → Markup.HasIds root) :
    ofDocument (ofMarkup m) = ⟨ofMarkup m, Markup.components m⟩ := by
  have hcomponents := components_ofDocument (m := m)
  cases hroot : (ofMarkup m).root? with
  | none =>
    rw [ofDocument_of_root?_eq_none hroot] at hcomponents ⊢
    simpa using hcomponents
  | some root =>
    have hids : Markup.HasIds root.bare := by
      apply h
      have := root?_markup (ofMarkup m)
      rwa [markup_ofMarkup, hroot] at this
    -- from the root on all elements have ids, so the root is put back as it was
    have hself : (ofMarkup m).modify root.handle (fun _ ↦
        (name none none (Naming.ofIds (ofMarkup m).ids) root).2.1) = ofMarkup m := by
      rw [name_snd_of_hasIds root hids, Document.modify, Node.modifyAll_eq_self]
      · rfl
      · intro n hn hhandle
        exact (eq_of_handle_eq_root hroot hn hhandle).symm
    rw [ofDocument_of_root? hroot] at hcomponents ⊢
    simp only [hself, markup_ofMarkup] at hcomponents ⊢
    rw [hcomponents]

end Drawing

end SvgWorkbench
