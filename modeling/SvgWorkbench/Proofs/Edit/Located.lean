import SvgWorkbench.Proofs.Drawing.Altered
import SvgWorkbench.Proofs.Edit.Unique

/-!
# The element of a component

An id means a component, and the component has an element in the root. The component of the root
stands alone at the top.
-/

namespace SvgWorkbench

open SvgWorkbench.Tree Markup Component

namespace Drawing

variable {p : Drawing} {text id : String} {c : Component} {root : Node}

/-- The component of the root is the only one that is not inside another one. -/
theorem exists_components_of_root? (hparse : parse text = .ok p)
    (hroot : p.document.root? = some root) :
    ∃ x, p.components = [x] ∧ root.id? = some x.id := by
  obtain ⟨e, id, he, hid, -, hcomponents⟩ := exists_element_of_root? hparse hroot
  refine ⟨_, hcomponents, ?_⟩
  rw [Node.id?_of_content he, hid]
  exact congrArg some (congrArg (Option.getD · "") hid).symm

/-- **What an id means is the component of an element of the root**: it has the id of the element, and
shows what the element has. -/
theorem exists_element_of_find? (hparse : parse text = .ok p)
    (hfind : find? p.components id = some c) : ∃ root n e, p.document.root? = some root ∧
      n ∈ root.elements ∧ n.content = .element e ∧ e.id? = some c.id ∧
      c.attributes = Markup.attributesOf e (n.children.map Node.bare) := by
  have hmem : c ∈ all p.components := all_eq p.components ▸ mem_of_find? hfind
  have hlabel : c.label ∈ preorderAll p.components := by
    rw [← map_label_subtreesAll]
    exact List.mem_map_of_mem (mem_of_find? hfind)
  cases hroot : p.document.root? with
  | none =>
    rw [components_of_parse hparse, Markup.components, Document.root?_markup, hroot] at hmem
    cases hmem
  | some root =>
    -- the components go with those of the same document, whose entries are made of elements
    have hentries : RelAll (Node.Redrawn root.elements Slot.content fun own ↦ own)
        p.document.markup.components
        (Markup.components (mapAll Slot.content p.document.topLevel)) := by
      apply Document.relAll_components_mapAll (fun s ↦ .same s.content) hroot
      intro m _ e e' he he'
      rw [Content.element.inj (he.symm.trans he')]
    rw [components_of_parse hparse] at hlabel
    obtain ⟨b, -, n, hn, e, e', parent, he, -, hentry, -⟩ := hentries.exists_of_mem hlabel
    -- no component is without an id, so no default has been taken
    have hne : c.id ≠ "" := (headings_ne_empty hparse _ (List.mem_map_of_mem hmem)).1
    have hid : c.id = e.id?.getD "" := congrArg Entry.id hentry
    refine ⟨root, n, e, rfl, hn, he, ?_, congrArg Entry.attributes hentry⟩
    cases hown : e.id? with
    | none => exact absurd (hid.trans (by rw [hown]; rfl)) hne
    | some own => rw [hid, hown, Option.getD_some]

/-- What an id means has an element in the root, and the element is found. -/
theorem exists_locate?_of_find? (hparse : parse text = .ok p)
    (hfind : find? p.components id = some c) : ∃ root n, p.document.root? = some root ∧
      n ∈ root.elements ∧ n.id? = some c.id ∧ p.locate? id = some n := by
  obtain ⟨root, m, e, hroot, hm, he, hown, -⟩ := exists_element_of_find? hparse hfind
  have hmid : m.id? = some c.id := (Node.id?_of_content he).trans hown
  obtain ⟨n, hn⟩ := Option.isSome_iff_exists.1
    (List.find?_isSome.2 ⟨m, hm, beq_iff_eq.2 hmid⟩ :
      (root.elements.find? fun m ↦ m.id? == some c.id).isSome = true)
  have hnid := List.find?_some hn
  rw [beq_iff_eq] at hnid
  refine ⟨root, n, hroot, List.mem_of_find?_eq_some hn, hnid, ?_⟩
  rw [locate?, hfind, Option.bind_some, Document.find?, hroot, Option.bind_some]
  exact hn

end Drawing

end SvgWorkbench
