import SvgWorkbench.Proofs.Component.Lookup
import SvgWorkbench.Proofs.Drawing.Reparse

/-!
# The ids of a drawing are unique

The walk that gives out ids meets the elements of the root in document order. It keeps the ids they
have and gives out names that are free, where all ids of the document are taken from the start: so a
new name is not that of an element that comes later, or stands outside the root. If no two elements
of the root had the same id, no two components have.
-/

namespace SvgWorkbench

open SvgWorkbench.Tree

/-- The elements that a drawing of a document shows, in document order: those of its root. -/
def Document.drawn (d : Document) : List Node := d.root?.elim [] Node.elements

namespace Drawing

/-! ## The walk -/

theorem draws_identify (e : Element) (scope : Option String) (naming : Naming) :
    Draws naming.reserved [e.id?] [(identify e scope naming).1]
      (identify e scope naming).2.2.reserved := by
  rw [identify]
  cases hid : e.id? with
  | some id => exact .keeps (Element.ne_empty_of_id? hid) (.nil _)
  | none => exact .gives (formatId_ne_empty _ _ _) (naming.allocate_fst_notMem _ _) (.nil _)

mutual

/-- **The walk keeps ids and gives out free names**, in document order. -/
theorem draws_name (n : Node) (parent scope : Option String) (naming : Naming) :
    Draws naming.reserved (n.elements.map Node.id?)
      ((subtreesAll (name parent scope naming n).1).map Component.id)
      (name parent scope naming n).2.2.reserved := by
  match n with
  | .node ⟨h, c⟩ ts =>
    rcases c.eq_element_or with ⟨e, rfl⟩ | hc
    · have hchildren := draws_nameAll ts (some (identify e scope naming).1)
        (parent.map fun _ ↦ (identify e scope naming).1) (identify e scope naming).2.2
      rw [name_element, Node.elements_element]
      simp only [subtreesAll, subtrees, List.append_nil, List.map_cons]
      -- the children start from the names that are taken once the element has its own
      exact (draws_identify e scope naming).append hchildren
    · rw [name_of_isElement_eq_false hc, Node.elements_of_isElement_eq_false hc]
      exact .nil _

theorem draws_nameAll (ns : List Node) (parent scope : Option String) (naming : Naming) :
    Draws naming.reserved ((Node.elementsAll ns).map Node.id?)
      ((subtreesAll (nameAll parent scope naming ns).1).map Component.id)
      (nameAll parent scope naming ns).2.2.reserved := by
  match ns with
  | [] => exact .nil _
  | n :: ns =>
    rw [nameAll_cons, Node.elementsAll, List.map_append]
    simp only [subtreesAll_append, List.map_append]
    exact (draws_name n parent scope naming).append (draws_nameAll ns parent scope _)

end

/-- The ids of a document's drawing are the ids its elements had and new names. -/
theorem nodup_ids_ofDocument {m : Markup}
    (h : ((Document.ofMarkup m).drawn.filterMap Node.id?).Nodup) :
    ((Component.all (ofDocument (Document.ofMarkup m)).components).map Component.id).Nodup := by
  rw [Component.all_eq]
  cases hroot : (Document.ofMarkup m).root? with
  | none =>
    rw [ofDocument_of_root?_eq_none hroot]
    exact .nil
  | some root =>
    rw [Document.drawn, hroot, Option.elim_some] at h
    rw [ofDocument_of_root? hroot]
    refine (draws_name root none none (Naming.ofIds (Document.ofMarkup m).ids)).nodup ?_ ?_
    · intro id hid
      obtain ⟨n, hn, hid⟩ := List.mem_map.1 hid
      exact List.mem_filterMap.2
        ⟨n, Node.mem_elementsAll_trans (List.mem_of_find?_eq_some hroot) hn, hid⟩
    · rwa [List.reduceOption, List.filterMap_map]

/-! ## Drawings of texts -/

/-- Every component of a drawing has an id. -/
theorem id_ne_empty {markup : String} {p : Drawing} (h : parse markup = .ok p) {c : Component}
    (hc : c ∈ subtreesAll p.components) : c.id ≠ "" := by
  obtain ⟨-, m, -, rfl⟩ := exists_markup_of_parse h
  cases hroot : (Document.ofMarkup m).root? with
  | none =>
    rw [ofDocument_of_root?_eq_none hroot] at hc
    cases hc
  | some root =>
    rw [ofDocument_of_root? hroot] at hc
    have hdraws := draws_name root none none (Naming.ofIds (Document.ofMarkup m).ids)
    exact hdraws.ne_empty _ (List.mem_map_of_mem hc)

/-- Whether the ids of a drawing are those of a document, with names that are free where there are
none. -/
structure IsUniquelyNamed (d : Document) (p : Drawing) : Prop where
  /-- No two components have the same id. -/
  nodup : ((Component.all p.components).map Component.id).Nodup
  /-- No component has an empty id. -/
  ne_empty : ∀ c ∈ Component.all p.components, c.id ≠ ""
  /-- An element that has an id keeps it, and the name of another one is no id in the document. -/
  ids : List.Forall₂ (fun (n : Node) (c : Component) ↦ n.id? = some c.id ∨
    n.id? = none ∧ c.id ∉ d.ids) d.drawn (Component.all p.components)

/-- **No id of a drawing occurs twice** if no two elements of the root have the same id. -/
theorem isUniquelyNamed_of_parse {markup : String} {p : Drawing} (h : parse markup = .ok p)
    {d : Document} (hread : Document.read markup = .ok d)
    (hdistinct : (d.drawn.filterMap Node.id?).Nodup) : IsUniquelyNamed d p := by
  obtain ⟨-, m, hm, rfl⟩ := exists_markup_of_parse h
  obtain ⟨m', hm', rfl⟩ := Document.read_eq_ok_iff.1 hread
  cases hm.symm.trans hm'
  cases hroot : (Document.ofMarkup m).root? with
  | none =>
    rw [ofDocument_of_root?_eq_none hroot]
    refine ⟨.nil, nofun, ?_⟩
    rw [Document.drawn, hroot]
    exact .nil
  | some root =>
    have hdrawn : (Document.ofMarkup m).drawn = root.elements := by
      rw [Document.drawn, hroot, Option.elim_some]
    rw [hdrawn] at hdistinct
    rw [ofDocument_of_root? hroot]
    have hdraws := draws_name root none none (Naming.ofIds (Document.ofMarkup m).ids)
    -- all ids of the document are taken from the start, so a name given out early is no later id
    have htaken : ∀ id, some id ∈ root.elements.map Node.id? → id ∈ (Document.ofMarkup m).ids := by
      intro id hid
      obtain ⟨n, hn, hid⟩ := List.mem_map.1 hid
      exact List.mem_filterMap.2
        ⟨n, Node.mem_elementsAll_trans (List.mem_of_find?_eq_some hroot) hn, hid⟩
    have hkept : (root.elements.map Node.id?).reduceOption.Nodup := by
      rwa [List.reduceOption, List.filterMap_map]
    have hnodup := hdraws.nodup htaken hkept
    rw [← Component.all_eq] at hdraws hnodup
    refine ⟨hnodup, fun c hc ↦ hdraws.ne_empty _ (List.mem_map_of_mem hc), ?_⟩
    rw [hdrawn]
    have hids := hdraws.forall₂
    rwa [List.forall₂_map_left_iff, List.forall₂_map_right_iff] at hids

/-- The name that would be given to the first rectangle is the id of the second one. -/
theorem isUniquelyNamed_of_taken_name :
    ∃ p d, parse "<svg><rect/><rect id=\"rect-0\"/></svg>" = .ok p ∧
      Document.read "<svg><rect/><rect id=\"rect-0\"/></svg>" = .ok d ∧ IsUniquelyNamed d p := by
  have hmarkup : Markup.read "<svg><rect/><rect id=\"rect-0\"/></svg>"
      = .ok [.node (.element ⟨"svg", []⟩) [.node (.element ⟨"rect", []⟩) [],
        .node (.element ⟨"rect", [("id", "rect-0")]⟩) []]] := by cbv
  have hparse := parse_of_read (s := "<svg><rect/><rect id=\"rect-0\"/></svg>") (by cbv) hmarkup
  have hread := Document.read_eq_ok_iff.2 ⟨_, hmarkup, rfl⟩
  exact ⟨_, _, hparse, hread, isUniquelyNamed_of_parse hparse hread (by decide)⟩

end Drawing

end SvgWorkbench
