import SvgWorkbench.Proofs.Component.Place
import SvgWorkbench.Proofs.Drawing.Unique
import SvgWorkbench.Proofs.Markup.Kind

/-!
# Generated names tell places

The walk that gives out ids counts the elements of each type in each scope, those with an id of
their own included. As no two ids are the same no two scopes are, so what it counts is the place of an
element, and an element without an id is named after its place unless that name was taken. Nothing
can have taken it but an id of the document, if types have no hyphens: then a name can be read in
one way only. The other way round, the name of a place finds the component there, whoever has given
it its id.
-/

namespace SvgWorkbench

open Text SvgWorkbench.Tree

/-! ## What a naming has counted -/

namespace Naming

theorem count_setCount (n : Naming) (kind kind' : String) (scope scope' : Option String)
    (count : Nat) :
    (n.setCount kind scope count).count kind' scope'
      = if (scope, kind) = (scope', kind') then count else n.count kind' scope' := by
  rw [Naming.count, setCount]
  by_cases h : (scope, kind) = (scope', kind')
  · rw [if_pos h, List.find?_cons_of_pos (by simpa using h)]
    rfl
  · rw [if_neg h, List.find?_cons_of_neg (by simpa using h), List.find?_filter, Naming.count]
    congr 3
    funext c
    by_cases hc : c.1 = (scope', kind')
    · simp [hc, Ne.symm h]
    · simp [hc]

/-- Whether the names that are taken are ids of a document and names of elements that have been
counted. -/
def HasTaken (ids : List String) (n : Naming) : Prop :=
  ∀ id ∈ n.reserved, id ∈ ids ∨ ∃ kind scope ordinal, '-' ∉ kind.toList ∧
    ordinal < n.count kind scope ∧ id = formatId kind scope ordinal

theorem hasTaken_ofIds (ids : List String) : (ofIds ids).HasTaken ids := fun _ h ↦ .inl h

theorem count_skip (n : Naming) (kind kind' : String) (scope scope' : Option String) :
    (n.skip kind scope).count kind' scope'
      = n.count kind' scope' + if (scope, kind) = (scope', kind') then 1 else 0 := by
  rw [skip, count_setCount]
  by_cases h : (scope, kind) = (scope', kind')
  · cases h
    rw [if_pos rfl, if_pos rfl]
  · rw [if_neg h, if_neg h, Nat.add_zero]

/-- Counting an element keeps the names that are taken among those that have been counted. -/
theorem HasTaken.skip {ids : List String} {n : Naming} (h : n.HasTaken ids) (kind : String)
    (scope : Option String) : (n.skip kind scope).HasTaken ids := by
  intro id hid
  refine (h id hid).imp_right ?_
  rintro ⟨kind', scope', ordinal, hkind, hordinal, rfl⟩
  refine ⟨kind', scope', ordinal, hkind, ?_, rfl⟩
  rw [count_skip]
  exact Nat.lt_of_lt_of_le hordinal (Nat.le_add_right _ _)

/-- If the name of the next number is no id of the document it is free. -/
theorem HasTaken.freeOrdinal_eq {ids : List String} {n : Naming} (h : n.HasTaken ids)
    {kind : String} {scope : Option String} (hkind : '-' ∉ kind.toList)
    (hfree : formatId kind scope (n.count kind scope) ∉ ids) :
    n.freeOrdinal kind scope = n.count kind scope := by
  have hnotMem : formatId kind scope (n.count kind scope) ∉ n.reserved := by
    intro hmem
    rcases h _ hmem with hid | ⟨kind', scope', ordinal, hkind', hordinal, heq⟩
    · exact hfree hid
    · obtain ⟨rfl, rfl, rfl⟩ := formatId_inj hkind hkind' heq
      omega
  rw [freeOrdinal]
  simp only [List.range'_succ]
  rw [List.find?_cons_of_pos (by simpa using hnotMem), Option.getD_some]

/-- A name given out under the count is counted from then on. -/
theorem HasTaken.allocate {ids : List String} {n : Naming} (h : n.HasTaken ids) {kind : String}
    {scope : Option String} (hkind : '-' ∉ kind.toList)
    (hfree : formatId kind scope (n.count kind scope) ∉ ids) :
    (n.allocate kind scope).1 = formatId kind scope (n.count kind scope) ∧
      (n.allocate kind scope).2.counters = (n.skip kind scope).counters ∧
      (n.allocate kind scope).2.HasTaken ids := by
  rw [Naming.allocate, h.freeOrdinal_eq hkind hfree]
  refine ⟨rfl, rfl, ?_⟩
  intro id hid
  rcases List.mem_cons.1 hid with rfl | hid
  · refine .inr ⟨kind, scope, n.count kind scope, hkind, ?_, rfl⟩
    have hcount := n.count_skip kind kind scope scope
    rw [if_pos rfl] at hcount
    exact Nat.lt_of_lt_of_eq (Nat.lt_succ_self _) hcount.symm
  · exact h.skip kind scope id hid

end Naming

namespace Drawing

open Component

/-! ## The walk along the places -/

/-- Giving an id counts the element in its scope, and a new id has the number that was counted so
far. -/
theorem identify_of_hasTaken {ids : List String} {naming : Naming} (h : naming.HasTaken ids)
    {e : Element} {scope : Option String} (hkind : '-' ∉ e.kind.toList)
    (hfree : e.id? = none → formatId e.kind scope (naming.count e.kind scope) ∉ ids) :
    (e.id? = none → (identify e scope naming).1
        = formatId e.kind scope (naming.count e.kind scope)) ∧
      (identify e scope naming).2.2.counters = (naming.skip e.kind scope).counters ∧
      (identify e scope naming).2.2.HasTaken ids := by
  rw [identify]
  cases hid : e.id? with
  | some id => exact ⟨by rintro ⟨⟩, rfl, h.skip e.kind scope⟩
  | none =>
    obtain ⟨hname, hrest⟩ := h.allocate hkind (hfree hid)
    exact ⟨fun _ ↦ hname, hrest⟩

/-- What the walk that gives out ids does along some elements, with the places of their
components: it counts each in its scope and gives it the id that follows. -/
inductive Walks : Naming → List Node → List Place → Naming → Prop where
  /-- Nothing is met. -/
  | nil (naming : Naming) : Walks naming [] [] naming
  /-- An element is met in the scope of its place. -/
  | cons {naming naming' : Naming} {n : Node} {e : Element} {ns : List Node} {x : Place}
    {xs : List Place} (helement : n.element? = some e) (hkind : x.component.kind = e.kind)
    (hid : x.component.id = (identify e x.scope naming).1)
    (h : Walks (identify e x.scope naming).2.2 ns xs naming') :
    Walks naming (n :: ns) (x :: xs) naming'

namespace Walks

variable {naming naming' naming'' : Naming} {ns ms : List Node} {xs ys : List Place}

theorem append (h : Walks naming ns xs naming') (h' : Walks naming' ms ys naming'') :
    Walks naming (ns ++ ms) (xs ++ ys) naming'' := by
  induction h with
  | nil => exact h'
  | cons helement hkind hid _ ih => exact .cons helement hkind hid (ih h')

/-- Every type is that of an element. -/
theorem exists_kind_eq (h : Walks naming ns xs naming') :
    ∀ x ∈ xs, ∃ e : Element, x.component.kind = e.kind := by
  induction h with
  | nil => exact nofun
  | cons _ hkind _ _ ih => exact List.forall_mem_cons.2 ⟨⟨_, hkind⟩, ih⟩

/-- **What has no id is named after its place**, if the places are counted through and their names
are no ids of the document. -/
theorem positional {ids : List String} {keys : List (Option String × String)}
    (h : Walks naming ns xs naming')
    (hcount : ∀ kind scope, naming.count kind scope = keys.count (scope, kind))
    (hnumbered : AreNumbered keys xs) (htaken : naming.HasTaken ids)
    (hkinds : ∀ x ∈ xs, '-' ∉ x.component.kind.toList)
    (hfree : List.Forall₂ (fun (n : Node) (x : Place) ↦ n.id? = none → x.name ∉ ids) ns xs) :
    List.Forall₂ (fun (n : Node) (x : Place) ↦ n.id? = none → x.component.id = x.name) ns xs := by
  induction h generalizing keys with
  | nil => exact .nil
  | @cons naming naming' n e ns x xs helement hkind hid h ih =>
    obtain ⟨hname, hfree⟩ := List.forall₂_cons.1 hfree
    rw [List.forall_mem_cons] at hkinds
    have hown : n.id? = e.id? := by rw [Node.id?, helement, Option.bind_some]
    have hplace : x.name = formatId e.kind x.scope (naming.count e.kind x.scope) := by
      rw [Place.name, hnumbered.1, hcount, Place.key, hkind]
    rw [hown, hplace] at hname
    obtain ⟨hnew, hcounters, htaken⟩ := identify_of_hasTaken htaken (hkind ▸ hkinds.1) hname
    refine .cons (fun hnone ↦ ?_) (ih (fun kind scope ↦ ?_) hnumbered.2 htaken hkinds.2 hfree)
    · rw [hid, hplace]
      exact hnew (hown ▸ hnone)
    · rw [Naming.count, hcounters, ← Naming.count, Naming.count_skip, hcount, List.count_cons,
        Place.key, hkind]
      simp only [beq_iff_eq]

end Walks

mutual

/-- The walk below the root goes along the places among the siblings. -/
theorem walks_name (n : Node) (parent : String) (scope : Option String) (before : List String)
    (naming : Naming) :
    Walks naming n.elements (placesAmong scope before (name (some parent) scope naming n).1)
      (name (some parent) scope naming n).2.2 := by
  match n with
  | .node ⟨h, c⟩ ts =>
    rcases c.eq_element_or with ⟨e, rfl⟩ | hc
    · have hchildren := walks_nameAll ts (identify e scope naming).1
        (some (identify e scope naming).1) [] (identify e scope naming).2.2
      rw [name_element, Node.elements_element]
      simp only [placesAmong, placesAt, List.append_nil]
      exact .cons rfl (kind_identify e scope naming) rfl hchildren
    · rw [name_of_isElement_eq_false hc, Node.elements_of_isElement_eq_false hc]
      exact .nil _

theorem walks_nameAll (ns : List Node) (parent : String) (scope : Option String)
    (before : List String) (naming : Naming) :
    Walks naming (Node.elementsAll ns)
      (placesAmong scope before (nameAll (some parent) scope naming ns).1)
      (nameAll (some parent) scope naming ns).2.2 := by
  match ns with
  | [] => exact .nil _
  | n :: ns =>
    rw [nameAll_cons, Node.elementsAll, placesAmong_append]
    exact (walks_name n parent scope before naming).append (walks_nameAll ns parent scope _ _)

end

/-- The walk from the root goes along the places of its component. -/
theorem walks_name_root {root : Node} (hroot : root.isElement = true) (naming : Naming) :
    ∃ c, (name none none naming root).1 = [c] ∧
      Walks naming root.elements (places [c]) (name none none naming root).2.2 := by
  obtain ⟨⟨h, c⟩, ts⟩ := root
  have hc : c.isElement = true := hroot
  obtain ⟨e, rfl⟩ := c.eq_element_or.resolve_right (by simp [hc])
  have hchildren := walks_nameAll ts (identify e none naming).1 none [e.kind]
    (identify e none naming).2.2
  rw [name_element, Node.elements_element]
  refine ⟨_, rfl, ?_⟩
  rw [places, List.flatMap_cons, List.flatMap_nil, List.append_nil]
  refine .cons rfl (kind_identify e none naming) rfl ?_
  simpa using hchildren

/-! ## Drawings of texts -/

variable {markup : String} {p : Drawing}

/-- A drawing has one component at the top, if any. -/
theorem components_eq_nil_or_of_parse (h : parse markup = .ok p) :
    p.components = [] ∨ ∃ c, p.components = [c] := by
  obtain ⟨-, m, -, rfl⟩ := exists_markup_of_parse h
  cases hroot : (Document.ofMarkup m).root? with
  | none =>
    rw [ofDocument_of_root?_eq_none hroot]
    exact .inl rfl
  | some root =>
    obtain ⟨c, hc, -⟩ := walks_name_root (Node.isElement_of_isRoot (isRoot_of_root? hroot))
      (Naming.ofIds (Document.ofMarkup m).ids)
    rw [ofDocument_of_root? hroot]
    exact .inr ⟨c, hc⟩

/-- The ids of a drawing are given out along the places of its components. -/
theorem exists_walks_of_parse (h : parse markup = .ok p) {d : Document}
    (hread : Document.read markup = .ok d) :
    ∃ naming, Walks (Naming.ofIds d.ids) d.drawn (places p.components) naming := by
  obtain ⟨-, m, hm, rfl⟩ := exists_markup_of_parse h
  obtain ⟨m', hm', rfl⟩ := Document.read_eq_ok_iff.1 hread
  cases hm.symm.trans hm'
  cases hroot : (Document.ofMarkup m).root? with
  | none =>
    rw [ofDocument_of_root?_eq_none hroot, Document.drawn, hroot]
    exact ⟨_, .nil _⟩
  | some root =>
    obtain ⟨c, hc, hwalks⟩ := walks_name_root (Node.isElement_of_isRoot (isRoot_of_root? hroot))
      (Naming.ofIds (Document.ofMarkup m).ids)
    rw [ofDocument_of_root? hroot, Document.drawn, hroot, Option.elim_some]
    simp only [hc]
    exact ⟨_, hwalks⟩

/-- **An element without an id is named after its place**, if no two elements of the root have the
same id, no type has a hyphen, and no id of the document is the name of such a place. -/
theorem id_eq_name_of_parse (h : parse markup = .ok p) {d : Document}
    (hread : Document.read markup = .ok d) (hdistinct : (d.drawn.filterMap Node.id?).Nodup)
    (hkinds : ∀ c ∈ all p.components, '-' ∉ c.kind.toList)
    (hfree : List.Forall₂ (fun (n : Node) (x : Place) ↦ n.id? = none → x.name ∉ d.ids) d.drawn
      (places p.components)) :
    List.Forall₂ (fun (n : Node) (x : Place) ↦ n.id? = none → x.component.id = x.name) d.drawn
      (places p.components) := by
  obtain ⟨naming, hwalks⟩ := exists_walks_of_parse h hread
  have hnumbered : AreNumbered [] (places p.components) := by
    rcases components_eq_nil_or_of_parse h with hnil | ⟨c, hc⟩
    · rw [hnil]
      exact trivial
    · obtain ⟨-, m, hm, rfl⟩ := exists_markup_of_parse h
      obtain ⟨m', hm', rfl⟩ := Document.read_eq_ok_iff.1 hread
      cases hm.symm.trans hm'
      have hnodup := nodup_ids_ofDocument hdistinct
      rw [hc] at hnodup ⊢
      exact areNumbered_places hnodup
  refine hwalks.positional (fun _ _ ↦ rfl) hnumbered (Naming.hasTaken_ofIds d.ids) ?_ hfree
  intro x hx
  apply hkinds
  rw [← map_component_places]
  exact List.mem_map_of_mem hx

/-- A layer with a named and an unnamed rectangle, and a drawing inside the drawing. -/
theorem id_eq_name_of_layers :
    ∃ p d, parse "<svg><g id=\"a\"><rect id=\"r\"/><rect/></g><svg/></svg>" = .ok p ∧
      Document.read "<svg><g id=\"a\"><rect id=\"r\"/><rect/></g><svg/></svg>" = .ok d ∧
      (all p.components).map Component.id = ["svg-0", "a", "r", "a-rect-1", "svg-1"] ∧
      List.Forall₂ (fun (n : Node) (x : Place) ↦ n.id? = none → x.component.id = x.name) d.drawn
        (places p.components) := by
  have hmarkup : Markup.read "<svg><g id=\"a\"><rect id=\"r\"/><rect/></g><svg/></svg>"
      = .ok [.node (.element ⟨"svg", []⟩) [.node (.element ⟨"g", [("id", "a")]⟩)
        [.node (.element ⟨"rect", [("id", "r")]⟩) [], .node (.element ⟨"rect", []⟩) []],
          .node (.element ⟨"svg", []⟩) []]] := by cbv
  have hparse := parse_of_read (s := "<svg><g id=\"a\"><rect id=\"r\"/><rect/></g><svg/></svg>")
    (by cbv) hmarkup
  have hread := Document.read_eq_ok_iff.2 ⟨_, hmarkup, rfl⟩
  refine ⟨_, _, hparse, hread, ?_, id_eq_name_of_parse hparse hread ?_ ?_ ?_⟩
  · rw [all_eq]
    decide +kernel
  · decide
  · rw [all_eq]
    decide +kernel
  · decide +kernel

/-- Types of a drawing that agree up to letter case are the same. -/
theorem areLowered_of_parse (h : parse markup = .ok p) : AreLowered p.components := by
  obtain ⟨-, m, hm, -⟩ := exists_markup_of_parse h
  obtain ⟨naming, hwalks⟩ := exists_walks_of_parse h (Document.read_eq_ok_iff.2 ⟨m, hm, rfl⟩)
  have hkinds : ∀ c ∈ all p.components, ∃ e : Element, c.kind = e.kind := by
    intro c hc
    rw [← map_component_places] at hc
    obtain ⟨x, hx, rfl⟩ := List.mem_map.1 hc
    exact hwalks.exists_kind_eq x hx
  intro c hc d hd hcase
  obtain ⟨e, he⟩ := hkinds c hc
  obtain ⟨e', he'⟩ := hkinds d hd
  rw [he, he'] at hcase ⊢
  exact Element.eqIgnoringAsciiCase_kind_iff.1 hcase

/-- **The name of a place means the component there**, if no two ids are the same, none is that
name, the type is not empty, and no cut of the type behind the scope is an id. -/
theorem find?_name_of_parse (h : parse markup = .ok p)
    (hnodup : ((all p.components).map Component.id).Nodup) {x : Place}
    (hx : x ∈ places p.components) (hkind : x.component.kind ≠ "")
    (hsize : x.ordinal < UInt64.size) (hfree : ∀ c ∈ all p.components, Component.id c ≠ x.name)
    (hapart : ∀ a b, x.component.kind = a ++ "-" ++ b → b ≠ "" →
      ∀ c ∈ all p.components, Component.id c ≠ inScope x.scope a) :
    find? p.components x.name = some x.component := by
  have hids : ∀ c ∈ all p.components, Component.id c ≠ "" := by
    intro c hc
    rw [all_eq] at hc
    exact id_ne_empty h hc
  have hlowered := areLowered_of_parse h
  rcases components_eq_nil_or_of_parse h with hnil | ⟨root, hroot⟩
  · rw [hnil] at hx
    cases hx
  · rw [hroot] at hnodup hids hlowered hx hfree hapart ⊢
    exact find?_place hnodup hids hlowered hx hkind hsize hfree hapart

/-- An element that kept its id is found under the name of its place as well, here one whose type
has a hyphen. -/
theorem find?_name_of_kept_id :
    ∃ p, ∃ x ∈ places p.components,
      parse "<svg><g id=\"a\"><font-face id=\"r\"/><rect/></g></svg>" = .ok p ∧
      x.name = "a-font-face-0" ∧ x.component.id = "r" ∧
      find? p.components x.name = some x.component := by
  have hmarkup : Markup.read "<svg><g id=\"a\"><font-face id=\"r\"/><rect/></g></svg>"
      = .ok [.node (.element ⟨"svg", []⟩) [.node (.element ⟨"g", [("id", "a")]⟩)
        [.node (.element ⟨"font-face", [("id", "r")]⟩) [], .node (.element ⟨"rect", []⟩) []]]] := by
    cbv
  have hparse := parse_of_read (s := "<svg><g id=\"a\"><font-face id=\"r\"/><rect/></g></svg>")
    (by cbv) hmarkup
  have hids : (all (ofDocument (.ofMarkup [.node (.element ⟨"svg", []⟩)
      [.node (.element ⟨"g", [("id", "a")]⟩) [.node (.element ⟨"font-face", [("id", "r")]⟩) [],
        .node (.element ⟨"rect", []⟩) []]]])).components).map Component.id
      = ["svg-0", "a", "r", "a-rect-0"] := by
    rw [all_eq]
    decide +kernel
  refine ⟨_, ⟨.node ⟨"r", "font-face", some "a", .ofList [("id", "r")]⟩ [], some "a", 0⟩, ?_,
    hparse, by decide, rfl, find?_name_of_parse hparse ?_ ?_ (by decide) (by decide) ?_ ?_⟩
  · decide +kernel
  · rw [hids]
    decide
  · decide +kernel
  · intro c hc
    have hmem := List.mem_map_of_mem (f := Component.id) hc
    rw [hids] at hmem
    exact fun heq ↦ absurd (heq ▸ hmem) (by decide)
  · -- of the ids only the last one starts like a cut of the type behind its scope
    intro a b hcut _ c hc heq
    have hmem := List.mem_map_of_mem (f := Component.id) hc
    rw [hids, heq, inScope] at hmem
    have ha : a = "rect-0" := by simpa [← String.toList_inj] using hmem
    have hlist : "font-face".toList = ("rect-0" ++ "-" ++ b).toList :=
      ha ▸ congrArg String.toList hcut
    simp at hlist

/-- **A name does not always mean its place** where types are no names of XML, as the reader finds
them in what the check takes for the inside of a document type: the name of an element without a
type is read as no place, and one whose type starts with a hyphen may be read in another group. -/
theorem find?_name_of_misread_types :
    ∃ p, parse ("<!DOCTYPE svg [<!ENTITY a \"<\">]><?p >>" ++ "<svg>< id=\"x\"/>" ++
        "<g id=\"p\"><-b id=\"z\"/></g><g id=\"p-\"><b id=\"y\"/></g></svg><?q?><svg/>") = .ok p ∧
      ((all p.components).map Component.id).Nodup ∧
      ∃ x ∈ places p.components, ∃ z ∈ places p.components,
        x.name = "-0" ∧ z.name = "p--b-0" ∧
        (∀ c ∈ all p.components, Component.id c ≠ x.name ∧ Component.id c ≠ z.name) ∧
        (∀ a b, a ≠ "" → b ≠ "" →
          x.component.kind ≠ a ++ "-" ++ b ∧ z.component.kind ≠ a ++ "-" ++ b) ∧
        find? p.components x.name = none ∧
        (find? p.components z.name).map Component.id = some "y" ∧ z.component.id = "z" := by
  have hparse := parse_of_read (m := [.node (.doctype "svg [<!ENTITY a \"<\">]><?p >") [],
    .node (.element ⟨"svg", []⟩) [.node (.element ⟨"", [("id", "x")]⟩) [],
      .node (.element ⟨"g", [("id", "p")]⟩) [.node (.element ⟨"-b", [("id", "z")]⟩) []],
      .node (.element ⟨"g", [("id", "p-")]⟩) [.node (.element ⟨"b", [("id", "y")]⟩) []]],
    .node (.instruction "q") [], .node (.element ⟨"svg", []⟩) []])
    (s := "<!DOCTYPE svg [<!ENTITY a \"<\">]><?p >>" ++ "<svg>< id=\"x\"/>" ++
      "<g id=\"p\"><-b id=\"z\"/></g><g id=\"p-\"><b id=\"y\"/></g></svg><?q?><svg/>")
    (by cbv) (by cbv)
  have hlength : ∀ a b : String, a ≠ "" → b ≠ "" → ∀ kind : String, kind.length ≤ 2 →
      kind ≠ a ++ "-" ++ b := by
    rintro a b ha hb kind hkind rfl
    have ha' := mt String.length_eq_zero_iff.1 ha
    have hb' := mt String.length_eq_zero_iff.1 hb
    rw [String.length_append, String.length_append] at hkind
    have hhyphen : "-".length = 1 := rfl
    omega
  refine ⟨_, hparse, ?_, ⟨.node ⟨"x", "", some "svg-0", .ofList [("id", "x")]⟩ [], none, 0⟩, ?_,
    ⟨.node ⟨"z", "-b", some "p", .ofList [("id", "z")]⟩ [], some "p", 0⟩, ?_, by decide, by decide,
    ?_, fun a b ha hb ↦ ⟨hlength a b ha hb _ (by decide), hlength a b ha hb _ (by decide)⟩,
    ?_, ?_, rfl⟩
  · rw [all_eq]
    decide +kernel
  · decide +kernel
  · decide +kernel
  · rw [all_eq]
    decide +kernel
  · decide +kernel
  · decide +kernel

end Drawing

end SvgWorkbench
