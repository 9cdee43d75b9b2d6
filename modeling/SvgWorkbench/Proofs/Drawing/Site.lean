import SvgWorkbench.Proofs.Drawing.Context

/-!
# Sites of edits

The edits that put in, take out or exchange elements change the children of one element in the root.
The *site* of such an edit is that element with everything around it: what is around the root, and
what is around the element in the root. The markup before the edit and the markup after it are two
fillings of one site, and so are, once the markup has been written and read again, two fillings of
the settled site.
-/

namespace SvgWorkbench

open SvgWorkbench.Tree

namespace Markup

variable {e : Element}

/-- Whether a context is what is around an element in a root, or around the root itself. -/
def IsInRoot (e : Element) : Context Content → Prop
  | .here left right => left = [] ∧ right = [] ∧ isRoot (.element e) = true
  | .inside left a _ right => left = [] ∧ right = [] ∧ isRoot a = true

/-- An element in the root of some markup, without its children. -/
structure Site (e : Element) where
  /-- What is around the root. -/
  outer : Context Content
  /-- What is around the element in the root. -/
  inner : Context Content
  /-- The root stands in the gap of what is around it. -/
  isRootPlace : IsRootPlace outer
  /-- The element stands below elements. -/
  path : ∀ a ∈ inner.path, a.isElement = true
  /-- The outermost of them is the root. -/
  isInRoot : IsInRoot e inner

namespace Site

variable (s : Site e) {us vs : List (Tree Content)}

/-- The markup with some children in the element. -/
def fill (us : List (Tree Content)) : Markup := s.outer.plug (s.inner.plug [.node (.element e) us])

/-- The components around that of the element. -/
def around : Context Entry := viewContext none s.inner

/-- The id of the element next around. -/
def scope : Option String := scopeOf none s.inner

/-- Whatever the children are, the element makes a root with what is around it in the root. -/
theorem exists_root (us : List (Tree Content)) : ∃ e' ts,
    s.inner.plug [.node (.element e) us] = [.node (.element e') ts] ∧
      isRoot (.element e') = true := by
  obtain ⟨outer, inner, -, hpath, hin⟩ := s
  cases inner with
  | here left right =>
    obtain ⟨rfl, rfl, hroot⟩ := hin
    exact ⟨e, us, rfl, hroot⟩
  | inside left a below right =>
    obtain ⟨rfl, rfl, hroot⟩ := hin
    obtain ⟨e', rfl⟩ :=
      a.eq_element_or.resolve_right (ne_false_of_eq_true (hpath a List.mem_cons_self))
    exact ⟨e', _, rfl, hroot⟩

/-- **The components of a filled site** are those around it and that of the element. -/
theorem components_fill (us : List (Tree Content)) :
    components (s.fill us) = s.around.plug (view s.scope (.node (.element e) us)) := by
  obtain ⟨e', ts, hts, hroot⟩ := s.exists_root us
  have hview := viewAll_plug s.path (show hasElements [.node (.element e) us] = true from rfl) none
  rw [hts, viewAll, viewAll, List.append_nil, viewAll, viewAll, List.append_nil] at hview
  rw [fill, hts, components,
    root?_plug s.isRootPlace (show isRoot (label (.node (.element e') ts)) = true from hroot)]
  exact hview

/-- What is around the element in the markup. -/
def place : Context Content := s.outer.comp s.inner

theorem fill_eq_plug (us : List (Tree Content)) :
    s.fill us = s.place.plug [.node (.element e) us] := by
  rw [place, Context.plug_comp, fill]

/-- The element stands below elements. -/
theorem path_place : ∀ a ∈ s.place.path, a.isElement = true := by
  rw [place, Context.path_comp, List.forall_mem_append]
  exact ⟨s.isRootPlace.path, s.path⟩

/-- The element with a gap for its children. -/
def gap : Context Content := s.place.under (.element e) [] []

theorem plug_gap (us : List (Tree Content)) : s.gap.plug us = s.fill us := by
  rw [gap, Context.plug_under, fill_eq_plug, List.nil_append, List.append_nil]

theorem mem_preorderAll_fill {a : Content} :
    a ∈ preorderAll (s.fill us) ↔ a ∈ preorderAll (s.fill []) ∨ a ∈ preorderAll us := by
  rw [← plug_gap, ← plug_gap, Context.mem_preorderAll_plug]

theorem forall_preorderAll_fill {P : Content → Prop} : (∀ a ∈ preorderAll (s.fill us), P a) ↔
    (∀ a ∈ preorderAll (s.fill []), P a) ∧ ∀ a ∈ preorderAll us, P a := by
  rw [← plug_gap, ← plug_gap, Context.forall_preorderAll_plug]

/-! ## Settling -/

/-- The site in settled markup. -/
def settled : Site e where
  outer := settledContext s.outer
  inner := settledContext s.inner
  isRootPlace := s.isRootPlace.settled
  path := by rw [path_settledContext]; exact s.path
  isInRoot := by
    obtain ⟨outer, inner, -, -, hin⟩ := s
    cases inner <;> obtain ⟨rfl, rfl, hroot⟩ := hin <;> exact ⟨rfl, rfl, hroot⟩

/-- A filled site settles to the settled site filled. -/
theorem settledAll_fill (us : List (Tree Content)) :
    settledAll "" (s.fill us) = s.settled.fill (settledAll "" us) := by
  obtain ⟨e', ts, hts, -⟩ := s.exists_root us
  have hinner := settledAll_plug s.path e us
  rw [hts] at hinner
  rw [fill, hts, settledAll_plug s.isRootPlace.path, fill]
  exact congrArg _ hinner

/-- Changes that leave the element and what is around it change the children alone. -/
theorem mapAll_fill {f : Content → Content} (h : ∀ a ∈ preorderAll (s.fill []), f a = a)
    (us : List (Tree Content)) : mapAll f (s.fill us) = s.fill (mapAll f us) := by
  rw [← plug_gap] at h
  rw [← plug_gap, ← plug_gap, Context.mapAll_plug, Context.map_of_forall h]

end Site

end Markup

/-! ## Elements with ids -/

/-- Content that is no element without an id is not changed when ids are given out. -/
theorem Drawing.IdGiven.eq_of_forall {good : String → Prop} {a b : Content} (h : IdGiven good a b)
    (hid : ∀ e, a = .element e → e.id?.isSome = true) : b = a := by
  cases h with
  | same => rfl
  | @given e _ hnone _ => cases (hid e rfl).symm.trans (by rw [hnone])

/-- Nor is markup in which all elements have ids. -/
theorem Drawing.eq_of_relAll_idGiven {good : String → Prop} {ts us : List (Tree Content)}
    (h : RelAll (IdGiven good) ts us)
    (hids : ∀ e, .element e ∈ preorderAll ts → e.id?.isSome = true) : us = ts :=
  h.eq_of_forall fun _ ha _ hab ↦ hab.eq_of_forall (by rintro e rfl; exact hids e ha)

/-- Settling leaves the elements with their ids. -/
theorem Markup.isSome_id?_settledAll {ts : List (Tree Content)}
    (h : ∀ e, .element e ∈ preorderAll ts → e.id?.isSome = true) :
    ∀ e, .element e ∈ preorderAll (settledAll "" ts) → e.id?.isSome = true := by
  have hsettled := forall_preorderAll_settledAll
    (P := fun a ↦ ∀ e, a = .element e → e.id?.isSome = true) (fun _ _ ↦ nofun)
    (fun a ha e he ↦ h e (he ▸ ha)) ""
  exact fun e he ↦ hsettled _ he e rfl

namespace Markup.Site

variable {e : Element} (s : Site e) {us : List (Tree Content)}

/-! ## Giving out ids -/

/-- Whether the element has an id, and so have all elements around it in the root. -/
def HasIds : Prop :=
  ∀ e', .element e' ∈ preorderAll (s.inner.plug [.node (.element e) []]) → e'.id?.isSome = true

variable {s}

theorem HasIds.settled (h : s.HasIds) : s.settled.HasIds := by
  have hsettled := isSome_id?_settledAll h
  rwa [settledAll_plug s.path] at hsettled

/-- **Where all elements around it have ids, a site is filled with ids** and is not changed. -/
theorem HasIds.exists_markup_ofDocument (h : s.HasIds) (us : List (Tree Content)) :
    ∃ vs, (Drawing.ofDocument (.ofMarkup (s.fill us))).document.markup = s.fill vs ∧
      RelAll (Drawing.IdGiven fun _ ↦ True) us vs ∧ HaveIds vs := by
  obtain ⟨e', ts, hts, hroot⟩ := s.exists_root us
  obtain ⟨u, hmarkup, hgiven, hu⟩ := Drawing.exists_markup_ofDocument s.isRootPlace
    (t := .node (.element e') ts) hroot
  have hall : RelAll (Drawing.IdGiven fun _ ↦ True) [.node (.element e') ts] [u] := ⟨hgiven, trivial⟩
  have hsame : ∀ a ∈ preorderAll (s.inner.plug [.node (.element e) []]), ∀ b,
      Drawing.IdGiven (fun _ ↦ True) a b → b = a := by
    rintro a ha b hab
    exact hab.eq_of_forall (by rintro e' rfl; exact h e' ha)
  rw [Context.forall_preorderAll_plug] at hsame
  rw [← hts] at hall
  obtain ⟨ws, hws, hgiven⟩ := hall.exists_of_plug hsame.1
  match ws, hgiven with
  | [.node b vs], ⟨⟨hlabel, hchildren⟩, _⟩ =>
    obtain rfl := hsame.2 _ List.mem_cons_self b hlabel
    refine ⟨vs, ?_, hchildren, ?_⟩
    · rw [fill, hts, hmarkup, hws]
      rfl
    · have hall : HaveIds [u] := ⟨hu, trivial⟩
      rw [hws] at hall
      exact (haveIds_of_plug s.path hall).1.2

/-- Where no id is missing, none is given out. -/
theorem HasIds.markup_ofDocument (h : s.HasIds)
    (hus : ∀ e', .element e' ∈ preorderAll us → e'.id?.isSome = true) :
    (Drawing.ofDocument (.ofMarkup (s.fill us))).document.markup = s.fill us := by
  obtain ⟨vs, hvs, hgiven, -⟩ := h.exists_markup_ofDocument us
  obtain rfl := Drawing.eq_of_relAll_idGiven hgiven hus
  exact hvs

/-- In a drawing that was read no id is missing. -/
theorem hasIds_of_parse {text : String} {p : Drawing} (hparse : Drawing.parse text = .ok p)
    (hmarkup : p.document.markup = s.fill us) :
    s.HasIds ∧ ∀ e', .element e' ∈ preorderAll us → e'.id?.isSome = true := by
  obtain ⟨e', ts, hts, hisRoot⟩ := s.exists_root us
  have hread := Drawing.areRead_of_parse hparse
  have hroot := Document.root?_markup p.document
  rw [hmarkup, fill, hts] at hroot hread
  obtain ⟨root, hroot, hbare⟩ := Option.map_eq_some_iff.1 (hroot.symm.trans
    (root?_plug s.isRootPlace (show isRoot (label (.node (.element e') ts)) = true from hisRoot)))
  have hids := Drawing.hasIds_of_parse hparse hroot
  rw [hbare] at hids
  obtain ⟨top, hread⟩ := areRead_of_plug s.isRootPlace.path hread
  rw [← hts] at hread
  have hall : HaveIds (s.inner.plug [.node (.element e) us]) := by
    rw [hts]
    exact ⟨hids, trivial⟩
  constructor <;> refine fun e'' he'' ↦ isSome_id?_of_haveIds hread hall ?_ <;>
    rw [Context.mem_preorderAll_plug] at * <;>
    simp only [preorderAll, preorder, List.append_nil, List.mem_cons] at * <;> tauto

end Markup.Site

/-! ## Sites in documents -/

namespace Markup.Site

variable {e : Element} {s : Site e} {outer inner : Context Slot} {us : List (Tree Content)}
  {n : Node} {ns : List Node}

/-- Whether a site is the one of an element that stands in some context, in a root that stands in
another. -/
structure IsIn (s : Site e) (outer inner : Context Slot) : Prop where
  /-- What is around the root. -/
  outer : outer.map Slot.content = s.outer
  /-- What is around the element in the root. -/
  inner : inner.map Slot.content = s.inner

theorem IsIn.map_bare (h : s.IsIn outer inner) (hn : n.bare = .node (.element e) us) :
    (outer.plug (inner.plug [n])).map Node.bare = s.fill us := by
  rw [Node.map_bare_plug, Node.map_bare_plug, h.outer, h.inner, List.map_singleton, hn, fill]

/-- A site that is filled by the markup of a document is one of the document. -/
theorem exists_isIn_of_map_bare (h : ns.map Node.bare = s.fill us) :
    ∃ (outer inner : Context Slot) (n : Node), s.IsIn outer inner ∧ ns = outer.plug (inner.plug [n]) ∧
      n.bare = .node (.element e) us := by
  obtain ⟨outer, ms, rfl, houter, hms⟩ := Node.exists_plug_of_map_bare h
  obtain ⟨inner, ks, rfl, hinner, hks⟩ := Node.exists_plug_of_map_bare hms
  obtain ⟨n, rfl, hn⟩ := List.map_eq_singleton_iff.1 hks
  exact ⟨outer, inner, n, ⟨houter, hinner⟩, rfl, hn⟩

/-- The element of a site is an element of the root. -/
theorem IsIn.exists_root (h : s.IsIn outer inner) (hn : n.bare = .node (.element e) us) :
    ∃ root : Node, inner.plug [n] = [root] ∧ root.isRoot = true ∧ n ∈ root.elements := by
  obtain ⟨e', ts, hts, hisRoot⟩ := s.exists_root us
  have hbare := Node.map_bare_plug inner [n]
  rw [h.inner, List.map_singleton, hn, hts] at hbare
  obtain ⟨root, hroot, hbare⟩ := List.map_eq_singleton_iff.1 hbare
  refine ⟨root, hroot, ?_, ?_⟩
  · rwa [Node.isRoot, ← Node.label_bare, hbare]
  · have hpath : ∀ a ∈ inner.path, a.content.isElement = true := fun a ha ↦
      s.path _ (by rw [← h.inner, Context.path_map]; exact List.mem_map_of_mem ha)
    have helement : n.isElement = true := by
      rw [Node.isElement, Node.content, ← Node.label_bare, hn]
      rfl
    have hmem := Node.mem_elementsAll_plug hpath helement
    rwa [hroot, Node.elementsAll, Node.elementsAll, List.append_nil] at hmem

/-- **The element of a site** is an element of the root. -/
theorem exists_root_of_markup {d : Document} (h : d.markup = s.fill us) :
    ∃ (outer inner : Context Slot) (root n : Node), s.IsIn outer inner ∧
      d.topLevel = outer.plug (inner.plug [n]) ∧ n.bare = .node (.element e) us ∧
      d.root? = some root ∧ n ∈ root.elements := by
  obtain ⟨outer, inner, n, hin, htop, hn⟩ := exists_isIn_of_map_bare h
  obtain ⟨root, hplug, hisRoot, hmem⟩ := hin.exists_root hn
  refine ⟨outer, inner, root, n, hin, htop, hn, ?_, hmem⟩
  rw [hplug] at htop
  exact Document.root?_of_topLevel htop (hin.outer ▸ s.isRootPlace) hisRoot

/-- Whether a site is the one of a node of a document: the markup fills it, and whatever the node is
changed into while it is the same element, fills it again. -/
structure IsOf (s : Site e) (d : Document) (n : Node) : Prop where
  /-- The element is the node's. -/
  content : n.content = .element e
  /-- The children of the node fill the site. -/
  markup : d.markup = s.fill (n.children.map Node.bare)
  /-- So do other children of it. -/
  modify {f : Node → Node} {us : List (Tree Content)} (hf : (f n).bare = .node (.element e) us) :
    (d.modify n.handle f).markup = s.fill us

theorem IsIn.isOf (h : s.IsIn outer inner) {d : Document}
    (htop : d.topLevel = outer.plug (inner.plug [n]))
    (hnodup : (Node.handlesAll d.topLevel).Nodup) (hn : n.content = .element e) : s.IsOf d n where
  content := hn
  markup := by rw [Document.markup, htop, h.map_bare (Node.bare_of_content hn)]
  modify hf := by
    rw [htop, ← Context.plug_comp] at hnodup
    rw [Document.markup, Document.modify, htop, ← Context.plug_comp,
      Node.map_bare_modifyAll_plug hnodup, hf, Context.map_comp, h.outer, h.inner, fill_eq_plug, place]

/-- An element of the root fills a site if the markup is the site filled. -/
theorem exists_isOf {d : Document} (hnodup : (Node.handlesAll d.topLevel).Nodup)
    (h : d.markup = s.fill us) : ∃ root n, d.root? = some root ∧ n ∈ root.elements ∧
      n.children.map Node.bare = us ∧ s.IsOf d n := by
  obtain ⟨outer, inner, root, n, hin, htop, hn, hroot, hmem⟩ := exists_root_of_markup h
  obtain ⟨slot, ns⟩ := n
  rw [Node.bare_node, Tree.node.injEq] at hn
  exact ⟨root, _, hroot, hmem, hn.2, hin.isOf htop hnodup hn.1⟩

end Markup.Site

/-- **An element of the root has a site.** -/
theorem Document.exists_isOf {d : Document} (hnodup : (Node.handlesAll d.topLevel).Nodup)
    {root n : Node} (hroot : d.root? = some root) (hn : n ∈ root.elements) {e : Element}
    (he : n.content = .element e) : ∃ s : Markup.Site e, s.IsOf d n := by
  obtain ⟨outer, htop, houter⟩ := Node.exists_plug_of_find?_elementsAll hroot
  have hin : n ∈ Node.elementsAll [root] := List.mem_append_left _ hn
  obtain ⟨inner, hinner, hpath⟩ := Node.exists_plug_of_mem_elementsAll hin
  have hisRoot : root.isRoot = true := Drawing.isRoot_of_root? hroot
  rw [hinner] at htop
  refine ⟨⟨outer.map Slot.content, inner.map Slot.content, houter, ?_, ?_⟩,
    Markup.Site.IsIn.isOf ⟨rfl, rfl⟩ htop hnodup he⟩
  · rw [Context.path_map, List.forall_mem_map]
    exact hpath
  · cases inner with
    | here left right =>
      obtain ⟨rfl, rfl, rfl⟩ : left = [] ∧ n = root ∧ right = [] := by
        simpa [List.append_eq_cons_iff] using hinner.symm
      refine ⟨rfl, rfl, ?_⟩
      rwa [← show n.label.content = .element e from he]
    | inside left a below right =>
      obtain ⟨rfl, rfl, rfl⟩ : left = [] ∧ .node a (below.plug [n]) = root ∧ right = [] := by
        simpa [List.append_eq_cons_iff] using hinner.symm
      exact ⟨rfl, rfl, hisRoot⟩

end SvgWorkbench
