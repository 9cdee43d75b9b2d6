import SvgWorkbench.Proofs.Edit.Inserted

/-!
# The tag of a copy

A copy holds the type of an element, which is its tag name in lower case, and an element made of the
copy gets back the tag name that its type has in a table. So a duplicate stands at the end of the
element around, and all other elements keep their tags and their places; its own tag is that of the
element it was made of if the name is in the table, or is in lower case and agrees with no name in
the table. Any other name is lost, also one that the table has if a prefix stands before it.
-/

namespace SvgWorkbench

open Text SvgWorkbench.Tree Markup

/-! ## Names that come back -/

namespace TagName

/-- Whether a tag name comes back from its type: it is in the table, or it is in lower case and no
name in the table differs from it in letter case alone. -/
def IsKept (name : String) : Prop :=
  name ∈ mixedCase ∨ lower name = name ∧ ∀ m ∈ mixedCase, eqIgnoringAsciiCase m name = false

instance (name : String) : Decidable (IsKept name) :=
  inferInstanceAs (Decidable (_ ∨ _ ∧ ∀ m ∈ mixedCase, eqIgnoringAsciiCase m name = false))

/-- **The names that come back** from their types. -/
theorem ofKind_lower_eq_iff (name : String) : ofKind (lower name) = name ↔ IsKept name := by
  have hmixed : ∀ m ∈ mixedCase, ofKind (lower m) = m := by decide +kernel
  constructor
  · intro h
    rw [ofKind] at h
    cases hfind : mixedCase.find? fun m ↦ eqIgnoringAsciiCase m (lower name) with
    | none =>
      rw [hfind, Option.getD_none] at h
      rw [h, List.find?_eq_none] at hfind
      exact .inr ⟨h, fun m hm ↦ eq_false_of_ne_true (hfind m hm)⟩
    | some m =>
      rw [hfind, Option.getD_some] at h
      exact .inl (h ▸ List.mem_of_find?_eq_some hfind)
  · rintro (hmem | ⟨hlower, hnone⟩)
    · exact hmixed name hmem
    · have hfind : (mixedCase.find? fun m ↦ eqIgnoringAsciiCase m name) = none :=
        List.find?_eq_none.2 fun m hm ↦ ne_true_of_eq_false (hnone m hm)
      rw [hlower, ofKind, hfind, Option.getD_none]

end TagName

/-! ## Tags -/

namespace Markup

mutual

/-- The tag names of a node and of the elements inside, or nothing for a node that is no element. -/
def tags : Tree Content → List (Tree String)
  | .node (.element e) ts => [.node e.name (tagsAll ts)]
  | .node _ _ => []

/-- The tag names of the elements of a forest, in their places. -/
def tagsAll : List (Tree Content) → List (Tree String)
  | [] => []
  | t :: ts => tags t ++ tagsAll ts

end

variable {ts us : List (Tree Content)} {c : Context Content}

@[simp] theorem tagsAll_append (ts us : List (Tree Content)) :
    tagsAll (ts ++ us) = tagsAll ts ++ tagsAll us := by
  induction ts with
  | nil => rfl
  | cons t ts ih => rw [List.cons_append, tagsAll, tagsAll, ih, List.append_assoc]

theorem tagsAll_textNodes (s : String) : tagsAll (textNodes s) = [] := by
  rw [textNodes]
  split <;> rfl

theorem tags_subset_tagsAll {t : Tree Content} (h : t ∈ ts) : tags t ⊆ tagsAll ts := by
  obtain ⟨left, right, rfl⟩ := List.append_of_mem h
  rw [tagsAll_append, tagsAll]
  exact fun a ha ↦ List.mem_append_right _ (List.mem_append_left _ ha)

mutual

theorem tags_settled (t : Tree Content) : tags (settled t) = tags t := by
  match t with
  | .node (.element e) ts => rw [settled, tags, tags, tagsAll_settledAll ts]
  | .node (.text s) _ => rfl
  | .node (.comment s) _ => rfl
  | .node (.instruction s) _ => rfl
  | .node (.doctype s) _ => rfl

/-- Settling leaves the tags in their places. -/
theorem tagsAll_settledAll (ts : List (Tree Content)) (before : String) :
    tagsAll (settledAll before ts) = tagsAll ts := by
  match ts with
  | [] => rw [settledAll_nil, tagsAll_textNodes]; rfl
  | .node c us :: ts =>
    cases htext : c.text? with
    | some s =>
      obtain rfl := Content.eq_text_of_text? htext
      rw [settledAll_text, tagsAll_settledAll ts]
      rfl
    | none =>
      rw [settledAll_cons htext, tagsAll_append, tagsAll_textNodes, List.nil_append, tagsAll,
        tagsAll, tags_settled (.node c us), tagsAll_settledAll ts]

end

mutual

theorem tags_eq_of_rel {meant : String → Prop} {t u : Tree Content}
    (h : Rel (Retouched meant) t u) : tags u = tags t := by
  match t, u, h with
  | .node c ts, .node _ us, ⟨.same _, hchildren⟩ =>
    cases c with
    | element e => rw [tags, tags, tagsAll_eq_of_relAll hchildren]
    | text s => rfl
    | comment s => rfl
    | instruction s => rfl
    | doctype s => rfl
  | .node _ ts, .node _ us, ⟨.element hname _, hchildren⟩ =>
    rw [tags, tags, tagsAll_eq_of_relAll hchildren, hname]

/-- Retouched elements keep their tags. -/
theorem tagsAll_eq_of_relAll {meant : String → Prop} {ts us : List (Tree Content)}
    (h : RelAll (Retouched meant) ts us) : tagsAll us = tagsAll ts := by
  match ts, us, h with
  | [], [], _ => rfl
  | t :: ts, u :: us, h =>
    rw [tagsAll, tagsAll, tags_eq_of_rel h.1, tagsAll_eq_of_relAll h.2]

end

/-- **A place below elements is a place among the tags.** -/
theorem exists_tagsAll_plug (hpath : ∀ a ∈ c.path, Content.isElement a = true) :
    ∃ around : Context String, ∀ ts, tagsAll (c.plug ts) = around.plug (tagsAll ts) := by
  induction c with
  | here left right => exact ⟨.here (tagsAll left) (tagsAll right), fun ts ↦ by simp⟩
  | inside left a below right ih =>
    rw [Context.path, List.forall_mem_cons] at hpath
    obtain ⟨e, rfl⟩ := a.eq_element_or.resolve_right (ne_false_of_eq_true hpath.1)
    obtain ⟨around, haround⟩ := ih hpath.2
    refine ⟨.inside (tagsAll left) e.name around (tagsAll right), fun ts ↦ ?_⟩
    rw [Context.plug_inside, tagsAll_append, tagsAll, tags, haround]
    rfl

end Markup

/-! ## Duplicating -/

/-- An element that is made of a copy has no elements inside. -/
theorem Copied.tagsAll_node (copy : Copied) :
    tagsAll [.node (.element copy.element) copy.texts]
      = [.node (TagName.ofKind copy.kind) []] := by
  have htexts : tagsAll copy.texts = [] := by
    rw [Copied.texts]
    cases copy.text? <;> rfl
  rw [tagsAll, tags, htexts]
  rfl

namespace Edit

open Drawing Document

variable {p : Drawing} {text w id : String}

/-- What is read again has the tags that were written. -/
theorem tagsAll_of_parse_text {d : Document} (hsound : d.IsSound) {q : Drawing}
    (hq : parse d.text = .ok q) : tagsAll q.document.markup = tagsAll d.markup := by
  obtain ⟨-, m, hread, rfl⟩ := exists_markup_of_parse hq
  obtain rfl := Except.ok.inj (hread.symm.trans hsound.read_text)
  rw [tagsAll_eq_of_relAll (relAll_retouched (relAll_idGiven_ofDocument _)), tagsAll_settledAll,
    tagsAll_eq_of_relAll (relAll_mapAll_spaced _)]

/-- **A duplicate stands behind the children of the element around**, and its tag is the one that
the type of the element it was made of has. -/
theorem exists_tags_duplicate (hparse : parse text = .ok p)
    (hnamed : ∀ c ∈ preorderAll p.document.markup, c.IsNamed) {config : Config}
    (hedit : duplicate config text id = .ok w) :
    ∃ q n e around parent siblings, parse w = .ok q ∧ p.locate? id = some n ∧
      n.content = .element e ∧
      .node e.name (tagsAll (n.children.map Node.bare)) ∈ siblings ∧
      tagsAll p.document.markup = Context.plug around [.node parent siblings] ∧
      tagsAll q.document.markup
        = around.plug [.node parent (siblings ++ [.node (TagName.ofKind e.kind) []])] ∧
      (TagName.ofKind e.kind = e.name ↔ TagName.IsKept e.name) := by
  obtain ⟨root, n, parent, hroot, hlocate, hn, hin, hchild, hcopy, hfinish⟩ :=
    exists_duplicated hparse hnamed hedit
  obtain ⟨⟨q, hq⟩, rfl⟩ := finish_eq_ok_iff.1 hfinish
  obtain ⟨e, he⟩ := Node.exists_content_of_isElement (Node.isElement_of_mem_elements hn)
  obtain ⟨e', s, -, hbefore, hsound, hafter⟩ :=
    exists_written_insertCopy hparse hnamed hroot hin hcopy
  obtain ⟨around, haround⟩ := exists_tagsAll_plug s.path_place
  refine ⟨q, n, e, around, e'.name, tagsAll (parent.children.map Node.bare), hq, hlocate, he, ?_,
    ?_, ?_, TagName.ofKind_lower_eq_iff e.name⟩
  · apply tags_subset_tagsAll (List.mem_map_of_mem hchild)
    rw [Node.bare_of_content he, tags]
    exact List.mem_cons_self
  · rw [hbefore, s.fill_eq_plug, haround]
    rfl
  · rw [tagsAll_of_parse_text hsound hq, hafter, s.fill_eq_plug, haround, tagsAll, tags,
      tagsAll_append, Copied.tagsAll_node, Copied.kind_foldl_shift,
      Copied.ofNode_of_content he]
    rfl

/-- The duplicate of a gradient is a gradient. -/
theorem exists_tags_duplicate_of_gradient : ∃ p w,
    parse "<svg><linearGradient id=\"g\"/></svg>" = .ok p ∧
      (∀ c ∈ preorderAll p.document.markup, c.IsNamed) ∧
      duplicate {} "<svg><linearGradient id=\"g\"/></svg>" "g" = .ok w ∧
      ∃ q n e around parent siblings, parse w = .ok q ∧ p.locate? "g" = some n ∧
        n.content = .element e ∧ TagName.ofKind e.kind = e.name ∧
        tagsAll p.document.markup = Context.plug around [.node parent siblings] ∧
        tagsAll q.document.markup
          = around.plug [.node parent (siblings ++ [.node e.name []])] := by
  have hread : Markup.read "<svg><linearGradient id=\"g\"/></svg>"
      = .ok [.node (.element ⟨"svg", []⟩)
        [.node (.element ⟨"linearGradient", [("id", "g")]⟩) []]] := by cbv
  have hparse := parse_of_read (by cbv) hread
  have hedit : duplicate {} "<svg><linearGradient id=\"g\"/></svg>" "g"
      = .ok "<svg id=\"svg-0\"><linearGradient id=\"g\"/><linearGradient/></svg>" :=
    duplicate_eq_ok (.node ⟨1, .element ⟨"linearGradient", [("id", "g")]⟩⟩ []) 0 hparse
      (by decide +kernel) (by decide +kernel) (by decide +kernel)
      (parse_of_read (by cbv) (m := [.node (.element ⟨"svg", [("id", "svg-0")]⟩)
        [.node (.element ⟨"linearGradient", [("id", "g")]⟩) [],
          .node (.element ⟨"linearGradient", []⟩) []]]) (by cbv))
  generalize hp : ofDocument _ = p at hparse
  have hnamed : ∀ c ∈ preorderAll p.document.markup, c.IsNamed := by
    rw [← hp]
    decide +kernel
  have hlocate : (p.locate? "g").map Node.element?
      = some (some ⟨"linearGradient", [("id", "g")]⟩) := by
    rw [← hp]
    decide +kernel
  obtain ⟨q, n, e, around, parent, siblings, hq, hn, he, -, hbefore, hafter, hkept⟩ :=
    exists_tags_duplicate hparse hnamed hedit
  rw [hn, Option.map_some, Node.element?_of_content he] at hlocate
  obtain rfl := Option.some.inj (Option.some.inj hlocate)
  have hkeeps := hkept.2 (by decide)
  rw [hkeeps] at hafter
  exact ⟨p, _, hparse, hnamed, hedit, q, n, _, around, parent, siblings, hq, hn, he, hkeeps,
    hbefore, hafter⟩

set_option maxRecDepth 4000 in
/-- **A tag name with a prefix is put into lower case**, also where the table has the name behind
the prefix. -/
theorem exists_duplicate_tag_ne : ∃ p q w,
    parse "<svg xmlns:s=\"http://www.w3.org/2000/svg\"><s:linearGradient id=\"g\"/></svg>"
        = .ok p ∧
      ((Component.all p.components).map Component.id).Nodup ∧
      duplicate {} "<svg xmlns:s=\"http://www.w3.org/2000/svg\"><s:linearGradient id=\"g\"/></svg>"
        "g" = .ok w ∧ parse w = .ok q ∧
      (p.locate? "g").map Node.element? = some (some ⟨"s:linearGradient", [("id", "g")]⟩) ∧
      tagsAll p.document.markup = [.node "svg" [.node "s:linearGradient" []]] ∧
      tagsAll q.document.markup
        = [.node "svg" [.node "s:linearGradient" [], .node "s:lineargradient" []]] := by
  have hread : Markup.read
      "<svg xmlns:s=\"http://www.w3.org/2000/svg\"><s:linearGradient id=\"g\"/></svg>"
      = .ok [.node (.element ⟨"svg", [("xmlns:s", "http://www.w3.org/2000/svg")]⟩)
        [.node (.element ⟨"s:linearGradient", [("id", "g")]⟩) []]] := by cbv
  have hread' : Markup.read ("<svg xmlns:s=\"http://www.w3.org/2000/svg\" id=\"svg-0\">" ++
      "<s:linearGradient id=\"g\"/><s:lineargradient/></svg>")
      = .ok [.node (.element ⟨"svg", [("xmlns:s", "http://www.w3.org/2000/svg"), ("id", "svg-0")]⟩)
        [.node (.element ⟨"s:linearGradient", [("id", "g")]⟩) [],
          .node (.element ⟨"s:lineargradient", []⟩) []]] := by cbv
  have hparse := parse_of_read (by cbv) hread
  have hparse' := parse_of_read (by cbv) hread'
  have hedit : duplicate {}
      "<svg xmlns:s=\"http://www.w3.org/2000/svg\"><s:linearGradient id=\"g\"/></svg>" "g" = .ok _ :=
    duplicate_eq_ok (.node ⟨1, .element ⟨"s:linearGradient", [("id", "g")]⟩⟩ []) 0 hparse
      (by decide +kernel) (by decide +kernel) (by decide +kernel) hparse'
  exact ⟨_, _, _, hparse, by rw [Component.all_eq]; decide +kernel, hedit, hparse',
    by decide +kernel, by decide +kernel, by decide +kernel⟩

end Edit

end SvgWorkbench
