import SvgWorkbench.Proofs.Drawing.Rewritten

/-!
# The text of a drawing is checked again

Nobody checks the text that serializing gives. It is written from what the reader has found, and
that is what the check has let through as long as both agree where the parts of the text end. So it
would be let through again, but for two things that happen to it on the way: line breaks in values
become spaces, which matters in the names of namespaces, and ids are given out, which may bring an
element its second id.
-/

namespace SvgWorkbench

open Text Xml Markup SvgWorkbench.Tree

/-! ## Texts on which the check and the reader agree -/

/-- Whether the check and the reader see the same document in a text, which stays the same when its
line breaks become spaces. -/
structure IsSteady (text : String) : Prop where
  /-- The declaration ends at its first greater-than sign. -/
  declaration : Gate.HasPlainDeclaration (Gate.unmarked text.toList)
  /-- The document type declares nothing and has no mark inside. -/
  doctype : Gate.HasPlainDoctype text.toList
  /-- No line break is in the name of a namespace. -/
  namespaces : ∀ m, Markup.read text = .ok m → ∀ e, .element e ∈ preorderAll m →
    e.HasUnbrokenNamespaces

theorem Element.isClashFree_spaced {e : Element} : e.spaced.IsClashFree ↔ e.IsClashFree := by
  rw [IsClashFree, IsClashFree, keys_spaced]

namespace Drawing

variable {text : String} {p : Drawing}

/-- In markup whose values are made of characters of documents, so are all ids that are given out. -/
theorem givesGood_isDocumentText :
    GivesGood (fun id ↦ Gate.IsDocumentText id.toList) fun e ↦
      IsName e.name.toList ∧ e.HasDocumentValues where
  own e id he hid := he.2 _ (Element.mem_of_id? hid)
  new e scope ordinal he hscope := formatId_of_append
    (fun s t hs ht ↦ by rw [String.toList_append]; exact Gate.isDocumentText_append.2 ⟨hs, ht⟩)
    (fun _ h c hc ↦ Gate.isDocumentChar_of_isNameChar (h c hc)) (Element.isName_kind he.1) hscope
    ordinal

/-- What the check and the reader agree on: markup that makes up a document, and to which ids are
given that may stand in one. -/
theorem exists_accepted (h : parse text = .ok p) (hsteady : IsSteady text) :
    ∃ m, Markup.read text = .ok m ∧ (∀ c ∈ preorderAll m, c.IsStrict) ∧ Gate.AcceptsMarkup m ∧
      RelAll (IdGiven fun id ↦ Gate.IsDocumentText id.toList) m p.document.markup := by
  obtain ⟨hcheck, m, hread, rfl⟩ := exists_markup_of_parse h
  obtain ⟨m', hread', hshown⟩ | ⟨-, fault, hfault⟩ := Gate.read_of_check hcheck hsteady.doctype
  · cases hread.symm.trans hread'
    refine ⟨m, hread, hshown.strict,
      hshown.accepts hsteady.declaration (hsteady.namespaces m hread), ?_⟩
    refine relAll_ofDocument givesGood_isDocumentText fun e he ↦ ?_
    exact ⟨(hshown.strict _ he).1.1, (hshown.strict _ he).2.2⟩
  · cases hread.symm.trans hfault

theorem isNamed_of_parse (h : parse text = .ok p) (hsteady : IsSteady text) :
    ∀ c ∈ preorderAll p.document.markup, c.IsNamed := by
  obtain ⟨m, -, hstrict, -, hrel⟩ := exists_accepted h hsteady
  exact hrel.forall_preorderAll (fun _ _ hgiven ↦ hgiven.isNamed) fun c hc ↦ (hstrict c hc).isNamed

/-- The document type of a drawing is written as it was. -/
theorem hasPlainDoctype_text (h : parse text = .ok p) (hsteady : IsSteady text) :
    Gate.HasPlainDoctype p.text.toList := by
  have hnamed := isNamed_of_parse h hsteady
  have hsound := isSound_of_parse h hnamed
  obtain ⟨m, hread, -, haccepts, hrel⟩ := exists_accepted h hsteady
  rcases haccepts with haccepts | ⟨front, s, body, rfl, hfront, hs, -⟩
  · -- without a document type none is written
    refine Gate.hasPlainDoctype_of_read (read_text h hnamed) fun s hs ↦ ?_
    have hnone := ((areRead_of_read hread).of_label_ne haccepts.label_ne).doctype_notMem
    have hnone' : ∀ c ∈ preorderAll p.document.markup, ∀ s, c.spaced ≠ .doctype s := by
      refine hrel.forall_preorderAll (fun c c' hgiven hc s ↦ ?_) (P := fun c ↦ ∀ s, c ≠ .doctype s)
        fun c hc s heq ↦ hnone s (heq ▸ hc)
      cases hgiven with
      | same => cases c <;> first | exact hc s | nofun
      | given => nofun
    refine forall_preorderAll_settledAll (P := fun c ↦ ∀ s, c ≠ .doctype s) (fun _ _ ↦ nofun)
      (fun c hc ↦ ?_) "" _ hs s rfl
    rw [preorderAll_mapAll, List.mem_map] at hc
    obtain ⟨c, hc, rfl⟩ := hc
    exact hnone' c hc
  · obtain ⟨front', body', hmarkup, hrel', -⟩ := Gate.exists_of_relAll_typed hrel
    have hwritable := hsound.isRead.areWritable hsound.isNamed
    obtain ⟨t, ts, hcons, hstart⟩ := hsound.start
    rw [Drawing.text, Document.text, hmarkup]
    rw [hmarkup] at hwritable hcons
    exact Gate.hasPlainDoctype_write hwritable (by rw [hcons]; simpa using hstart)
      (hfront.of_relAll hrel') hs

/-- No element gets or loses a name by being written and read. -/
theorem hasNoClash_text_iff (h : parse text = .ok p)
    (hnamed : ∀ c ∈ preorderAll p.document.markup, c.IsNamed) :
    HasNoClash p.text ↔ p.document.markup.IsClashFree := by
  have hread := read_text h hnamed
  constructor
  · intro hclash e he
    refine Element.isClashFree_spaced.1 (hclash _ hread _ ?_)
    exact element_spaced_mem_settledAll (isSound_of_parse h hnamed).isRead he
  · intro hfree m hread'
    cases hread.symm.trans hread'
    intro e he
    refine forall_preorderAll_settledAll (P := fun c ↦ ∀ e, c = .element e → e.IsClashFree)
      (fun _ _ ↦ nofun) (fun c hc e heq ↦ ?_) "" _ he e rfl
    rw [preorderAll_mapAll, List.mem_map] at hc
    obtain ⟨c, hc, rfl⟩ := hc
    cases c with
    | element e' =>
      cases heq
      exact Element.isClashFree_spaced.2 (hfree e' hc)
    | _ => cases heq

/-- **The text of a drawing is let through exactly if there is no clash in it.** -/
theorem check_text_iff (h : parse text = .ok p) (hsteady : IsSteady text) :
    Gate.check p.text = .ok () ↔ HasNoClash p.text := by
  have hnamed := isNamed_of_parse h hsteady
  constructor
  · intro hcheck m hread e he
    exact (Gate.isStrict_of_check hcheck hread (hasPlainDoctype_text h hsteady) _ he).2.1
  · intro hclash
    have hsound := isSound_of_parse h hnamed
    obtain ⟨m, -, -, haccepts, hrel⟩ := exists_accepted h hsteady
    obtain ⟨t, ts, hmarkup, hstart⟩ := hsound.start
    refine (haccepts.of_relAll (fun _ hid ↦ hid) hrel
      ((hasNoClash_text_iff h hnamed).1 hclash)).check_write
      (hsound.isRead.areWritable hsound.isNamed) ?_
    rw [hmarkup]
    simpa using hstart

/-- Where no element has an id behind an empty prefix, giving out ids makes no clash. -/
theorem hasNoClash_text_of_read (h : parse text = .ok p)
    (hnamed : ∀ c ∈ preorderAll p.document.markup, c.IsNamed) {m : Markup}
    (hread : Markup.read text = .ok m)
    (hkey : ∀ e, .element e ∈ preorderAll m → prefixedIdKey ∉ e.keys) : HasNoClash p.text := by
  refine (hasNoClash_text_iff h hnamed).2 fun e he hclash ↦ ?_
  obtain ⟨-, m', hread', rfl⟩ := exists_markup_of_parse h
  cases hread.symm.trans hread'
  have hrel := relAll_idGiven_ofDocument m
  refine hrel.forall_preorderAll (P := fun c ↦ ∀ e, c = .element e → prefixedIdKey ∉ e.keys)
    (Q := fun c ↦ ∀ e, c = .element e → prefixedIdKey ∉ e.keys) (fun c c' hgiven hc e heq ↦ ?_)
    (fun c hc e heq ↦ hkey e (heq ▸ hc)) _ he e rfl hclash.2
  cases hgiven with
  | same => exact hc e heq
  | given =>
    cases heq
    rw [Element.keys_set]
    split
    · exact hc _ rfl
    · rw [List.mem_append, not_or]
      exact ⟨hc _ rfl, by decide⟩

/-- **What serializing gives is a drawing**, exactly if no element in it has its id under both of its
names; and so it is always if no element of the text has an id behind an empty prefix. -/
theorem parse_serialize_iff {s : String} (h : serialize text = .ok s) (hsteady : IsSteady text) :
    ((∃ p, parse s = .ok p) ↔ HasNoClash s) ∧
      ((∀ m, Markup.read text = .ok m → ∀ e, .element e ∈ preorderAll m → prefixedIdKey ∉ e.keys) →
        ∃ p, parse s = .ok p) := by
  obtain ⟨p, hparse, rfl⟩ := Gate.map_eq_ok_iff.1 h
  have hnamed := isNamed_of_parse hparse hsteady
  have hiff : (∃ q, parse p.text = .ok q) ↔ HasNoClash p.text := by
    rw [← check_text_iff hparse hsteady]
    constructor
    · rintro ⟨q, hq⟩
      exact (exists_markup_of_parse hq).1
    · intro hcheck
      exact ⟨_, parse_of_read hcheck (read_text hparse hnamed)⟩
  refine ⟨hiff, fun hkey ↦ hiff.2 ?_⟩
  obtain ⟨m, hread, -⟩ := exists_accepted hparse hsteady
  exact hasNoClash_text_of_read hparse hnamed hread (hkey m hread)

/-- A declaration, a document type and a namespace. -/
theorem parse_serialize_of_typed :
    ∃ s p, serialize "<?xml version=\"1.0\"?><!DOCTYPE svg PUBLIC \"p\" \"s\"><svg xmlns=\"u\"><g/></svg>"
        = .ok s ∧ parse s = .ok p := by
  have hserialize : serialize
      "<?xml version=\"1.0\"?><!DOCTYPE svg PUBLIC \"p\" \"s\"><svg xmlns=\"u\"><g/></svg>"
      = .ok ("<?xml version=\"1.0\"?><!DOCTYPE svg PUBLIC \"p\" \"s\">" ++
        "<svg xmlns=\"u\" id=\"svg-0\"><g id=\"g-0\"/></svg>") := by cbv
  have hread : Markup.read
      "<?xml version=\"1.0\"?><!DOCTYPE svg PUBLIC \"p\" \"s\"><svg xmlns=\"u\"><g/></svg>"
      = .ok [.node (.instruction "xml version=\"1.0\"") [],
        .node (.doctype "svg PUBLIC \"p\" \"s\"") [],
        .node (.element ⟨"svg", [("xmlns", "u")]⟩) [.node (.element ⟨"g", []⟩) []]] := by cbv
  have hoptional : Gate.optionalDeclaration
      "<?xml version=\"1.0\"?><!DOCTYPE svg PUBLIC \"p\" \"s\"><svg xmlns=\"u\"><g/></svg>".toList
      = .ok "<!DOCTYPE svg PUBLIC \"p\" \"s\"><svg xmlns=\"u\"><g/></svg>".toList := by cbv
  have hmisc : Gate.misc "<!DOCTYPE svg PUBLIC \"p\" \"s\"><svg xmlns=\"u\"><g/></svg>".toList
      = .ok (Mark.doctype ++ (" svg PUBLIC \"p\" \"s\"".toList ++
        '>' :: "<svg xmlns=\"u\"><g/></svg>".toList)) := by cbv
  have hstrict : Gate.IsStrictDoctype " svg PUBLIC \"p\" \"s\"".toList :=
    ⟨by simp, by cbv, by cbv⟩
  have hsteady : IsSteady
      "<?xml version=\"1.0\"?><!DOCTYPE svg PUBLIC \"p\" \"s\"><svg xmlns=\"u\"><g/></svg>" := by
    refine ⟨fun _ ↦ ⟨" version=\"1.0\"".toList, _, rfl, by decide, by cbv⟩, ?_, ?_⟩
    · intro after around inner hafter haround hinner
      cases hoptional.symm.trans hafter
      cases hmisc.symm.trans haround
      exact ⟨_, _, (List.append_cancel_left (Text.afterPrefix?_eq_some_iff.1 hinner)).symm, hstrict⟩
    · intro m hread' e he
      cases hread.symm.trans hread'
      simp only [preorderAll, preorder, List.append_nil, List.cons_append, List.nil_append,
        List.mem_cons, List.not_mem_nil, or_false, reduceCtorEq, false_or, Content.element.injEq] at he
      rcases he with rfl | rfl
      · rintro a ha q - -
        obtain rfl := List.mem_singleton.1 ha
        decide
      · exact List.forall_mem_nil _
  obtain ⟨p, hp⟩ := (parse_serialize_iff hserialize hsteady).2 fun m hread' e he ↦ by
    cases hread.symm.trans hread'
    simp only [preorderAll, preorder, List.append_nil, List.cons_append, List.nil_append,
      List.mem_cons, List.not_mem_nil, or_false, reduceCtorEq, false_or, Content.element.injEq] at he
    rcases he with rfl | rfl <;> decide
  exact ⟨_, p, hserialize, hp⟩

/-- **What serializing gives is refused** where the root has an id behind an empty prefix: the id it
is given stands beside the other one. -/
theorem not_parse_serialize_of_prefixed_id :
    ∃ s, serialize "<svg :id=\"x\"/>" = .ok s ∧ ¬ ∃ p, parse s = .ok p := by
  have hserialize : serialize "<svg :id=\"x\"/>" = .ok "<svg :id=\"x\" id=\"svg-0\"/>" := by cbv
  have hrefused : Gate.check "<svg :id=\"x\" id=\"svg-0\"/>"
      = .error ⟨.repeatedAttribute "id", ⟨1, 14⟩⟩ := by cbv
  refine ⟨_, hserialize, ?_⟩
  rintro ⟨p, hp⟩
  cases hrefused.symm.trans (exists_markup_of_parse hp).1

end Drawing

end SvgWorkbench
