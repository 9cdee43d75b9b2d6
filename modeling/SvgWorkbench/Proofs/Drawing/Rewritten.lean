import SvgWorkbench.Proofs.Drawing.Ordinary
import SvgWorkbench.Proofs.Gate.Kept
import SvgWorkbench.Proofs.Markup.Kind

/-!
# Drawings of texts that edits have written

What an edit writes is read once more before it is committed, and the text that is committed is the
text of the drawing that was read, which nobody has read yet. It is read as markup with the very
same components. The check lets it through unless giving out ids has put an id beside an attribute
whose name is that of an id behind an empty prefix.
-/

namespace SvgWorkbench

open Text Xml Markup SvgWorkbench.Tree

/-! ## The ids that are given out -/

namespace Drawing

/-- Whether a text may be the value of an attribute and comes back as it is. -/
def IsClear (s : String) : Prop := Unbroken s.toList ∧ Gate.IsDocumentText s.toList

theorem IsClear.append {s t : String} (hs : IsClear s) (ht : IsClear t) : IsClear (s ++ t) := by
  rw [IsClear, String.toList_append]
  exact ⟨hs.1.append ht.1, Gate.isDocumentText_append.2 ⟨hs.2, ht.2⟩⟩

theorem isClear_of_forall_isNameChar {s : String} (h : ∀ c ∈ s.toList, isNameChar c = true) :
    IsClear s :=
  ⟨unbroken_of_forall_isNameChar h, fun c hc ↦ Gate.isDocumentChar_of_isNameChar (h c hc)⟩

/-- In markup whose values are clear, so are all ids that are given out. -/
theorem givesGood_isClear :
    GivesGood IsClear fun e ↦ IsName e.name.toList ∧ e.IsUnbroken ∧ e.HasDocumentValues where
  own e id := by
    rintro ⟨-, hunbroken, hvalues⟩ hid
    have hmem := Element.mem_of_id? hid
    exact ⟨hunbroken _ hmem, hvalues _ hmem⟩
  new e scope ordinal he hscope := formatId_of_append (fun _ _ ↦ IsClear.append)
    (fun _ ↦ isClear_of_forall_isNameChar) (Element.isName_kind he.1) hscope ordinal

end Drawing

/-! ## Values that the check lets through -/

namespace Gate

mutual

private theorem Accepts.hasDocumentValues {scope : List Binding} {top : Bool} {t : Tree Content}
    (hread : IsRead top t) (h : Accepts scope t) {e : Element} (he : .element e ∈ t.preorder) :
    e.HasDocumentValues := by
  match t with
  | .node c ts =>
    rcases c.eq_element_or with ⟨e', rfl⟩ | hc
    · obtain ⟨hvalues, q, inner, -, hts⟩ := h
      rcases List.mem_cons.1 he with heq | he
      · cases heq
        exact hvalues
      · exact AcceptsAll.hasDocumentValues hread.2 hts he
    · obtain rfl := hread.eq_nil hc
      obtain rfl := List.mem_singleton.1 he
      cases hc

private theorem AcceptsAll.hasDocumentValues {scope : List Binding} {top : Bool}
    {ts : List (Tree Content)} (hread : AreRead top ts) (h : AcceptsAll scope ts) {e : Element}
    (he : .element e ∈ preorderAll ts) : e.HasDocumentValues := by
  match ts with
  | [] => cases he
  | t :: ts =>
    rcases List.mem_append.1 he with he | he
    · exact Accepts.hasDocumentValues hread.1 h.1 he
    · exact AcceptsAll.hasDocumentValues hread.2 h.2 he

end

private theorem element_notMem_of_isAround {top : Bool} {ts : List (Tree Content)}
    (hread : AreRead top ts) (h : ∀ t ∈ ts, IsAround t) (e : Element) :
    .element e ∉ preorderAll ts := by
  induction ts with
  | nil => exact nofun
  | cons t ts ih =>
    obtain ⟨c, us⟩ := t
    obtain ⟨ht, hts⟩ := List.forall_mem_cons.1 h
    rw [preorderAll, List.mem_append, not_or]
    refine ⟨fun hmem ↦ ?_, ih hread.2 hts⟩
    rcases c.eq_element_or with ⟨e', rfl⟩ | hc
    · exact ht
    · obtain rfl := hread.1.eq_nil hc
      obtain rfl := List.mem_singleton.1 hmem
      cases hc

private theorem AcceptsBody.hasDocumentValues {top : Bool} {ts : List (Tree Content)}
    (hread : AreRead top ts) (h : AcceptsBody ts) {e : Element} (he : .element e ∈ preorderAll ts) :
    e.HasDocumentValues := by
  induction ts with
  | nil => cases he
  | cons t ts ih =>
    rw [preorderAll, List.mem_append] at he
    rw [AcceptsBody] at h
    split at h
    · refine h.1.hasDocumentValues hread.1 (he.resolve_right ?_)
      exact element_notMem_of_isAround hread.2 h.2 e
    · next hlabel =>
      refine ih hread.2 h.2 (he.resolve_left fun hmem ↦ ?_)
      obtain ⟨c, us⟩ := t
      have hc : c.isElement = false := by simpa using hlabel
      obtain rfl := hread.1.eq_nil hc
      obtain rfl := List.mem_singleton.1 hmem
      cases hc

/-- The values in a document that is let through are made of characters of documents. -/
theorem AcceptsDocument.hasDocumentValues {m : Markup} (hread : AreRead true m)
    (h : AcceptsDocument m) {e : Element} (he : .element e ∈ preorderAll m) :
    e.HasDocumentValues := by
  match m, h with
  | .node c us :: ts, .inl ⟨⟨s, hlabel, _⟩, hbody⟩ =>
    obtain rfl : c = .instruction s := hlabel
    refine hbody.hasDocumentValues hread.2 ((List.mem_append.1 he).resolve_left fun hmem ↦ ?_)
    obtain rfl : us = [] := hread.1.2
    cases List.mem_singleton.1 hmem
  | t :: ts, .inr hbody => exact hbody.hasDocumentValues hread he

end Gate

/-! ## Texts and what they are read as -/

variable {legal : String → Prop}

/-- Whether a text is read as some markup, which is ordinary, and the check lets the text through
unless an element has its id under both names. -/
structure Stands (legal : String → Prop) (text : String) (m : Markup) : Prop where
  /-- The text is read as the markup. -/
  read : Markup.read text = .ok m
  /-- The markup is ordinary. -/
  ordinary : m.IsOrdinary legal
  /-- Nothing but a clash keeps the text from being let through. -/
  check : m.IsClashFree → Gate.check text = .ok ()

namespace Stands

variable {text : String} {m : Markup}

/-- Such a text is let through exactly if there is no clash in it. -/
theorem check_iff (h : Stands legal text m) : Gate.check text = .ok () ↔ m.IsClashFree := by
  refine ⟨fun hcheck e he ↦ ?_, h.check⟩
  have hdoctype : ∀ s, .doctype s ∉ preorderAll m := fun s hs ↦ h.ordinary _ hs
  exact (Gate.isStrict_of_check hcheck h.read
    (Gate.hasPlainDoctype_of_read h.read hdoctype) _ he).2.1

/-- Such a text is a drawing exactly if there is no clash in it. -/
theorem parse_eq_ok_iff (h : Stands legal text m) {p : Drawing} :
    Drawing.parse text = .ok p ↔ m.IsClashFree ∧ p = Drawing.ofDocument (.ofMarkup m) := by
  rw [← h.check_iff]
  constructor
  · intro hparse
    obtain ⟨hcheck, m', hread, rfl⟩ := Drawing.exists_markup_of_parse hparse
    cases h.read.symm.trans hread
    exact ⟨hcheck, rfl⟩
  · rintro ⟨hcheck, rfl⟩
    exact Drawing.parse_of_read hcheck h.read

end Stands

/-! ## Written texts -/

/-- Whether a text is that of ordinary markup, starts with no text but one that starts with a space,
and is let through. -/
def IsWritten (legal : String → Prop) (text : String) : Prop :=
  ∃ t ts, text = write (t :: ts) ∧ IsOrdinary legal (t :: ts) ∧ StartsSpaced t ∧
    Gate.check text = .ok ()

namespace IsWritten

variable {text : String}

/-- A written text is read as ordinary markup. -/
theorem isOrdinary_of_read (rule : KeyRule legal) (h : IsWritten legal text) {m : Markup}
    (hread : Markup.read text = .ok m) : m.IsOrdinary legal := by
  obtain ⟨t, ts, rfl, hordinary, hstart, -⟩ := h
  rw [read_write (hordinary.areWritable rule true) (hstart.head?_ne _)] at hread
  cases hread
  exact hordinary.settledAll

/-- **The drawing of a written text is drawn again from its own text**, with the same components. -/
theorem stands_text (rule : KeyRule legal) (h : IsWritten legal text) {p : Drawing}
    (hparse : Drawing.parse text = .ok p) :
    ∃ m, Stands legal p.text m ∧ p.components = (Drawing.ofDocument (.ofMarkup m)).components := by
  obtain ⟨hcheck, m, hread, rfl⟩ := Drawing.exists_markup_of_parse hparse
  obtain ⟨t', ts', hmarkup, hstart'⟩ := Drawing.exists_startsSpaced_of_parse hparse
  have hordinary := h.isOrdinary_of_read rule hread
  obtain ⟨t, ts, rfl, hwritten, hstart, -⟩ := h
  have haccepts := ((Gate.check_write_iff (hwritten.areWritable rule false) hstart).1
    hcheck).settledAll
  have hunbroken := isUnbroken_settledAll (t :: ts)
  obtain rfl : m = settledAll "" (mapAll Content.spaced (t :: ts)) := by
    rw [read_write (hwritten.areWritable rule true) (hstart.head?_ne _)] at hread
    exact (Except.ok.inj hread).symm
  generalize settledAll "" (mapAll Content.spaced (t :: ts)) = m at *
  -- the ids that are given out are clear, so the drawing is unbroken as well
  have hrel := Drawing.relAll_ofDocument Drawing.givesGood_isClear fun e he ↦
    ⟨(hordinary _ he).isName, hunbroken _ he, haccepts.hasDocumentValues (areRead_of_read hread) he⟩
  have hread' := AreRead.of_relAll hrel (areRead_of_read hread)
  have hordinary' := hordinary.of_relAll rule hrel
  have hunbroken' : ∀ c ∈ preorderAll (Drawing.ofDocument (.ofMarkup m)).document.markup,
      c.IsUnbroken :=
    hrel.forall_preorderAll (fun _ _ hgiven ↦ hgiven.isUnbroken fun _ hid ↦ hid.1) hunbroken
  have hspaced := mapAll_spaced hunbroken'
  have htext := Drawing.read_text hparse fun c hc ↦ (hordinary' c hc).isNamed rule
  rw [hspaced] at htext
  refine ⟨_, ⟨htext, ?_, fun hfree ↦ ?_⟩, ?_⟩
  · have hsettled := hordinary'.settledAll
    rwa [hspaced] at hsettled
  · have haccepts' := haccepts.of_relAll (fun _ hid ↦ hid.2) hrel
      fun e he ↦ hfree e (element_mem_settledAll hread' he "")
    rw [hmarkup] at haccepts' hordinary'
    rw [Drawing.text, Document.text, hmarkup]
    exact (Gate.check_write_iff (hordinary'.areWritable rule false) hstart').2 haccepts'
  · rw [Drawing.ofDocument_settledAll]

end IsWritten

end SvgWorkbench
