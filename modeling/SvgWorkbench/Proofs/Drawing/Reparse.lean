import Mathlib
import SvgWorkbench.Proofs.Drawing.Settled
import SvgWorkbench.Proofs.Drawing.Start
import SvgWorkbench.Proofs.Markup.Found
import SvgWorkbench.Proofs.Tree.Context

/-!
# Reading a drawing again

The text of a drawing has all ids written into it, so reading it once more should give nothing new.
It does not always: the strict check and the reader disagree on where a document type ends, and what
the check took for the inside of a document type the reader may take for tags, with names no tag can
have. Such names are not read back as they are written. Where all names are names of XML, the
components come back as they were; and where no text is empty, so does the text.
-/

namespace SvgWorkbench

open SvgWorkbench.Tree

/-! ## Added ids keep the form of what was read -/

namespace Markup

open Drawing

variable {good : String → Prop}

mutual

theorem IsRead.of_rel {top : Bool} {t u : Tree Content} (h : Rel (IdGiven good) t u)
    (ht : IsRead top t) : IsRead top u := by
  match t, u, h with
  | .node c ts, .node _ us, ⟨.same _, hchildren⟩ =>
    rcases c.eq_element_or with ⟨e, rfl⟩ | hc
    · exact ⟨ht.1, AreRead.of_relAll hchildren ht.2⟩
    · obtain rfl := ht.eq_nil hc
      cases us with
      | nil => exact ht
      | cons u us => exact hchildren.elim
  | .node _ ts, .node _ us, ⟨.given hnone hgood, hchildren⟩ =>
    exact ⟨Element.nodup_keys_set ht.1 _ _, AreRead.of_relAll hchildren ht.2⟩

theorem AreRead.of_relAll {top : Bool} {ts us : List (Tree Content)}
    (h : RelAll (IdGiven good) ts us) (hts : AreRead top ts) : AreRead top us := by
  match ts, us, h with
  | [], [], _ => exact trivial
  | t :: ts, u :: us, h => exact ⟨IsRead.of_rel h.1 hts.1, AreRead.of_relAll h.2 hts.2⟩

end

/-! ## Unbroken markup -/

theorem map_spaced {t : Tree Content} (h : ∀ c ∈ t.preorder, c.IsUnbroken) :
    t.map Content.spaced = t := map_eq_self fun c hc ↦ (h c hc).spaced_eq

theorem mapAll_spaced {ts : List (Tree Content)} (h : ∀ c ∈ preorderAll ts, c.IsUnbroken) :
    mapAll Content.spaced ts = ts := mapAll_eq_self fun c hc ↦ (h c hc).spaced_eq

end Markup

namespace Drawing

variable {good : String → Prop} {c c' : Content}

theorem IdGiven.isNamed (h : IdGiven good c c') (hc : c.IsNamed) : c'.IsNamed := by
  cases h with
  | same => exact hc
  | given => exact Element.HasXmlNames.set hc (by decide) _

theorem IdGiven.isUnbroken (h : IdGiven good c c')
    (hgood : ∀ id, good id → Markup.Unbroken id.toList) (hc : c.IsUnbroken) : c'.IsUnbroken := by
  cases h with
  | same => exact hc
  | given _ hid => exact Element.IsUnbroken.set hc "id" (hgood _ hid)

end Drawing

/-! ## Documents that are read back -/

namespace Document

/-- Whether a document has the form of those that are read, names of XML, and a first node that may
stand there. -/
structure IsSound (d : Document) : Prop where
  /-- The document has the form of those that are read. -/
  isRead : Markup.AreRead true d.markup
  /-- The names are names of XML. -/
  isNamed : ∀ c ∈ preorderAll d.markup, c.IsNamed
  /-- There is a first node, which is no text but one that starts with a space. -/
  start : ∃ t ts, d.markup = t :: ts ∧ Markup.StartsSpaced t

/-- The text of a sound document starts with no byte order mark. -/
theorem IsSound.head?_ne {d : Document} (h : d.IsSound) :
    (Markup.writeNodes d.markup).head? ≠ some '\uFEFF' := by
  obtain ⟨t, ts, hmarkup, hstart⟩ := h.start
  rw [hmarkup]
  exact hstart.head?_ne _

/-- The text of a sound document is read as the settled markup of the document. -/
theorem IsSound.read_text {d : Document} (h : d.IsSound) :
    Markup.read d.text = .ok (Markup.settledAll "" (mapAll Content.spaced d.markup)) :=
  Markup.read_write (h.isRead.areWritable h.isNamed) h.head?_ne

end Document

/-! ## Reading the text of a drawing -/

theorem Document.read_eq_ok_iff {s : String} {d : Document} :
    Document.read s = .ok d ↔ ∃ m, Markup.read s = .ok m ∧ d = .ofMarkup m := by
  rw [Document.read]
  cases Markup.read s with
  | error fault => exact ⟨nofun, fun ⟨_, h, _⟩ ↦ nomatch h⟩
  | ok m =>
    constructor
    · rintro h
      exact ⟨m, rfl, (Except.ok.inj h).symm⟩
    · rintro ⟨_, h, rfl⟩
      cases h
      rfl

namespace Drawing

/-- What a drawing that was read is made of: the check let the text through, and the reader found
the markup of a document, which the drawing belongs to. -/
theorem exists_markup_of_parse {s : String} {p : Drawing} (h : parse s = .ok p) :
    Gate.check s = .ok () ∧ ∃ m, Markup.read s = .ok m ∧ p = ofDocument (.ofMarkup m) := by
  rw [parse] at h
  split at h
  · cases h
  next hcheck =>
  split at h
  · cases h
  next d hread =>
  cases h
  obtain ⟨m, hm, rfl⟩ := Document.read_eq_ok_iff.1 hread
  exact ⟨hcheck, m, hm, rfl⟩

theorem parse_of_read {s : String} {m : Markup} (hcheck : Gate.check s = .ok ())
    (hread : Markup.read s = .ok m) : parse s = .ok (ofDocument (.ofMarkup m)) := by
  rw [parse, hcheck, Document.read_eq_ok_iff.2 ⟨m, hread, rfl⟩]

/-- The components of a drawing are those of its markup. -/
theorem components_of_parse {s : String} {p : Drawing} (h : parse s = .ok p) :
    p.components = Markup.components p.document.markup := by
  obtain ⟨-, m, -, rfl⟩ := exists_markup_of_parse h
  exact components_ofDocument

/-- All elements of the root of a drawing have ids. -/
theorem hasIds_of_parse {s : String} {p : Drawing} (h : parse s = .ok p) {root : Node}
    (hroot : p.document.root? = some root) : Markup.HasIds root.bare := by
  obtain ⟨-, m, -, rfl⟩ := exists_markup_of_parse h
  apply hasIds_ofDocument
  rw [Document.root?_markup, hroot, Option.map_some]

/-- A drawing is made of nodes as they come from a text. -/
theorem areRead_of_parse {s : String} {p : Drawing} (h : parse s = .ok p) :
    Markup.AreRead true p.document.markup := by
  obtain ⟨-, m, hread, rfl⟩ := exists_markup_of_parse h
  exact Markup.AreRead.of_relAll (relAll_idGiven_ofDocument m) (Markup.areRead_of_read hread)

/-- The first node of a drawing is no text, or a text that starts with a space. -/
theorem exists_startsSpaced_of_parse {s : String} {p : Drawing} (h : parse s = .ok p) :
    ∃ t ts, p.document.markup = t :: ts ∧ Markup.StartsSpaced t := by
  obtain ⟨hcheck, m, hread, rfl⟩ := exists_markup_of_parse h
  have hrel := relAll_idGiven_ofDocument m
  obtain ⟨t, ts, rfl, ht⟩ := startsSpaced_of_read hcheck hread
  generalize (ofDocument (.ofMarkup (t :: ts))).document.markup = m' at hrel
  -- giving out ids makes no text of a node and leaves the texts that are there
  obtain _ | ⟨⟨c, vs⟩, us⟩ := m'
  · exact hrel.elim
  · obtain ⟨c', vs'⟩ := t
    refine ⟨_, us, rfl, fun s hs ↦ ht s ?_⟩
    rw [← hs]
    obtain ⟨⟨hlabel, -⟩, -⟩ := hrel
    cases hlabel <;> rfl

/-- The document of a drawing whose names are names of XML is sound. -/
theorem isSound_of_parse {s : String} {p : Drawing} (h : parse s = .ok p)
    (hnamed : ∀ c ∈ preorderAll p.document.markup, c.IsNamed) : p.document.IsSound :=
  ⟨areRead_of_parse h, hnamed, exists_startsSpaced_of_parse h⟩

/-- The text of a drawing is read as the settled markup of the drawing. -/
theorem read_text {s : String} {p : Drawing} (h : parse s = .ok p)
    (hnamed : ∀ c ∈ preorderAll p.document.markup, c.IsNamed) :
    Markup.read p.text
      = .ok (Markup.settledAll "" (mapAll Content.spaced p.document.markup)) :=
  (isSound_of_parse h hnamed).read_text

/-! ## Nothing new -/

/-- No id is missing in a drawing, so once it is settled it is its own drawing, and its components
are the same. -/
theorem ofDocument_settledAll (m : Markup) :
    ofDocument (.ofMarkup (Markup.settledAll "" (ofDocument (.ofMarkup m)).document.markup))
      = ⟨.ofMarkup (Markup.settledAll "" (ofDocument (.ofMarkup m)).document.markup),
        (ofDocument (.ofMarkup m)).components⟩ := by
  rw [ofDocument_of_hasIds, Markup.components_settledAll, components_ofDocument]
  intro root hroot
  rw [Markup.root?_settledAll, Option.map_eq_some_iff] at hroot
  obtain ⟨root', hroot', rfl⟩ := hroot
  exact (hasIds_ofDocument hroot').settled

/-- **Reading the text of a drawing gives its components, and writing it gives the text.** The check
has to let the text through, the names have to be names of XML, and attribute values must have no
tabs and no line breaks; for the text to come back no text in the document may be empty. -/
theorem reparse_text {s : String} {p : Drawing} (h : parse s = .ok p)
    (hunbroken : ∀ c ∈ preorderAll p.document.markup, c.IsUnbroken)
    (hnamed : ∀ c ∈ preorderAll p.document.markup, c.IsNamed)
    (hcheck : Gate.check p.text = .ok ()) :
    componentsOf p.text = .ok p.components ∧
      (.text "" ∉ preorderAll p.document.markup → serialize p.text = .ok p.text) := by
  have hread := read_text h hnamed
  rw [Markup.mapAll_spaced hunbroken] at hread
  obtain ⟨-, m, -, rfl⟩ := exists_markup_of_parse h
  have hparse := parse_of_read hcheck hread
  rw [ofDocument_settledAll] at hparse
  constructor
  · rw [componentsOf, hparse]
    rfl
  · intro hempty
    rw [serialize, hparse]
    refine congrArg Except.ok ?_
    show Markup.write (Document.ofMarkup _).markup = Markup.write _
    rw [Document.markup_ofMarkup, Markup.write_eq, Markup.writeNodes_settledAll hempty,
      Markup.write_eq]
    rfl

/-- Ids, a comment, an instruction and a section of character data. -/
theorem reparse_text_of_layers :
    ∃ p, parse "<?go on?><svg><!-- a --><g><rect/>b<![CDATA[&]]></g></svg>" = .ok p ∧
      p.text = "<?go on?><svg id=\"svg-0\"><!-- a --><g id=\"g-0\">" ++
        "<rect id=\"g-0-rect-0\"/>b&amp;</g></svg>" ∧
      componentsOf p.text = .ok p.components ∧ serialize p.text = .ok p.text := by
  have hparse := parse_of_read (m := [.node (.instruction "go on") [],
    .node (.element ⟨"svg", []⟩) [.node (.comment " a ") [], .node (.element ⟨"g", []⟩)
      [.node (.element ⟨"rect", []⟩) [], .node (.text "b") [], .node (.text "&") []]]])
    (s := "<?go on?><svg><!-- a --><g><rect/>b<![CDATA[&]]></g></svg>") (by cbv) (by cbv)
  have h := reparse_text hparse (by decide) (by decide) (by cbv)
  exact ⟨_, hparse, by cbv, h.1, h.2 (by decide)⟩

/-- **Reading again fails** where the check and the reader disagree on the end of a document type:
what the reader then takes for a tag has quotes in its names and is not read back. -/
theorem componentsOf_text_of_misread_doctype :
    ∃ p, parse ("<!DOCTYPE svg [<!ENTITY a \"<\">]><?p >>" ++
        "<a\" b='\"' c'='1'/><?q?><svg/>") = .ok p ∧
      (∀ c ∈ preorderAll p.document.markup, c.IsUnbroken) ∧ Gate.check p.text = .ok () ∧
      componentsOf p.text ≠ .ok p.components := by
  have hparse := parse_of_read (m := [.node (.doctype "svg [<!ENTITY a \"<\">]><?p >") [],
    .node (.element ⟨"a\"", [("b", "\""), ("c'", "1")]⟩) [], .node (.instruction "q") [],
    .node (.element ⟨"svg", []⟩) []])
    (s := "<!DOCTYPE svg [<!ENTITY a \"<\">]><?p >>" ++ "<a\" b='\"' c'='1'/><?q?><svg/>")
    (by cbv) (by cbv)
  refine ⟨_, hparse, by decide, by cbv, fun heq ↦ ?_⟩
  have herror : componentsOf ("<!DOCTYPE svg [<!ENTITY a \"<\">]><?p >>" ++
      "<a\" b=\"&quot;\" c'=\"1\"/><?q?><svg id=\"svg-0\"/>")
      = .error (.unreadable ⟨39, .unfinished .tag⟩) := by cbv
  cases herror.symm.trans heq

end Drawing

end SvgWorkbench
