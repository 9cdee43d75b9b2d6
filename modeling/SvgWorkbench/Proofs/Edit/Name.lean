import SvgWorkbench.Proofs.Drawing.Altered
import SvgWorkbench.Proofs.Drawing.Place
import SvgWorkbench.Proofs.Drawing.Restored
import SvgWorkbench.Proofs.Edit.Spared
import SvgWorkbench.Proofs.Edit.Unique

/-!
# Properties whose names are no names

The name of a property is written into the tag as it is given, and nothing but the check of what has
been written keeps it from being more than a name. The check does so unless the name starts with the
end of the tag or with an attribute of its own; then an element or another attribute may come in with
it. A name that does neither is refused, or has only spaces around it. Then the attribute of the bare
name is set, and it is one that the element had not.
-/

namespace SvgWorkbench.Edit

open Xml SvgWorkbench.Tree Markup Component Drawing Document

variable {p : Drawing} {n : Node} {text id key name value : String}

/-! ## Strange names -/

/-- Whether a key stands for an attribute, but is no name of XML. -/
structure IsStrangeKey (key : String) : Prop where
  /-- The key is no name of XML. -/
  not_isName : ¬ IsName key.toList
  /-- The key is not that of the text. -/
  ne_text : key ≠ textKey
  /-- The key is not that of a declaration. -/
  styleName? : styleName? key = none

/-- Whether an edit of a text is refused because the result cannot be read. -/
structure IsRefused (text : String) (edit : Except EditError String) : Prop where
  /-- There is a reason why the result cannot be read. -/
  fails : ∃ cause, edit = .error (.badResult cause)
  /-- The text is kept. -/
  keeps : orKeep text edit = text

/-- Whether an edit takes a key for a name with spaces around it and sets the attribute of this name,
which the element of a node has not, and nothing else. -/
structure SetsPadded (p : Drawing) (n : Node) (name key value : String)
    (edit : Except EditError String) : Prop where
  /-- The key is a new name with spaces around it. -/
  isPaddedNew : ∃ e, n.content = .element e ∧ IsPaddedNew e name key.toList
  /-- What is written is read as the document with the attribute. -/
  result : ∃ w, edit = .ok w ∧ parse w = .ok (ofDocument (.ofMarkup (settledAll "" (mapAll
    Content.spaced (p.document.modifyElement n.handle (·.set name value)).markup))))

/-- The edit of an element that is there depends on what is written only. -/
private theorem setProperty_eq_finish (hparse : parse text = .ok p)
    (hlocate : p.locate? id = some n) : setProperty text id key value
      = finish (p.document.setProperty n.handle key value) := by
  rw [setProperty, resolve_eq_ok_iff.2 ⟨p, hparse, hlocate, rfl⟩]
  rfl

/-- A strange key is set as it is given. -/
private theorem setProperty_of_isStrangeKey (hkey : IsStrangeKey key) (hvalue : value ≠ "")
    (d : Document) (h : Handle) :
    d.setProperty h key value = d.modifyElement h (·.set key value) := by
  rw [Document.setProperty, if_neg hkey.ne_text]
  refine congrArg (d.modifyElement h) (funext fun e ↦ ?_)
  rw [Element.setProperty, hkey.styleName?]
  exact if_neg fun hempty ↦ hvalue (String.isEmpty_iff.1 hempty)

/-! ## What becomes of them -/

section Places

variable {place : Context Content} {e : Element} {us : List (Tree Content)}

/-- The check lets no strange name through. -/
private theorem exists_isPaddedNew_of_check (hparse : parse text = .ok p) (hsteady : IsSteady text)
    (hpath : ∀ a ∈ place.path, a.isElement = true)
    (hmarkup : p.document.markup = place.plug [.node (.element e) us]) (hkey : key ∉ e.keys)
    (hinside : ¬ BreaksOut key.toList) {m : Markup}
    (hcheck : Gate.check (write (place.plug [.node (.element (e.set key value)) us])) = .ok ())
    (hread : Markup.read (write (place.plug [.node (.element (e.set key value)) us])) = .ok m) :
    ∃ name, IsPaddedNew e name key.toList := by
  have hnamed := isNamed_of_parse hparse hsteady
  have hsound := isSound_of_parse hparse hnamed
  have hwritable := hsound.isRead.areWritable hnamed
  have hbom := hsound.head?_ne
  rw [hmarkup] at hnamed hwritable hbom
  have hnames : e.HasXmlNames :=
    hnamed (.element e) (Context.mem_preorderAll_plug.2 (.inr List.mem_cons_self))
  obtain ⟨e', he', hpadded⟩ := exists_isPaddedNew_of_read hpath hwritable hbom hkey hinside hread
  have hplain := hasPlainDoctype_of_plug hparse hsteady hpath hmarkup
    (show IsName (e.set key value).name.toList from hnames.1) us
  exact hpadded (Gate.isStrict_of_check hcheck hread hplain _ he').isNamed

/-- A name with spaces around it is read as the name. -/
private theorem read_of_isPaddedNew {d : Document} (hsound : d.IsSound)
    (hpath : ∀ a ∈ place.path, a.isElement = true)
    (hmarkup : d.markup = place.plug [.node (.element (e.set name value)) us])
    (hname : IsPaddedNew e name key.toList) (hkey : key ∉ e.keys) :
    Markup.read (write (place.plug [.node (.element (e.set key value)) us]))
      = .ok (settledAll "" (mapAll Content.spaced d.markup)) := by
  have hwritable := hsound.isRead.areWritable hsound.isNamed
  have hbom := hsound.head?_ne
  rw [hmarkup] at hwritable hbom ⊢
  exact read_eq_of_isPadded hpath hwritable hbom hname.isNew hkey hname.isPadded

end Places

/-- **A name that is none is refused**, unless it starts with the end of the tag or with an attribute
of its own, or is a name with spaces around it. Then the attribute of this name is set, which the
element had not. -/
theorem isRefused_or_setsPadded (hparse : parse text = .ok p) (hsteady : IsSteady text)
    (hlocate : p.locate? id = some n) (hkey : IsStrangeKey key)
    (hinside : ¬ BreaksOut key.toList) (hvalue : value ≠ "") :
    IsRefused text (setProperty text id key value) ∨
      ∃ name, SetsPadded p n name key value (setProperty text id key value) := by
  have hnamed := isNamed_of_parse hparse hsteady
  obtain ⟨c, root, -, hroot, hn, -⟩ := exists_root_of_locate? hlocate
  have hmem : n ∈ p.document.elements :=
    Node.mem_elementsAll_trans (List.mem_of_find?_eq_some hroot) hn
  obtain ⟨e, he⟩ := Node.exists_content_of_isElement (Node.isElement_of_mem_elements hn)
  have hnew : key ∉ e.keys := fun hin ↦ hkey.not_isName ((hnamed (.element e)
    (Node.mem_preorderAll_of_content (Node.mem_subtreesAll_of_mem_elementsAll hmem) he)).2 key hin)
  -- whatever is set, the document is changed in one tag
  obtain ⟨place, hpath, hmarkup, hmodify⟩ := exists_plug (nodup_handlesAll_of_parse hparse) hmem
  rw [Node.bare_of_content he] at hmarkup
  have hset : ∀ name, (p.document.modifyElement n.handle (·.set name value)).markup
      = place.plug [.node (.element (e.set name value)) (n.children.map Node.bare)] := by
    intro name
    refine (hmodify _).trans ?_
    rw [Node.bare_mapElement, he]
    rfl
  rw [setProperty_eq_finish hparse hlocate, setProperty_of_isStrangeKey hkey hvalue, finish,
    Document.text, hset]
  cases hresult : parse (write (place.plug
    [.node (.element (e.set key value)) (n.children.map Node.bare)])) with
  | error cause => exact .inl ⟨⟨cause, rfl⟩, rfl⟩
  | ok q =>
    obtain ⟨hcheck, m, hread, -⟩ := exists_markup_of_parse hresult
    obtain ⟨name, hname⟩ :=
      exists_isPaddedNew_of_check hparse hsteady hpath hmarkup hnew hinside hcheck hread
    have hsound := (isSound_of_parse hparse hnamed).modifyElement n.handle (f := (·.set name value))
      (fun e he ↦ Element.nodup_keys_set he name value)
      fun e he ↦ Element.HasXmlNames.set he hname.isName value
    exact .inr ⟨name, ⟨e, he, hname⟩, _, rfl,
      parse_of_read hcheck (read_of_isPaddedNew hsound hpath (hset name) hname hnew)⟩

/-- A name with another one behind it is refused, and one with a space before it is set. -/
theorem isRefused_and_setsPadded_of_spaces : ∃ p n,
    parse "<svg><rect id=\"r\"/></svg>" = .ok p ∧ IsSteady "<svg><rect id=\"r\"/></svg>" ∧
      p.locate? "r" = some n ∧ IsStrangeKey "x y" ∧ ¬ BreaksOut "x y".toList ∧
      IsStrangeKey " x" ∧ ¬ BreaksOut " x".toList ∧ "9" ≠ "" ∧
      IsRefused "<svg><rect id=\"r\"/></svg>"
        (setProperty "<svg><rect id=\"r\"/></svg>" "r" "x y" "9") ∧
      ∃ name, SetsPadded p n name " x" "9"
        (setProperty "<svg><rect id=\"r\"/></svg>" "r" " x" "9") := by
  have hparse := parse_of_read (m := [.node (.element ⟨"svg", []⟩)
    [.node (.element ⟨"rect", [("id", "r")]⟩) []]])
    (s := "<svg><rect id=\"r\"/></svg>") (by cbv) (by cbv)
  have hrefused : ∃ cause, setProperty "<svg><rect id=\"r\"/></svg>" "r" "x y" "9" = .error cause :=
    ⟨_, by cbv⟩
  have hset : setProperty "<svg><rect id=\"r\"/></svg>" "r" " x" "9"
      = .ok "<svg id=\"svg-0\"><rect id=\"r\"  x=\"9\"/></svg>" := by cbv
  obtain ⟨n, hlocate⟩ : ∃ n, (ofDocument (.ofMarkup [.node (.element ⟨"svg", []⟩)
      [.node (.element ⟨"rect", [("id", "r")]⟩) []]])).locate? "r" = some n := ⟨_, by cbv⟩
  obtain ⟨hdeclaration, hdoctype⟩ := Gate.hasPlainDeclaration_and_doctype_of_tag
    (c := 's') (by decide) ("vg><rect id=\"r\"/></svg>".toList)
  have hsteady := isSteady_of_isClean hparse ⟨by decide +kernel, by decide +kernel⟩ hdeclaration
    hdoctype
  have hkey : IsStrangeKey "x y" := ⟨by decide, by decide, by decide⟩
  have hinside : ¬ BreaksOut "x y".toList := fun h ↦ absurd h.mem (by decide)
  have hkey' : IsStrangeKey " x" := ⟨by decide, by decide, by decide⟩
  have hinside' : ¬ BreaksOut " x".toList := fun h ↦ absurd h.mem (by decide)
  refine ⟨_, n, hparse, hsteady, hlocate, hkey, hinside, hkey', hinside', by decide, ?_, ?_⟩
  · refine (isRefused_or_setsPadded hparse hsteady hlocate hkey hinside (by decide)).resolve_right ?_
    rintro ⟨name, -, w, hw, -⟩
    obtain ⟨cause, hcause⟩ := hrefused
    cases hcause.symm.trans hw
  · refine (isRefused_or_setsPadded hparse hsteady hlocate hkey' hinside' (by decide)).resolve_left ?_
    rintro ⟨⟨cause, hcause⟩, -⟩
    cases hset.symm.trans hcause

/-- **A name that closes the tag brings another element.** -/
theorem exists_element_of_closing_key : ∃ p q w,
    parse "<svg><rect id=\"r\"/></svg>" = .ok p ∧ p.IsClean ∧ (p.locate? "r").isSome = true ∧
      IsStrangeKey "x=\"1\"/><circle r" ∧
      setProperty "<svg><rect id=\"r\"/></svg>" "r" "x=\"1\"/><circle r" "9" = .ok w ∧
      parse w = .ok q ∧ (all p.components).map Component.id = ["svg-0", "r"] ∧
      (all q.components).map Component.id = ["svg-0", "r", "circle-0"] := by
  have hparse := parse_of_read (m := [.node (.element ⟨"svg", []⟩)
    [.node (.element ⟨"rect", [("id", "r")]⟩) []]])
    (s := "<svg><rect id=\"r\"/></svg>") (by cbv) (by cbv)
  have hedit : setProperty "<svg><rect id=\"r\"/></svg>" "r" "x=\"1\"/><circle r" "9"
      = .ok "<svg id=\"svg-0\"><rect id=\"r\" x=\"1\"/><circle r=\"9\"/></svg>" := by cbv
  have hread := parse_of_read (m := [.node (.element ⟨"svg", [("id", "svg-0")]⟩)
    [.node (.element ⟨"rect", [("id", "r"), ("x", "1")]⟩) [],
      .node (.element ⟨"circle", [("r", "9")]⟩) []]])
    (s := "<svg id=\"svg-0\"><rect id=\"r\" x=\"1\"/><circle r=\"9\"/></svg>") (by cbv) (by cbv)
  refine ⟨_, _, _, hparse, ⟨by decide +kernel, by decide +kernel⟩, by cbv,
    ⟨by decide, by decide, by decide⟩, hedit, hread, ?_, ?_⟩
  · rw [all_eq]
    decide +kernel
  · rw [all_eq]
    decide +kernel

end SvgWorkbench.Edit
