import SvgWorkbench.Proofs.Drawing.Altered
import SvgWorkbench.Proofs.Edit.Normal
import SvgWorkbench.Proofs.Edit.Unique

/-!
# Setting an attribute changes one attribute

An edit of an attribute reads a drawing, finds the component an id means, changes the element that
has the id of this component, and writes the document, which is read once more. Where ids are
distinct the component and the element belong together, and no id is given out on the way back, so
the components come back with the attributes of one of them changed.
-/

namespace SvgWorkbench

open Xml SvgWorkbench.Tree Markup Component Drawing Document

/-! ## Elements with a property set -/

namespace Element

variable {e : Element} {key : String}

theorem get?_setProperty (h : e.keys.Nodup) (hstyle : styleName? key = none) (value k : String) :
    (e.setProperty key value).get? k
      = if k = key then (if value = "" then none else some value) else e.get? k := by
  rw [setProperty, hstyle]
  by_cases hk : k = key
  · subst hk
    by_cases hvalue : value = ""
    · simp [hvalue, get?_erase_self h]
    · simp [hvalue]
  · by_cases hvalue : value = ""
    · simp [hvalue, hk, get?_erase_of_ne]
    · simp [hvalue, hk, get?_set, Ne.symm hk]

end Element

namespace Edit

/-! ## The element that is changed -/

variable {p q : Drawing} {text id w key value : String} {c : Component}

/-- Whether a key is that of an attribute in the markup, other than the id. -/
structure IsAttributeKey (key : String) : Prop where
  /-- The key is a name of XML. -/
  isName : IsName key.toList
  /-- The key is not that of the id. -/
  ne_id : key ≠ "id"
  /-- The key is not that of the text. -/
  ne_text : key ≠ textKey
  /-- The key is not that of a declaration. -/
  styleName? : styleName? key = none

/-- A text with spaces for its tabs and line breaks. -/
def spacedText (s : String) : String := String.ofList (spaced s.toList)

/-- What has become of an entry after the component that one node stands for has got a property, the
ids around have other names, and all has been read again. -/
inductive Reset (d : Document) (n : Node) (id key value : String) (rename : String → String) :
    Entry → Entry → Prop where
  /-- An entry of another id is made of the same element. -/
  | kept {m : Node} {e : Element} {parent : Option String} (hm : m ∈ d.elements)
    (he : m.content = .element e) (hne : e.id?.getD "" ≠ id) :
    Reset d n id key value rename (entryOf parent e (m.children.map Node.bare))
      (entryOf (parent.map rename) e.spaced (m.children.map Node.bare))
  /-- The entry of the id is made of the element with the property. -/
  | set {e : Element} {parent : Option String} (hm : n ∈ d.elements) (he : n.content = .element e)
    (heq : e.id?.getD "" = id) :
    Reset d n id key value rename (entryOf parent e (n.children.map Node.bare))
      (entryOf (parent.map rename) (e.setProperty key value).spaced (n.children.map Node.bare))

variable {root n : Node}

/-- Where ids are distinct, one element of the root has the id of a component. -/
theorem id_eq_iff (hparse : parse text = .ok p)
    (hdistinct : ((all p.components).map Component.id).Nodup)
    (hroot : p.document.root? = some root) (hn : n ∈ root.elements) (hid : n.id? = some c.id)
    {m : Node} (hm : m ∈ root.elements) {e : Element} (he : m.content = .element e) :
    e.id?.getD "" = c.id ↔ m = n := by
  rw [ids_of_parse hparse hroot] at hdistinct
  have hmid : m.id?.getD "" = e.id?.getD "" := by rw [Node.id?_of_content he]
  have hnid : n.id?.getD "" = c.id := by rw [hid, Option.getD_some]
  rw [← hmid, ← hnid]
  exact ⟨List.inj_on_of_nodup_map hdistinct hm hn, by rintro rfl; rfl⟩

/-- No key stands twice in an element of a drawing. -/
theorem keys_of_mem (hparse : parse text = .ok p) {m : Node} (hm : m ∈ p.document.elements)
    {e : Element} (he : m.content = .element e) : e.keys.Nodup :=
  (areRead_of_parse hparse).nodup_keys e
    (Node.mem_preorderAll_of_content (Node.mem_subtreesAll_of_mem_elementsAll hm) he)

/-- Setting an attribute other than the id leaves no element of the root without an id. -/
private theorem hasIds_setAttribute (hparse : parse text = .ok p)
    (hroot : p.document.root? = some root) (hn : n ∈ root.elements) (hid : key ≠ "id")
    (value : String) {root' : Node}
    (hroot' : (p.document.modifyElement n.handle (·.setProperty key value)).root? = some root') :
    HasIds root'.bare := by
  cases (root?_modifyElement (nodup_handlesAll_of_parse hparse) hroot hn
    fun e ↦ Element.name_setProperty e key value).symm.trans hroot'
  refine Node.hasIds_modify (fun m hm ↦ ?_) (hasIds_of_parse hparse hroot)
  obtain ⟨⟨k, c⟩, ts⟩ := m
  rcases c.eq_element_or with ⟨e, rfl⟩ | hc
  · exact ⟨Element.isSome_id?_setProperty hm.1 fun heq ↦ absurd heq hid, hm.2⟩
  · cases c <;> first | exact hm | cases hc

/-- The components of a document in which a property has been set in the tag of an element that
alone has its id. -/
private theorem relAll_reset (hparse : parse text = .ok p) (hroot : p.document.root? = some root)
    (hn : n ∈ root.elements)
    (honly : ∀ m ∈ root.elements, ∀ e, m.content = .element e → (e.id?.getD "" = c.id ↔ m = n))
    (hid : key ≠ "id") {rename : String → String} (hrename : ∀ e,
      .element e ∈ preorderAll p.document.markup →
        rename (e.id?.getD "") = spacedText (e.id?.getD "")) :
    RelAll (Reset p.document n c.id key value rename) (components p.document.markup)
      (components (mapAll Content.spaced
        (p.document.modifyElement n.handle (·.setProperty key value)).markup)) := by
  have hnodup := nodup_handlesAll_of_parse hparse
  have hin : ∀ m ∈ root.elements, m ∈ p.document.elements := fun m hm ↦
    Node.mem_elementsAll_trans (List.mem_of_find?_eq_some hroot) hm
  have hset : ∀ m ∈ root.elements, ∀ e e' : Element, m.content = .element e →
      (Node.altered n.handle (·.setProperty key value) m.label).spaced = .element e' →
      e' = (if m.handle = n.handle then e.setProperty key value else e).spaced := by
    intro m hm e e' he he'
    rw [Node.altered_of_content he] at he'
    exact (Content.element.inj he').symm
  have hrenamed : ∀ m ∈ root.elements, ∀ e e' : Element, m.content = .element e →
      (Node.altered n.handle (·.setProperty key value) m.label).spaced = .element e' →
      e'.id?.getD "" = rename (e.id?.getD "") := by
    intro m hm e e' he he'
    have hmem :=
      Node.mem_preorderAll_of_content (Node.mem_subtreesAll_of_mem_elementsAll (hin m hm)) he
    rw [hset m hm e e' he he', Element.getD_id?_spaced, hrename e hmem, spacedText]
    split
    · rw [Element.id?_setProperty_of_ne e hid]
    · rfl
  refine (relAll_components_modifyElement hnodup hroot
    (fun e ↦ Element.name_setProperty e key value) hrenamed).imp ?_
  rintro a - b ⟨m, hm, e, e', parent, he, he', rfl, rfl⟩
  rw [hset m hm e e' he he']
  by_cases hm' : m = n
  · subst hm'
    rw [if_pos rfl]
    exact .set (hin m hm) he ((honly m hm e he).2 rfl)
  · have hne : m.handle ≠ n.handle := fun heq ↦ hm' (Node.eq_of_handle_eq_all hnodup
      (Node.mem_subtreesAll_of_mem_elementsAll (hin m hm))
      (Node.mem_subtreesAll_of_mem_elementsAll (hin n hn)) heq)
    rw [if_neg hne]
    exact .kept (hin m hm) he fun heq ↦ hm' ((honly m hm e he).1 heq)

/-- **What setting an attribute or a declaration does**: the component an id means stands for one
element of the root, the document is written with this element changed, and what is read in it are
the components with one entry reset. -/
theorem exists_reset (hparse : parse text = .ok p) (hnamed : IsNamed p)
    (hdistinct : ((all p.components).map Component.id).Nodup)
    (hfind : find? p.components id = some c) (hid : key ≠ "id") (htext : key ≠ textKey)
    (hkey : (styleName? key).isSome = true ∨ IsName key.toList)
    (hedit : setProperty text id key value = .ok w) :
    ∃ q n e, parse w = .ok q ∧ p.document.find? c.id = some n ∧ n ∈ p.document.elements ∧
      n.content = .element e ∧
      q.document = .ofMarkup (settledAll "" (mapAll Content.spaced
        (p.document.modifyElement n.handle (·.setProperty key value)).markup)) ∧
      ∀ rename : String → String, (∀ e, .element e ∈ preorderAll p.document.markup →
        rename (e.id?.getD "") = spacedText (e.id?.getD "")) →
        RelAll (Reset p.document n c.id key value rename) p.components q.components := by
  obtain ⟨p', n, hp', hlocate, hfinish⟩ := setProperty_eq_ok_iff.1 hedit
  cases hp'.symm.trans hparse
  rw [Document.setProperty, if_neg htext] at hfinish
  obtain ⟨⟨q, hread⟩, rfl⟩ := finish_eq_ok_iff.1 hfinish
  obtain ⟨c', root, hfind', hroot, hn, hnid⟩ := exists_root_of_locate? hlocate
  cases hfind.symm.trans hfind'
  rw [locate?, hfind, Option.bind_some] at hlocate
  have hsound := isSound_of_parse hparse hnamed
  obtain ⟨e, he⟩ := Node.exists_content_of_isElement (Node.isElement_of_mem_elements hn)
  -- no id is missing in what is written, so none is given out when it is read
  have hq := eq_of_parse_text (hsound.setAttribute n.handle hkey value)
    (fun _ ↦ hasIds_setAttribute hparse hroot hn hid value) hread
  refine ⟨q, n, e, hread, hlocate, Node.mem_elementsAll_trans (List.mem_of_find?_eq_some hroot) hn,
    he, by rw [hq], fun rename hrename ↦ ?_⟩
  rw [components_of_parse hparse, hq]
  exact relAll_reset hparse hroot hn
    (fun m hm e he ↦ id_eq_iff hparse hdistinct hroot hn hnid hm he) hid hrename

/-- Setting a property of the component that has an id. -/
theorem setProperty_of_mem (hparse : parse text = .ok p)
    (hid : id ∈ (all p.components).map Component.id) (hfind : p.document.find? id = some n)
    (htext : (p.document.setProperty n.handle key value).text = w) (hread : parse w = .ok q) :
    setProperty text id key value = .ok w := by
  obtain ⟨c, hc, hcid⟩ := exists_find?_of_mem hid
  have hlocate : p.locate? id = some n := by rw [locate?, hc, Option.bind_some, hcid, hfind]
  refine setProperty_eq_ok_iff.2 ⟨p, n, hparse, hlocate, finish_eq_ok_iff.2 ⟨⟨q, ?_⟩, htext.symm⟩⟩
  rw [htext, hread]

/-! ## The value that is set -/

/-- What a component made of an element shows, whatever the attributes of the element are. -/
theorem get?_attributesOf_children {n : Node} (hn : n.isElement = true) {e : Element}
    (he : e.keys.Nodup) (key : String) :
    (Markup.attributesOf e (n.children.map Node.bare)).get? key = shown? n e key := by
  obtain ⟨s, ts⟩ := n
  have hs : s.content.isElement = true := hn
  rw [← get?_attributesOf he, attributesOf_eq e hs]
  rfl

theorem IsAttributeKey.shown?_eq (hkey : IsAttributeKey key) (n : Node) (e : Element) :
    shown? n e key = e.get? key := by
  rw [shown?, if_neg fun h ↦ hkey.ne_text h.1, styled?, hkey.styleName?]
  rfl

theorem spacedText_eq_iff : spacedText value = value ↔ Unbroken value.toList := by
  rw [spacedText, ← String.toList_inj, String.toList_ofList]
  exact ⟨fun h ↦ h ▸ unbroken_spaced _, fun h ↦ h.spaced_eq⟩

/-- What has become of an entry, when the components of an id have been given a value for a key and
what is written has been read again. -/
structure GetsValue (meant key value : String) (a b : Entry) : Prop where
  /-- The type is the same. -/
  kind : b.kind = a.kind
  /-- The id is the same, but for tabs and line breaks in it. -/
  id : b.id = spacedText a.id
  /-- A component of the id has the value with spaces for its tabs and line breaks. -/
  shows : a.id = meant → b.attributes.get? key = some (spacedText value)
  /-- That is the value itself exactly if there are none in it. -/
  verbatim : a.id = meant → (b.attributes.get? key = some value ↔ Unbroken value.toList)

/-- **An attribute is set to its value with spaces for tabs and line breaks**: verbatim exactly if
the value has none. -/
theorem exists_getsValue (hparse : parse text = .ok p) (hnamed : IsNamed p)
    (hdistinct : ((all p.components).map Component.id).Nodup)
    (hfind : find? p.components id = some c) (hkey : IsAttributeKey key) (hvalue : value ≠ "")
    (hedit : setProperty text id key value = .ok w) :
    ∃ q, parse w = .ok q ∧ RelAll (GetsValue c.id key value) p.components q.components := by
  obtain ⟨q, n, -, hread, -, -, -, -, hreset⟩ := exists_reset hparse hnamed hdistinct hfind
    hkey.ne_id hkey.ne_text (.inr hkey.isName) hedit
  refine ⟨q, hread, (hreset spacedText fun _ _ ↦ rfl).imp ?_⟩
  rintro a - b hab
  cases hab with
  | kept hm he hne =>
    exact ⟨rfl, Element.getD_id?_spaced _, fun heq ↦ absurd heq hne, fun heq ↦ absurd heq hne⟩
  | @set e parent hm he heq =>
    have hkeys := keys_of_mem hparse hm he
    have hshows : (Markup.attributesOf (e.setProperty key value).spaced
        (n.children.map Node.bare)).get? key = some (spacedText value) := by
      rw [get?_attributesOf_children (Node.isElement_of_mem_elementsAll hm) ?_, hkey.shown?_eq,
        Element.get?_spaced, Element.get?_setProperty hkeys hkey.styleName?, if_pos rfl,
        if_neg hvalue, Option.map_some, spacedText]
      rw [Element.keys_spaced]
      exact Element.nodup_keys_setProperty hkeys key value
    refine ⟨?_, ?_, fun _ ↦ hshows, fun _ ↦ ?_⟩
    · show Text.lower (e.setProperty key value).name = Text.lower e.name
      rw [Element.name_setProperty]
    · show (e.setProperty key value).spaced.id?.getD "" = _
      rw [Element.getD_id?_spaced, Element.id?_setProperty_of_ne e hkey.ne_id]
      rfl
    · show SortedMap.get? (Markup.attributesOf _ _) key = _ ↔ _
      rw [hshows, Option.some_inj, spacedText_eq_iff]

/-- A value with quotes and brackets is set on a shape that is meant by its place. -/
theorem exists_getsValue_of_marks :
    ∃ p c w q, parse "<svg><rect id=\"r\"/></svg>" = .ok p ∧ IsNamed p ∧
      ((all p.components).map Component.id).Nodup ∧ find? p.components "rect-0" = some c ∧
      IsAttributeKey "x" ∧ setProperty "<svg><rect id=\"r\"/></svg>" "rect-0" "x" "<\"&" = .ok w ∧
      parse w = .ok q ∧ RelAll (GetsValue c.id "x" "<\"&") p.components q.components := by
  have hparse := parse_of_read (m := [.node (.element ⟨"svg", []⟩)
    [.node (.element ⟨"rect", [("id", "r")]⟩) []]])
    (s := "<svg><rect id=\"r\"/></svg>") (by cbv) (by cbv)
  have hkey : IsAttributeKey "x" := ⟨by decide, by decide, by decide, by decide⟩
  have hedit : setProperty "<svg><rect id=\"r\"/></svg>" "rect-0" "x" "<\"&"
      = .ok "<svg id=\"svg-0\"><rect id=\"r\" x=\"&lt;&quot;&amp;\"/></svg>" := by cbv
  generalize hp : ofDocument (.ofMarkup [.node (.element ⟨"svg", []⟩)
    [.node (.element ⟨"rect", [("id", "r")]⟩) []]]) = p at hparse
  have hnamed : IsNamed p := by
    subst hp
    unfold IsNamed
    decide +kernel
  have hdistinct : ((all p.components).map Component.id).Nodup := by
    subst hp
    rw [all_eq]
    decide +kernel
  obtain ⟨c, hfind⟩ : ∃ c, find? p.components "rect-0" = some c := by
    subst hp
    exact ⟨_, by cbv⟩
  obtain ⟨q, hread, hvalue⟩ := exists_getsValue hparse hnamed hdistinct hfind hkey (by decide) hedit
  exact ⟨p, c, _, q, hparse, hnamed, hdistinct, hfind, hkey, hedit, hread, hvalue⟩

/-- **A line break in a value comes back as a space.** -/
theorem exists_attribute?_ne_of_line_break :
    ∃ p c w q c', parse "<svg><rect id=\"r\"/></svg>" = .ok p ∧ p.IsClean ∧
      ((all p.components).map Component.id).Nodup ∧ find? p.components "r" = some c ∧
      IsAttributeKey "title" ∧
      setProperty "<svg><rect id=\"r\"/></svg>" "r" "title" "a\nb" = .ok w ∧ parse w = .ok q ∧
      find? q.components "r" = some c' ∧ c'.attribute? "title" = some "a b" ∧
      c'.attribute? "title" ≠ some "a\nb" := by
  have hparse := parse_of_read (m := [.node (.element ⟨"svg", []⟩)
    [.node (.element ⟨"rect", [("id", "r")]⟩) []]])
    (s := "<svg><rect id=\"r\"/></svg>") (by cbv) (by cbv)
  have hedit : setProperty "<svg><rect id=\"r\"/></svg>" "r" "title" "a\nb"
      = .ok "<svg id=\"svg-0\"><rect id=\"r\" title=\"a\nb\"/></svg>" := by cbv
  have hread := parse_of_read (m := [.node (.element ⟨"svg", [("id", "svg-0")]⟩)
    [.node (.element ⟨"rect", [("id", "r"), ("title", "a b")]⟩) []]])
    (s := "<svg id=\"svg-0\"><rect id=\"r\" title=\"a\nb\"/></svg>") (by cbv) (by cbv)
  exact ⟨_, _, _, _, _, hparse, ⟨by decide +kernel, by decide +kernel⟩, by rw [all_eq]; decide +kernel,
    by cbv, ⟨by decide, by decide, by decide, by decide⟩, hedit, hread, by cbv,
    (and_iff_left_of_imp fun hvalue ↦ by rw [hvalue]; decide).2 (by cbv)⟩

/-! ## What else changes -/

/-- Setting a property puts no tab and no line break into a document. -/
private theorem isUnbroken_setAttribute {d : Document}
    (hunbroken : ∀ c ∈ preorderAll d.markup, c.IsUnbroken) (hkey : Unbroken key.toList)
    (hvalue : Unbroken value.toList) (h : Handle) :
    ∀ c ∈ preorderAll (d.modifyElement h (·.setProperty key value)).markup, c.IsUnbroken := by
  refine Node.forall_preorderAll_modifyAll (fun n hn ↦ ?_) hunbroken
  obtain ⟨⟨k, c⟩, ts⟩ := n
  cases c with
  | element e =>
    rw [Node.bare_node, preorder, List.forall_mem_cons] at hn
    rw [Node.bare_mapElement, preorder, List.forall_mem_cons]
    exact ⟨Element.IsUnbroken.setProperty hn.1 hkey hvalue, hn.2⟩
  | _ => exact hn

/-- The forest in which the components of an id have other attributes. -/
def withAttributes (id : String) (attributes : Attributes) (forest : List Component) :
    List Component :=
  mapAll (fun entry ↦ if entry.id = id then { entry with attributes } else entry) forest

/-- **Setting a property in a tag changes the attributes of one component**, where there are no tabs
and no line breaks: they are those of the element with the property, and nothing else changes. -/
theorem exists_withAttributes (hparse : parse text = .ok p) (hclean : p.IsClean)
    (hdistinct : ((all p.components).map Component.id).Nodup)
    (hfind : find? p.components id = some c) (hid : key ≠ "id") (htext : key ≠ textKey)
    (hkey : (styleName? key).isSome = true ∨ IsName key.toList)
    (hunbroken : Unbroken key.toList) (hvalue : Unbroken value.toList)
    (hedit : setProperty text id key value = .ok w) :
    ∃ q n e, parse w = .ok q ∧ p.document.find? c.id = some n ∧ n ∈ p.document.elements ∧
      n.content = .element e ∧ e.keys.Nodup ∧
      q.document.markup = settledAll ""
        (p.document.modifyElement n.handle (·.setProperty key value)).markup ∧
      c.attributes = Markup.attributesOf e (n.children.map Node.bare) ∧
      q.components = withAttributes c.id (Markup.attributesOf (e.setProperty key value)
        (n.children.map Node.bare)) p.components := by
  obtain ⟨q, n, e, hread, hn, hmem, he, hdocument, hreset⟩ := exists_reset hparse hclean.isNamed
    hdistinct hfind hid htext hkey hedit
  have hmarkup : ∀ m ∈ p.document.elements, ∀ e, m.content = .element e →
      .element e ∈ preorderAll p.document.markup := fun m hm e he ↦
    Node.mem_preorderAll_of_content (Node.mem_subtreesAll_of_mem_elementsAll hm) he
  have hids : ∀ e, .element e ∈ preorderAll p.document.markup →
      e.id?.getD "" = spacedText (e.id?.getD "") := by
    intro e he
    rw [spacedText, ← Element.getD_id?_spaced,
      Element.IsUnbroken.spaced_eq (hclean.isUnbroken _ he)]
  have hentries := hreset (fun s ↦ s) hids
  refine ⟨q, n, e, hread, hn, hmem, he, keys_of_mem hparse hmem he, ?_, ?_, ?_⟩
  · rw [hdocument, markup_ofMarkup,
      mapAll_spaced (isUnbroken_setAttribute hclean.isUnbroken hunbroken hvalue n.handle)]
  · -- the entry of the component is one of those that are reset, so it is made of this element
    have hentry : ∀ a b, Reset p.document n c.id key value (fun s ↦ s) a b → a.id = c.id →
        a.attributes = Markup.attributesOf e (n.children.map Node.bare) := by
      intro a b hab hmeant
      cases hab with
      | kept _ _ hne => exact absurd hmeant hne
      | set _ he' _ =>
        cases he.symm.trans he'
        rfl
    have hlabel : c.label ∈ preorderAll p.components := by
      rw [← map_label_subtreesAll]
      exact List.mem_map_of_mem (mem_of_find? hfind)
    obtain ⟨b, -, hab⟩ := hentries.exists_of_mem hlabel
    exact hentry c.label b hab rfl
  · refine (hentries.imp ?_).eq_mapAll
    rintro a - b hab
    cases hab with
    | @kept m e parent hm he hne =>
      rw [if_neg (show ¬ (entryOf parent e (m.children.map Node.bare)).id = c.id from hne),
        Option.map_id_fun', Element.IsUnbroken.spaced_eq (hclean.isUnbroken _ (hmarkup _ hm _ he))]
      rfl
    | @set e' parent hm he' heq =>
      cases he.symm.trans he'
      have hset : (e.setProperty key value).IsUnbroken :=
        Element.IsUnbroken.setProperty (hclean.isUnbroken _ (hmarkup _ hm _ he)) hunbroken hvalue
      rw [if_pos (show (entryOf parent e (n.children.map Node.bare)).id = c.id from heq),
        Option.map_id_fun', hset.spaced_eq, entryOf, entryOf, Element.kind, Element.name_setProperty,
        Element.id?_setProperty_of_ne e hid]
      rfl

/-- What the attributes of a component become when an attribute of its element is set. -/
structure ShowsSet (e : Element) (key value : String) (before after : Attributes) : Prop where
  /-- The key has the value, or none if the value is empty. -/
  own : after.get? key = if value = "" then none else some value
  /-- If the style is set, the keys of declarations show what it declares, or else an attribute that
  has such a key. -/
  declared : key = "style" → ∀ name, after.get? (styleKeyStart ++ name)
    = ((Style.ofText value).get? name).or (e.get? (styleKeyStart ++ name))
  /-- Every other key shows what it showed. -/
  others : ∀ k, k ≠ key → (key = "style" → SvgWorkbench.styleName? k = none) →
    after.get? k = before.get? k

theorem ne_textKey_of_styleName? {k name : String} (h : SvgWorkbench.styleName? k = some name) :
    k ≠ textKey := by
  rintro rfl
  cases h

private theorem showsSet_setProperty {n : Node} {e : Element} (hkey : IsAttributeKey key)
    (he : n.content = .element e) (hkeys : e.keys.Nodup) (value : String) :
    ShowsSet e key value (Markup.attributesOf e (n.children.map Node.bare))
      (Markup.attributesOf (e.setProperty key value) (n.children.map Node.bare)) := by
  have hn : n.isElement = true := by rw [Node.isElement, he]; rfl
  have hafter := fun k ↦
    get?_attributesOf_children hn (Element.nodup_keys_setProperty hkeys key value) k
  have hget := Element.get?_setProperty hkeys hkey.styleName? value
  refine ⟨?_, fun hstyle name ↦ ?_, fun k hne hstyle ↦ ?_⟩
  · rw [hafter, hkey.shown?_eq, hget, if_pos rfl]
  · subst hstyle
    have hname := styleName?_eq_some_iff.2 (rfl : styleKeyStart ++ name = _)
    have hne : styleKeyStart ++ name ≠ "style" := by
      intro heq
      rw [heq] at hname
      cases hname
    rw [hafter, shown?, if_neg fun h ↦ ne_textKey_of_styleName? hname h.1, styled?, hname, hget, hget,
      if_pos rfl, if_neg hne]
    split
    · next hempty => subst hempty; rfl
    · rfl
  · rw [hafter, get?_attributesOf_children hn hkeys, shown?, shown?, hget, if_neg hne]
    have hstyled : styled? (e.setProperty key value) k = styled? e k := by
      rw [styled?, styled?]
      by_cases hkey : key = "style"
      · rw [hstyle hkey]
        rfl
      · rw [hget, if_neg (Ne.symm hkey)]
    rw [hstyled]

/-- **Setting an attribute touches one attribute of one element.** -/
theorem exists_showsSet (hparse : parse text = .ok p) (hclean : p.IsClean)
    (hdistinct : ((all p.components).map Component.id).Nodup)
    (hfind : find? p.components id = some c) (hkey : IsAttributeKey key)
    (hvalue : Unbroken value.toList) (hedit : setProperty text id key value = .ok w) :
    ∃ q n e attributes, parse w = .ok q ∧ p.document.find? c.id = some n ∧
      n.content = .element e ∧ ShowsSet e key value c.attributes attributes ∧
      q.components = withAttributes c.id attributes p.components ∧
      q.document.markup = settledAll ""
        (p.document.modifyElement n.handle (·.setProperty key value)).markup := by
  obtain ⟨q, n, e, hread, hn, -, he, hkeys, hmarkup, hattributes, hcomponents⟩ :=
    exists_withAttributes hparse hclean hdistinct hfind hkey.ne_id hkey.ne_text (.inr hkey.isName)
      (unbroken_of_forall_isNameChar hkey.isName.forall_isNameChar) hvalue hedit
  refine ⟨q, n, e, _, hread, hn, he, ?_, hcomponents, hmarkup⟩
  rw [hattributes]
  exact showsSet_setProperty hkey he hkeys value

/-- A style is set on an element that has an attribute with the key of a declaration. -/
theorem exists_showsSet_of_style :
    ∃ p c w q n e attributes, parse "<svg><rect style-x=\"1\"/></svg>" = .ok p ∧ p.IsClean ∧
      ((all p.components).map Component.id).Nodup ∧ find? p.components "rect-0" = some c ∧
      IsAttributeKey "style" ∧
      setProperty "<svg><rect style-x=\"1\"/></svg>" "rect-0" "style" "x:2" = .ok w ∧
      parse w = .ok q ∧ p.document.find? c.id = some n ∧ n.content = .element e ∧
      ShowsSet e "style" "x:2" c.attributes attributes ∧
      q.components = withAttributes c.id attributes p.components := by
  have hparse := parse_of_read (m := [.node (.element ⟨"svg", []⟩)
    [.node (.element ⟨"rect", [("style-x", "1")]⟩) []]])
    (s := "<svg><rect style-x=\"1\"/></svg>") (by cbv) (by cbv)
  have hkey : IsAttributeKey "style" := ⟨by decide, by decide, by decide, by decide⟩
  have hparse' := parse_of_read (m := [.node (.element ⟨"svg", [("id", "svg-0")]⟩)
    [.node (.element ⟨"rect", [("style-x", "1"), ("id", "rect-0"), ("style", "x:2")]⟩) []]])
    (s := "<svg id=\"svg-0\"><rect style-x=\"1\" id=\"rect-0\" style=\"x:2\"/></svg>")
    (by cbv) (by cbv)
  generalize hp : ofDocument (.ofMarkup [.node (.element ⟨"svg", []⟩)
    [.node (.element ⟨"rect", [("style-x", "1")]⟩) []]]) = p at hparse
  have hclean : p.IsClean := by
    subst hp
    exact ⟨by decide +kernel, by decide +kernel⟩
  have hids : (all p.components).map Component.id = ["svg-0", "rect-0"] := by
    subst hp
    rw [all_eq]
    decide +kernel
  have hdistinct : ((all p.components).map Component.id).Nodup := by
    rw [hids]
    decide
  have hmem : "rect-0" ∈ (all p.components).map Component.id := by
    rw [hids]
    decide
  have hn : p.document.find? "rect-0"
      = some (.node ⟨1, .element ⟨"rect", [("style-x", "1"), ("id", "rect-0")]⟩⟩ []) := by
    subst hp
    decide +kernel
  have htext : (p.document.setProperty 1 "style" "x:2").text
      = "<svg id=\"svg-0\"><rect style-x=\"1\" id=\"rect-0\" style=\"x:2\"/></svg>" := by
    subst hp
    decide +kernel
  have hedit := setProperty_of_mem hparse hmem hn htext hparse'
  obtain ⟨c, hfind, -⟩ := exists_find?_of_mem hmem
  obtain ⟨q, n, e, attributes, hread, hn, he, hshows, hcomponents, -⟩ :=
    exists_showsSet hparse hclean hdistinct hfind hkey (by decide) hedit
  exact ⟨p, c, _, q, n, e, attributes, hparse, hclean, hdistinct, hfind, hkey, hedit, hread, hn, he,
    hshows, hcomponents⟩

/-- The misread markup with an attribute of its last element set, as it is written. -/
def reset : String :=
  "<!DOCTYPE svg [<!ENTITY a \"<\">]><?p >><svg id=\"svg-0\">" ++
    "<a\" b=\"&quot;\" c'=\"1\" id=\"t\"/><!--=\"'--><rect id=\"k\"/>" ++
    "<!--'=\"1\"/><u id=\"u\"/>--><u id=\"u\" x=\"1\"/></svg><?q?><svg/>"

set_option maxRecDepth 4000 in
theorem parse_reset : parse reset = .ok (ofDocument (.ofMarkup [
    .node (.doctype "svg [<!ENTITY a \"<\">]><?p >") [], .node (.element ⟨"svg", [("id", "svg-0")]⟩)
      [.node (.element ⟨"a\"", [("b", "\""), ("c'", "1"), ("id", "t"), ("/><!--", "'--><rect id="),
          ("k\"/><!--'", "1")]⟩) [],
        .node (.element ⟨"u", [("id", "u")]⟩) [], .node (.text "-->") [],
        .node (.element ⟨"u", [("id", "u"), ("x", "1")]⟩) []],
    .node (.instruction "q") [], .node (.element ⟨"svg", []⟩) []])) :=
  parse_of_read (by cbv) (by cbv)

/-- **Where names are no names of XML, setting an attribute can make ids repeat**, since an element
that has a taken id comes out of a comment. -/
theorem exists_ids_ne_of_misread_names :
    ∃ p c q, parse misread = .ok p ∧ (∀ c ∈ preorderAll p.document.markup, c.IsUnbroken) ∧
      ((all p.components).map Component.id).Nodup ∧ find? p.components "u" = some c ∧
      IsAttributeKey "x" ∧ setProperty misread "u" "x" "1" = .ok reset ∧ parse reset = .ok q ∧
      (all p.components).map Component.id = ["svg-0", "t", "k", "u"] ∧
      (all q.components).map Component.id = ["svg-0", "t", "u", "u"] := by
  have hmem : "u" ∈ (all misreadDrawing.components).map Component.id := by
    rw [ids_misread]
    decide
  have htext : (misreadDrawing.document.setProperty 6 "x" "1").text = reset := by decide +kernel
  obtain ⟨c, hfind, -⟩ := exists_find?_of_mem hmem
  refine ⟨misreadDrawing, c, _, parse_misread, isUnbroken_misread, nodup_ids_misread, hfind,
    ⟨by decide, by decide, by decide, by decide⟩,
    setProperty_of_mem parse_misread hmem find?_misread htext parse_reset, parse_reset, ids_misread,
    ?_⟩
  rw [all_eq]
  decide +kernel

end Edit

end SvgWorkbench
