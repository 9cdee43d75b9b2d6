import SvgWorkbench.Proofs.Edit.Attribute
import SvgWorkbench.Proofs.Style.RoundTrip

/-!
# Setting a declaration changes one declaration

A declaration is set in the style of an element: the style is taken apart, changed and written as one
attribute, and the attribute is read and taken apart once more. The declarations that are read are
those that were written, so one of them has changed and the others are what they were, in their
order.
-/

namespace SvgWorkbench

open Xml SvgWorkbench.Tree Markup Component Drawing Document

/-! ## Elements with a declaration set -/

namespace Element

variable {e : Element}

/-- The declarations of an element. -/
def style (e : Element) : Style := Style.ofText ((e.get? "style").getD "")

theorem nodup_keys_setStyle (h : e.keys.Nodup) (name value : String) :
    (e.setStyle name value).keys.Nodup := by
  rw [setStyle]
  split
  · exact nodup_keys_erase h "style"
  · exact nodup_keys_set h "style" _

/-- The style attribute holds the declarations, and is gone when none is left. Other attributes
stay. -/
theorem get?_setStyle (h : e.keys.Nodup) (name value k : String) :
    (e.setStyle name value).get? k
      = if k = "style" then
          if (e.style.set name value).entries = [] then none
          else some (e.style.set name value).text
        else e.get? k := by
  have hempty : (e.style.set name value).isEmpty = true ↔ (e.style.set name value).entries = [] :=
    List.isEmpty_iff
  rw [setStyle, ← style]
  by_cases hk : k = "style"
  · subst hk
    by_cases hnone : (e.style.set name value).entries = []
    · rw [if_pos (hempty.2 hnone), if_pos rfl, if_pos hnone, get?_erase_self h]
    · rw [if_neg (mt hempty.1 hnone), if_pos rfl, if_neg hnone, get?_set_self]
  · rw [if_neg hk]
    split
    · exact get?_erase_of_ne e hk
    · rw [get?_set, if_neg (Ne.symm hk)]

/-- **The declarations of an element in which one has been set**, where no separators are set. -/
theorem style_setStyle (h : e.keys.Nodup) {name value : String} (hcolon : ':' ∉ name.toList)
    (hsemicolon : ';' ∉ name.toList) (hvalue : ';' ∉ value.toList) :
    (e.setStyle name value).style = e.style.set name value := by
  have hnormal : (e.style.set name value).IsNormal :=
    (Style.isNormal_ofText _).set hcolon hsemicolon hvalue
  rw [style, get?_setStyle h, if_pos rfl]
  split
  · next hnone =>
    generalize e.style.set name value = s at hnone
    obtain ⟨es⟩ := s
    cases hnone
    rfl
  · rw [Option.getD_some, Style.ofText_text hnormal]

end Element

namespace Edit

theorem styled?_eq {key name : String} (hname : styleName? key = some name) (e : Element) :
    styled? e key = e.style.get? name := by
  rw [styled?, hname, Option.bind_some, Element.style]
  cases e.get? "style" <;> rfl

/-! ## What a component shows -/

/-- The declarations in the style attribute of a component, in their order. -/
def declared (attributes : Attributes) : List (String × String) :=
  (Style.ofText ((attributes.get? "style").getD "")).entries

/-- What the attributes of a component become when a declaration is set. -/
structure ShowsDeclared (name value : String) (before after : Attributes) : Prop where
  /-- The key of the declaration has the value, or none if nothing is left of the value. -/
  own : after.get? (styleKeyStart ++ Text.trim name)
    = if Text.trim value = "" then none else some (Text.trim value)
  /-- Every other key shows what it showed, but for the style itself. -/
  others : ∀ k, k ≠ styleKeyStart ++ Text.trim name → k ≠ "style" → after.get? k = before.get? k
  /-- The declarations keep their order, and a new one comes last. -/
  declarations : declared after
    = Style.upserted (Text.trim name) (Text.trim value) (declared before)
  /-- The style is the text of the declarations, and is gone when none is left. -/
  style : after.get? "style"
    = if declared after = [] then none else some (Style.text ⟨declared after⟩)

variable {p : Drawing} {text id w name value : String} {c : Component} {n : Node} {e : Element}

private theorem isAttributeKey_style : IsAttributeKey "style" :=
  ⟨by decide, by decide, by decide, by decide⟩

/-- A key of a declaration shows what the style declares, if there is no attribute of such a key. -/
private theorem shown?_of_styleName? (hraw : ∀ k ∈ e.keys, styleName? k = none) {e' : Element}
    {k m : String} (hname : styleName? k = some m) (hget : e'.get? k = e.get? k) (n : Node) :
    shown? n e' k = e'.style.get? m := by
  have hnone : e.get? k = none := Element.get?_eq_none_iff.2 fun hk ↦ by
    cases hname.symm.trans (hraw k hk)
  rw [shown?, if_neg fun h ↦ ne_textKey_of_styleName? hname h.1, styled?_eq hname, hget, hnone,
    Option.or_none]

theorem showsDeclared_setStyle (he : n.content = .element e) (hkeys : e.keys.Nodup)
    (hraw : ∀ k ∈ e.keys, styleName? k = none) (hname : Text.trim name ≠ "")
    (hcolon : ':' ∉ name.toList) (hsemicolon : ';' ∉ name.toList) (hvalue : ';' ∉ value.toList) :
    ShowsDeclared name value (Markup.attributesOf e (n.children.map Node.bare))
      (Markup.attributesOf (e.setStyle name value) (n.children.map Node.bare)) := by
  have hn : n.isElement = true := by rw [Node.isElement, he]; rfl
  have hbefore := fun k ↦ get?_attributesOf_children hn hkeys k
  have hafter : ∀ k, (Markup.attributesOf (e.setStyle name value)
      (n.children.map Node.bare)).get? k = shown? n (e.setStyle name value) k :=
    fun k ↦ get?_attributesOf_children hn (Element.nodup_keys_setStyle hkeys name value) k
  have hget := Element.get?_setStyle hkeys name value
  have hstyle := Element.style_setStyle hkeys hcolon hsemicolon hvalue
  have hdistinct : e.style.IsDistinct := Style.isDistinct_ofText _
  have hdeclared : declared (Markup.attributesOf (e.setStyle name value) (n.children.map Node.bare))
      = (e.style.set name value).entries := by
    rw [declared, hafter, isAttributeKey_style.shown?_eq, ← Element.style, hstyle]
  -- a key of a declaration is not that of the style, so the attribute is not concerned
  have hdeclaration : ∀ k m, styleName? k = some m → shown? n (e.setStyle name value) k
      = (e.style.set name value).get? m ∧ shown? n e k = e.style.get? m := by
    intro k m hk
    have hne : k ≠ "style" := by
      rintro rfl
      cases hk
    rw [shown?_of_styleName? hraw hk ((hget k).trans (if_neg hne)), hstyle]
    exact ⟨rfl, shown?_of_styleName? hraw hk rfl n⟩
  refine ⟨?_, fun k hne hk ↦ ?_, ?_, ?_⟩
  · rw [hafter, (hdeclaration _ _ (styleName?_eq_some_iff.2 rfl)).1,
      Style.get?_set hdistinct hname, if_pos rfl]
  · rw [hafter, hbefore]
    cases hm : styleName? k with
    | some m =>
      obtain ⟨hset, hold⟩ := hdeclaration k m hm
      rw [hset, hold, Style.get?_set hdistinct hname, if_neg]
      rintro rfl
      exact hne (styleName?_eq_some_iff.1 hm)
    | none => rw [shown?, shown?, styled?, styled?, hm, Option.bind_none, Option.bind_none, hget k,
        if_neg hk]
  · rw [hdeclared, Style.entries_set hdistinct hname, declared, hbefore,
      isAttributeKey_style.shown?_eq, ← Element.style]
  · rw [hdeclared, hafter, isAttributeKey_style.shown?_eq, hget, if_pos rfl]

/-- **Setting a declaration touches one declaration of one element** that has no attributes with
keys of declarations. -/
theorem exists_showsDeclared (hparse : parse text = .ok p) (hclean : p.IsClean)
    (hdistinct : ((all p.components).map Component.id).Nodup)
    (hfind : find? p.components id = some c)
    (hraw : ∀ n e, p.document.find? c.id = some n → n.content = .element e →
      ∀ k ∈ e.keys, styleName? k = none)
    (hname : Text.trim name ≠ "") (hcolon : ':' ∉ name.toList) (hsemicolon : ';' ∉ name.toList)
    (hvalue : ';' ∉ value.toList) (hname' : Unbroken name.toList) (hvalue' : Unbroken value.toList)
    (hedit : setProperty text id (styleKeyStart ++ name) value = .ok w) :
    ∃ q n e attributes, parse w = .ok q ∧ p.document.find? c.id = some n ∧
      n.content = .element e ∧ ShowsDeclared name value c.attributes attributes ∧
      q.components = withAttributes c.id attributes p.components ∧
      q.document.markup = settledAll ""
        (p.document.modifyElement n.handle (·.setStyle name value)).markup := by
  have hkey : styleName? (styleKeyStart ++ name) = some name := styleName?_eq_some_iff.2 rfl
  have hid : styleKeyStart ++ name ≠ "id" := by
    intro heq
    rw [heq] at hkey
    cases hkey
  have hset : ∀ e : Element, e.setProperty (styleKeyStart ++ name) value = e.setStyle name value := by
    intro e
    rw [Element.setProperty, hkey]
  obtain ⟨q, n, e, hread, hn, -, he, hkeys, hmarkup, hattributes, hcomponents⟩ :=
    exists_withAttributes hparse hclean hdistinct hfind hid (ne_textKey_of_styleName? hkey)
      (.inl (by rw [hkey]; rfl)) (by rw [String.toList_append]; exact .append (by decide) hname')
      hvalue' hedit
  simp only [hset] at hmarkup hcomponents
  refine ⟨q, n, e, _, hread, hn, he, ?_, hcomponents, hmarkup⟩
  rw [hattributes]
  exact showsDeclared_setStyle he hkeys (hraw n e hn he) hname hcolon hsemicolon hvalue

/-- The first of two declarations is set. -/
theorem exists_showsDeclared_of_style :
    ∃ p c w q n e attributes, parse "<svg><rect id=\"r\" style=\"x:1;y:2\"/></svg>" = .ok p ∧
      p.IsClean ∧ ((all p.components).map Component.id).Nodup ∧ find? p.components "r" = some c ∧
      (∀ n e, p.document.find? c.id = some n → n.content = .element e →
        ∀ k ∈ e.keys, styleName? k = none) ∧
      setProperty "<svg><rect id=\"r\" style=\"x:1;y:2\"/></svg>" "r" (styleKeyStart ++ "x") "3"
        = .ok w ∧
      parse w = .ok q ∧ p.document.find? c.id = some n ∧ n.content = .element e ∧
      ShowsDeclared "x" "3" c.attributes attributes ∧
      q.components = withAttributes c.id attributes p.components := by
  have hparse := parse_of_read (m := [.node (.element ⟨"svg", []⟩)
    [.node (.element ⟨"rect", [("id", "r"), ("style", "x:1;y:2")]⟩) []]])
    (s := "<svg><rect id=\"r\" style=\"x:1;y:2\"/></svg>") (by cbv) (by cbv)
  have hparse' := parse_of_read (m := [.node (.element ⟨"svg", [("id", "svg-0")]⟩)
    [.node (.element ⟨"rect", [("id", "r"), ("style", "x: 3; y: 2")]⟩) []]])
    (s := "<svg id=\"svg-0\"><rect id=\"r\" style=\"x: 3; y: 2\"/></svg>") (by cbv) (by cbv)
  generalize hp : ofDocument (.ofMarkup [.node (.element ⟨"svg", []⟩)
    [.node (.element ⟨"rect", [("id", "r"), ("style", "x:1;y:2")]⟩) []]]) = p at hparse
  have hids : (all p.components).map Component.id = ["svg-0", "r"] := by
    subst hp
    rw [all_eq]
    decide +kernel
  have hmem : "r" ∈ (all p.components).map Component.id := by
    rw [hids]
    decide
  obtain ⟨c, hfind, hcid⟩ := exists_find?_of_mem hmem
  have hn : p.document.find? "r"
      = some (.node ⟨1, .element ⟨"rect", [("id", "r"), ("style", "x:1;y:2")]⟩⟩ []) := by
    subst hp
    decide +kernel
  have htext : (p.document.setProperty 1 (styleKeyStart ++ "x") "3").text
      = "<svg id=\"svg-0\"><rect id=\"r\" style=\"x: 3; y: 2\"/></svg>" := by
    subst hp
    decide +kernel
  have hedit := setProperty_of_mem hparse hmem hn htext hparse'
  have hraw : ∀ n e, p.document.find? c.id = some n → n.content = .element e →
      ∀ k ∈ e.keys, styleName? k = none := by
    intro n e hn' he
    rw [hcid, hn] at hn'
    cases hn'
    cases he
    decide
  have hclean : p.IsClean := by
    subst hp
    exact ⟨by decide +kernel, by decide +kernel⟩
  have hdistinct : ((all p.components).map Component.id).Nodup := by
    rw [hids]
    decide
  obtain ⟨q, n, e, attributes, hread, hn, he, hshows, hcomponents, -⟩ :=
    exists_showsDeclared hparse hclean hdistinct hfind hraw (by decide) (by decide) (by decide)
      (by decide) (by decide) (by decide) hedit
  exact ⟨p, c, _, q, n, e, attributes, hparse, hclean, hdistinct, hfind, hraw, hedit, hread, hn, he,
    hshows, hcomponents⟩

/-- The misread markup with a declaration set on its last element, as it is written. -/
def restyled : String :=
  "<!DOCTYPE svg [<!ENTITY a \"<\">]><?p >><svg id=\"svg-0\">" ++
    "<a\" b=\"&quot;\" c'=\"1\" id=\"t\"/><!--=\"'--><rect id=\"k\"/>" ++
    "<!--'=\"1\"/><u id=\"u\"/>--><u id=\"u\" style=\"f: 1\"/></svg><?q?><svg/>"

set_option maxRecDepth 4000 in
theorem parse_restyled : parse restyled = .ok (ofDocument (.ofMarkup [
    .node (.doctype "svg [<!ENTITY a \"<\">]><?p >") [], .node (.element ⟨"svg", [("id", "svg-0")]⟩)
      [.node (.element ⟨"a\"", [("b", "\""), ("c'", "1"), ("id", "t"), ("/><!--", "'--><rect id="),
          ("k\"/><!--'", "1")]⟩) [],
        .node (.element ⟨"u", [("id", "u")]⟩) [], .node (.text "-->") [],
        .node (.element ⟨"u", [("id", "u"), ("style", "f: 1")]⟩) []],
    .node (.instruction "q") [], .node (.element ⟨"svg", []⟩) []])) :=
  parse_of_read (by cbv) (by cbv)

/-- **Where names are no names of XML, setting a declaration can make ids repeat**, since an element
that has a taken id comes out of a comment. -/
theorem exists_ids_ne_of_misread_style :
    ∃ p c n e q, parse misread = .ok p ∧ (∀ c ∈ preorderAll p.document.markup, c.IsUnbroken) ∧
      ((all p.components).map Component.id).Nodup ∧ find? p.components "u" = some c ∧
      p.document.find? c.id = some n ∧ n.content = .element e ∧ e.keys = ["id"] ∧
      setProperty misread "u" (styleKeyStart ++ "f") "1" = .ok restyled ∧ parse restyled = .ok q ∧
      (all p.components).map Component.id = ["svg-0", "t", "k", "u"] ∧
      (all q.components).map Component.id = ["svg-0", "t", "u", "u"] := by
  have hmem : "u" ∈ (all misreadDrawing.components).map Component.id := by
    rw [ids_misread]
    decide
  have htext : (misreadDrawing.document.setProperty 6 (styleKeyStart ++ "f") "1").text = restyled := by
    decide +kernel
  obtain ⟨c, hfind, hcid⟩ := exists_find?_of_mem hmem
  refine ⟨misreadDrawing, c, _, _, _, parse_misread, isUnbroken_misread, nodup_ids_misread, hfind,
    by rw [hcid, find?_misread], rfl, rfl,
    setProperty_of_mem parse_misread hmem find?_misread htext parse_restyled, parse_restyled,
    ids_misread, ?_⟩
  rw [all_eq]
  decide +kernel

end Edit

end SvgWorkbench
