import SvgWorkbench.Edit.Highlight
import SvgWorkbench.Proofs.Edit.Declaration
import SvgWorkbench.Proofs.Edit.Located

/-!
# Outlines are shown where they are meant

The preview gives elements an outline one after another. An element that has its outline stays as it
is when it gets the outline once more, and an outline changes no other element, so neither the order
of the selected ids is seen nor how often, or by which names, an element is selected. What the
preview is read as are the components of the drawing, of which those that are meant declare the
outline.
-/

namespace SvgWorkbench

open Xml SvgWorkbench.Tree Markup Component Drawing Document

/-! ## Styles and elements with an outline -/

namespace Element

variable {key value : String}

theorem setEntry_eq_self {entries : List (String × String)}
    (h : (entries.find? (·.1 == key)).map (·.2) = some value) :
    setEntry key value entries = entries := by
  induction entries with
  | nil => exact nomatch h
  | cons a entries ih =>
    obtain ⟨k, v⟩ := a
    rw [List.find?_cons] at h
    by_cases hk : k = key
    · rw [beq_iff_eq.2 hk] at h
      rw [setEntry, if_pos hk, ← Option.some.inj h]
    · rw [beq_eq_false_iff_ne.2 hk] at h
      rw [setEntry, if_neg hk, ih h]

theorem setEntry_setEntry (key value value' : String) (entries : List (String × String)) :
    setEntry key value' (setEntry key value entries) = setEntry key value' entries := by
  induction entries with
  | nil => exact if_pos rfl
  | cons a entries ih =>
    obtain ⟨k, v⟩ := a
    rw [setEntry]
    by_cases hk : k = key
    · rw [if_pos hk, setEntry, if_pos hk, setEntry, if_pos hk]
    · rw [if_neg hk, setEntry, if_neg hk, ih, setEntry, if_neg hk]

/-- Of two values that are set for a key, the second one stays. -/
theorem set_set (e : Element) (key value value' : String) :
    (e.set key value).set key value' = e.set key value' :=
  congrArg (Element.mk e.name) (setEntry_setEntry key value value' e.attributes)

end Element

namespace Style

variable {s : Style} {name value : String}

/-- A declaration that is there may be set without a change. -/
theorem set_eq_self (hname : Text.trim name ≠ "") (hvalue : Text.trim value ≠ "")
    (h : s.get? (Text.trim name) = some (Text.trim value)) : s.set name value = s := by
  rw [set, if_neg (mt String.isEmpty_iff.1 hname), if_neg (mt String.isEmpty_iff.1 hvalue),
    Element.setEntry_eq_self h]

end Style

/-- Whether no attribute of an element has the key of a declaration. -/
def Content.HasPlainKeys : Content → Prop
  | .element e => ∀ k ∈ e.keys, styleName? k = none
  | _ => True

instance : (c : Content) → Decidable c.HasPlainKeys
  | .element e => inferInstanceAs (Decidable (∀ k ∈ e.keys, styleName? k = none))
  | .text _ => inferInstanceAs (Decidable True)
  | .comment _ => inferInstanceAs (Decidable True)
  | .instruction _ => inferInstanceAs (Decidable True)
  | .doctype _ => inferInstanceAs (Decidable True)

/-- Whether a text can be the value of a declaration: it is more than blanks, and has no semicolon
and no tab or line break. -/
structure IsOutline (text : String) : Prop where
  /-- Something is left without the blanks around it. -/
  trim_ne : Text.trim text ≠ ""
  /-- There is no semicolon. -/
  semicolon_notMem : ';' ∉ text.toList
  /-- There are no tabs and no line breaks. -/
  unbroken : Unbroken text.toList

namespace Element

variable {outline offset : String}

/-- The declarations of an element that has got an outline. -/
def outlined (outline offset : String) (e : Element) : Style :=
  (e.style.set "outline" outline).set "outline-offset" offset

theorem setOutline_eq (outline offset : String) (e : Element) :
    e.setOutline outline offset = e.set "style" (e.outlined outline offset).text := rfl

@[simp] theorem id?_setOutline (outline offset : String) (e : Element) :
    (e.setOutline outline offset).id? = e.id? := by
  rw [id?, setOutline_eq, get?_set, if_neg (by decide), id?]

theorem isNormal_outlined (houtline : IsOutline outline) (hoffset : IsOutline offset)
    (e : Element) : (e.outlined outline offset).IsNormal :=
  ((Style.isNormal_ofText _).set (by decide) (by decide) houtline.semicolon_notMem).set (by decide)
    (by decide) hoffset.semicolon_notMem

/-- **Giving an element its outline once more does nothing.** -/
theorem setOutline_setOutline (houtline : IsOutline outline) (hoffset : IsOutline offset)
    (e : Element) :
    (e.setOutline outline offset).setOutline outline offset = e.setOutline outline offset := by
  have hnormal := isNormal_outlined houtline hoffset e
  have hdistinct : e.style.IsDistinct := Style.isDistinct_ofText _
  have hname : Text.trim "outline" ≠ "" := by decide
  have hname' : Text.trim "outline-offset" ≠ "" := by decide
  -- what is written is read as the declarations it was written from, and they hold the outline
  have hstyle : (e.setOutline outline offset).style = e.outlined outline offset := by
    rw [style, setOutline_eq, get?_set_self, Option.getD_some, Style.ofText_text hnormal]
  have hset : (e.outlined outline offset).get? (Text.trim "outline") = some (Text.trim outline) := by
    rw [outlined, Style.get?_set (hdistinct.set _ _) hname', if_neg (by decide),
      Style.get?_set hdistinct hname, if_pos rfl, if_neg houtline.trim_ne]
  have hset' : (e.outlined outline offset).get? (Text.trim "outline-offset")
      = some (Text.trim offset) := by
    rw [outlined, Style.get?_set (hdistinct.set _ _) hname', if_pos rfl, if_neg hoffset.trim_ne]
  have houtlined : (e.setOutline outline offset).outlined outline offset
      = e.outlined outline offset := by
    rw [outlined, hstyle, Style.set_eq_self hname houtline.trim_ne hset,
      Style.set_eq_self hname' hoffset.trim_ne hset']
  rw [setOutline_eq, houtlined, setOutline_eq, set_set]

/-- Setting a declaration that has a value leaves a style. -/
theorem setStyle_of_trim_ne {name value : String} (hname : Text.trim name ≠ "")
    (hvalue : Text.trim value ≠ "") (e : Element) :
    e.setStyle name value = e.set "style" (e.style.set name value).text := by
  have hdistinct : e.style.IsDistinct := Style.isDistinct_ofText _
  have hget : (e.style.set name value).get? (Text.trim name) = some (Text.trim value) := by
    rw [Style.get?_set hdistinct hname, if_pos rfl, if_neg hvalue]
  have hempty : (e.style.set name value).isEmpty = false := by
    rw [Style.isEmpty, List.isEmpty_eq_false_iff]
    intro hnil
    rw [Style.get?, hnil] at hget
    exact absurd hget (Option.some_ne_none _).symm
  rw [setStyle, ← style, hempty]
  rfl

/-- An outline is two declarations. -/
theorem setOutline_eq_setStyle (houtline : IsOutline outline) (hoffset : IsOutline offset)
    (e : Element) : e.setOutline outline offset
      = (e.setStyle "outline" outline).setStyle "outline-offset" offset := by
  have hnormal : (e.style.set "outline" outline).IsNormal :=
    (Style.isNormal_ofText _).set (by decide) (by decide) houtline.semicolon_notMem
  have hstyle : (e.set "style" (e.style.set "outline" outline).text).style
      = e.style.set "outline" outline := by
    rw [style, get?_set_self, Option.getD_some, Style.ofText_text hnormal]
  rw [setStyle_of_trim_ne (by decide) houtline.trim_ne,
    setStyle_of_trim_ne (by decide) hoffset.trim_ne, hstyle, set_set, setOutline_eq, outlined]

theorem IsUnbroken.setOutline {e : Element} (h : e.IsUnbroken) (houtline : IsOutline outline)
    (hoffset : IsOutline offset) : (e.setOutline outline offset).IsUnbroken := by
  have hstyle := Style.isUnbroken_ofText (h.unbroken_getD "style")
  apply h.set "style"
  exact ((hstyle.set (by decide) houtline.unbroken).set (by decide) hoffset.unbroken).text

end Element

/-- Giving elements an outline keeps a document sound. -/
theorem Document.IsSound.outlineAll {d : Document} (h : d.IsSound) (outline offset : String)
    (nodes : List Node) : (Edit.outlineAll outline offset d nodes).IsSound := by
  induction nodes generalizing d with
  | nil => exact h
  | cons n nodes ih =>
    apply ih
    refine h.modifyElement n.handle (fun e he ↦ Element.nodup_keys_set he "style" _) fun e he ↦ ?_
    exact Element.HasXmlNames.set he (by decide) _

namespace Edit

/-! ## What a component shows -/

/-- What the attributes of a component become when its element gets an outline. -/
structure ShowsOutlined (outline offset : String) (before after : Attributes) : Prop where
  /-- The outline is declared. -/
  own : after.get? (styleKeyStart ++ "outline") = some (Text.trim outline)
  /-- Its distance is declared. -/
  distance : after.get? (styleKeyStart ++ "outline-offset") = some (Text.trim offset)
  /-- Every other key shows what it showed, but for the style itself. -/
  others : ∀ k, k ≠ styleKeyStart ++ "outline" → k ≠ styleKeyStart ++ "outline-offset" →
    k ≠ "style" → after.get? k = before.get? k
  /-- The declarations keep their order, and new ones come last. -/
  declarations : declared after = Style.upserted "outline-offset" (Text.trim offset)
    (Style.upserted "outline" (Text.trim outline) (declared before))
  /-- The style is the text of the declarations. -/
  style : after.get? "style" = some (Style.text ⟨declared after⟩)

variable {outline offset : String} {p q : Drawing} {text id w : String} {n root : Node}

/-- Two declarations make an outline. -/
theorem ShowsDeclared.outlined {before between after : Attributes}
    (h : ShowsDeclared "outline" outline before between)
    (h' : ShowsDeclared "outline-offset" offset between after) (houtline : IsOutline outline)
    (hoffset : IsOutline offset) : ShowsOutlined outline offset before after := by
  have hdeclarations := h'.declarations
  rw [h.declarations] at hdeclarations
  have hown := h'.own
  rw [if_neg hoffset.trim_ne] at hown
  have hne : declared after ≠ [] := by
    rw [hdeclarations, Style.upserted, if_neg hoffset.trim_ne]
    split
    · next hmem =>
      intro hnil
      rw [List.map_eq_nil_iff.1 hnil] at hmem
      exact List.not_mem_nil hmem
    · exact List.append_ne_nil_of_right_ne_nil _ (List.cons_ne_nil _ _)
  refine ⟨?_, hown, fun k hk hk' hstyle ↦ ?_, hdeclarations, ?_⟩
  · have hother := h'.others (styleKeyStart ++ "outline") (by decide) (by decide)
    rw [hother]
    exact h.own.trans (if_neg houtline.trim_ne)
  · rw [h'.others k hk' hstyle, h.others k hk hstyle]
  · rw [h'.style, if_neg hne]

theorem showsOutlined_setOutline {e : Element} (he : n.content = .element e) (hkeys : e.keys.Nodup)
    (hraw : ∀ k ∈ e.keys, styleName? k = none) (houtline : IsOutline outline)
    (hoffset : IsOutline offset) :
    ShowsOutlined outline offset (Markup.attributesOf e (n.children.map Node.bare))
      (Markup.attributesOf (e.setOutline outline offset) (n.children.map Node.bare)) := by
  have hfirst := showsDeclared_setStyle he hkeys hraw (by decide : Text.trim "outline" ≠ "")
    (by decide) (by decide) houtline.semicolon_notMem
  -- the second declaration is set in an element that has the first one, and no key but its style
  have hraw' : ∀ k ∈ (e.setStyle "outline" outline).keys, styleName? k = none := by
    intro k hk
    rw [Element.setStyle_of_trim_ne (by decide) houtline.trim_ne, Element.keys_set] at hk
    split at hk
    · exact hraw k hk
    · rcases List.mem_append.1 hk with hk | hk
      · exact hraw k hk
      · rw [List.mem_singleton.1 hk]
        rfl
  have hsecond := showsDeclared_setStyle (n := .node ⟨n.handle, .element _⟩ n.children) rfl
    (Element.nodup_keys_setStyle hkeys "outline" outline) hraw'
    (by decide : Text.trim "outline-offset" ≠ "") (by decide) (by decide) hoffset.semicolon_notMem
  rw [Element.setOutline_eq_setStyle houtline hoffset]
  exact hfirst.outlined hsecond houtline hoffset

/-! ## What the preview outlines -/

/-- Whether one of some ids means the component of an id. -/
def Meant (p : Drawing) (ids : List String) (own : String) : Prop :=
  ∃ id ∈ ids, ∃ c, find? p.components id = some c ∧ c.id = own

/-- The elements that are selected. -/
def chosen (p : Drawing) (selected : List String) : List Node := selected.filterMap p.locate?

/-- The element the pointer is on, unless it is selected. -/
def pointed (p : Drawing) (selected : List String) (hovered : Option String) : Option Node :=
  (hovered.bind p.locate?).filter fun n ↦ (chosen p selected).all fun m ↦ m.handle != n.handle

variable {style : HighlightStyle} {selected selected' : List String} {hovered : Option String}

theorem mem_handles_chosen (ids : List String) {h : Handle} :
    h ∈ (chosen p ids).map Node.handle ↔ ∃ id ∈ ids, ∃ n, p.locate? id = some n ∧ n.handle = h := by
  simp only [chosen, List.mem_map, List.mem_filterMap]
  constructor
  · rintro ⟨n, ⟨id, hmem, hn⟩, hh⟩
    exact ⟨id, hmem, n, hn, hh⟩
  · rintro ⟨id, hmem, n, hn, hh⟩
    exact ⟨n, ⟨id, hmem, hn⟩, hh⟩

theorem mem_handles_pointed {h : Handle} :
    h ∈ (pointed p selected hovered).toList.map Node.handle ↔
      h ∈ (chosen p hovered.toList).map Node.handle ∧
        h ∉ (chosen p selected).map Node.handle := by
  have hall : ∀ n : Node, ((chosen p selected).all fun m ↦ m.handle != n.handle) = true ↔
      n.handle ∉ (chosen p selected).map Node.handle := by
    intro n
    simp only [List.all_eq_true, bne_iff_ne, List.mem_map, not_exists, not_and]
  simp only [mem_handles_chosen hovered.toList, List.mem_map, Option.mem_toList,
    pointed, Option.filter_eq_some_iff, Option.bind_eq_some_iff, hall]
  constructor
  · rintro ⟨n, ⟨⟨id, hid, hn⟩, hnot⟩, rfl⟩
    exact ⟨⟨id, hid, n, hn, rfl⟩, hnot⟩
  · rintro ⟨⟨id, hid, n, hn, rfl⟩, hnot⟩
    exact ⟨n, ⟨⟨id, hid, hn⟩, hnot⟩, rfl⟩

/-- **What is selected is what the selected ids mean**: an element of the root, found by any of its
ids, belongs to the component of its own id. -/
theorem mem_handles_chosen_iff_meant (hparse : parse text = .ok p)
    (hdistinct : ((all p.components).map Component.id).Nodup)
    (hroot : p.document.root? = some root) (hn : n ∈ root.elements) {e : Element}
    (he : n.content = .element e) (ids : List String) :
    n.handle ∈ (chosen p ids).map Node.handle ↔ Meant p ids (e.id?.getD "") := by
  have hid : e.id? = n.id? := (Node.id?_of_content he).symm
  rw [mem_handles_chosen]
  constructor
  · rintro ⟨id, hmem, m, hlocate, hhandle⟩
    obtain ⟨c, root', hfind, hroot', hm, hmid⟩ := exists_root_of_locate? hlocate
    obtain rfl := Option.some.inj (hroot.symm.trans hroot')
    obtain rfl := Node.eq_of_handle_eq_all (nodup_handlesAll_of_parse hparse)
      (mem_topLevel_of_mem_root hroot hm) (mem_topLevel_of_mem_root hroot hn) hhandle
    exact ⟨id, hmem, c, hfind, by rw [hid, hmid, Option.getD_some]⟩
  · rintro ⟨id, hmem, c, hfind, hown⟩
    obtain ⟨root', m, hroot', hm, hmid, hlocate⟩ := exists_locate?_of_find? hparse hfind
    obtain rfl := Option.some.inj (hroot.symm.trans hroot')
    rw [ids_of_parse hparse hroot] at hdistinct
    obtain rfl : m = n := List.inj_on_of_nodup_map hdistinct hm hn (by
      rw [hmid, Option.getD_some, hown, hid])
    exact ⟨id, hmem, m, hlocate, rfl⟩

/-- The document the preview is the text of. -/
def outlined (style : HighlightStyle) (p : Drawing) (selected : List String)
    (hovered : Option String) : Document :=
  outlineAll style.hoveredOutline style.outlineOffset
    (outlineAll style.selectedOutline style.outlineOffset p.document (chosen p selected))
    (pointed p selected hovered).toList

theorem highlight_of_parse (hparse : parse text = .ok p) :
    highlight style text selected hovered = finish (outlined style p selected hovered) := by
  rw [highlight, load_eq_ok_iff.2 hparse]
  rfl

/-- The texts of a style that outlines are made of. -/
structure HasOutlines (style : HighlightStyle) : Prop where
  /-- The outline of selected elements. -/
  selected : IsOutline style.selectedOutline
  /-- The outline of the element the pointer is on. -/
  hovered : IsOutline style.hoveredOutline
  /-- The distance of both. -/
  offset : IsOutline style.outlineOffset

/-- The element of a handle as the preview has it. -/
def outlineOf (style : HighlightStyle) (p : Drawing) (selected : List String)
    (hovered : Option String) (h : Handle) (e : Element) : Element :=
  if h ∈ (chosen p selected).map Node.handle then
    e.setOutline style.selectedOutline style.outlineOffset
  else if h ∈ (chosen p hovered.toList).map Node.handle then
    e.setOutline style.hoveredOutline style.outlineOffset
  else e

theorem name_outlineOf (h : Handle) (e : Element) :
    (outlineOf style p selected hovered h e).name = e.name := by
  rw [outlineOf]
  split_ifs <;> rfl

theorem id?_outlineOf (h : Handle) (e : Element) :
    (outlineOf style p selected hovered h e).id? = e.id? := by
  rw [outlineOf]
  split_ifs
  · exact Element.id?_setOutline _ _ e
  · exact Element.id?_setOutline _ _ e
  · rfl

theorem isUnbroken_outlineOf (hstyle : HasOutlines style) (h : Handle) {e : Element}
    (he : e.IsUnbroken) : (outlineOf style p selected hovered h e).IsUnbroken := by
  rw [outlineOf]
  split_ifs
  · exact he.setOutline hstyle.selected hstyle.offset
  · exact he.setOutline hstyle.hovered hstyle.offset
  · exact he

/-- **The markup of the preview** has every element outlined by itself. -/
theorem markup_outlined (hstyle : HasOutlines style)
    (hnodup : (Node.handlesAll p.document.topLevel).Nodup) :
    (outlined style p selected hovered).markup
      = mapAll (fun s ↦ s.content.mapElement (outlineOf style p selected hovered s.handle))
        p.document.topLevel := by
  have hchosen := topLevel_foldl_modifyElement
    (Element.setOutline_setOutline hstyle.selected hstyle.offset) (chosen p selected) hnodup
  have hpointed := topLevel_foldl_modifyElement
    (Element.setOutline_setOutline hstyle.hovered hstyle.offset)
    (pointed p selected hovered).toList
    (d := outlineAll style.selectedOutline style.outlineOffset p.document (chosen p selected))
    (by rwa [outlineAll, hchosen, Node.handlesAll_mapAll_alter])
  rw [Document.markup, outlined, outlineAll, hpointed, outlineAll, hchosen, mapAll_mapAll,
    show Node.bare = Tree.map Slot.content from rfl, ← mapAll_eq_map, mapAll_mapAll]
  refine mapAll_congr fun s _ ↦ ?_
  have hsame : s.content.mapElement (fun e ↦ e) = s.content := by
    cases s.content <;> rfl
  simp only [Function.comp_apply, Node.content_alter, Node.handle_alter, mem_handles_pointed]
  unfold outlineOf
  by_cases hselected : s.handle ∈ (chosen p selected).map Node.handle
  · simp only [hselected, not_true_eq_false, and_false, if_false, if_true]
  · simp only [hselected, not_false_eq_true, and_true, if_false]
    split
    · rfl
    · exact hsame.symm

theorem finish_congr {d d' : Document} (h : d'.markup = d.markup) : finish d' = finish d := by
  rw [finish, finish, Document.text, Document.text, h]

/-- **Neither the order nor the number of selected ids is seen** in the preview. -/
theorem highlight_congr (hstyle : HasOutlines style) (hparse : parse text = .ok p)
    (hsame : ∀ id, id ∈ selected' ↔ id ∈ selected) :
    highlight style text selected' hovered = highlight style text selected hovered := by
  have hnodup := nodup_handlesAll_of_parse hparse
  have hmem : ∀ h, h ∈ (chosen p selected').map Node.handle
      ↔ h ∈ (chosen p selected).map Node.handle := by
    intro h
    simp only [mem_handles_chosen, hsame]
  have houtline : ∀ h, outlineOf style p selected' hovered h
      = outlineOf style p selected hovered h := by
    intro h
    funext e
    simp only [outlineOf, hmem]
  rw [highlight_of_parse hparse, highlight_of_parse hparse]
  apply finish_congr
  rw [markup_outlined hstyle hnodup, markup_outlined hstyle hnodup]
  simp only [houtline]

/-- What has become of an entry in the preview. -/
structure Outlined (style : HighlightStyle) (isSelected isHovered : String → Prop) (a b : Entry) :
    Prop where
  /-- The type is the same. -/
  kind : b.kind = a.kind
  /-- The id is the same. -/
  id : b.id = a.id
  /-- The parent is the same. -/
  parent : b.parent = a.parent
  /-- What is selected has the outline of selected elements. -/
  selected : isSelected a.id →
    ShowsOutlined style.selectedOutline style.outlineOffset a.attributes b.attributes
  /-- What the pointer is on has its outline, unless it is selected. -/
  hovered : ¬ isSelected a.id → isHovered a.id →
    ShowsOutlined style.hoveredOutline style.outlineOffset a.attributes b.attributes
  /-- Everything else shows what it showed. -/
  others : ¬ isSelected a.id → ¬ isHovered a.id → b.attributes = a.attributes

/-- What a slot holds in the preview. -/
def outlinedContent (style : HighlightStyle) (p : Drawing) (selected : List String)
    (hovered : Option String) (s : Slot) : Content :=
  s.content.mapElement (outlineOf style p selected hovered s.handle)

theorem retouched_outlinedContent (s : Slot) :
    Retouched (fun _ ↦ True) s.content (outlinedContent style p selected hovered s) :=
  Content.retouched_mapElement (name_outlineOf s.handle) s.content

theorem root?_outlined (hstyle : HasOutlines style)
    (hnodup : (Node.handlesAll p.document.topLevel).Nodup) :
    Markup.root? (outlined style p selected hovered).markup
      = p.document.root?.map (Tree.map (outlinedContent style p selected hovered)) := by
  rw [markup_outlined hstyle hnodup]
  exact Document.root?_mapAll (fun s ↦ (retouched_outlinedContent s).isElement_eq)
    (fun s ↦ (retouched_outlinedContent s).isRoot_eq) p.document

/-- What is read in the preview are the components of the document it is the text of. -/
theorem components_of_parse_outlined (hparse : parse text = .ok p) (hclean : p.IsClean)
    (hstyle : HasOutlines style) (hread : parse (outlined style p selected hovered).text = .ok q) :
    q.components = Markup.components (outlined style p selected hovered).markup := by
  have hnodup := nodup_handlesAll_of_parse hparse
  have hsound : (outlined style p selected hovered).IsSound :=
    ((isSound_of_parse hparse hclean.isNamed).outlineAll _ _ _).outlineAll _ _ _
  have hids : ∀ root', (outlined style p selected hovered).root? = some root' →
      HasIds root'.bare := by
    intro root' hroot'
    have hbare := Document.root?_markup (outlined style p selected hovered)
    rw [hroot', root?_outlined hstyle hnodup] at hbare
    obtain ⟨root, hroot, heq⟩ := Option.map_eq_some_iff.1 hbare
    rw [← heq]
    refine HasIds.map (fun s e' he' ↦ ?_) (hasIds_of_parse hparse hroot)
    obtain ⟨e, he, rfl⟩ := Content.exists_of_mapElement he'
    exact ⟨e, he, fun hid ↦ by rwa [id?_outlineOf]⟩
  have hunbroken : ∀ c ∈ preorderAll (outlined style p selected hovered).markup,
      c.IsUnbroken := by
    rw [markup_outlined hstyle hnodup, preorderAll_mapAll, List.forall_mem_map]
    intro s hs
    have hold : s.content.IsUnbroken := by
      apply hclean.isUnbroken
      rw [Document.markup, show Node.bare = Tree.map Slot.content from rfl, ← mapAll_eq_map,
        preorderAll_mapAll]
      exact List.mem_map_of_mem hs
    generalize s.content = c at hold
    cases c with
    | element e => exact isUnbroken_outlineOf hstyle s.handle hold
    | _ => exact hold
  obtain rfl := eq_of_parse_text hsound hids hread
  rw [mapAll_spaced hunbroken]

/-- The entry of an element in the preview. -/
theorem outlined_entryOf (hparse : parse text = .ok p)
    (hdistinct : ((all p.components).map Component.id).Nodup)
    (hstyle : HasOutlines style) (hroot : p.document.root? = some root) (hn : n ∈ root.elements)
    {e : Element} (he : n.content = .element e) (hkeys : e.keys.Nodup)
    (hraw : ∀ k ∈ e.keys, styleName? k = none) (parent : Option String) :
    Outlined style (Meant p selected) (Meant p hovered.toList)
      (entryOf parent e (n.children.map Node.bare))
      (entryOf parent (outlineOf style p selected hovered n.handle e)
        (n.children.map Node.bare)) := by
  have hselected := mem_handles_chosen_iff_meant hparse hdistinct hroot hn he selected
  have hhovered := mem_handles_chosen_iff_meant hparse hdistinct hroot hn he hovered.toList
  have hid : (outlineOf style p selected hovered n.handle e).id?.getD "" = e.id?.getD "" := by
    rw [id?_outlineOf]
  refine ⟨?_, hid, rfl, fun hmeant ↦ ?_, fun hnot hmeant ↦ ?_, fun hnot hnot' ↦ ?_⟩
  · show Text.lower _ = Text.lower _
    rw [name_outlineOf]
  · have heq : outlineOf style p selected hovered n.handle e
        = e.setOutline style.selectedOutline style.outlineOffset := if_pos (hselected.2 hmeant)
    rw [heq]
    exact showsOutlined_setOutline he hkeys hraw hstyle.selected hstyle.offset
  · have heq : outlineOf style p selected hovered n.handle e
        = e.setOutline style.hoveredOutline style.outlineOffset := by
      rw [outlineOf, if_neg (mt hselected.1 hnot), if_pos (hhovered.2 hmeant)]
    rw [heq]
    exact showsOutlined_setOutline he hkeys hraw hstyle.hovered hstyle.offset
  · have heq : outlineOf style p selected hovered n.handle e = e := by
      rw [outlineOf, if_neg (mt hselected.1 hnot), if_neg (mt hhovered.1 hnot')]
    rw [heq]

/-- **The preview outlines exactly what is meant**, whatever the order of the selected ids and
however often they are selected, where no attribute has the key of a declaration: what is selected
has one outline, what the pointer is on has the other one unless it is selected, and the rest is
what it was. -/
theorem exists_outlined (hparse : parse text = .ok p) (hclean : p.IsClean)
    (hdistinct : ((all p.components).map Component.id).Nodup)
    (hraw : ∀ c ∈ preorderAll p.document.markup, c.HasPlainKeys)
    (hstyle : HasOutlines style) (hedit : highlight style text selected hovered = .ok w) :
    (∃ q, parse w = .ok q ∧
      RelAll (Outlined style (Meant p selected) (Meant p hovered.toList)) p.components
        q.components) ∧
      ∀ selected', (∀ id, id ∈ selected' ↔ id ∈ selected) →
        highlight style text selected' hovered = .ok w := by
  refine ⟨?_, fun selected' hsame ↦ (highlight_congr hstyle hparse hsame).trans hedit⟩
  rw [highlight_of_parse hparse] at hedit
  obtain ⟨⟨q, hread⟩, rfl⟩ := finish_eq_ok_iff.1 hedit
  refine ⟨q, hread, ?_⟩
  have hnodup := nodup_handlesAll_of_parse hparse
  rw [components_of_parse_outlined hparse hclean hstyle hread, components_of_parse hparse]
  cases hroot : p.document.root? with
  | none =>
    rw [Markup.components, Markup.components, Document.root?_markup, root?_outlined hstyle hnodup,
      hroot]
    trivial
  | some root =>
    rw [markup_outlined hstyle hnodup]
    have hsame : ∀ m ∈ root.elements, ∀ e e', m.content = .element e →
        outlinedContent style p selected hovered m.label = .element e' →
          e' = outlineOf style p selected hovered m.handle e := by
      intro m _ e e' he he'
      rw [outlinedContent, show m.label.content = .element e from he] at he'
      exact (Content.element.inj he').symm
    have hredrawn : RelAll (Node.Redrawn root.elements
        (outlinedContent style p selected hovered) fun own ↦ own) p.document.markup.components
        (Markup.components (mapAll (outlinedContent style p selected hovered)
          p.document.topLevel)) := by
      apply relAll_components_mapAll retouched_outlinedContent hroot
      intro m hm e e' he he'
      rw [hsame m hm e e' he he', id?_outlineOf]
    refine hredrawn.imp ?_
    rintro a - b ⟨m, hm, e, e', parent, he, he', rfl, rfl⟩
    have hmem := Node.mem_preorderAll_of_content (mem_topLevel_of_mem_root hroot hm) he
    rw [hsame m hm e e' he he', Option.map_id_fun']
    exact outlined_entryOf hparse hdistinct hstyle hroot hm he
      ((isSound_of_parse hparse hclean.isNamed).isRead.nodup_keys e hmem) (hraw _ hmem) parent

/-- A document whose text is a drawing is what an edit of outlines gives. -/
theorem highlight_of_text (hparse : parse text = .ok p)
    (htext : (outlined style p selected hovered).text = w) (hread : parse w = .ok q) :
    highlight style text selected hovered = .ok w := by
  rw [highlight_of_parse hparse, finish_eq_ok_iff, htext]
  exact ⟨⟨q, hread⟩, rfl⟩

/-- A shape is selected by its id and by its place, and the pointer is on a group. -/
theorem exists_outlined_of_place :
    ∃ p w q, parse "<svg><rect id=\"r\" style=\"x:1\"/><g/></svg>" = .ok p ∧ p.IsClean ∧
      ((all p.components).map Component.id).Nodup ∧
      (∀ c ∈ preorderAll p.document.markup, c.HasPlainKeys) ∧ HasOutlines ⟨"a", "b", "c"⟩ ∧
      highlight ⟨"a", "b", "c"⟩ "<svg><rect id=\"r\" style=\"x:1\"/><g/></svg>" ["rect-0", "r", "o"]
        (some "g-0") = .ok w ∧
      parse w = .ok q ∧
      RelAll (Outlined ⟨"a", "b", "c"⟩ (Meant p ["rect-0", "r", "o"]) (Meant p ["g-0"]))
        p.components q.components ∧
      highlight ⟨"a", "b", "c"⟩ "<svg><rect id=\"r\" style=\"x:1\"/><g/></svg>"
        ["r", "o", "r", "rect-0"] (some "g-0") = .ok w := by
  have hmembers : ∀ id : String, id ∈ ["r", "o", "r", "rect-0"] ↔ id ∈ ["rect-0", "r", "o"] := by
    intro id
    simp only [List.mem_cons, List.not_mem_nil, or_false]
    tauto
  have hparse := parse_of_read (m := [.node (.element ⟨"svg", []⟩)
    [.node (.element ⟨"rect", [("id", "r"), ("style", "x:1")]⟩) [], .node (.element ⟨"g", []⟩) []]])
    (s := "<svg><rect id=\"r\" style=\"x:1\"/><g/></svg>") (by cbv) (by cbv)
  have hparse' := parse_of_read (m := [.node (.element ⟨"svg", [("id", "svg-0")]⟩)
    [.node (.element ⟨"rect", [("id", "r"), ("style", "x: 1; outline: a; outline-offset: c")]⟩) [],
      .node (.element ⟨"g", [("id", "g-0"), ("style", "outline: b; outline-offset: c")]⟩) []]])
    (s := "<svg id=\"svg-0\"><rect id=\"r\" style=\"x: 1; outline: a; outline-offset: c\"/>" ++
      "<g id=\"g-0\" style=\"outline: b; outline-offset: c\"/></svg>") (by cbv) (by cbv)
  generalize hp : ofDocument (.ofMarkup [.node (.element ⟨"svg", []⟩)
    [.node (.element ⟨"rect", [("id", "r"), ("style", "x:1")]⟩) [],
      .node (.element ⟨"g", []⟩) []]]) = p at hparse
  have hedit : highlight ⟨"a", "b", "c"⟩ "<svg><rect id=\"r\" style=\"x:1\"/><g/></svg>"
      ["rect-0", "r", "o"] (some "g-0") = .ok _ :=
    highlight_of_text hparse (by subst hp; decide +kernel) hparse'
  have hclean : p.IsClean := by
    subst hp
    exact ⟨by decide +kernel, by decide +kernel⟩
  have hdistinct : ((all p.components).map Component.id).Nodup := by
    subst hp
    rw [all_eq]
    decide +kernel
  have hraw : ∀ c ∈ preorderAll p.document.markup, c.HasPlainKeys := by
    subst hp
    decide +kernel
  have hstyle : HasOutlines ⟨"a", "b", "c"⟩ :=
    ⟨⟨by decide, by decide, by decide⟩, ⟨by decide, by decide, by decide⟩,
      ⟨by decide, by decide, by decide⟩⟩
  obtain ⟨⟨q, hread, houtlined⟩, hsame⟩ :=
    exists_outlined hparse hclean hdistinct hraw hstyle hedit
  exact ⟨p, _, q, hparse, hclean, hdistinct, hraw, hstyle, hedit, hread, houtlined,
    hsame _ hmembers⟩

/-- The misread markup with its last element outlined, as it is written. -/
def outlinedMisread : String :=
  "<!DOCTYPE svg [<!ENTITY a \"<\">]><?p >><svg id=\"svg-0\">" ++
    "<a\" b=\"&quot;\" c'=\"1\" id=\"t\"/><!--=\"'--><rect id=\"k\"/>" ++
    "<!--'=\"1\"/><u id=\"u\"/>--><u id=\"u\" style=\"outline: a; outline-offset: c\"/>" ++
    "</svg><?q?><svg/>"

set_option maxRecDepth 4000 in
theorem parse_outlinedMisread : parse outlinedMisread = .ok (ofDocument (.ofMarkup [
    .node (.doctype "svg [<!ENTITY a \"<\">]><?p >") [], .node (.element ⟨"svg", [("id", "svg-0")]⟩)
      [.node (.element ⟨"a\"", [("b", "\""), ("c'", "1"), ("id", "t"), ("/><!--", "'--><rect id="),
          ("k\"/><!--'", "1")]⟩) [],
        .node (.element ⟨"u", [("id", "u")]⟩) [], .node (.text "-->") [],
        .node (.element ⟨"u", [("id", "u"), ("style", "outline: a; outline-offset: c")]⟩) []],
    .node (.instruction "q") [], .node (.element ⟨"svg", []⟩) []])) :=
  parse_of_read (by cbv) (by cbv)

/-- **Where names are no names of XML, the preview can show an id twice**, since an element that has
a taken id comes out of a comment. -/
theorem exists_ids_ne_of_misread_outline :
    ∃ p q, parse misread = .ok p ∧ (∀ c ∈ preorderAll p.document.markup, c.IsUnbroken) ∧
      ((all p.components).map Component.id).Nodup ∧
      (∀ c ∈ preorderAll p.document.markup, c.HasPlainKeys) ∧ HasOutlines ⟨"a", "b", "c"⟩ ∧
      highlight ⟨"a", "b", "c"⟩ misread ["u"] none = .ok outlinedMisread ∧ parse outlinedMisread = .ok q ∧
      (all p.components).map Component.id = ["svg-0", "t", "k", "u"] ∧
      (all q.components).map Component.id = ["svg-0", "t", "u", "u"] := by
  have htext : (outlined ⟨"a", "b", "c"⟩ misreadDrawing ["u"] none).text = outlinedMisread := by
    decide +kernel
  refine ⟨misreadDrawing, _, parse_misread, isUnbroken_misread, nodup_ids_misread, by decide +kernel,
    ⟨⟨by decide, by decide, by decide⟩, ⟨by decide, by decide, by decide⟩,
      ⟨by decide, by decide, by decide⟩⟩,
    highlight_of_text parse_misread htext parse_outlinedMisread, parse_outlinedMisread, ids_misread,
    ?_⟩
  rw [all_eq]
  decide +kernel

end Edit

end SvgWorkbench
