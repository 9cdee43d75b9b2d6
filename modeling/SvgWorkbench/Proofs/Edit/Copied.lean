import SvgWorkbench.Proofs.Edit.Attribute
import SvgWorkbench.Proofs.Quantity

/-!
# What is shown of a copy

A copy holds the attributes of an element and its text. An element made of it has the attributes that
belong in a tag and the text inside, so the component of that element shows what the copy holds, and
what its style declares. Moving a copy changes numbers under some keys; what it puts there is shown
as well.
-/

namespace SvgWorkbench

open Text SvgWorkbench.Tree Markup Component Drawing

namespace Copied

variable {c : Copied} {e : Element} {n : Node} {id : String}

/-- The node that a copy has made when the text is read again and has been given an id. -/
def namedNode (c : Copied) (id : String) : Tree Content :=
  .node (.element (c.element.spaced.set "id" id)) c.texts

/-! ## Copies that come back as they are -/

/-- Whether a copy is that of an element whose values have no tabs and no line breaks: its type is
in lower case and its text has no blanks at its ends. -/
structure IsRegular (c : Copied) : Prop where
  /-- The type is in lower case. -/
  kind : lower c.kind = c.kind
  /-- There are no tabs and no line breaks in the attributes. -/
  unbroken : ∀ a ∈ c.attributes.entries, a.1 ≠ textKey → Unbroken a.2.toList
  /-- The text is not empty and has no blanks at its ends. -/
  text : ∀ t, c.attributes.get? textKey = some t → trim t = t ∧ t ≠ ""

theorem isRegular_ofNode (he : n.content = .element e) (hunbroken : e.IsUnbroken)
    (hkey : textKey ∉ e.keys) : (ofNode n).IsRegular := by
  have hentries : ∀ a ∈ (SortedMap.ofList (e.attributes.filter (·.1 != "id"))).entries,
      a ∈ e.attributes := fun a ha ↦ (List.mem_filter.1 (SortedMap.mem_ofList ha)).1
  have hnone : (SortedMap.ofList (e.attributes.filter (·.1 != "id"))).get? textKey = none :=
    SortedMap.get?_eq_none_iff.2 fun a ha heq ↦ hkey (heq ▸ List.mem_map_of_mem (hentries a ha))
  rw [ofNode_of_content he]
  refine ⟨lower_lower e.name, fun a ha hne ↦ ?_, fun t ht ↦ ?_⟩
  · simp only [withText] at ha
    split at ha
    · exact hunbroken a (hentries a ha)
    · split at ha
      · exact hunbroken a (hentries a ha)
      · rcases SortedMap.mem_insert ha with rfl | ha
        · exact absurd rfl hne
        · exact hunbroken a (hentries a ha)
  · simp only [withText] at ht
    split at ht
    · cases hnone.symm.trans ht
    · split at ht
      · cases hnone.symm.trans ht
      · next hblank =>
        rw [SortedMap.get?_insert, if_pos rfl, Option.some.injEq] at ht
        subst ht
        exact ⟨Style.trim_eq (Style.isTrimmed_trim _), fun heq ↦ hblank (by rw [heq]; rfl)⟩

/-! ## Moved copies -/

/-- A value after it has been moved, if it is a number. -/
def movedText (offset : Float) (value : String) : String :=
  (Quantity.read? value).elim value fun x ↦ Quantity.text (x + offset)

theorem get?_shift (offset : Float) (c : Copied) (name key : String) :
    (c.shift offset name).attributes.get? key
      = if key = name then (c.attributes.get? key).map (movedText offset)
        else c.attributes.get? key := by
  rw [shift]
  by_cases hkey : key = name
  · subst hkey
    rw [if_pos rfl]
    cases hvalue : c.attributes.get? key with
    | none => exact hvalue
    | some value =>
      rw [Option.bind_some, Option.map_some, movedText]
      cases Quantity.read? value with
      | none => exact hvalue
      | some x => exact (SortedMap.get?_insert _ _ _ _).trans (if_pos rfl)
  · rw [if_neg hkey]
    split
    · exact (SortedMap.get?_insert _ _ _ _).trans (if_neg (Ne.symm hkey))
    · rfl

/-- **Moving a copy along distinct keys** moves the numbers under these keys, each once. -/
theorem get?_foldl_shift (offset : Float) {names : List String} (hnodup : names.Nodup) (c : Copied)
    (key : String) : (names.foldl (shift offset) c).attributes.get? key
      = if key ∈ names then (c.attributes.get? key).map (movedText offset)
        else c.attributes.get? key := by
  induction names generalizing c with
  | nil => rfl
  | cons name names ih =>
    obtain ⟨hnot, hnodup⟩ := List.nodup_cons.1 hnodup
    rw [List.foldl_cons, ih hnodup, get?_shift]
    by_cases hkey : key = name
    · rw [if_neg (hkey ▸ hnot), if_pos hkey, if_pos (hkey ▸ List.mem_cons_self)]
    · simp [hkey]

@[simp] theorem kind_shift (offset : Float) (c : Copied) (name : String) :
    (c.shift offset name).kind = c.kind := by
  rw [shift]
  split <;> rfl

theorem kind_foldl_shift (offset : Float) (names : List String) (c : Copied) :
    (names.foldl (shift offset) c).kind = c.kind := by
  induction names generalizing c with
  | nil => rfl
  | cons name names ih => rw [List.foldl_cons, ih, kind_shift]

/-- Whether a copy is another one with the numbers moved that stand under some keys. -/
structure IsMoved (offset : Float) (keys : List String) (copy moved : Copied) : Prop where
  /-- The type is the same. -/
  kind : moved.kind = copy.kind
  /-- Under the keys, numbers are moved, and nothing else is changed. -/
  attributes : ∀ key, moved.attributes.get? key
    = if key ∈ keys then (copy.attributes.get? key).map (movedText offset)
      else copy.attributes.get? key

theorem isMoved_foldl_shift (offset : Float) {keys : List String} (hnodup : keys.Nodup)
    (c : Copied) : c.IsMoved offset keys (keys.foldl (shift offset) c) :=
  ⟨kind_foldl_shift offset keys c, get?_foldl_shift offset hnodup c⟩

theorem IsRegular.shift (h : c.IsRegular) (offset : Float) (name : String) :
    (c.shift offset name).IsRegular := by
  refine ⟨by rw [kind_shift]; exact h.kind, fun a ha hne ↦ ?_, fun t ht ↦ ?_⟩
  · rw [Copied.shift] at ha
    split at ha
    · rcases SortedMap.mem_insert ha with rfl | ha
      · exact (Quantity.unbroken_text _).1
      · exact h.unbroken a ha hne
    · exact h.unbroken a ha hne
  · rw [get?_shift] at ht
    split at ht
    · obtain ⟨value, hvalue, rfl⟩ := Option.map_eq_some_iff.1 ht
      rw [movedText]
      cases Quantity.read? value with
      | none => exact h.text value hvalue
      | some x => exact ⟨Quantity.trim_text _, (Quantity.unbroken_text _).2⟩
    · exact h.text t ht

theorem IsRegular.foldl_shift (h : c.IsRegular) (offset : Float) (names : List String) :
    (names.foldl (Copied.shift offset) c).IsRegular := by
  induction names generalizing c with
  | nil => exact h
  | cons name names ih => exact ih (h.shift offset name)

/-! ## The component of a copy -/

/-- Whether a component shows a copy: it has the type, the attributes and the text of the copy, what
its style declares, and nothing inside. -/
structure IsShown (c : Copied) (x : Component) : Prop where
  /-- There is nothing inside. -/
  leaf : x.children = []
  /-- The type is that of the copy. -/
  kind : x.kind = c.kind
  /-- The id is among the attributes. -/
  id : x.attribute? "id" = some x.id
  /-- Under the keys of declarations stands what the style of the copy declares. -/
  declared : ∀ name, x.attribute? (styleKeyStart ++ name)
    = (c.attributes.get? "style").bind fun style ↦ (Style.ofText style).get? name
  /-- Under every other key stands what the copy has there, its text included. -/
  others : ∀ key, key ≠ "id" → styleName? key = none → x.attribute? key = c.attributes.get? key

theorem IsRegular.element_spaced (h : c.IsRegular) : c.element.spaced = c.element := by
  refine Element.IsUnbroken.spaced_eq fun a ha ↦ ?_
  obtain ⟨hmem, hkeep⟩ := List.mem_filter.1 ha
  simp only [Bool.and_eq_true, bne_iff_ne] at hkeep
  exact h.unbroken a hmem hkeep.1

theorem get?_element (c : Copied) (key : String) :
    c.element.get? key =
      if key ≠ textKey ∧ keeps key = true then c.attributes.get? key else none := by
  rw [Element.get?, element, SortedMap.get?, List.find?_filter]
  split
  · next hkey =>
    refine congrArg (Option.map _) (congrArg (List.find? · _) (funext fun a ↦ ?_))
    by_cases ha : a.1 = key <;> simp [ha, hkey]
  · next hkey =>
    rw [List.find?_eq_none.2, Option.map_none]
    intro a _ ha
    simp only [Bool.and_eq_true, bne_iff_ne, decide_eq_true_eq, beq_iff_eq] at ha
    exact hkey (ha.2 ▸ ha.1)

theorem childElements_node (c : Copied) (handle : Handle) : (c.node handle).childElements = [] := by
  rw [node]
  cases c.text? <;> rfl

theorem textContent_node (c : Copied) (handle : Handle) :
    (c.node handle).textContent = (c.attributes.get? textKey).getD "" := by
  rw [node, text?]
  cases c.attributes.get? textKey with
  | none => rfl
  | some t => exact String.append_empty

/-- A copy shows what an element with its text inside shows. -/
private theorem get?_entryOf_texts (c : Copied) {e : Element} (hkeys : e.keys.Nodup)
    (parent : Option String) (key : String) :
    (entryOf parent e c.texts).attributes.get? key = shown? (c.node 0) e key := by
  have htexts : (Tree.children (c.node 0)).map Node.bare = c.texts := by
    rw [← Node.children_bare, bare_node, children_node]
  rw [← htexts]
  exact Edit.get?_attributesOf_children rfl hkeys key

/-- The text of a copy is shown as it is. -/
private theorem IsRegular.shown?_textKey (h : c.IsRegular) {e : Element}
    (he : e.get? textKey = none) :
    shown? (c.node 0) e textKey = c.attributes.get? textKey := by
  rw [shown?, textContent_node, childElements_node]
  cases htext : c.attributes.get? textKey with
  | none => rw [Option.getD_none, if_neg (by simp; decide), he]; rfl
  | some t =>
    obtain ⟨htrim, hnonempty⟩ := h.text t htext
    rw [Option.getD_some, htrim, if_pos ⟨rfl, rfl, hnonempty⟩]

/-- **The component of a copy shows it.** -/
theorem IsRegular.isShown (h : c.IsRegular) (hkeys : c.element.keys.Nodup)
    (hid : (c.element.spaced.set "id" id).id? = some id) (parent : Option String) :
    c.IsShown (.node (entryOf parent (c.element.spaced.set "id" id) c.texts) []) := by
  have hid' := Element.get?_set_self c.element.spaced "id" id
  rw [h.element_spaced] at hid hid' ⊢
  have hget : ∀ key, key ≠ "id" → (c.element.set "id" id).get? key = c.element.get? key :=
    fun key hne ↦ by rw [Element.get?_set, if_neg (Ne.symm hne)]
  have hstyle : c.element.get? "style" = c.attributes.get? "style" := by
    rw [get?_element, if_pos (by decide)]
  have hshown := get?_entryOf_texts c (Element.nodup_keys_set hkeys "id" id) parent
  have htag : ∀ key, key ≠ textKey →
      (entryOf parent (c.element.set "id" id) c.texts).attributes.get? key =
        (styled? (c.element.set "id" id) key).or ((c.element.set "id" id).get? key) :=
    fun key hne ↦ (hshown key).trans (if_neg fun hand ↦ hne hand.1)
  have hunstyled : ∀ key, styleName? key = none → styled? (c.element.set "id" id) key = none :=
    fun key hname ↦ by rw [styled?, hname, Option.bind_none]
  refine ⟨rfl, ?_, ?_, fun name ↦ ?_, fun key hne hname ↦ ?_⟩
  · show lower (TagName.ofKind c.kind) = c.kind
    rw [← h.kind, TagName.lower_ofKind_lower, h.kind]
  · refine (htag "id" (by decide)).trans ?_
    rw [hunstyled "id" rfl, Option.none_or, hid']
    show some id = some ((c.element.set "id" id).id?.getD "")
    rw [hid, Option.getD_some]
  · have hname := styleName?_eq_some_iff.2 (rfl : styleKeyStart ++ name = _)
    have hne : styleKeyStart ++ name ≠ "id" := by
      intro heq
      rw [heq] at hname
      cases hname
    refine (htag _ (Edit.ne_textKey_of_styleName? hname)).trans ?_
    rw [hget _ hne, get?_element, if_neg (by simp [keeps, hname]), Option.or_none, styled?, hname,
      Option.bind_some, hget "style" (by decide), hstyle]
  · by_cases hkey : key = textKey
    · subst hkey
      refine (hshown textKey).trans (h.shown?_textKey ?_)
      rw [hget textKey hne, get?_element, if_neg (by simp)]
    · refine (htag key hkey).trans ?_
      rw [hunstyled key hname, Option.none_or, hget key hne, get?_element,
        if_pos ⟨hkey, by simp [keeps, hname, hne]⟩]

end Copied

end SvgWorkbench
