import SvgWorkbench.Proofs.Drawing.Image
import SvgWorkbench.Proofs.Drawing.Normal
import SvgWorkbench.Proofs.Edit.Unique
import SvgWorkbench.Proofs.IdReading
import SvgWorkbench.Proofs.Quantity
import SvgWorkbench.Proofs.Style

/-!
# Edits of normal documents

Every edit writes a document that can be written and read again. Setting a property, moving and
removing keep a document normal, so that what they write is not changed any more when it is read,
unless the edit takes away an id or puts a tab or a line break into an attribute. What a copy puts in
has no id yet.
-/

namespace SvgWorkbench

open Xml SvgWorkbench.Tree Markup

/-! ## Values -/

/-- Whether a property that is set to a value is read again as it was set: no id is taken away, and
no attribute gets a tab or a line break. -/
structure Edit.IsPlain (key value : String) : Prop where
  /-- An id stays one. -/
  id : key = "id" → value ≠ ""
  /-- An attribute gets no tab and no line break. -/
  unbroken : key ≠ textKey → Unbroken key.toList ∧ Unbroken value.toList

namespace Element

variable {e : Element} {key value : String}

theorem isSome_id?_setProperty (hid : e.id?.isSome = true) (h : key = "id" → value ≠ "") :
    (e.setProperty key value).id?.isSome = true := by
  have hstyle : "id" ≠ "style" := by decide
  rw [setProperty]
  split
  · simp only [setStyle]
    split
    · rwa [id?, get?_erase_of_ne e hstyle]
    · rwa [id?, get?_set, if_neg hstyle.symm]
  by_cases hkey : key = "id"
  · subst hkey
    rw [if_neg (by simpa using h rfl), id?_set e (h rfl)]
    rfl
  · split
    · rwa [id?, get?_erase_of_ne e (Ne.symm hkey)]
    · rwa [id?, get?_set, if_neg hkey]

theorem IsUnbroken.erase (h : e.IsUnbroken) (key : String) : (e.erase key).IsUnbroken :=
  fun a ha ↦ h a (List.mem_of_mem_eraseP ha)

theorem IsUnbroken.unbroken_getD (h : e.IsUnbroken) (key : String) :
    Unbroken ((e.get? key).getD "").toList := by
  cases hget : e.get? key with
  | none => exact unbroken_nil
  | some value =>
    obtain ⟨a, ha, rfl⟩ := Option.map_eq_some_iff.1 hget
    exact h a (List.mem_of_find?_eq_some ha)

theorem IsUnbroken.setProperty (h : e.IsUnbroken) (hkey : Unbroken key.toList)
    (hvalue : Unbroken value.toList) : (e.setProperty key value).IsUnbroken := by
  rw [Element.setProperty]
  split
  · next name hname =>
    have hname : Unbroken name.toList := by
      intro c hc
      refine hkey c ?_
      rw [Drawing.styleName?_eq_some_iff.1 hname, String.toList_append]
      exact List.mem_append_right _ hc
    have hstyle := Style.isUnbroken_ofText (h.unbroken_getD "style")
    simp only [setStyle]
    split
    · exact h.erase "style"
    · exact h.set "style" (hstyle.set hname hvalue).text
  · split
    · exact h.erase key
    · exact h.set key hvalue

end Element

/-! ## The edits -/

namespace Edit

open Drawing Document

variable {p : Drawing} {text id w : String}

/-- What is known of the document that an edit writes: it can be read again, and is normal if the
document that was edited is. -/
structure Writes (d : Document) (w : String) (plain : Prop) (d' : Document) : Prop where
  /-- The text is that of the document. -/
  text : w = d'.text
  /-- The text is a drawing. -/
  read : ∃ q, parse w = .ok q
  /-- The document can be read again. -/
  sound : d'.IsSound
  /-- A normal document stays normal. -/
  normal : plain → d.IsNormal → d'.IsNormal

/-- Setting a property writes a normal document if the property is plain. -/
theorem exists_writes_setProperty (hparse : parse text = .ok p)
    (hnamed : ∀ c ∈ preorderAll p.document.markup, c.IsNamed) {key value : String}
    (hkey : IsPropertyKey (fun k ↦ IsName k.toList) key)
    (hedit : setProperty text id key value = .ok w) :
    ∃ d, Writes p.document w (IsPlain key value) d := by
  obtain ⟨q, n, hq, hlocate, hfinish⟩ := setProperty_eq_ok_iff.1 hedit
  cases hq.symm.trans hparse
  obtain ⟨-, root, -, hroot, hn, -⟩ := exists_root_of_locate? hlocate
  obtain ⟨hread, rfl⟩ := finish_eq_ok_iff.1 hfinish
  have hnodup := nodup_handlesAll_of_parse hparse
  have hsound := isSound_of_parse hparse hnamed
  by_cases hkeytext : key = textKey
  · rw [Document.setProperty, if_pos hkeytext]
    rw [Document.setProperty, if_pos hkeytext] at hread
    obtain ⟨ts, hts, hnamed, -, hd⟩ := p.document.exists_topLevel_setText n.handle value
    have hset := hsound.withChildren hnodup (mem_topLevel_of_mem_root hroot hn)
      (Node.isElement_of_mem_elements hn) (fun _ ↦ hts) hnamed hd
    refine ⟨_, rfl, hread, hset, fun _ hnormal ↦ hnormal.withChildren hnodup hroot hn
      (p.document.topLevel_setText n.handle value) hset ?_ ?_⟩ <;> split
    · exact List.forall_mem_nil _
    · next hne =>
      intro c hc
      obtain rfl := List.mem_singleton.1 hc
      exact ⟨trivial, fun heq ↦ hne (by rw [Content.text.inj heq]; rfl)⟩
    · trivial
    · exact ⟨trivial, trivial⟩
  · rw [Document.setProperty, if_neg hkeytext]
    rw [Document.setProperty, if_neg hkeytext] at hread
    have hset := hsound.setAttribute n.handle (hkey.resolve_left hkeytext) value
    refine ⟨_, rfl, hread, hset, fun hplain hnormal ↦ ?_⟩
    obtain ⟨hkeychars, hvalue⟩ := hplain.unbroken hkeytext
    refine hnormal.of_modifyAll hnodup hroot hn
      (f := Node.mapElement fun e ↦ e.setProperty key value) rfl hset (fun h ↦ ?_) ?_ ?_
    · obtain ⟨⟨k, c⟩, ts⟩ := n
      obtain ⟨e, rfl⟩ := c.eq_element_or.resolve_right fun hc ↦ by
        cases hc.symm.trans (Node.isElement_of_isRoot h)
      show Text.eqIgnoringAsciiCase (e.setProperty key value).name "svg" = true
      rwa [Element.name_setProperty]
    · rintro ⟨⟨k, c⟩, ts⟩ h
      rcases c.eq_element_or with ⟨e, rfl⟩ | hc
      · rw [Node.bare_node, preorder, List.forall_mem_cons] at h
        show ∀ c ∈ (Node.bare (.node ⟨k, .element (e.setProperty key value)⟩ ts)).preorder, c.IsKept
        rw [Node.bare_node, preorder, List.forall_mem_cons]
        exact ⟨⟨Element.IsUnbroken.setProperty h.1.1 hkeychars hvalue, by rintro ⟨⟩⟩, h.2⟩
      · cases c <;> first | exact h | cases hc
    · rintro ⟨⟨k, c⟩, ts⟩ h
      rcases c.eq_element_or with ⟨e, rfl⟩ | hc
      · exact ⟨Element.isSome_id?_setProperty h.1 hplain.id, h.2⟩
      · cases c <;> first | exact h | cases hc

/-- Exchanging two neighbours writes a normal document, if it does not leave the text as it is. -/
theorem exists_writes_reorder (hparse : parse text = .ok p)
    (hnamed : ∀ c ∈ preorderAll p.document.markup, c.IsNamed) {direction : Direction}
    (hedit : reorder direction text id = .ok w) :
    w = text ∨ ∃ d, Writes p.document w True d := by
  obtain ⟨n, parent, -, -, ⟨-, rfl⟩ | ⟨root, children, d, hroot, hin, hexchanged, hinside, hd, hsound,
    hfinish⟩⟩ := exists_change_of_reorder hparse hnamed hedit
  · exact .inl rfl
  have hperm := perm_exchanged? hexchanged
  obtain ⟨hread, rfl⟩ := finish_eq_ok_iff.1 hfinish
  refine .inr ⟨d, rfl, hread, hsound, fun _ hnormal ↦ hnormal.withChildren
    (nodup_handlesAll_of_parse hparse) hroot hin hd hsound
    (fun c hc ↦ hnormal.kept c (hinside c hc)) ?_⟩
  -- the ids of the children are there, whatever their order
  have hids : HaveIds ((Tree.children parent).map Node.bare) :=
    Node.haveIds_children (hnormal.ids root hroot) hin
  exact haveIds_iff.2 fun t ht ↦ haveIds_iff.1 hids t ((hperm.map Node.bare).mem_iff.1 ht)

/-- Removing an element writes a normal document. -/
theorem exists_writes_remove (hparse : parse text = .ok p)
    (hnamed : ∀ c ∈ preorderAll p.document.markup, c.IsNamed) (hedit : remove text id = .ok w) :
    ∃ d, Writes p.document w True d := by
  obtain ⟨root, around, k, d, hroot, hin, hd, hsound, hfinish⟩ :=
    exists_change_of_remove hparse hnamed hedit
  obtain ⟨hread, rfl⟩ := finish_eq_ok_iff.1 hfinish
  refine ⟨d, rfl, hread, hsound, fun _ hnormal ↦ hnormal.of_modifyAll
    (nodup_handlesAll_of_parse hparse) hroot hin hd hsound (fun h ↦ ?_)
    (fun m ↦ Node.forall_preorder_prune) fun m ↦ Node.hasIds_prune⟩
  obtain ⟨s, ts⟩ := around
  exact h

/-! ## Rows of edits -/

/-- Whether all names in a drawing are names of XML. -/
def IsNamed (p : Drawing) : Prop := ∀ c ∈ preorderAll p.document.markup, c.IsNamed

/-- Whether an edit leaves a text as it is, or reads a drawing in it and writes one that can be read
again if the names in the first one are names of XML. -/
def WritesSound (edit : String → Except EditError String) : Prop :=
  ∀ text w, edit text = .ok w → w = text ∨
    ∃ p, parse text = .ok p ∧ (IsNamed p → ∃ d : Document, d.IsSound ∧ w = d.text)

/-- Whether an edit of a text that is what is written of its drawing makes another such text. -/
def KeepsNormal (edit : String → Except EditError String) : Prop :=
  ∀ text p w, parse text = .ok p → p.document.IsNormal → p.text = text → edit text = .ok w →
    ∃ q, parse w = .ok q ∧ q.document.IsNormal ∧ q.text = w

/-- A copy that is put in is written so that it can be read again. -/
private theorem exists_isSound_insertCopy (hparse : parse text = .ok p)
    (hnamed : ∀ c ∈ preorderAll p.document.markup, c.IsNamed) {root n : Node}
    (hroot : p.document.root? = some root) (hn : n ∈ root.elements) {copy : Copied}
    (hcopy : copy.IsOrdinary fun k ↦ IsName k.toList)
    (hfinish : finish (p.document.insertCopy n.handle copy) = .ok w) :
    ∃ d : Document, d.IsSound ∧ w = d.text := by
  obtain ⟨-, rfl⟩ := finish_eq_ok_iff.1 hfinish
  exact ⟨_, (isSound_of_parse hparse hnamed).insertCopy (next_notMem_of_parse hparse)
    (nodup_handlesAll_of_parse hparse) (mem_topLevel_of_mem_root hroot hn)
    (Node.isElement_of_mem_elements hn) hcopy, rfl⟩

theorem writesSound_duplicate (config : Config) (id : String) :
    WritesSound fun text ↦ duplicate config text id := by
  intro text w hedit
  obtain ⟨p, -, -, hparse, -⟩ := duplicate_eq_ok_iff.1 hedit
  refine .inr ⟨p, hparse, fun hnamed ↦ ?_⟩
  obtain ⟨root, parent, copy, hroot, hin, hcopy, hfinish⟩ :=
    exists_insertCopy_of_duplicate hparse hnamed hedit
  exact exists_isSound_insertCopy hparse hnamed hroot hin hcopy hfinish

theorem writesSound_paste {copy : Copied} (hcopy : copy.IsOrdinary fun k ↦ IsName k.toList)
    (parent : Option String) : WritesSound fun text ↦ paste parent text copy := by
  intro text w hedit
  obtain ⟨p, -, hparse, -⟩ := paste_eq_ok_iff.1 hedit
  refine .inr ⟨p, hparse, fun hnamed ↦ ?_⟩
  obtain ⟨root, n, hroot, hn, hfinish⟩ := exists_insertCopy_of_paste hparse hedit
  exact exists_isSound_insertCopy hparse hnamed hroot hn hcopy hfinish

/-- What is written of a normal document is read as a normal one. -/
private theorem Writes.exists_parse {d d' : Document} {plain : Prop} (h : Writes d w plain d')
    (hplain : plain) (hd : d.IsNormal) :
    ∃ q, parse w = .ok q ∧ q.document.IsNormal ∧ q.text = w := by
  obtain ⟨q, hq⟩ := h.read
  obtain rfl := h.text
  have hnormal := h.normal hplain hd
  exact ⟨q, hq, isNormal_of_parse_text hnormal.sound hq, text_of_isNormal hnormal hq⟩

theorem writesSound_setProperty {key : String} (hkey : IsPropertyKey (fun k ↦ IsName k.toList) key)
    (id value : String) : WritesSound fun text ↦ setProperty text id key value := by
  intro text w hedit
  obtain ⟨p, -, hparse, -⟩ := setProperty_eq_ok_iff.1 hedit
  refine .inr ⟨p, hparse, fun hnamed ↦ ?_⟩
  obtain ⟨d, hd⟩ := exists_writes_setProperty hparse hnamed hkey hedit
  exact ⟨d, hd.sound, hd.text⟩

theorem keepsNormal_setProperty {key value : String}
    (hkey : IsPropertyKey (fun k ↦ IsName k.toList) key) (hplain : IsPlain key value)
    (id : String) : KeepsNormal fun text ↦ setProperty text id key value := by
  intro text p w hparse hnormal htext hedit
  obtain ⟨d, hd⟩ := exists_writes_setProperty hparse hnormal.sound.isNamed hkey hedit
  exact hd.exists_parse hplain hnormal

theorem writesSound_reorder (direction : Direction) (id : String) :
    WritesSound fun text ↦ reorder direction text id := by
  intro text w hedit
  obtain ⟨p, -, -, hparse, -⟩ := reorder_eq_ok_iff.1 hedit
  by_cases hsame : w = text
  · exact .inl hsame
  refine .inr ⟨p, hparse, fun hnamed ↦ ?_⟩
  obtain ⟨d, hd⟩ := (exists_writes_reorder hparse hnamed hedit).resolve_left hsame
  exact ⟨d, hd.sound, hd.text⟩

theorem keepsNormal_reorder (direction : Direction) (id : String) :
    KeepsNormal fun text ↦ reorder direction text id := by
  intro text p w hparse hnormal htext hedit
  obtain rfl | ⟨d, hd⟩ := exists_writes_reorder hparse hnormal.sound.isNamed hedit
  · exact ⟨p, hparse, hnormal, htext⟩
  · exact hd.exists_parse trivial hnormal

theorem writesSound_remove (id : String) : WritesSound fun text ↦ remove text id := by
  intro text w hedit
  obtain ⟨p, -, -, hparse, -⟩ := remove_eq_ok_iff.1 hedit
  refine .inr ⟨p, hparse, fun hnamed ↦ ?_⟩
  obtain ⟨d, hd⟩ := exists_writes_remove hparse hnamed hedit
  exact ⟨d, hd.sound, hd.text⟩

theorem keepsNormal_remove (id : String) : KeepsNormal fun text ↦ remove text id := by
  intro text p w hparse hnormal htext hedit
  obtain ⟨d, hd⟩ := exists_writes_remove hparse hnormal.sound.isNamed hedit
  exact hd.exists_parse trivial hnormal

variable {α : Type} {edit : String → α → Except EditError String} {items : List α}

/-- An edit after another one that writes texts that can be read again. -/
private theorem WritesSound.next {edit : String → Except EditError String} (h : WritesSound edit)
    {current : String} (hcurrent : current = text ∨ ∃ p, parse text = .ok p ∧
      (IsNamed p → ∃ d : Document, d.IsSound ∧ current = d.text)) (hw : edit current = .ok w) :
    w = text ∨ ∃ p, parse text = .ok p ∧ (IsNamed p → ∃ d : Document, d.IsSound ∧ w = d.text) := by
  obtain rfl | ⟨q, hq, hwrites⟩ := h current w hw
  · exact hcurrent
  obtain rfl | ⟨p, hp, hreads⟩ := hcurrent
  · exact .inr ⟨q, hq, hwrites⟩
  refine .inr ⟨p, hp, fun hnamed ↦ hwrites ?_⟩
  obtain ⟨d, hsound, rfl⟩ := hreads hnamed
  exact (isClean_of_parse_text hsound hq).1.isNamed

theorem forEach_writesSound (hedit : ∀ item ∈ items, WritesSound fun text ↦ edit text item) :
    WritesSound fun text ↦ .ok (forEach edit text items) := by
  rintro text _ ⟨⟩
  exact forEach_induction (P := fun current ↦ current = text ∨ ∃ p, parse text = .ok p ∧
    (IsNamed p → ∃ d : Document, d.IsSound ∧ current = d.text))
    (fun _ item _ hitem hcurrent hw ↦ (hedit item hitem).next hcurrent hw) (.inl rfl)

theorem forEach_keepsNormal (hedit : ∀ item ∈ items, KeepsNormal fun text ↦ edit text item) :
    KeepsNormal fun text ↦ .ok (forEach edit text items) := by
  rintro text p _ hparse hnormal htext ⟨⟩
  refine forEach_induction
    (P := fun current ↦ ∃ q, parse current = .ok q ∧ q.document.IsNormal ∧ q.text = current) ?_
    ⟨p, hparse, hnormal, htext⟩
  rintro current item w hitem ⟨q, hq, hqnormal, hqtext⟩ hw
  exact hedit item hitem current q w hq hqnormal hqtext hw

theorem adjustAll_writesSound {key : String} (hkey : IsPropertyKey (fun k ↦ IsName k.toList) key)
    (ids : List String) (op : BatchOp) (amount : Float) :
    WritesSound fun text ↦ .ok (adjustAll ids key op amount text) := by
  rintro text _ ⟨⟩
  exact adjustAll_induction (P := fun current ↦ current = text ∨ ∃ p, parse text = .ok p ∧
    (IsNamed p → ∃ d : Document, d.IsSound ∧ current = d.text))
    (fun _ id x _ hcurrent hw ↦ (writesSound_setProperty hkey id (Quantity.text x)).next hcurrent hw)
    (.inl rfl) ids op amount

theorem adjustAll_keepsNormal {key : String} (hkey : IsPropertyKey (fun k ↦ IsName k.toList) key)
    (hunbroken : key ≠ textKey → Unbroken key.toList) (ids : List String) (op : BatchOp)
    (amount : Float) : KeepsNormal fun text ↦ .ok (adjustAll ids key op amount text) := by
  rintro text p _ hparse hnormal htext ⟨⟩
  refine adjustAll_induction
    (P := fun current ↦ ∃ q, parse current = .ok q ∧ q.document.IsNormal ∧ q.text = current) ?_
    ⟨p, hparse, hnormal, htext⟩ ids op amount
  rintro current id x w ⟨q, hq, hqnormal, hqtext⟩ hw
  have hplain : IsPlain key (Quantity.text x) :=
    ⟨fun _ ↦ (Quantity.unbroken_text x).2, fun hne ↦ ⟨hunbroken hne, (Quantity.unbroken_text x).1⟩⟩
  exact keepsNormal_setProperty hkey hplain id current q w hq hqnormal hqtext hw

end Edit

end SvgWorkbench
