import SvgWorkbench.Proofs.Document.Change
import SvgWorkbench.Proofs.Edit.Success
import SvgWorkbench.Proofs.SortedMap

/-!
# Edits write ordinary documents

An edit of an ordinary text either fails, or leaves the text as it is, or gives a text that has been
written from an ordinary document and is let through. So does a whole row of edits, in which those
that fail are passed over. Properties are named by legal keys and copies hold legal attributes; then
nothing else is asked of what an edit is given.
-/

namespace SvgWorkbench

open Xml SvgWorkbench.Tree

variable {legal : String → Prop}

/-! ## Elements that are found -/

namespace Drawing

/-- What a drawing finds by an id is an element of its document. -/
theorem exists_of_locate? {p : Drawing} {id : String} {n : Node} (h : p.locate? id = some n) :
    n ∈ subtreesAll p.document.topLevel ∧ ∃ e, n.label.content = .element e := by
  obtain ⟨c, -, hfind⟩ := Option.bind_eq_some_iff.1 h
  obtain ⟨root, hroot, hfind⟩ := Option.bind_eq_some_iff.1 hfind
  have hmem := List.mem_of_find?_eq_some hfind
  have helement := Node.isElement_of_mem_elements hmem
  have hrootmem := Node.mem_subtreesAll_of_mem_elementsAll (List.mem_of_find?_eq_some hroot)
  refine ⟨mem_subtreesAll_trans hrootmem (Node.mem_subtrees_of_mem_elements hmem), ?_⟩
  exact n.label.content.eq_element_or.resolve_right fun hc ↦ by cases hc.symm.trans helement

end Drawing

/-! ## Copies -/

namespace Copied

/-- Whether the type of a copy is a name and its attributes have legal keys, but for the text. -/
structure IsOrdinary (legal : String → Prop) (c : Copied) : Prop where
  /-- The type is a name of XML. -/
  isName : IsName c.kind.toList
  /-- The keys are legal, or that of the text. -/
  keys : ∀ a ∈ c.attributes.entries, a.1 = textKey ∨ legal a.1

variable {c : Copied}

theorem IsOrdinary.element (h : c.IsOrdinary legal) : c.element.IsOrdinary legal := by
  refine ⟨TagName.isName_ofKind h.isName, ?_, fun k hk ↦ ?_⟩
  · rw [Copied.element, Element.keys]
    exact c.attributes.nodup_keys.sublist (List.filter_sublist.map _)
  · obtain ⟨a, ha, rfl⟩ := List.mem_map.1 hk
    obtain ⟨hmem, hkeep⟩ := List.mem_filter.1 ha
    simp only [Bool.and_eq_true, bne_iff_ne, ne_eq] at hkeep
    exact (h.keys a hmem).resolve_left hkeep.1

/-- Moving a copy changes the value of a key that is there. -/
theorem IsOrdinary.shift (h : c.IsOrdinary legal) (offset : Float) (name : String) :
    (c.shift offset name).IsOrdinary legal := by
  rw [Copied.shift]
  split
  case h_2 => exact h
  next hread =>
  refine ⟨h.isName, fun a ha ↦ ?_⟩
  -- a key is moved only if it was read, so it was one of the copy
  rcases SortedMap.mem_insert ha with rfl | ha
  · obtain ⟨value, hvalue, -⟩ := Option.bind_eq_some_iff.1 hread
    rw [SortedMap.get?, Option.map_eq_some_iff] at hvalue
    obtain ⟨⟨k, v⟩, hfind, -⟩ := hvalue
    obtain rfl : k = name := by simpa using List.find?_some hfind
    exact h.keys (k, v) (List.mem_of_find?_eq_some hfind)
  · exact h.keys a ha

/-- Moving a copy along several keys leaves it ordinary. -/
theorem IsOrdinary.foldl_shift (h : c.IsOrdinary legal) (offset : Float) (names : List String) :
    (names.foldl (Copied.shift offset) c).IsOrdinary legal := by
  induction names generalizing c with
  | nil => exact h
  | cons name names ih => exact ih (h.shift offset name)

theorem ofNode_of_content {n : Node} {e : Element} (he : n.content = .element e) :
    ofNode n = ⟨e.kind,
      Drawing.withText n (SortedMap.ofList (e.attributes.filter (·.1 != "id")))⟩ := by
  rw [ofNode, Node.element?_of_content he]

theorem isOrdinary_ofNode {n : Node} {e : Element} (helement : n.content = .element e)
    (he : e.IsOrdinary legal) : (ofNode n).IsOrdinary legal := by
  rw [ofNode_of_content helement]
  refine ⟨Element.isName_kind he.isName, fun a ha ↦ ?_⟩
  have hattributes : ∀ a ∈ (SortedMap.ofList (e.attributes.filter (·.1 != "id"))).entries,
      legal a.1 := fun a ha ↦
    he.keys a.1 (List.mem_map_of_mem (List.mem_filter.1 (SortedMap.mem_ofList ha)).1)
  simp only [Drawing.withText] at ha
  split at ha
  · exact .inr (hattributes a ha)
  · split at ha
    · exact .inr (hattributes a ha)
    · rcases SortedMap.mem_insert ha with rfl | ha
      · exact .inl rfl
      · exact .inr (hattributes a ha)

end Copied

theorem Document.IsEditable.insertCopy {d : Document} (h : d.IsEditable legal) (parent : Handle)
    {c : Copied} (hc : c.IsOrdinary legal) : (d.insertCopy parent c).IsEditable legal := by
  have helement := h.append parent (c := .element c.element) hc.element
  rw [Document.insertCopy]
  split
  · exact helement.append d.next trivial
  · exact helement

/-! ## Properties -/

/-- Whether a key names a property: the text, a declaration of the style or a legal attribute. -/
def IsPropertyKey (legal : String → Prop) (key : String) : Prop :=
  key = textKey ∨ (styleName? key).isSome = true ∨ legal key

theorem Element.IsOrdinary.setProperty (rule : KeyRule legal) {e : Element}
    (h : e.IsOrdinary legal) {key : String} (hkey : (styleName? key).isSome = true ∨ legal key)
    (value : String) : (e.setProperty key value).IsOrdinary legal := by
  rw [Element.setProperty]
  split
  · rw [setStyle]
    split
    · exact h.erase "style"
    · exact h.set rule.style _
  · next hnone =>
    have hlegal := hkey.resolve_left (by simp [hnone])
    split
    · exact h.erase key
    · exact h.set hlegal value

theorem Document.IsEditable.setProperty (rule : KeyRule legal) {d : Document}
    (h : d.IsEditable legal) {key : String} (hkey : IsPropertyKey legal key) (k : Handle)
    (value : String) : (d.setProperty k key value).IsEditable legal := by
  rw [Document.setProperty]
  split
  · exact h.setText k value
  · next hne => exact h.modifyElement k fun e he ↦ he.setProperty rule (hkey.resolve_left hne) value

/-! ## Ordinary texts -/

/-- Whether a text is read as ordinary markup, if it is read at all. -/
def ReadsOrdinary (legal : String → Prop) (text : String) : Prop :=
  ∀ m, Markup.read text = .ok m → m.IsOrdinary legal

theorem Stands.readsOrdinary {text : String} {m : Markup} (h : Stands legal text m) :
    ReadsOrdinary legal text := by
  intro m' hread
  cases h.read.symm.trans hread
  exact h.ordinary

theorem IsWritten.readsOrdinary (rule : KeyRule legal) {text : String} (h : IsWritten legal text) :
    ReadsOrdinary legal text := fun _ hread ↦ h.isOrdinary_of_read rule hread

namespace ReadsOrdinary

variable {text w : String} {p : Drawing}

theorem isEditable (rule : KeyRule legal) (h : ReadsOrdinary legal text)
    (hparse : Drawing.parse text = .ok p) : p.document.IsEditable legal := by
  have hstart := Drawing.exists_startsSpaced_of_parse hparse
  obtain ⟨-, m, hread, rfl⟩ := Drawing.exists_markup_of_parse hparse
  have hrel := Drawing.relAll_idGiven_ofDocument m
  exact ⟨(h m hread).of_relAll rule hrel, hstart⟩

/-- The copy of an element of an ordinary text is ordinary. -/
theorem isOrdinary_ofNode (rule : KeyRule legal) (h : ReadsOrdinary legal text)
    (hparse : Drawing.parse text = .ok p) {id : String} {n : Node}
    (hlocate : p.locate? id = some n) : (Copied.ofNode n).IsOrdinary legal := by
  obtain ⟨hmem, e, helement⟩ := Drawing.exists_of_locate? hlocate
  have hcontent : .element e ∈ n.bare.preorder := by
    obtain ⟨⟨k, c⟩, ts⟩ := n
    obtain rfl : c = .element e := helement
    rw [Node.bare_node, preorder]
    exact List.mem_cons_self
  exact Copied.isOrdinary_ofNode helement
    ((h.isEditable rule hparse).ordinary _ (Node.mem_preorderAll_map_bare hmem hcontent))

end ReadsOrdinary

/-! ## The edits -/

theorem Document.parent?_of_parentBelowRoot? {d : Document} {n parent : Node}
    (h : d.parentBelowRoot? n = some parent) : d.parent? n.handle = some parent := by
  rw [parentBelowRoot?] at h
  split at h
  · cases h
  · exact h

namespace Edit

variable {text id w : String}

private theorem isWritten_of_finish {d : Document} (h : d.IsEditable legal)
    (hfinish : finish d = .ok w) : IsWritten legal w := by
  obtain ⟨⟨p, hparse⟩, rfl⟩ := finish_eq_ok_iff.1 hfinish
  exact h.isWritten (Drawing.exists_markup_of_parse hparse).1

theorem isWritten_setProperty (rule : KeyRule legal) (h : ReadsOrdinary legal text) {key : String}
    (hkey : IsPropertyKey legal key) {value : String}
    (hedit : setProperty text id key value = .ok w) : IsWritten legal w := by
  obtain ⟨p, n, hparse, -, hfinish⟩ := setProperty_eq_ok_iff.1 hedit
  exact isWritten_of_finish ((h.isEditable rule hparse).setProperty rule hkey _ _) hfinish

theorem isWritten_remove (rule : KeyRule legal) (h : ReadsOrdinary legal text)
    (hedit : remove text id = .ok w) : IsWritten legal w := by
  obtain ⟨p, n, parent, hparse, -, hparent, hfinish⟩ := remove_eq_ok_iff.1 hedit
  have heditable := h.isEditable rule hparse
  obtain ⟨-, m, -, rfl⟩ := Drawing.exists_markup_of_parse hparse
  refine isWritten_of_finish (heditable.detach ?_) hfinish
  exact Document.handle_ne_of_parent? (Drawing.loose_ofDocument m)
    (Drawing.nodup_handlesAll_ofDocument m) (Document.parent?_of_parentBelowRoot? hparent)

theorem isWritten_reorder (rule : KeyRule legal) (h : ReadsOrdinary legal text)
    {direction : Direction} (hedit : reorder direction text id = .ok w) :
    w = text ∨ IsWritten legal w := by
  obtain ⟨p, n, parent, hparse, -, -, ⟨swapped, hswap, hfinish⟩ | ⟨-, rfl⟩⟩ :=
    reorder_eq_ok_iff.1 hedit
  · have hloose : p.document.loose = [] := by
      obtain ⟨-, m, -, rfl⟩ := Drawing.exists_markup_of_parse hparse
      exact Drawing.loose_ofDocument m
    exact .inr (isWritten_of_finish ((h.isEditable rule hparse).swap hloose hswap) hfinish)
  · exact .inl rfl

theorem isWritten_duplicate (rule : KeyRule legal) (h : ReadsOrdinary legal text) {config : Config}
    (hedit : duplicate config text id = .ok w) : IsWritten legal w := by
  obtain ⟨p, n, parent, hparse, hlocate, -, hfinish⟩ := duplicate_eq_ok_iff.1 hedit
  have hcopy := (h.isOrdinary_ofNode rule hparse hlocate).foldl_shift config.duplicateOffset
    config.offsetAttributes
  exact isWritten_of_finish ((h.isEditable rule hparse).insertCopy _ hcopy) hfinish

theorem isWritten_paste (rule : KeyRule legal) (h : ReadsOrdinary legal text)
    {parent : Option String} {copy : Copied} (hcopy : copy.IsOrdinary legal)
    (hedit : paste parent text copy = .ok w) : IsWritten legal w := by
  obtain ⟨p, n, hparse, -, hfinish⟩ := paste_eq_ok_iff.1 hedit
  exact isWritten_of_finish ((h.isEditable rule hparse).insertCopy _ hcopy) hfinish

theorem isOrdinary_copy? (rule : KeyRule legal) (h : ReadsOrdinary legal text) {c : Copied}
    (hcopy : copy? text id = some c) : c.IsOrdinary legal := by
  obtain ⟨p, n, hparse, hlocate, rfl⟩ := copy?_eq_some_iff.1 hcopy
  exact h.isOrdinary_ofNode rule hparse hlocate

end Edit

end SvgWorkbench
