import SvgWorkbench.Proofs.Document.Change
import SvgWorkbench.Proofs.Drawing.Unique

/-!
# Edited documents are read back

A change of one node that keeps the form of the node and puts in no names but those of XML leaves a
document that can be written and read again, document types or not. What comes back are its contents
with spaces for tabs and line breaks, and with ids where there were none. So what an edit does to
the components can be seen from the document it makes.
-/

namespace SvgWorkbench

open Xml SvgWorkbench.Tree Markup Component

/-! ## Ids that are given out -/

namespace Drawing

/-- In markup whose values have no tabs and no line breaks, no id that is given out has any. -/
theorem givesGood_unbroken :
    GivesGood (fun id ↦ Unbroken id.toList) fun e ↦ IsName e.name.toList ∧ e.IsUnbroken where
  own e id he hid := he.2 _ (Element.mem_of_id? hid)
  new e scope ordinal he hscope := formatId_of_append
    (fun s t hs ht ↦ by rw [String.toList_append]; exact hs.append ht)
    (fun _ ↦ unbroken_of_forall_isNameChar) (Element.isName_kind he.1) hscope ordinal

end Drawing

theorem Content.IsNamed.spaced {c : Content} (h : c.IsNamed) : c.spaced.IsNamed := by
  cases c with
  | element e => exact ⟨h.1, by rw [Element.keys_spaced]; exact h.2⟩
  | _ => exact h

/-! ## Changes that keep a document sound -/

namespace Node

variable {h : Handle} {f : Node → Node}

mutual

private theorem isRead_modify {top : Bool} {t : Node}
    (hf : ∀ n : Node, n ∈ t.subtrees → n.handle = h →
      ∀ top, IsRead top n.bare → IsRead top (f n).bare)
    (ht : IsRead top t.bare) : IsRead top (modify h f t).bare := by
  match t with
  | .node ⟨k, c⟩ ts =>
    rw [modify]
    split
    · next hk => exact hf _ List.mem_cons_self hk top ht
    rw [bare_node] at ht ⊢
    rcases c.eq_element_or with ⟨e, rfl⟩ | hc
    · exact ⟨ht.1, areRead_modifyAll (fun n hn ↦ hf n (List.mem_cons_of_mem _ hn)) ht.2⟩
    · obtain rfl := List.map_eq_nil_iff.1 (ht.eq_nil hc)
      exact ht

/-- A change that keeps the form of a node keeps the form of the document. -/
theorem areRead_modifyAll {top : Bool} {ts : List Node}
    (hf : ∀ n : Node, n ∈ subtreesAll ts → n.handle = h →
      ∀ top, IsRead top n.bare → IsRead top (f n).bare)
    (hts : AreRead top (ts.map bare)) : AreRead top ((modifyAll h f ts).map bare) := by
  match ts with
  | [] => exact trivial
  | t :: ts =>
    exact ⟨isRead_modify (fun n hn ↦ hf n (List.mem_append_left _ hn)) hts.1,
      areRead_modifyAll (fun n hn ↦ hf n (List.mem_append_right _ hn)) hts.2⟩

end

mutual

theorem isRead_prune {top : Bool} {t : Node} (ht : IsRead top t.bare) :
    IsRead top (prune h t).bare := by
  match t with
  | .node ⟨k, c⟩ ts =>
    rw [prune, bare_node]
    rw [bare_node] at ht
    rcases c.eq_element_or with ⟨e, rfl⟩ | hc
    · exact ⟨ht.1, areRead_pruneAll ht.2⟩
    · obtain rfl := List.map_eq_nil_iff.1 (ht.eq_nil hc)
      exact ht

/-- Taking a node out keeps the form of the document. -/
theorem areRead_pruneAll {top : Bool} {ts : List Node} (hts : AreRead top (ts.map bare)) :
    AreRead top ((pruneAll h ts).map bare) := by
  match ts with
  | [] => exact trivial
  | t :: ts =>
    rw [pruneAll]
    split
    · exact areRead_pruneAll hts.2
    · exact ⟨isRead_prune hts.1, areRead_pruneAll hts.2⟩

end

end Node

/-- A change of one node that keeps the form of the node and puts in no names but those of XML. -/
theorem Document.IsSound.of_modifyAll {d : Document} (h : d.IsSound) {d' : Document} {k : Handle}
    {f : Node → Node} (hd' : d'.topLevel = Node.modifyAll k f d.topLevel)
    (hread : ∀ n : Node, n ∈ subtreesAll d.topLevel → n.handle = k →
      ∀ top, IsRead top n.bare → IsRead top (f n).bare)
    (hnamed : ∀ n : Node, (∀ c ∈ n.bare.preorder, c.IsNamed) →
      ∀ c ∈ (f n).bare.preorder, c.IsNamed)
    (htext : ∀ n : Node, (f n).bare.label.text? = n.bare.label.text?) : d'.IsSound := by
  have hmarkup : d'.markup = (Node.modifyAll k f d.topLevel).map Node.bare := by
    rw [Document.markup, hd']
  constructor <;> rw [hmarkup]
  · exact Node.areRead_modifyAll hread h.isRead
  · exact Node.forall_preorderAll_modifyAll hnamed h.isNamed
  · exact Node.exists_startsSpaced_modifyAll h.start htext

/-! ## What comes back -/

namespace Drawing

variable {p : Drawing}

/-- Whether the names in a drawing are names of XML, and its attribute values have no tabs and no
line breaks. -/
structure IsClean (p : Drawing) : Prop where
  /-- The names are names of XML. -/
  isNamed : ∀ c ∈ preorderAll p.document.markup, c.IsNamed
  /-- Attribute values have no tabs and no line breaks. -/
  isUnbroken : ∀ c ∈ preorderAll p.document.markup, c.IsUnbroken

/-- **What comes back of a sound document** is its markup with spaces for tabs and line breaks, with
ids where there were none, and it is clean. -/
theorem isClean_of_parse_text {d : Document} (h : d.IsSound) (hparse : parse d.text = .ok p) :
    p.IsClean ∧ RelAll (Retouched (· = ""))
      (settledAll "" (mapAll Content.spaced d.markup)) p.document.markup := by
  obtain ⟨-, m, hread, rfl⟩ := exists_markup_of_parse hparse
  obtain rfl := Except.ok.inj (hread.symm.trans h.read_text)
  have hnamed : ∀ c ∈ preorderAll (settledAll "" (mapAll Content.spaced d.markup)),
      c.IsNamed := by
    refine forall_preorderAll_settledAll (fun _ ↦ trivial) (fun c hc ↦ ?_) ""
    rw [preorderAll_mapAll, List.mem_map] at hc
    obtain ⟨c, hc, rfl⟩ := hc
    exact (h.isNamed c hc).spaced
  -- reading leaves no tabs and no line breaks, and the ids that are given out then have none
  have hunbroken := isUnbroken_settledAll d.markup
  have hrel := relAll_ofDocument givesGood_unbroken fun e he ↦ ⟨(hnamed _ he).1, hunbroken _ he⟩
  refine ⟨⟨hrel.forall_preorderAll (fun _ _ hgiven ↦ hgiven.isNamed) hnamed,
    hrel.forall_preorderAll (fun _ _ hgiven ↦ hgiven.isUnbroken fun _ hid ↦ hid) hunbroken⟩,
    relAll_retouched hrel⟩

end Drawing

end SvgWorkbench
