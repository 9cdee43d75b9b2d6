import SvgWorkbench.Proofs.Drawing.Restored
import SvgWorkbench.Proofs.Edit.Inserted

/-!
# Removing takes back what was put in

A copy that has been put in is found by the one id that is new, for ids are distinct, and removing it
leaves the place where it was put in as it had been. In between, the text has been written and read
two times, so texts that were neighbours are one now; this is not seen in the components.
-/

namespace SvgWorkbench

open Xml SvgWorkbench.Tree Markup Component

/-! ## Sites in drawings -/

namespace Markup.Site

variable {e : Element} {s : Site e} {us : List (Tree Content)} {d : Document}

/-- **A node that is taken out of a site** leaves the site with the nodes around it. -/
theorem exists_detach {left right : List (Tree Content)} {t : Tree Content} (hloose : d.loose = [])
    (hnodup : (Node.handlesAll d.topLevel).Nodup) (h : d.markup = s.fill (left ++ t :: right)) :
    ∃ root n child, d.root? = some root ∧ n ∈ root.elements ∧ child ∈ Tree.children n ∧
      Node.bare child = t ∧ d.parentBelowRoot? child = some n ∧
      (d.detach (Node.handle child)).markup = s.fill (left ++ right) := by
  obtain ⟨outer, inner, root, n, hin, htop, hn, hroot, hmem⟩ := exists_root_of_markup h
  obtain ⟨slot, ns⟩ := n
  rw [Node.bare_node, Tree.node.injEq] at hn
  obtain ⟨hslot, hns⟩ := hn
  obtain ⟨left, rest, rfl, rfl, hrest⟩ := List.map_eq_append_iff.1 hns
  obtain ⟨child, right, rfl, rfl, rfl⟩ := List.map_eq_cons_iff.1 hrest
  have hchild : child ∈ Tree.children (.node slot (left ++ child :: right)) :=
    List.mem_append_right _ List.mem_cons_self
  have hparent :=
    Document.parentBelowRoot?_of_mem_children hloose hnodup hroot hmem hchild
  refine ⟨root, _, child, hroot, hmem, hchild, rfl, hparent, ?_⟩
  have hattached : d.isAttached child.handle = true := by
    rw [Document.isAttached, Document.parent?_of_parentBelowRoot? hparent]
    rfl
  have hplug : d.topLevel = ((outer.comp inner).under slot left right).plug [child] := by
    rw [htop, Context.plug_under, Context.plug_comp, List.append_assoc, List.singleton_append]
  rw [hplug] at hnodup
  have hbare : Node.bare (.node slot (left ++ right))
      = .node (.element e) (left.map Node.bare ++ right.map Node.bare) := by
    rw [Node.bare_node, hslot, List.map_append]
  rw [Document.markup, Document.detach, if_pos hattached, hplug,
    Node.pruneAll_plug (Node.notMem_of_nodup_plug hnodup), Context.plug_under, Context.plug_comp,
    List.append_nil, hin.map_bare hbare]

end Markup.Site

namespace Edit

open Drawing Document

variable {p : Drawing} {text w id : String} {root n : Node}

/-- Removing a copy that has been put in takes its node out, for the id that is new means the copy,
and leaves what there was. -/
private theorem exists_detach_of_putsCopy {copy : Copied} {e : Element} {s : Site e} {q : Drawing}
    {new : String} (hputs : PutsCopy p w n copy s q new)
    (hnodup : ((all q.components).map Component.id).Nodup) :
    ∃ h, (q.document.detach h).markup = settledAll "" p.document.markup ∧
      ∀ r, remove w new = .ok r ↔ finish (q.document.detach h) = .ok r := by
  have hq := hputs.read
  have hfill : q.document.markup = s.settled.fill
      (settledAll "" (n.children.map Node.bare) ++ [settled (copy.namedNode new)]) := by
    rw [hputs.after, s.settledAll_fill, Copied.namedNode, settledAll_concat_element]
  obtain ⟨root, parent, child, hroot, hparent, hchild, hbare, hbelow, hmarkup⟩ :=
    Site.exists_detach (loose_of_parse hq) (nodup_handlesAll_of_parse hq) hfill
  rw [List.append_nil, ← s.settledAll_fill, ← hputs.before] at hmarkup
  have hcontent : Node.content child = .element (copy.element.spaced.set "id" new) := by
    rw [Node.content, ← Node.label_bare, hbare, label_settled]
    rfl
  have helement : Node.isElement child = true := by
    rw [Node.isElement, hcontent]
    rfl
  have hlocate : q.locate? new = some child := locate?_of_mem hq hnodup hroot
    (Node.mem_elements_of_mem_children hparent hchild helement)
    ((Node.id?_of_content hcontent).trans hputs.id)
  refine ⟨Node.handle child, hmarkup, fun r ↦ ?_⟩
  rw [remove_eq_ok_iff]
  constructor
  · rintro ⟨q', n', parent', hq', hlocate', -, hr⟩
    cases hq.symm.trans hq'
    cases hlocate.symm.trans hlocate'
    exact hr
  · exact fun hr ↦ ⟨q, child, parent, hq, hlocate, hbelow, hr⟩

/-- What removing a copy that has been put in does. -/
theorem componentsOf_remove_of_insertCopy (hparse : parse text = .ok p) (hclean : p.IsClean)
    (hdistinct : ((all p.components).map Component.id).Nodup)
    (hroot : p.document.root? = some root) (hn : n ∈ root.elements) {copy : Copied}
    (hcopy : copy.IsOrdinary fun k ↦ IsName k.toList)
    (hfinish : finish (p.document.insertCopy n.handle copy) = .ok w) :
    ∃ q new, parse w = .ok q ∧
      (∀ id, id ∈ (all q.components).map Component.id ∧
        id ∉ (all p.components).map Component.id ↔ id = new) ∧
      (∀ r, remove w new = .ok r → componentsOf r = .ok p.components) ∧
      (Gate.HasPlainDeclaration (Gate.unmarked text.toList) → Gate.HasPlainDoctype text.toList →
        ∃ r, remove w new = .ok r) := by
  obtain ⟨e, s, q, new, hputs⟩ := exists_putsCopy hparse hclean hroot hn hcopy hfinish
  have hq := hputs.read
  have hnodup := nodup_ids_insertCopy hparse hclean hdistinct hroot hn hcopy hfinish hq
  have hperm := hputs.perm_ids hparse
  have hfresh := (List.nodup_cons.1 (hperm.nodup_iff.1 hnodup)).1
  obtain ⟨h, hmarkup, hremove⟩ := exists_detach_of_putsCopy hputs hnodup
  refine ⟨q, new, hq, fun id ↦ ?_, fun r hr ↦ ?_, fun hdeclaration hdoctype ↦ ?_⟩
  · rw [hperm.mem_iff, List.mem_cons]
    constructor
    · rintro ⟨hid, hnot⟩
      exact hid.resolve_right hnot
    · rintro rfl
      exact ⟨.inl rfl, hfresh⟩
  · obtain ⟨hread, rfl⟩ := finish_eq_ok_iff.1 ((hremove r).1 hr)
    exact componentsOf_text_of_restored hparse hclean hmarkup hread
  · have hsteady := isSteady_of_isClean hparse hclean hdeclaration hdoctype
    obtain ⟨d, hsound, rfl, hd⟩ := hputs.written
    have hfree := isClashFree_of_fill hparse hsteady hputs.before hsound hd hq fun c hc ↦
      mem_preorderAll_append.2 (.inl hc)
    have hread := exists_parse_of_restored hparse hsteady hclean hfree hmarkup
    exact ⟨_, (hremove _).2 (finish_eq_ok_iff.2 ⟨hread, rfl⟩)⟩

/-- **Removing takes back what duplicating and pasting have put in**: one id is new, and the
components without the one it means are those there were. It can be removed if the check and the
reader agree where the declaration and the document type end. -/
theorem componentsOf_remove_added (hparse : parse text = .ok p) (hclean : p.IsClean)
    (hdistinct : ((all p.components).map Component.id).Nodup)
    (hedit : (∃ config id, duplicate config text id = .ok w) ∨
      ∃ source sourceId copy parent,
        (∀ s, parse source = .ok s → ∀ c ∈ preorderAll s.document.markup, c.IsNamed) ∧
        copy? source sourceId = some copy ∧ paste parent text copy = .ok w) :
    ∃ q new, parse w = .ok q ∧
      (∀ id, id ∈ (all q.components).map Component.id ∧
        id ∉ (all p.components).map Component.id ↔ id = new) ∧
      (∀ r, remove w new = .ok r → componentsOf r = .ok p.components) ∧
      (Gate.HasPlainDeclaration (Gate.unmarked text.toList) → Gate.HasPlainDoctype text.toList →
        ∃ r, remove w new = .ok r) := by
  rcases hedit with ⟨config, id, hedit⟩ | ⟨source, sourceId, copy, parent, hnamed, hcopy, hedit⟩
  · obtain ⟨root, n, copy, hroot, hn, hordinary, hfinish⟩ :=
      exists_insertCopy_of_duplicate hparse hclean.isNamed hedit
    exact componentsOf_remove_of_insertCopy hparse hclean hdistinct hroot hn hordinary hfinish
  · obtain ⟨s, n', hs, hlocate, rfl⟩ := copy?_eq_some_iff.1 hcopy
    have hordinary := isOrdinary_ofNode_of_isNamed hs (hnamed s hs) hlocate
    obtain ⟨root, n, hroot, hn, hfinish⟩ := exists_insertCopy_of_paste hparse hedit
    exact componentsOf_remove_of_insertCopy hparse hclean hdistinct hroot hn hordinary hfinish

set_option maxRecDepth 4000 in
/-- The copy of a group is put into the group itself and taken out again, after which the group shows
its text again. -/
theorem componentsOf_remove_of_group : ∃ p, parse "<svg><g id=\"a\">t</g></svg>" = .ok p ∧
    p.IsClean ∧ ((all p.components).map Component.id).Nodup ∧
    ∃ copy w q new r, copy? "<svg><g id=\"a\">t</g></svg>" "a" = some copy ∧
      paste (some "a") "<svg><g id=\"a\">t</g></svg>" copy = .ok w ∧ parse w = .ok q ∧
      (∀ id, id ∈ (all q.components).map Component.id ∧
        id ∉ (all p.components).map Component.id ↔ id = new) ∧
      remove w new = .ok r ∧ componentsOf r = .ok p.components := by
  have hread : Markup.read "<svg><g id=\"a\">t</g></svg>" = .ok [.node (.element ⟨"svg", []⟩)
      [.node (.element ⟨"g", [("id", "a")]⟩) [.node (.text "t") []]]] := by cbv
  obtain ⟨copy, hcopy, hpaste⟩ : ∃ copy, copy? "<svg><g id=\"a\">t</g></svg>" "a" = some copy ∧
      paste (some "a") "<svg><g id=\"a\">t</g></svg>" copy
        = .ok "<svg id=\"svg-0\"><g id=\"a\">t<g>t</g></g></svg>" := ⟨_, by cbv, by cbv⟩
  obtain ⟨hdeclaration, hdoctype⟩ := Gate.hasPlainDeclaration_and_doctype_of_tag
    (c := 's') (by decide) ("vg><g id=\"a\">t</g></svg>".toList)
  have hparse := parse_of_read (by cbv) hread
  generalize hp : ofDocument _ = p at hparse
  have hclean : p.IsClean := by
    rw [← hp]
    exact ⟨by decide +kernel, by decide +kernel⟩
  have hids : ((all p.components).map Component.id).Nodup := by
    rw [← hp, all_eq]
    decide +kernel
  obtain ⟨q, new, hq, hnew, hrestored, hremove⟩ := componentsOf_remove_added hparse hclean hids
    (.inr ⟨_, _, _, _, fun s hs ↦ Except.ok.inj (hparse.symm.trans hs) ▸ hclean.isNamed, hcopy,
      hpaste⟩)
  obtain ⟨r, hr⟩ := hremove hdeclaration hdoctype
  exact ⟨p, hparse, hclean, hids, copy, _, q, new, r, hcopy, hpaste, hq, hnew, hr, hrestored r hr⟩

/-- Markup that the check takes for values in the document type, up to a root behind it. The quotes
in its text are those of the last value. -/
def quoted : String :=
  "<!DOCTYPE svg [<!ENTITY b '>><svg><rect id=\"k\" a=\" \"/><!--'><!ENTITY a PUBLIC \"-->\" \"" ++
    "</svg><!--\">]><svg/><!-- -->"

/-- The same markup with a copy of the rectangle put in, whose quotes stand for those of the text,
which have become references. -/
def requoted : String :=
  "<!DOCTYPE svg [<!ENTITY b '>><svg id=\"svg-0\"><rect id=\"k\" a=\" \"/>" ++
    "<!--'><!ENTITY a PUBLIC \"-->&quot; &quot;<rect a=\" \"/></svg><!--\">]><svg/><!-- -->"

set_option maxRecDepth 8000 in
/-- **Where the check reads on in the document type, a copy that has been put in may not be removed
again**: without it, the check misses the quotes of a value. -/
theorem not_remove_of_quoted : ∃ p q, parse quoted = .ok p ∧ p.IsClean ∧
    (all p.components).map Component.id = ["svg-0", "k"] ∧
    duplicate {} quoted "k" = .ok requoted ∧ parse requoted = .ok q ∧
    (all q.components).map Component.id = ["svg-0", "k", "rect-1"] ∧
    ¬ ∃ r, remove requoted "rect-1" = .ok r := by
  have hread : Markup.read quoted = .ok [.node (.doctype "svg [<!ENTITY b '>") [],
      .node (.element ⟨"svg", []⟩) [.node (.element ⟨"rect", [("id", "k"), ("a", " ")]⟩) [],
        .node (.comment "'><!ENTITY a PUBLIC \"") [], .node (.text "\" \"") []],
      .node (.comment "\">]><svg/><!-- ") []] := by cbv
  have hread' : Markup.read requoted = .ok [.node (.doctype "svg [<!ENTITY b '>") [],
      .node (.element ⟨"svg", [("id", "svg-0")]⟩)
        [.node (.element ⟨"rect", [("id", "k"), ("a", " ")]⟩) [],
          .node (.comment "'><!ENTITY a PUBLIC \"") [], .node (.text "\" \"") [],
          .node (.element ⟨"rect", [("a", " ")]⟩) []],
      .node (.comment "\">]><svg/><!-- ") []] := by cbv
  have hremove : remove requoted "rect-1"
      = .error (.badResult (.malformed ⟨.unexpected .space '>', ⟨1, 118⟩⟩)) := by cbv
  refine ⟨_, _, parse_of_read (by cbv) hread, ⟨by decide +kernel, by decide +kernel⟩,
    by rw [all_eq]; decide +kernel, by cbv, parse_of_read (by cbv) hread',
    by rw [all_eq]; decide +kernel, ?_⟩
  rintro ⟨r, hr⟩
  cases hremove.symm.trans hr

end Edit

end SvgWorkbench
