import SvgWorkbench.Proofs.Edit.Exchanged
import SvgWorkbench.Proofs.Edit.Located

/-!
# Removing cuts out one component

An element that is removed takes with it what is inside. Everything around it stays as it was, also
the ids that had been given out, since they have become attributes of the markup by then. What may
change is what the component around shows: with no component left inside, it shows the text that is
left.
-/

namespace SvgWorkbench

open Xml SvgWorkbench.Tree Markup Component

/-- The text right inside a node, without that of the elements inside. -/
def Node.ownText (n : Node) : String := textContentAll (n.children.filter fun m ↦ !isElement m)

/-- The entry of a component that shows a text, if it is not blank and no component is inside. -/
def Entry.showing (a : Entry) (inside : List Component) (text : String) : Entry :=
  if inside.isEmpty && !(Text.trim text).isEmpty then
    { a with attributes := a.attributes.insert textKey (Text.trim text) }
  else a

/-- The text does not matter where a component is inside. -/
theorem Entry.showing_congr {a : Entry} {inside : List Component} {text text' : String}
    (h : inside = [] → text = text') : a.showing inside text = a.showing inside text' := by
  cases inside with
  | nil => rw [h rfl]
  | cons c cs => rw [showing, showing, List.isEmpty_cons, Bool.false_and, Bool.false_and]; rfl

/-! ## What is left at a place -/

namespace Markup

theorem isEmpty_viewAll (parent : Option String) (ts : List (Tree Content)) :
    (viewAll parent ts).isEmpty = !hasElements ts := by
  induction ts with
  | nil => rfl
  | cons t ts ih =>
    obtain ⟨c, us⟩ := t
    rw [hasElements] at ih
    rw [viewAll, hasElements, List.any_cons, label_node]
    rcases c.eq_element_or with ⟨e, rfl⟩ | hc
    · rfl
    · rw [view_of_isElement_eq_false hc, List.nil_append, ih, hc, Bool.false_or]

/-- The entry of an element shows its text if no component is inside. -/
theorem entryOf_eq_showing (parent : Option String) (e : Element) (inner : Option String)
    (ts : List (Tree Content)) :
    entryOf parent e ts = (framed parent e).showing (viewAll inner ts) (textOfAll ts) := by
  rw [Entry.showing, isEmpty_viewAll, ← Bool.not_or, entryOf, attributesOf]
  cases hasElements ts || (Text.trim (textOfAll ts)).isEmpty <;> rfl

end Markup

namespace Node

variable {n around : Node} {us vs : List Node}

/-- Without the elements inside, a node has its own text only. -/
theorem ownText_eq (h : around.children = us ++ n :: vs) (hn : n.isElement = true)
    (hnone : hasElements ((us ++ vs).map bare) = false) :
    around.ownText = textContentAll (us ++ vs) := by
  have hleft : ∀ m ∈ us ++ vs, (!isElement m) = true := by
    simpa [hasElements, isElement, content, or_imp, forall_and] using hnone
  rw [ownText, h, List.filter_append, List.filter_cons_of_neg (by simpa using hn),
    ← List.filter_append, List.filter_eq_self.2 hleft]

end Node

/-! ## Components that are cut out -/

/-- A place of a component below another one. -/
structure Component.Slit where
  /-- What stands around the component next around. -/
  around : Context Entry
  /-- The component next around, without those inside. -/
  entry : Entry
  /-- The components before the place. -/
  left : List Component
  /-- The components after the place. -/
  right : List Component

namespace Component.Slit

/-- The components with some at the place. -/
def fill (k : Slit) (c : Component) : List Component :=
  k.around.plug [.node k.entry (k.left ++ c :: k.right)]

/-- The components with none at the place, where the component next around has a text. -/
def close (k : Slit) (text : String) : List Component :=
  k.around.plug [.node (k.entry.showing (k.left ++ k.right) text) (k.left ++ k.right)]

end Component.Slit

namespace Edit

open Drawing Document

variable {p : Drawing} {text w id : String} {c : Component}

/-! ## What cannot be removed -/

private theorem remove_eq_isRoot_iff_of_locate? (hparse : parse text = .ok p) {n : Node}
    (hlocate : p.locate? id = some n) :
    remove text id = .error (.isRoot id) ↔ p.document.parentBelowRoot? n = none := by
  have hload : load text = .ok p := load_eq_ok_iff.2 hparse
  cases hparent : p.document.parentBelowRoot? n with
  | none => simp [remove, resolveChild, resolve, hload, hlocate, hparent, bind, Except.bind, pure,
      Except.pure, throw, throwThe, MonadExceptOf.throw]
  | some parent =>
    have hfinish : remove text id = finish (p.document.detach n.handle) := by
      simp [remove, resolveChild, resolve, hload, hlocate, hparent, bind, Except.bind, pure,
        Except.pure]
    rw [hfinish, finish]
    split <;> simp

/-- **An element has no parent to be taken from exactly if it is the root.** -/
theorem remove_eq_isRoot_iff (hparse : parse text = .ok p)
    (hdistinct : ((all p.components).map Component.id).Nodup)
    (hfind : find? p.components id = some c) :
    remove text id = .error (.isRoot id) ↔ p.components = [c] := by
  obtain ⟨root, n, hroot, hn, hid, hlocate⟩ := exists_locate?_of_find? hparse hfind
  obtain ⟨x, hx, hxid⟩ := exists_components_of_root? hparse hroot
  rw [remove_eq_isRoot_iff_of_locate? hparse hlocate]
  constructor
  · intro hnone
    rcases Node.eq_or_exists_mem_children hn with rfl | ⟨around, haround, hchild⟩
    · have hmem : x ∈ all p.components := by
        rw [all_eq, hx]
        exact mem_subtreesAll_of_mem (List.mem_singleton_self x)
      have hc : c ∈ all p.components := all_eq p.components ▸ mem_of_find? hfind
      rw [hx, List.inj_on_of_nodup_map hdistinct hmem hc (Option.some.inj (hxid.symm.trans hid))]
    · cases (parentBelowRoot?_of_mem_children (loose_of_parse hparse)
        (nodup_handlesAll_of_parse hparse) hroot haround hchild).symm.trans hnone
  · intro hc
    obtain rfl := List.singleton_inj.1 (hx.symm.trans hc)
    have hself := Node.mem_elements_self (Node.isElement_of_isRoot (isRoot_of_root? hroot))
    rw [ids_of_parse hparse hroot] at hdistinct
    obtain rfl := List.inj_on_of_nodup_map hdistinct hn hself (by rw [hid, hxid])
    rw [parentBelowRoot?, hroot, Option.any_some, beq_self_eq_true, if_pos rfl]

/-! ## What is left -/

/-- Taking a child out of an element takes it out of the site of the element. -/
private theorem exists_markup_detach (hparse : parse text = .ok p) (hclean : p.IsClean) {e : Element}
    {s : Site e} {n parent : Node} (hmem : parent ∈ subtreesAll p.document.topLevel)
    (hof : s.IsOf p.document parent) (hchild : n ∈ Tree.children parent)
    (hparent : p.document.parentBelowRoot? n = some parent) :
    ∃ us vs, Tree.children parent = us ++ n :: vs ∧ (p.document.detach n.handle).IsSound ∧
      (p.document.detach n.handle).markup = s.fill ((us ++ vs).map Node.bare) := by
  have hnodup := nodup_handlesAll_of_parse hparse
  have hattached : p.document.isAttached n.handle = true := by
    rw [Document.isAttached, Document.parent?_of_parentBelowRoot? hparent]
    rfl
  have hd : (p.document.detach n.handle).topLevel
      = Node.modifyAll parent.handle (Node.prune n.handle) p.document.topLevel := by
    rw [detach, if_pos hattached]
    exact Node.pruneAll_eq_modifyAll hnodup hmem hchild
  have hinside : (Node.handlesAll (Tree.children parent)).Nodup := by
    have hhandles := Node.nodup_handles_of_mem_subtreesAll hnodup hmem
    obtain ⟨slot, ns⟩ := parent
    rw [Node.handles_node] at hhandles
    exact hhandles.of_cons
  obtain ⟨us, vs, hchildren, hprune, -⟩ := Node.exists_pruneAll_eq hinside hchild
  refine ⟨us, vs, hchildren, (isSound_of_parse hparse hclean.isNamed).of_modifyAll hd
    (fun _ _ _ _ ↦ Node.isRead_prune) (fun _ ↦ Node.forall_preorder_prune)
    (fun m ↦ by cases m; rfl), ?_⟩
  rw [Document.markup, hd]
  refine hof.modify ?_
  obtain ⟨slot, ns⟩ := parent
  rw [Node.prune, Node.bare_node]
  exact congrArg₂ Tree.node hof.content (congrArg _ hprune)

/-- **Removing cuts out one component** and what is inside it. All else stays as it was, but that the
component around shows its own text if nothing is left inside. -/
theorem exists_slit_of_remove (hparse : parse text = .ok p) (hclean : p.IsClean)
    (hdistinct : ((all p.components).map Component.id).Nodup)
    (hfind : find? p.components id = some c) :
    (remove text id = .error (.isRoot id) ↔ p.components = [c]) ∧
    ∀ w, remove text id = .ok w → ∃ (k : Slit) (n : Node) (q : Drawing), parse w = .ok q ∧
      p.components = k.fill c ∧ c.parent = some k.entry.id ∧ p.locate? k.entry.id = some n ∧
      q.components = k.close n.ownText := by
  refine ⟨remove_eq_isRoot_iff hparse hdistinct hfind, fun w hedit ↦ ?_⟩
  obtain ⟨p', n, parent, hp', hlocate, hparent, hfinish⟩ := remove_eq_ok_iff.1 hedit
  cases hp'.symm.trans hparse
  obtain ⟨⟨q, hq⟩, rfl⟩ := finish_eq_ok_iff.1 hfinish
  obtain ⟨e, s, c', root, hroot, hin, hof, hchild, helement, hid, hfind', hview⟩ :=
    exists_view_of_parentBelowRoot? hparse hdistinct hlocate hparent
  cases hfind.symm.trans hfind'
  obtain ⟨us, vs, hchildren, hsound, hmarkup⟩ := exists_markup_detach hparse hclean
    (mem_topLevel_of_mem_root hroot hin) hof hchild hparent
  have hkept : ∀ a ∈ preorderAll ((us ++ vs).map Node.bare),
      a ∈ preorderAll ((Tree.children parent).map Node.bare) := by
    rw [hchildren]
    simp only [List.map_append, List.map_cons, preorderAll_append, preorderAll, List.mem_append]
    tauto
  have hafter := markup_of_parse_text hparse hclean hof.markup hsound hmarkup hkept hq
  obtain ⟨own, hown⟩ : ∃ own, e.id? = some own := Option.isSome_iff_exists.1
    ((s.hasIds_of_parse hparse hof.markup).1 e (Context.mem_preorderAll_plug.2 (.inr List.mem_cons_self)))
  refine ⟨⟨s.around, framed s.scope e, viewAll (some own) (us.map Node.bare),
    viewAll (some own) (vs.map Node.bare)⟩, parent, q, hq, ?_, ?_, ?_, ?_⟩
  · have helements : hasElements ((Tree.children parent).map Node.bare) = true := by
      rw [Node.hasElements_map_bare, hchildren]
      simp [helement]
    rw [components_of_parse hparse, hof.markup, s.components_fill, view,
      entryOf_of_hasElements helements, hchildren, List.map_append, List.map_cons, viewAll_append,
      viewAll, hview, hown]
    rfl
  · obtain ⟨e', he'⟩ := Node.exists_content_of_isElement helement
    rw [Node.view_bare_of_content he', List.singleton_inj] at hview
    rw [← hview]
    rfl
  · refine locate?_of_mem hparse hdistinct hroot hin ?_
    rw [Node.id?_of_content hof.content, hown]
    exact congrArg some (congrArg (Option.getD · "") hown).symm
  · rw [components_of_parse hq, hafter, components_settledAll, s.components_fill, view,
      entryOf_eq_showing s.scope e (some own), hown, Option.getD_some, Slit.close, ← viewAll_append,
      ← List.map_append]
    refine congrArg (fun a ↦ s.around.plug [Tree.node a _]) (Entry.showing_congr fun hnone ↦ ?_)
    have hempty := isEmpty_viewAll (some own) ((us ++ vs).map Node.bare)
    rw [hnone, List.isEmpty_nil, eq_comm, Bool.not_eq_true'] at hempty
    rw [Node.ownText_eq hchildren helement hempty, Node.textOfAll_map_bare]

set_option maxRecDepth 4000 in
/-- The only shape in a group is removed, and the group shows its text; the shape next to the group
keeps the id that it has been given. -/
theorem exists_slit_of_remove_of_group :
    ∃ p c w k n q, parse "<svg><g id=\"a\">t<rect/></g><rect/></svg>" = .ok p ∧ p.IsClean ∧
      ((all p.components).map Component.id).Nodup ∧ find? p.components "a-rect-0" = some c ∧
      p.components ≠ [c] ∧
      remove "<svg><g id=\"a\">t<rect/></g><rect/></svg>" "a-rect-0" = .ok w ∧ parse w = .ok q ∧
      p.components = Slit.fill k c ∧ c.parent = some k.entry.id ∧ p.locate? k.entry.id = some n ∧
      q.components = k.close n.ownText := by
  have hread : Markup.read "<svg><g id=\"a\">t<rect/></g><rect/></svg>"
      = .ok [.node (.element ⟨"svg", []⟩) [.node (.element ⟨"g", [("id", "a")]⟩)
        [.node (.text "t") [], .node (.element ⟨"rect", []⟩) []],
        .node (.element ⟨"rect", []⟩) []]] := by cbv
  have hedit : remove "<svg><g id=\"a\">t<rect/></g><rect/></svg>" "a-rect-0"
      = .ok "<svg id=\"svg-0\"><g id=\"a\">t</g><rect id=\"rect-0\"/></svg>" := by cbv
  have hparse := parse_of_read (by cbv) hread
  generalize hp : ofDocument _ = p at hparse
  have hclean : p.IsClean := by
    rw [← hp]
    exact ⟨by decide +kernel, by decide +kernel⟩
  have hids : (all p.components).map Component.id = ["svg-0", "a", "a-rect-0", "rect-0"] := by
    rw [← hp, all_eq]
    decide +kernel
  have hdistinct : ((all p.components).map Component.id).Nodup := by
    rw [hids]
    decide
  have hmem : "a-rect-0" ∈ (all p.components).map Component.id := by
    rw [hids]
    decide
  obtain ⟨c, hfind, -⟩ := exists_find?_of_mem hmem
  obtain ⟨hroot, hremoved⟩ := exists_slit_of_remove hparse hclean hdistinct hfind
  obtain ⟨k, n, q, hcut⟩ := hremoved _ hedit
  refine ⟨p, c, _, k, n, q, hparse, hclean, hdistinct, hfind, fun hc ↦ ?_, hedit, hcut⟩
  cases hedit.symm.trans (hroot.2 hc)

/-- The misread markup without its last element. -/
def shortened : String :=
  "<!DOCTYPE svg [<!ENTITY a \"<\">]><?p >><svg id=\"svg-0\">" ++
    "<a\" b=\"&quot;\" c'=\"1\" id=\"t\"/><!--=\"'--><rect id=\"k\"/>" ++
    "<!--'=\"1\"/><u id=\"u\"/>--></svg><?q?><svg/>"

set_option maxRecDepth 4000 in
/-- **Where names are no names of XML, another component goes than the one that is removed**: its
element becomes a part of a tag, and one that has the id of the removed one comes out of a comment. -/
theorem exists_ids_ne_of_misread_rest :
    ∃ p c q, parse misread = .ok p ∧ (∀ c ∈ preorderAll p.document.markup, c.IsUnbroken) ∧
      ((all p.components).map Component.id).Nodup ∧
      (∀ e, .element e ∈ preorderAll p.document.markup → textKey ∉ e.keys) ∧
      find? p.components "u" = some c ∧ c.children = [] ∧
      remove misread "u" = .ok shortened ∧ parse shortened = .ok q ∧
      (all p.components).map Component.id = ["svg-0", "t", "k", "u"] ∧
      (all q.components).map Component.id = ["svg-0", "t", "u"] := by
  have hread : Markup.read shortened = .ok [.node (.doctype "svg [<!ENTITY a \"<\">]><?p >") [],
      .node (.element ⟨"svg", [("id", "svg-0")]⟩)
        [.node (.element ⟨"a\"", [("b", "\""), ("c'", "1"), ("id", "t"),
            ("/><!--", "'--><rect id="), ("k\"/><!--'", "1")]⟩) [],
          .node (.element ⟨"u", [("id", "u")]⟩) [], .node (.text "-->") []],
      .node (.instruction "q") [], .node (.element ⟨"svg", []⟩) []] := by cbv
  have hparse' := parse_of_read (by cbv) hread
  obtain ⟨c, hfind, hchildren⟩ :
      ∃ c, find? misreadDrawing.components "u" = some c ∧ c.children = [] := ⟨_, by cbv, rfl⟩
  have hlocate : misreadDrawing.locate? "u" = some (.node ⟨6, .element ⟨"u", [("id", "u")]⟩⟩ []) := by
    decide +kernel
  have hbelow : (misreadDrawing.document.parentBelowRoot?
      (.node ⟨6, .element ⟨"u", [("id", "u")]⟩⟩ [])).isSome = true := by decide +kernel
  have htext : (misreadDrawing.document.detach 6).text = shortened := by decide +kernel
  obtain ⟨parent, hparent⟩ := Option.isSome_iff_exists.1 hbelow
  have hedit : remove misread "u" = .ok shortened := remove_eq_ok_iff.2 ⟨_, _, parent, parse_misread,
    hlocate, hparent, finish_eq_ok_iff.2 ⟨⟨_, htext.symm ▸ hparse'⟩, htext.symm⟩⟩
  refine ⟨misreadDrawing, c, _, parse_misread, isUnbroken_misread, nodup_ids_misread,
    fun _ he ↦ textKey_notMem_misread he, hfind, hchildren, hedit, hparse', ids_misread, ?_⟩
  rw [all_eq]
  decide +kernel

end Edit

end SvgWorkbench
