import SvgWorkbench.Proofs.Drawing.Altered
import SvgWorkbench.Proofs.Drawing.Context

/-!
# Markup around its root

The components of a drawing come from the root alone, and an edit of an element changes the markup in
the root alone. So markup is taken as its root and what stands around it. Changing elements of the
root and settling may be done in either order, and the change of the element of one node is the
change of the elements of its id, where no other element of the root has it.
-/

namespace SvgWorkbench

open SvgWorkbench.Tree Markup

/-! ## Settling and changing elements -/

@[simp] theorem Content.text?_mapElement (f : Element → Element) (c : Content) :
    (c.mapElement f).text? = c.text? := by cases c <;> rfl

@[simp] theorem Content.isElement_mapElement (f : Element → Element) (c : Content) :
    (c.mapElement f).isElement = c.isElement := by cases c <;> rfl

namespace Markup

private theorem mapAll_append_textNodes (f : Element → Element) (s : String)
    (ts : List (Tree Content)) : mapAll (Content.mapElement f) (textNodes s ++ ts)
      = textNodes s ++ mapAll (Content.mapElement f) ts := by
  rw [textNodes]
  split <;> rfl

mutual

theorem settled_map_mapElement (f : Element → Element) (t : Tree Content) :
    settled (t.map (Content.mapElement f)) = (settled t).map (Content.mapElement f) := by
  match t with
  | .node (.element e) ts =>
    show Tree.node _ (settledAll "" (mapAll _ ts)) = Tree.node _ (mapAll _ (settledAll "" ts))
    rw [settledAll_mapAll_mapElement f "" ts]
    rfl
  | .node (.text s) ts => rfl
  | .node (.comment s) ts => rfl
  | .node (.instruction s) ts => rfl
  | .node (.doctype s) ts => rfl

/-- Elements may be changed before settling or after it. -/
theorem settledAll_mapAll_mapElement (f : Element → Element) (before : String)
    (ts : List (Tree Content)) : settledAll before (mapAll (Content.mapElement f) ts)
      = mapAll (Content.mapElement f) (settledAll before ts) := by
  match ts with
  | [] =>
    have happend := mapAll_append_textNodes f before []
    rw [List.append_nil, mapAll, List.append_nil] at happend
    rw [mapAll, settledAll_nil, happend]
  | .node c us :: ts =>
    cases hc : c.text? with
    | some s =>
      obtain rfl := Content.eq_text_of_text? hc
      rw [settledAll_text, ← settledAll_mapAll_mapElement f (before ++ s) ts]
      exact settledAll_text before s _ _
    | none =>
      rw [settledAll_cons hc, mapAll, Tree.map,
        settledAll_cons ((Content.text?_mapElement f c).trans hc),
        settledAll_mapAll_mapElement f "" ts, ← Tree.map, settled_map_mapElement f (.node c us),
        mapAll_append_textNodes, mapAll]

end

end Markup

/-! ## Stages -/

/-- Some markup: its root and what stands around it. -/
structure Stage where
  /-- What stands around the root. -/
  outer : Context Content
  /-- The root. -/
  root : Tree Content

namespace Stage

variable {s : Stage} {f g : Element → Element}

/-- The markup of a stage. -/
def markup (s : Stage) : Markup := s.outer.plug [s.root]

/-- Whether the root of a stage is the root of its markup. -/
structure HasRoot (s : Stage) : Prop where
  /-- The place is that of the root. -/
  place : IsRootPlace s.outer
  /-- What stands there can be the root. -/
  isRoot : isRoot s.root.label = true

/-- The stage of settled markup. -/
def settled (s : Stage) : Stage := ⟨settledContext s.outer, Markup.settled s.root⟩

/-- The stage with the elements of its root changed. -/
def alter (f : Element → Element) (s : Stage) : Stage :=
  ⟨s.outer, s.root.map (Content.mapElement f)⟩

/-- The elements of the root. -/
def elements (s : Stage) : List Element := (elementsOf s.root).filterMap fun t ↦ t.label.element?

theorem alter_alter (f g : Element → Element) (s : Stage) :
    (s.alter f).alter g = s.alter (g ∘ f) := by
  have hcomp : Content.mapElement g ∘ Content.mapElement f = Content.mapElement (g ∘ f) := by
    funext c
    cases c <;> rfl
  rw [alter, alter, alter, Tree.map_map, hcomp]

/-- Elements may be changed before settling or after it. -/
theorem settled_alter (f : Element → Element) (s : Stage) :
    (s.alter f).settled = s.settled.alter f := by
  rw [settled, alter, settled_map_mapElement, settled, alter]

@[simp] theorem elements_settled (s : Stage) : s.settled.elements = s.elements := by
  rw [elements, settled, elementsOf_settled, List.filterMap_map, elements]
  exact List.filterMap_congr fun t _ ↦ congrArg Content.element? (label_settled t)

@[simp] theorem elements_alter (f : Element → Element) (s : Stage) :
    (s.alter f).elements = s.elements.map f := by
  rw [elements, alter, Markup.elementsOf_map (Content.isElement_mapElement f), List.filterMap_map,
    elements, List.map_filterMap]
  refine List.filterMap_congr fun t _ ↦ ?_
  obtain ⟨c, ts⟩ := t
  cases c <;> rfl

theorem HasRoot.alter (h : s.HasRoot) (hname : ∀ e, (f e).name = e.name) :
    (s.alter f).HasRoot := by
  refine ⟨h.place, ?_⟩
  have hroot := h.isRoot
  obtain ⟨outer, c, ts⟩ := s
  exact (Content.retouched_mapElement hname c).isRoot_eq.trans hroot

theorem HasRoot.settled (h : s.HasRoot) : s.settled.HasRoot :=
  ⟨h.place.settled, (congrArg Markup.isRoot (label_settled s.root)).trans h.isRoot⟩

/-- Settling markup settles its root and what stands around it. -/
theorem HasRoot.markup_settled (h : s.HasRoot) : settledAll "" s.markup = s.settled.markup := by
  have hroot := h.isRoot
  obtain ⟨outer, c, ts⟩ := s
  cases c with
  | element e => exact settledAll_plug h.place.path e ts
  | _ => exact absurd hroot Bool.false_ne_true

end Stage

/-! ## Stages of documents -/

namespace Node

mutual

/-- In what has been read every slot that holds an element is that of an element of the tree: nothing
stands below other nodes. -/
theorem exists_mem_elements {top : Bool} {t : Node} (ht : IsRead top t.bare) {a : Slot}
    (ha : a ∈ t.preorder) (helement : a.content.isElement = true) :
    ∃ n ∈ t.elements, Tree.label n = a := by
  match t with
  | .node ⟨h, c⟩ ts =>
    rw [bare_node] at ht
    rcases List.mem_cons.1 ha with rfl | hbelow
    · exact ⟨_, mem_elements_self helement, rfl⟩
    rcases c.eq_element_or with ⟨e, rfl⟩ | hc
    · obtain ⟨n, hn, hlabel⟩ := exists_mem_elementsAll ht.2 hbelow helement
      exact ⟨n, List.mem_cons_of_mem _ hn, hlabel⟩
    · obtain rfl := List.map_eq_nil_iff.1 (ht.eq_nil hc)
      exact absurd hbelow List.not_mem_nil

theorem exists_mem_elementsAll {top : Bool} {ts : List Node} (hts : AreRead top (ts.map bare))
    {a : Slot} (ha : a ∈ preorderAll ts) (helement : a.content.isElement = true) :
    ∃ n ∈ elementsAll ts, Tree.label n = a := by
  match ts with
  | [] => exact absurd ha List.not_mem_nil
  | t :: ts =>
    rcases List.mem_append.1 ha with ha | ha
    · obtain ⟨n, hn, hlabel⟩ := exists_mem_elements hts.1 ha helement
      exact ⟨n, List.mem_append_left _ hn, hlabel⟩
    · obtain ⟨n, hn, hlabel⟩ := exists_mem_elementsAll hts.2 ha helement
      exact ⟨n, List.mem_append_right _ hn, hlabel⟩

end

end Node

namespace Document

variable {d : Document} {s : Stage} {root n : Node} {f g : Element → Element}

/-- The markup of a document with a root is that of a stage. -/
theorem exists_stage (hroot : d.root? = some root) :
    ∃ s : Stage, s.HasRoot ∧ d.markup = s.markup := by
  obtain ⟨c, htop, hplace⟩ := Node.exists_plug_of_find?_elementsAll hroot
  refine ⟨⟨c.map Slot.content, root.bare⟩, ⟨hplace, ?_⟩, ?_⟩
  · show Markup.isRoot root.bare.label = true
    rw [Node.label_bare]
    exact Drawing.isRoot_of_root? hroot
  · rw [markup, htop, Node.map_bare_plug]
    rfl

/-- The root of a document stands where its stage has it. -/
theorem exists_topLevel_of_stage (h : s.HasRoot) (hmarkup : d.markup = s.markup) :
    ∃ (c : Context Slot) (root : Node), d.topLevel = c.plug [root] ∧ c.map Slot.content = s.outer ∧
      root.bare = s.root ∧ d.root? = some root := by
  obtain ⟨c, ns, htop, hc, hns⟩ := Node.exists_plug_of_map_bare hmarkup
  obtain ⟨root, rfl, hroot⟩ := List.map_eq_singleton_iff.1 hns
  refine ⟨c, root, htop, hc, hroot, Document.root?_of_topLevel htop (hc ▸ h.place) ?_⟩
  have hisRoot := h.isRoot
  rwa [← hroot, Node.label_bare] at hisRoot

/-- The elements of a stage are those of the root. -/
theorem elements_of_stage (h : s.HasRoot) (hmarkup : d.markup = s.markup)
    (hroot : d.root? = some root) : s.elements = root.elements.filterMap Node.element? := by
  obtain ⟨c, root', -, -, hbare, hroot'⟩ := exists_topLevel_of_stage h hmarkup
  obtain rfl := Option.some.inj (hroot.symm.trans hroot')
  rw [Stage.elements, ← hbare, Node.elementsOf_bare, List.filterMap_map]
  refine List.filterMap_congr fun n _ ↦ ?_
  rw [Function.comp_apply, Node.label_bare]
  rfl

/-- **Changing the element of one node is changing the elements of its root**, by a change that is
that one for this node and none for the others. -/
theorem markup_modifyElement_of_stage (h : s.HasRoot) (hmarkup : d.markup = s.markup)
    (hnodup : (Node.handlesAll d.topLevel).Nodup) {top : Bool} (hread : AreRead top d.markup)
    (hroot : d.root? = some root)
    (hg : ∀ m ∈ root.elements, ∀ e, m.content = .element e →
      g e = if m.handle = n.handle then f e else e)
    (hn : n ∈ root.elements) : (d.modifyElement n.handle f).markup = (s.alter g).markup := by
  obtain ⟨c, root', htop, hc, hbare, hroot'⟩ := exists_topLevel_of_stage h hmarkup
  obtain rfl := Option.some.inj (hroot.symm.trans hroot')
  obtain ⟨top', hinside⟩ := areRead_of_plug h.place.path (hmarkup ▸ hread)
  -- a handle of the root stands nowhere around it
  have houter : c.map (Node.alter [n.handle] f) = c := by
    refine Context.map_of_forall fun a ha ↦ if_neg fun heq ↦ ?_
    have hdisjoint := (Node.perm_handlesAll_plug c [root]).nodup (htop ▸ hnodup)
    refine (List.nodup_append.1 hdisjoint).2.2 a.handle (List.mem_map_of_mem ha) n.handle ?_
      (List.mem_singleton.1 heq)
    rw [Node.handlesAll_cons, Node.handlesAll_nil, List.append_nil]
    exact Node.handle_mem_handles (Node.mem_subtrees_of_mem_elements hn)
  have hinner : root.map (Slot.content ∘ Node.alter [n.handle] f)
      = s.root.map (Content.mapElement g) := by
    rw [← hbare, Node.bare, Tree.map_map]
    refine Tree.map_congr fun a ha ↦ ?_
    rw [Function.comp_apply, Function.comp_apply, Node.content_alter]
    cases hcontent : a.content with
    | element e =>
      obtain ⟨m, hm, rfl⟩ := Node.exists_mem_elements (hbare ▸ hinside.1) ha
        (by rw [hcontent]; rfl)
      rw [Content.mapElement, Content.mapElement, hg m hm e hcontent, ← apply_ite Content.element]
      simp only [List.mem_singleton]
      rfl
    | _ => exact ite_self _
  have htop' : (d.modifyElement n.handle f).topLevel
      = mapAll (Node.alter [n.handle] f) d.topLevel := Node.modifyAll_mapElement hnodup
  rw [markup, htop', htop, Context.mapAll_plug, houter, Node.map_bare_plug, hc, Stage.markup,
    Stage.alter, ← hinner, mapAll, mapAll, List.map_singleton, Node.bare, Tree.map_map]

end Document

end SvgWorkbench
