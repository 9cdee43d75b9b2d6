import SvgWorkbench.Proofs.Drawing.Site
import SvgWorkbench.Proofs.Edit.Added
import SvgWorkbench.Proofs.Edit.Copied

/-!
# Copies are put in as leaves

A copy is put in as the last child of an element that is there. When the text is read again it gets
an id that no component has had, and nothing else is new: the markup is the one there was with one
node more, and its components are those there were with one more, which has nothing inside.
-/

namespace SvgWorkbench

open Xml SvgWorkbench.Tree Markup Component

namespace Edit

open Drawing Document

variable {p : Drawing} {text w : String} {root n : Node}

/-- The one child that is new has got an id. -/
private theorem exists_eq_concat_namedNode {copy : Copied} {us vs : List (Tree Content)}
    (h : RelAll (IdGiven fun _ ↦ True)
      (settledAll "" (us ++ [.node (.element copy.element.spaced) copy.texts])) vs)
    (hus : ∀ e, .element e ∈ preorderAll us → e.id?.isSome = true) (hvs : HaveIds vs) :
    ∃ id, vs = settledAll "" (us ++ [copy.namedNode id]) ∧
      (copy.element.spaced.set "id" id).id? = some id := by
  rw [settledAll_concat_element, settled] at h
  obtain ⟨ws, ws', rfl, hws, hws'⟩ := h.exists_of_append
  obtain rfl := eq_of_relAll_idGiven hws (isSome_id?_settledAll hus)
  have hhas := (haveIds_append.1 hvs).2
  match ws', hws' with
  | [.node _ ts], ⟨⟨.same _, _⟩, _⟩ =>
    -- every element has an id by now
    rw [HaveIds, HasIds, copy.id?_spaced_element] at hhas
    cases hhas.1.1
  | [.node _ ts], ⟨⟨@IdGiven.given _ _ new _ _, hts⟩, _⟩ =>
    have htexts : ∀ e, .element e ∈ preorderAll copy.texts → e.id?.isSome = true := by
      rw [Copied.texts]
      cases copy.text? <;> simp [preorderAll, preorder]
    obtain rfl := eq_of_relAll_idGiven hts (isSome_id?_settledAll htexts)
    refine ⟨new, by rw [Copied.namedNode, settledAll_concat_element, settled], ?_⟩
    obtain ⟨id, hid⟩ := Option.isSome_iff_exists.1 hhas.1.1
    rw [hid]
    rw [Element.id?, Element.get?_set_self, Option.filter_eq_some_iff] at hid
    exact hid.1.symm

/-- Whether a text is a drawing with a copy put in at the end of an element, and is read as another
one in which the copy has an id. -/
structure PutsCopy (p : Drawing) (w : String) (n : Node) (copy : Copied) {e : Element} (s : Site e)
    (q : Drawing) (id : String) : Prop where
  /-- The copy is put into an element. -/
  content : n.content = .element e
  /-- What was there. -/
  before : p.document.markup = s.fill (n.children.map Node.bare)
  /-- What is written. -/
  written : ∃ d : Document, d.IsSound ∧ w = d.text ∧ d.markup
    = s.fill (n.children.map Node.bare ++ [.node (.element copy.element) copy.texts])
  /-- The text can be read. -/
  read : parse w = .ok q
  /-- What is read. -/
  after : q.document.markup
    = settledAll "" (s.fill (n.children.map Node.bare ++ [copy.namedNode id]))
  /-- The copy has the id. -/
  id : (copy.element.spaced.set "id" id).id? = some id

/-- What is written after a copy has been put in is the site of the element with a child more, which
has no id yet. -/
theorem exists_written_insertCopy (hparse : parse text = .ok p)
    (hnamed : ∀ c ∈ preorderAll p.document.markup, c.IsNamed)
    (hroot : p.document.root? = some root) (hn : n ∈ root.elements) {copy : Copied}
    (hcopy : copy.IsOrdinary fun k ↦ IsName k.toList) :
    ∃ (e : Element) (s : Site e), n.content = .element e ∧
      p.document.markup = s.fill (n.children.map Node.bare) ∧
      (p.document.insertCopy n.handle copy).IsSound ∧
      (p.document.insertCopy n.handle copy).markup
        = s.fill (n.children.map Node.bare ++ [.node (.element copy.element) copy.texts]) := by
  have hnodup := nodup_handlesAll_of_parse hparse
  have hfresh := next_notMem_of_parse hparse
  have hin := mem_topLevel_of_mem_root hroot hn
  have helement := Node.isElement_of_mem_elements hn
  obtain ⟨e, he⟩ := Node.exists_content_of_isElement helement
  obtain ⟨s, hsite⟩ := Document.exists_isOf hnodup hroot hn he
  refine ⟨e, s, he, hsite.markup,
    (isSound_of_parse hparse hnamed).insertCopy hfresh hnodup hin helement hcopy, ?_⟩
  rw [Document.markup, topLevel_insertCopy hfresh]
  refine hsite.modify ?_
  obtain ⟨⟨k, c⟩, ts⟩ := n
  obtain rfl : c = .element e := he
  rw [Node.addChild, label_node, children_node, Node.bare_node, List.map_append,
    List.map_singleton, Copied.bare_node]

/-- **What is read after a copy has been put in** is the markup there was, with the copy. -/
theorem exists_putsCopy (hparse : parse text = .ok p) (hclean : p.IsClean)
    (hroot : p.document.root? = some root) (hn : n ∈ root.elements) {copy : Copied}
    (hcopy : copy.IsOrdinary fun k ↦ IsName k.toList)
    (hfinish : finish (p.document.insertCopy n.handle copy) = .ok w) :
    ∃ (e : Element) (s : Site e) (q : Drawing) (id : String), PutsCopy p w n copy s q id := by
  obtain ⟨⟨q, hq⟩, rfl⟩ := finish_eq_ok_iff.1 hfinish
  obtain ⟨e, s, he, hmarkup, hsound, hafter⟩ :=
    exists_written_insertCopy hparse hclean.isNamed hroot hn hcopy
  obtain ⟨hids, hhave⟩ := s.hasIds_of_parse hparse hmarkup
  have hread : Markup.read (p.document.insertCopy n.handle copy).text = .ok (settledAll "" (s.fill
      (n.children.map Node.bare ++ [.node (.element copy.element.spaced) copy.texts]))) := by
    have hunbroken := hclean.isUnbroken
    rw [hmarkup] at hunbroken
    rw [s.forall_preorderAll_fill] at hunbroken
    have htexts : mapAll Content.spaced copy.texts = copy.texts := by
      rw [Copied.texts]
      cases copy.text? <;> rfl
    rw [hsound.read_text, hafter, s.mapAll_fill fun a ha ↦ (hunbroken.1 a ha).spaced_eq,
      mapAll_eq_map, List.map_append, ← mapAll_eq_map, mapAll_spaced hunbroken.2,
      List.map_singleton, Tree.map, htexts, Content.spaced_element]
  obtain ⟨-, m, hm, rfl⟩ := exists_markup_of_parse hq
  obtain rfl := Except.ok.inj (hm.symm.trans hread)
  obtain ⟨vs, hvs, hgiven, hhave'⟩ := hids.settled.exists_markup_ofDocument
    (settledAll "" (n.children.map Node.bare ++ [.node (.element copy.element.spaced) copy.texts]))
  obtain ⟨id, rfl, hid⟩ := exists_eq_concat_namedNode hgiven hhave hhave'
  refine ⟨e, s, _, id, he, hmarkup, ⟨_, hsound, rfl, hafter⟩, hq, ?_, hid⟩
  rw [s.settledAll_fill, hvs, s.settledAll_fill]

end Edit

/-! ## One component more -/

/-- Whether components are others with one more, which shows a copy and is the last one in a
component that was there. -/
structure Copied.IsPutIn (copy : Copied) (before after : List Component) (c x : Component) :
    Prop where
  /-- All else is as it was, but that the component around does not show its text any more. -/
  appended : ∃ around : Context Entry, before = around.plug [c] ∧
    after = around.plug [.node
      { c.label with attributes := c.attributes.filter fun key _ ↦ key != textKey }
      (c.children ++ [x])]
  /-- The new component has an id that none had. -/
  fresh : x.id ∉ (all before).map Component.id
  /-- It belongs to the component around. -/
  parent : x.parent = some c.id
  /-- It shows the copy. -/
  shown : copy.IsShown x

/-- A component that is put in adds its id to those there were. -/
private theorem perm_ids_plug (around : Context Entry) (cs : List Component) (a : Entry)
    {k l : Entry} (hid : l.id = k.id) :
    ((all (around.plug [.node l (cs ++ [.node a []])])).map Component.id).Perm
      (a.id :: (all (around.plug [.node k cs])).map Component.id) := by
  rw [map_id_all, map_id_all]
  refine ((Context.perm_preorderAll_plug _ _).map Entry.id).trans
    (.trans ?_ (((Context.perm_preorderAll_plug _ _).map Entry.id).symm.cons a.id))
  simp only [preorderAll, preorder, preorderAll_eq_flatMap, List.flatMap_append, List.flatMap_cons,
    List.flatMap_nil, List.append_nil, List.map_append, List.map_cons, List.map_nil, hid]
  rw [← List.cons_append, ← List.append_assoc]
  exact List.perm_append_singleton _ _

/-- The ids are those there were and the one of the new component. -/
theorem Copied.IsPutIn.perm_ids {copy : Copied} {before after : List Component} {c x : Component}
    (h : copy.IsPutIn before after c x) :
    ((all after).map Component.id).Perm (x.id :: (all before).map Component.id) := by
  obtain ⟨around, rfl, rfl⟩ := h.appended
  obtain ⟨a, cs⟩ := x
  obtain ⟨b, bs⟩ := c
  obtain rfl : cs = [] := h.shown.leaf
  exact perm_ids_plug around bs a (k := b) rfl

namespace Markup

variable {e : Element} {ts us : List (Tree Content)} {copy : Copied} {id : String}

/-- The component of a copy. -/
theorem viewAll_namedNode (copy : Copied) (id : String) (parent : Option String) :
    viewAll parent [copy.namedNode id]
      = [.node (entryOf parent (copy.element.spaced.set "id" id) copy.texts) []] := by
  rw [viewAll, viewAll, Copied.namedNode, view, viewAll_eq_nil copy.hasElements_texts,
    List.append_nil]

/-- A copy at the end of a site has the only id that is new. -/
theorem Site.perm_ids_fill (s : Site e) (us : List (Tree Content))
    (hid : (copy.element.spaced.set "id" id).id? = some id) :
    ((all (components (s.fill (us ++ [copy.namedNode id])))).map Component.id).Perm
      (id :: (all (components (s.fill us))).map Component.id) := by
  have hperm := perm_ids_plug s.around (viewAll (some (e.id?.getD "")) us)
    (entryOf (some (e.id?.getD "")) (copy.element.spaced.set "id" id) copy.texts)
    (k := entryOf s.scope e us) (l := entryOf s.scope e (us ++ [copy.namedNode id])) rfl
  have hx :
      (entryOf (some (e.id?.getD "")) (copy.element.spaced.set "id" id) copy.texts).id = id := by
    rw [entryOf, hid, Option.getD_some]
  rw [hx] at hperm
  rwa [s.components_fill, s.components_fill, view, view, viewAll_append, viewAll_namedNode]

/-- An element that gets elements inside shows its text no more. -/
theorem filter_attributes_entryOf (hkey : textKey ∉ e.keys) (hus : hasElements us = true)
    (ts : List (Tree Content)) (parent : Option String) :
    entryOf parent e us = { entryOf parent e ts with
      attributes := (entryOf parent e ts).attributes.filter fun key _ ↦ key != textKey } := by
  have hnone : ∀ a ∈ (Drawing.withStyle e (SortedMap.ofList e.attributes)).entries,
      a.1 ≠ textKey := by
    refine SortedMap.get?_eq_none_iff.1 ?_
    have hstyled : Drawing.styled? e textKey = none := rfl
    rw [Drawing.get?_withStyle, hstyled, Option.none_or, SortedMap.get?_eq_none_iff]
    exact fun a ha heq ↦ hkey (heq ▸ List.mem_map_of_mem (SortedMap.mem_ofList ha))
  have hself := SortedMap.filter_eq_self (p := fun key _ ↦ key != textKey)
    fun a ha ↦ bne_iff_ne.2 (hnone a ha)
  rw [entryOf_of_hasElements hus, framed, entryOf]
  refine congrArg (Entry.mk _ _ _) ?_
  rw [attributesOf]
  split
  · exact hself.symm
  · rw [SortedMap.filter_insert, hself]

end Markup

namespace Edit

open Drawing Document

variable {p : Drawing} {text w id : String} {root n : Node}

private theorem eq_of_id_eq (hdistinct : ((all p.components).map Component.id).Nodup)
    {c c' : Component} (hc : c ∈ all p.components) (hc' : c' ∈ all p.components)
    (h : c.id = c'.id) : c = c' := List.inj_on_of_nodup_map hdistinct hc hc' h

/-- A copy that is put in adds one id. -/
theorem PutsCopy.perm_ids {q : Drawing} {copy : Copied} {e : Element} {s : Site e}
    (h : PutsCopy p w n copy s q id) (hparse : parse text = .ok p) :
    ((all q.components).map Component.id).Perm (id :: (all p.components).map Component.id) := by
  rw [components_of_parse h.read, h.after, components_settledAll, components_of_parse hparse, h.before]
  exact s.perm_ids_fill _ h.id

theorem nodup_ids_insertCopy (hparse : parse text = .ok p) (hclean : p.IsClean)
    (hdistinct : ((all p.components).map Component.id).Nodup)
    (hroot : p.document.root? = some root) (hn : n ∈ root.elements) {copy : Copied}
    (hcopy : copy.IsOrdinary fun k ↦ IsName k.toList)
    (hfinish : finish (p.document.insertCopy n.handle copy) = .ok w) {q : Drawing}
    (hq : parse w = .ok q) : ((all q.components).map Component.id).Nodup := by
  obtain ⟨q', -, -, -, hq', -, -, -, -, -, hids⟩ :=
    exists_headings_insertCopy hparse hclean hroot hn hcopy hfinish
  cases hq'.symm.trans hq
  rw [map_id_headings, map_id_headings] at hids
  exact hids hdistinct

/-- **A copy that is put in is a new leaf** at the end of the component of the element it is put
into. -/
theorem exists_isPutIn_of_insertCopy (hparse : parse text = .ok p) (hclean : p.IsClean)
    (hdistinct : ((all p.components).map Component.id).Nodup)
    (hkeys : ∀ e, .element e ∈ preorderAll p.document.markup → textKey ∉ e.keys)
    (hroot : p.document.root? = some root) (hn : n ∈ root.elements) {copy : Copied}
    (hcopy : copy.IsOrdinary fun k ↦ IsName k.toList) (hregular : copy.IsRegular)
    (hfinish : finish (p.document.insertCopy n.handle copy) = .ok w) :
    ∃ q c x, parse w = .ok q ∧ n.id? = some c.id ∧
      c.children = viewAll (some c.id) (n.children.map Node.bare) ∧
      copy.IsPutIn p.components q.components c x := by
  obtain ⟨e, s, q, id, hputs⟩ := exists_putsCopy hparse hclean hroot hn hcopy hfinish
  have hnodup := nodup_ids_insertCopy hparse hclean hdistinct hroot hn hcopy hfinish hputs.read
  have hfresh := (List.nodup_cons.1 ((hputs.perm_ids hparse).nodup_iff.1 hnodup)).1
  obtain ⟨he, hmarkup, -, hq, hafter, hid⟩ := hputs
  have hmem : ∀ us, .element e ∈ preorderAll (s.inner.plug [.node (.element e) us]) := fun us ↦
    Context.mem_preorderAll_plug.2 (.inr List.mem_cons_self)
  obtain ⟨own, hown⟩ := Option.isSome_iff_exists.1 ((s.hasIds_of_parse hparse hmarkup).1 e (hmem []))
  have hkey : textKey ∉ e.keys := hkeys e (by
    rw [hmarkup]
    exact Context.mem_preorderAll_plug.2 (.inr (hmem _)))
  generalize hus : (Tree.children n).map Node.bare = us at hmarkup hafter ⊢
  -- the component around, and the one that is new
  let c : Component := .node (entryOf s.scope e us) (viewAll (some own) us)
  let x : Component := .node (entryOf (some own) (copy.element.spaced.set "id" id) copy.texts) []
  have hcid : c.id = own := by
    show e.id?.getD "" = own
    rw [hown, Option.getD_some]
  have hbefore : p.components = s.around.plug [c] := by
    rw [components_of_parse hparse, hmarkup, s.components_fill, view, hown, Option.getD_some]
  have hview : viewAll (some own) [copy.namedNode id] = [x] := viewAll_namedNode copy id _
  have hcomponents : q.components = s.around.plug [.node
      { c.label with attributes := c.attributes.filter fun key _ ↦ key != textKey }
      (c.children ++ [x])] := by
    have hone : hasElements (us ++ [copy.namedNode id]) = true := by
      rw [hasElements_append]
      exact Bool.or_true _
    rw [components_of_parse hq, hafter, components_settledAll, s.components_fill, view, hown,
      Option.getD_some, viewAll_append, hview, filter_attributes_entryOf hkey hone us]
    rfl
  have hnid : n.id? = some own := (Node.id?_of_content he).trans hown
  refine ⟨q, c, x, hq, hcid ▸ hnid, by rw [hcid]; rfl, ⟨s.around, hbefore, hcomponents⟩, ?_,
    congrArg some hcid.symm, hregular.isShown hcopy.element.nodup hid (some own)⟩
  show (copy.element.spaced.set "id" id).id?.getD "" ∉ _
  rwa [hid, Option.getD_some]

/-! ## Pasting and duplicating -/

/-- A copy that is put in goes into a component that was there. -/
private theorem mem_all_of_isPutIn {copy : Copied} {before after : List Component} {c x : Component}
    (h : copy.IsPutIn before after c x) : c ∈ all before := by
  obtain ⟨around, rfl, -⟩ := h.appended
  rw [all_eq]
  exact Context.mem_subtreesAll_plug around c

/-- The component an id means. Without an id it is that of the root. -/
def Targets (forest : List Component) (parent : Option String) (c : Component) : Prop :=
  parent.elim (forest = [c]) fun id ↦ find? forest id = some c

/-- Pasting puts the copy into the component that is meant. -/
theorem exists_isPutIn_of_paste (hparse : parse text = .ok p) (hclean : p.IsClean)
    (hdistinct : ((all p.components).map Component.id).Nodup)
    (hkeys : ∀ e, .element e ∈ preorderAll p.document.markup → textKey ∉ e.keys)
    {parent : Option String} {copy : Copied} (hcopy : copy.IsOrdinary fun k ↦ IsName k.toList)
    (hregular : copy.IsRegular) (hedit : paste parent text copy = .ok w) :
    ∃ q c x, parse w = .ok q ∧ Targets p.components parent c ∧
      copy.IsPutIn p.components q.components c x := by
  obtain ⟨p', n, hp', htarget, hfinish⟩ := paste_eq_ok_iff.1 hedit
  cases hp'.symm.trans hparse
  cases parent with
  | none =>
    have hroot : p.document.root? = some n := htarget
    have hself := Node.mem_elements_self (Node.isElement_of_isRoot (isRoot_of_root? hroot))
    obtain ⟨q, c, x, hq, hid, -, hput⟩ :=
      exists_isPutIn_of_insertCopy hparse hclean hdistinct hkeys hroot hself hcopy hregular hfinish
    obtain ⟨e, he⟩ := Node.exists_content_of_isElement (Node.isElement_of_mem_elements hself)
    -- the only root has the id of the element as well
    have hview : ∃ c', p.components = [c'] ∧ c'.id = c.id := by
      refine ⟨.node (entryOf none e (n.children.map Node.bare))
        (viewAll (some (e.id?.getD "")) (n.children.map Node.bare)), ?_, ?_⟩
      · rw [components_of_parse hparse, Markup.components, Document.root?_markup, hroot,
          Option.map_some, Option.elim_some, Node.view_bare_of_content he]
      · rw [Node.id?_of_content he] at hid
        exact congrArg (Option.getD · "") hid
    obtain ⟨c', hcomponents, hid'⟩ := hview
    have hmem : c' ∈ all p.components := by
      rw [all_eq, hcomponents]
      exact mem_subtreesAll_of_mem (List.mem_singleton_self c')
    obtain rfl := eq_of_id_eq hdistinct hmem (mem_all_of_isPutIn hput) hid'
    exact ⟨q, c', x, hq, hcomponents, hput⟩
  | some id =>
    obtain ⟨c', root, hfind, hroot, hn, hid'⟩ := exists_root_of_locate? htarget
    obtain ⟨q, c, x, hq, hid, -, hput⟩ :=
      exists_isPutIn_of_insertCopy hparse hclean hdistinct hkeys hroot hn hcopy hregular hfinish
    have hmem : c' ∈ all p.components := all_eq p.components ▸ mem_of_find? hfind
    obtain rfl := eq_of_id_eq hdistinct hmem (mem_all_of_isPutIn hput)
      (Option.some.inj (hid'.symm.trans hid))
    exact ⟨q, c', x, hq, hfind, hput⟩

/-- Duplicating puts a moved copy into the component around the one that is meant. -/
theorem exists_isPutIn_of_duplicate (hparse : parse text = .ok p) (hclean : p.IsClean)
    (hdistinct : ((all p.components).map Component.id).Nodup)
    (hkeys : ∀ e, .element e ∈ preorderAll p.document.markup → textKey ∉ e.keys) {config : Config}
    (hoffsets : config.offsetAttributes.Nodup) (hedit : duplicate config text id = .ok w) :
    ∃ q original copy moved c x, parse w = .ok q ∧ find? p.components id = some original ∧
      original ∈ c.children ∧ copy? text id = some copy ∧
      copy.IsMoved config.duplicateOffset config.offsetAttributes moved ∧
      moved.IsPutIn p.components q.components c x := by
  obtain ⟨root, n, around, hroot, hlocate, -, hin, hchild, hordinary, hfinish⟩ :=
    exists_duplicated hparse hclean.isNamed hedit
  obtain ⟨original, -, hfind, -, -, hid⟩ := exists_root_of_locate? hlocate
  obtain ⟨hmem, e, he⟩ := exists_of_locate? hlocate
  have hcontent := Node.mem_preorderAll_of_content hmem he
  have hregular := Copied.isRegular_ofNode he (hclean.isUnbroken _ hcontent) (hkeys e hcontent)
  obtain ⟨q, c, x, hq, -, hchildren, hput⟩ := exists_isPutIn_of_insertCopy hparse hclean hdistinct
    hkeys hroot hin hordinary (hregular.foldl_shift config.duplicateOffset
      config.offsetAttributes) hfinish
  -- the component of the element is a child of the component around, and no other has its id
  have hview : ∃ c' ∈ c.children, Component.id c' = original.id := by
    refine ⟨_, hchildren ▸ Node.mem_viewAll_of_mem hchild (Node.view_bare_of_content he _), ?_⟩
    rw [Node.id?_of_content he] at hid
    exact congrArg (Option.getD · "") hid
  obtain ⟨c', hc', hid'⟩ := hview
  have hall : c' ∈ all p.components := by
    have hc := mem_all_of_isPutIn hput
    rw [all_eq] at hc ⊢
    exact mem_subtreesAll_of_mem_children hc hc'
  have horiginal : original ∈ all p.components := all_eq p.components ▸ mem_of_find? hfind
  obtain rfl := eq_of_id_eq hdistinct hall horiginal hid'
  exact ⟨q, c', _, _, c, x, hq, hfind, hc', copy?_eq_some_iff.2 ⟨p, n, hparse, hlocate, rfl⟩,
    Copied.isMoved_foldl_shift _ hoffsets _, hput⟩

/-- Whether an id means an element whose keys are attributes of the markup and whose values have no
tabs and no line breaks, in a text whose names are names of XML. -/
def IsPlainSource (source id : String) : Prop :=
  ∃ s n e, parse source = .ok s ∧ (∀ c ∈ preorderAll s.document.markup, c.IsNamed) ∧
    s.locate? id = some n ∧ n.content = .element e ∧ e.IsUnbroken ∧ textKey ∉ e.keys

/-- **Pasting and duplicating add one new leaf** and leave all else as it is, but that the component
around shows no text any more. Pasting puts it into the component that is meant, and duplicating
next to the one that is copied, with the numbers moved. -/
theorem exists_isPutIn (hparse : parse text = .ok p) (hclean : p.IsClean)
    (hdistinct : ((all p.components).map Component.id).Nodup)
    (hkeys : ∀ e, .element e ∈ preorderAll p.document.markup → textKey ∉ e.keys) :
    (∀ source sourceId copy parent w, IsPlainSource source sourceId →
      copy? source sourceId = some copy → paste parent text copy = .ok w →
      ∃ q c x, parse w = .ok q ∧ Targets p.components parent c ∧
        copy.IsPutIn p.components q.components c x) ∧
    ∀ (config : Config) id w, config.offsetAttributes.Nodup → duplicate config text id = .ok w →
      ∃ q original copy moved c x, parse w = .ok q ∧ find? p.components id = some original ∧
        original ∈ c.children ∧ copy? text id = some copy ∧
        copy.IsMoved config.duplicateOffset config.offsetAttributes moved ∧
        moved.IsPutIn p.components q.components c x := by
  constructor
  case left =>
    rintro source sourceId copy parent w ⟨s, n, e, hs, hnamed, hlocate, he, hunbroken, hkey⟩ hcopy
      hedit
    obtain ⟨s', n', hs', hlocate', rfl⟩ := copy?_eq_some_iff.1 hcopy
    cases hs.symm.trans hs'
    cases hlocate.symm.trans hlocate'
    exact exists_isPutIn_of_paste hparse hclean hdistinct hkeys
      (isOrdinary_ofNode_of_isNamed hs hnamed hlocate)
      (Copied.isRegular_ofNode he hunbroken hkey) hedit
  case right =>
    exact fun config id w hoffsets hedit ↦
      exists_isPutIn_of_duplicate hparse hclean hdistinct hkeys hoffsets hedit

set_option maxRecDepth 4000 in
/-- The copy of a group that shows a text is put into the group, which shows no text any more then,
and next to it. -/
theorem exists_isPutIn_of_group : ∃ p, parse "<svg><g id=\"a\">t</g></svg>" = .ok p ∧ p.IsClean ∧
    ((all p.components).map Component.id).Nodup ∧
    (∀ e, .element e ∈ preorderAll p.document.markup → textKey ∉ e.keys) ∧
    IsPlainSource "<svg><g id=\"a\">t</g></svg>" "a" ∧ ({} : Config).offsetAttributes.Nodup ∧
    ∃ copy w w', copy? "<svg><g id=\"a\">t</g></svg>" "a" = some copy ∧
      paste (some "a") "<svg><g id=\"a\">t</g></svg>" copy = .ok w ∧
      duplicate {} "<svg><g id=\"a\">t</g></svg>" "a" = .ok w' ∧
      (∃ q c x, parse w = .ok q ∧ Targets p.components (some "a") c ∧
        copy.IsPutIn p.components q.components c x) ∧
      ∃ q original copy moved c x, parse w' = .ok q ∧ find? p.components "a" = some original ∧
        original ∈ c.children ∧ copy? "<svg><g id=\"a\">t</g></svg>" "a" = some copy ∧
        copy.IsMoved ({} : Config).duplicateOffset ({} : Config).offsetAttributes moved ∧
        moved.IsPutIn p.components q.components c x := by
  have hread : Markup.read "<svg><g id=\"a\">t</g></svg>" = .ok [.node (.element ⟨"svg", []⟩)
      [.node (.element ⟨"g", [("id", "a")]⟩) [.node (.text "t") []]]] := by cbv
  obtain ⟨copy, hcopy, hpaste⟩ : ∃ copy, copy? "<svg><g id=\"a\">t</g></svg>" "a" = some copy ∧
      paste (some "a") "<svg><g id=\"a\">t</g></svg>" copy
        = .ok "<svg id=\"svg-0\"><g id=\"a\">t<g>t</g></g></svg>" := ⟨_, by cbv, by cbv⟩
  have hduplicate : duplicate {} "<svg><g id=\"a\">t</g></svg>" "a"
      = .ok "<svg id=\"svg-0\"><g id=\"a\">t</g><g>t</g></svg>" := by cbv
  have hparse := parse_of_read (by cbv) hread
  generalize hp : ofDocument _ = p at hparse
  have hclean : p.IsClean := by
    rw [← hp]
    exact ⟨by decide +kernel, by decide +kernel⟩
  have hids : ((all p.components).map Component.id).Nodup := by
    rw [← hp, all_eq]
    decide +kernel
  have hkeys : ∀ a ∈ preorderAll p.document.markup, ∀ e ∈ a.element?, textKey ∉ e.keys := by
    rw [← hp]
    decide +kernel
  have hplain : IsPlainSource "<svg><g id=\"a\">t</g></svg>" "a" := by
    obtain ⟨s, n, hs, hlocate, -⟩ := copy?_eq_some_iff.1 hcopy
    cases hs.symm.trans hparse
    obtain ⟨hmem, e, he⟩ := exists_of_locate? hlocate
    have hcontent := Node.mem_preorderAll_of_content hmem he
    exact ⟨p, n, e, hparse, hclean.isNamed, hlocate, he, hclean.isUnbroken _ hcontent,
      hkeys _ hcontent e rfl⟩
  have hall := exists_isPutIn hparse hclean hids fun e he ↦ hkeys _ he e rfl
  exact ⟨p, hparse, hclean, hids, fun e he ↦ hkeys _ he e rfl, hplain, by decide, copy, _, _, hcopy,
    hpaste, hduplicate, hall.1 _ _ _ _ _ hplain hcopy hpaste, hall.2 _ _ _ (by decide) hduplicate⟩

/-- **Where names are no names of XML, a copy that is put in can take a component away**: the one
with the id `k` has become part of an attribute. -/
theorem not_isPutIn_of_misread_names : ∃ p, parse misread = .ok p ∧
    (∀ c ∈ preorderAll p.document.markup, c.IsUnbroken) ∧
    ((all p.components).map Component.id).Nodup ∧
    (∀ e, .element e ∈ preorderAll p.document.markup → textKey ∉ e.keys) ∧
    ({} : Config).offsetAttributes.Nodup ∧ duplicate {} misread "k" = .ok rewritten ∧
    ∃ q, parse rewritten = .ok q ∧
      ∀ copy c x, ¬ Copied.IsPutIn copy p.components q.components c x := by
  refine ⟨_, parse_misread, isUnbroken_misread, nodup_ids_misread,
    fun _ he ↦ textKey_notMem_misread he, by decide, duplicate_misread, _, parse_rewritten, ?_⟩
  intro copy c x hput
  have hmem : "k" ∈ (all _).map Component.id :=
    hput.perm_ids.mem_iff.2 (List.mem_cons_of_mem _ (by rw [ids_misread]; decide))
  rw [all_eq] at hmem
  revert hmem
  decide +kernel

end Edit

end SvgWorkbench
