import SvgWorkbench.Proofs.Edit.Unique

/-!
# What copies add

A copy that is put into a drawing makes one new component and leaves the headings of all others in
their order. So a row of edits that put in copies makes as many components as edits of the row were
accepted. Copies that are put into the root come to stand behind one another, in the order of the
row, at the end of what the root had inside.
-/

namespace SvgWorkbench

open Xml SvgWorkbench.Tree Markup Component

/-! ## Rows of edits some of which are refused -/

namespace Edit

variable {α : Type} {edit : String → α → Except EditError String} {items : List α}

/-- The items of a row whose edits are accepted when their turn comes. -/
def accepted (edit : String → α → Except EditError String) (text : String) : List α → List α
  | [] => []
  | item :: items =>
    match edit text item with
    | .ok w => item :: accepted edit w items
    | .error _ => accepted edit text items

/-- A row of edits keeps what each edit that is accepted keeps, where it may count which were. -/
theorem forEach_induction_accepted {P : List α → String → Prop}
    (hedit : ∀ done item current w, item ∈ items → P done current → edit current item = .ok w →
      P (done ++ [item]) w) {text : String} (h : P [] text) :
    P (accepted edit text items) (forEach edit text items) := by
  have hrow : ∀ rest done current, rest ⊆ items → P done current →
      P (done ++ accepted edit current rest) (forEach edit current rest) := by
    intro rest
    induction rest with
    | nil =>
      intro done current _ hdone
      rw [accepted, List.append_nil]
      exact hdone
    | cons item rest ih =>
      intro done current hrest hdone
      rw [List.cons_subset] at hrest
      rw [accepted, forEach, List.foldl_cons, ← forEach]
      cases hresult : edit current item with
      | error cause => exact ih done current hrest.2 hdone
      | ok w =>
        have hnext :=
          ih (done ++ [item]) w hrest.2 (hedit done item current w hrest.1 hdone hresult)
        rwa [List.append_assoc, List.singleton_append] at hnext
  exact hrow items [] text (List.Subset.refl _) h

/-- A row of which nothing is accepted leaves the text as it is. -/
theorem forEach_of_accepted_eq_nil {text : String} (h : accepted edit text items = []) :
    forEach edit text items = text := by
  refine forEach_induction_accepted (P := fun done current ↦ done = [] → current = text) ?_
    (fun _ ↦ rfl) h
  exact fun done item _ _ _ _ _ hnil ↦ absurd hnil (List.append_ne_nil_of_right_ne_nil done nofun)

end Edit

/-! ## Drawings with more components -/

namespace Drawing

variable {p q r : Drawing} {n m : Nat}

/-- Whether a drawing has so many components more than another one, which are among those of the
other in their order, and no id twice if the other has none twice. -/
structure Adds (p q : Drawing) (n : Nat) : Prop where
  /-- The components that were there are there, in their order. -/
  kept : (headings p.components).Sublist (headings q.components)
  /-- So many have been added. -/
  length : (headings q.components).length = (headings p.components).length + n
  /-- Ids stay distinct. -/
  nodup : ((headings p.components).map Heading.id).Nodup →
    ((headings q.components).map Heading.id).Nodup

theorem Adds.refl (p : Drawing) : p.Adds p 0 := ⟨.refl _, rfl, fun h ↦ h⟩

theorem Adds.trans (h : p.Adds q n) (h' : q.Adds r m) : p.Adds r (n + m) :=
  ⟨h.kept.trans h'.kept, by rw [h'.length, h.length, Nat.add_assoc],
    fun hids ↦ h'.nodup (h.nodup hids)⟩

end Drawing

namespace Edit

open Drawing

variable {α : Type} {edit : String → α → Except EditError String} {items : List α} {p : Drawing}
  {text w : String}

/-- Whether an edit for an item adds one component to every clean drawing, if it is accepted. -/
def AddsOne (edit : String → α → Except EditError String) (item : α) : Prop :=
  ∀ text w p, parse text = .ok p → p.IsClean → edit text item = .ok w →
    ∃ q, parse w = .ok q ∧ q.IsClean ∧ p.Adds q 1

/-- **A row of copies adds as many components as were accepted.** -/
theorem exists_adds_forEach (hadds : ∀ item ∈ items, AddsOne edit item)
    (hparse : parse text = .ok p) (hclean : p.IsClean) :
    ∃ q, parse (forEach edit text items) = .ok q ∧ q.IsClean ∧
      p.Adds q (accepted edit text items).length := by
  refine forEach_induction_accepted (P := fun done current ↦
    ∃ q, parse current = .ok q ∧ q.IsClean ∧ p.Adds q done.length) ?_ ⟨p, hparse, hclean, .refl p⟩
  rintro done item current w hitem ⟨q, hq, hclean', hsofar⟩ hedit
  obtain ⟨r, hr, hclean'', hone⟩ := hadds item hitem current w q hq hclean' hedit
  refine ⟨r, hr, hclean'', ?_⟩
  rw [List.length_append]
  exact hsofar.trans hone

/-- A copy that is put into an element of the root adds one component. -/
private theorem exists_adds_insertCopy (hparse : parse text = .ok p) (hclean : p.IsClean)
    {root n : Node} (hroot : p.document.root? = some root) (hn : n ∈ root.elements) {copy : Copied}
    (hcopy : copy.IsOrdinary fun k ↦ IsName k.toList)
    (hfinish : finish (p.document.insertCopy n.handle copy) = .ok w) :
    ∃ q, parse w = .ok q ∧ q.IsClean ∧ p.Adds q 1 := by
  obtain ⟨q, left, right, new, hq, hclean', hbefore, hafter, -, -, hnodup⟩ :=
    exists_headings_insertCopy hparse hclean hroot hn hcopy hfinish
  refine ⟨q, hq, hclean', ?_, ?_, hnodup⟩
  · rw [hbefore, hafter]
    exact (List.sublist_cons_self new right).append_left left
  · rw [hbefore, hafter, List.length_append, List.length_append, List.length_cons, Nat.add_assoc]

theorem addsOne_duplicate (config : Config) (id : String) : AddsOne (duplicate config) id := by
  intro text w p hparse hclean hedit
  obtain ⟨root, parent, copy, hroot, hin, hcopy, hfinish⟩ :=
    exists_insertCopy_of_duplicate hparse hclean.isNamed hedit
  exact exists_adds_insertCopy hparse hclean hroot hin hcopy hfinish

theorem addsOne_paste {copy : Copied} (hcopy : copy.IsOrdinary fun k ↦ IsName k.toList) :
    AddsOne (paste none) copy := by
  intro text w p hparse hclean hedit
  obtain ⟨root, n, hroot, hn, hfinish⟩ := exists_insertCopy_of_paste hparse hedit
  exact exists_adds_insertCopy hparse hclean hroot hn hcopy hfinish

end Edit

/-! ## Copies at the end of the root -/

namespace Markup

theorem haveIds_append {ts us : List (Tree Content)} :
    HaveIds (ts ++ us) ↔ HaveIds ts ∧ HaveIds us := by
  induction ts with
  | nil => exact (iff_of_eq (true_and _)).symm
  | cons t ts ih => rw [List.cons_append, HaveIds, HaveIds, ih, and_assoc]

/-- What a new element makes at the end of one that has ids, once ids have been given out. -/
theorem exists_view_concat {good : String → Prop} {e e' : Element} {ts us : List (Tree Content)}
    {u : Tree Content} {id : String}
    (h : Rel (Drawing.IdGiven good)
      (settled (.node (.element e) (ts ++ [.node (.element e') us]))) u)
    (hu : HasIds u) (hid : e.id? = some id) (hts : HaveIds ts) (hnone : e'.id? = none)
    (hus : hasElements us = false) (parent : Option String) :
    ∃ a x, view parent u = [.node a (viewAll (some id) ts ++ [x])] ∧
      a.heading = headingOf parent e ∧
      x = .node ⟨x.id, e'.kind, some id, attributesOf (e'.set "id" x.id) us⟩ [] := by
  rw [settled, settledAll_concat_element] at h
  match u, h with
  | .node _ vs, ⟨.given hnone' _, _⟩ => cases hnone'.symm.trans hid
  | .node _ vs, ⟨.same _, hchildren⟩ =>
  obtain ⟨vs, vs', rfl, hvs, hvs'⟩ := hchildren.exists_of_append
  have hold : viewAll (some id) vs = viewAll (some id) ts := by
    rw [Drawing.viewAll_eq_of_haveIds hvs (hts.settledAll ""), viewAll_settledAll]
  match vs', hvs' with
  | [.node _ ws], ⟨⟨.same _, _⟩, _⟩ =>
    -- every element has an id by now
    obtain ⟨hhas, -⟩ := (haveIds_append.1 hu.2).2
    rw [HasIds, hnone] at hhas
    cases hhas.1
  | [.node _ ws], ⟨⟨@Drawing.IdGiven.given _ _ new _ _, hws⟩, _⟩ =>
    have hretouched := Drawing.relAll_retouched hws
    have hempty : hasElements ws = false := by
      rw [hasElements_eq_of_relAll hretouched, hasElements_settledAll, hus]
    have hattributes : attributesOf (e'.set "id" new) ws = attributesOf (e'.set "id" new) us := by
      rw [attributesOf_eq_of_relAll hretouched, attributesOf, attributesOf, hasElements_settledAll,
        textOfAll_settledAll, String.empty_append]
    have hnew : (e'.set "id" new).id?.getD "" = new := by
      obtain ⟨⟨hhas, -⟩, -⟩ := (haveIds_append.1 hu.2).2
      obtain ⟨id', hid'⟩ := Option.isSome_iff_exists.1 hhas
      rw [hid']
      rw [Element.id?, Element.get?_set_self, Option.filter_eq_some_iff] at hid'
      exact (Option.some.inj hid'.1).symm
    rw [view, viewAll_append, viewAll, viewAll, view, viewAll_eq_nil hempty, hid, Option.getD_some,
      hold, List.append_nil]
    refine ⟨_, _, rfl, rfl, ?_⟩
    rw [entryOf, hnew, hattributes]
    rfl

end Markup

/-- Whether a component is what a copy makes below a parent: it has the type and the attributes of
the copy, an id of its own and nothing inside. -/
def Copied.IsPut (parent : String) (c : Copied) (x : Component) : Prop :=
  x = .node ⟨x.id, c.element.kind, some parent,
    attributesOf (c.element.spaced.set "id" x.id) c.texts⟩ []

namespace Edit

open Drawing Document

variable {p : Drawing} {text w : String}

/-- The root with a copy put in, as it is read again. -/
private theorem root?_insertCopy (hparse : parse text = .ok p) (hclean : p.IsClean) {root : Node}
    (hroot : p.document.root? = some root) {e : Element} (he : root.content = .element e)
    (copy : Copied) :
    Markup.root? (settledAll "" (mapAll Content.spaced
      (p.document.insertCopy root.handle copy).markup)) = some (settled (.node (.element e)
        ((Tree.children root).map Node.bare ++
          [.node (.element copy.element.spaced) copy.texts]))) := by
  have hisRoot := isRoot_of_root? hroot
  have hself := Node.mem_elements_self (Node.isElement_of_isRoot hisRoot)
  have hin := mem_topLevel_of_mem_root hroot hself
  have hfind := Node.find?_elementsAll_modifyAll_inside (nodup_handlesAll_of_parse hparse) hroot
    (Node.mem_subtrees_of_mem_elements hself) (f := Node.addChild (copy.node p.document.next))
    fun _ ↦ hisRoot
  rw [← topLevel_insertCopy (next_notMem_of_parse hparse), Node.modify_handle] at hfind
  have hroot' : (p.document.insertCopy root.handle copy).root?
      = some (Node.addChild (copy.node p.document.next) root) := hfind
  rw [root?_settledAll, root?_mapAll_spaced, Document.root?_markup, hroot', Option.map_some,
    Option.map_some, Option.map_some, Node.bare_addChild he fun c hc ↦
      hclean.isUnbroken c (Node.mem_preorderAll_map_bare hin hc)]

/-- **A copy that is pasted comes to stand at the end of the root**, and what the root had inside
stays as it is. -/
theorem exists_components_paste (hparse : parse text = .ok p) (hclean : p.IsClean) {copy : Copied}
    (hcopy : copy.IsOrdinary fun k ↦ IsName k.toList) (hedit : paste none text copy = .ok w) :
    ∃ q e e' cs x, parse w = .ok q ∧ q.IsClean ∧ p.components = [.node e cs] ∧
      q.components = [.node e' (cs ++ [x])] ∧ e'.heading = e.heading ∧ copy.IsPut e.id x := by
  obtain ⟨p', root, hp', hroot, hfinish⟩ := paste_eq_ok_iff.1 hedit
  cases hp'.symm.trans hparse
  have hroot : p.document.root? = some root := hroot
  obtain ⟨⟨q, hq⟩, rfl⟩ := finish_eq_ok_iff.1 hfinish
  have helement := Node.isElement_of_isRoot (isRoot_of_root? hroot)
  obtain ⟨e, id, he, hid, hhave, hbefore⟩ := exists_element_of_root? hparse hroot
  have hentry : (entryOf none e ((Tree.children root).map Node.bare)).id = id := by
    rw [entryOf, hid, Option.getD_some]
  -- what is read again is the root with one element more at its end, which is given an id
  have hsound := (isSound_of_parse hparse hclean.isNamed).insertCopy (next_notMem_of_parse hparse)
    (nodup_handlesAll_of_parse hparse)
    (mem_topLevel_of_mem_root hroot (Node.mem_elements_self helement)) helement hcopy
  obtain ⟨-, m, hread, rfl⟩ := exists_markup_of_parse hq
  obtain rfl := Except.ok.inj (hread.symm.trans hsound.read_text)
  obtain ⟨u, hgiven, hu, hview⟩ :=
    exists_view_ofDocument (root?_insertCopy hparse hclean hroot he copy)
  obtain ⟨a, x, hafter, hheading, hx⟩ := exists_view_concat hgiven hu hid hhave
    copy.id?_spaced_element copy.hasElements_texts none
  exact ⟨_, _, a, _, x, hq, (isClean_of_parse_text hsound hq).1, hbefore, hview.trans hafter,
    hheading, hentry ▸ hx⟩

/-- **A row of copies that are pasted** comes to stand at the end of the root in the order of the
row, but for those that are refused. -/
theorem exists_components_pasteAll (hparse : parse text = .ok p) (hclean : p.IsClean)
    {copies : List Copied} (hcopies : ∀ copy ∈ copies, copy.IsOrdinary fun k ↦ IsName k.toList)
    {e : Entry} {cs : List Component} (hroot : p.components = [.node e cs]) :
    ∃ q e' added, parse (forEach (paste none) text copies) = .ok q ∧
      q.components = [.node e' (cs ++ added)] ∧ e'.heading = e.heading ∧
      List.Forall₂ (Copied.IsPut e.id) (accepted (paste none) text copies) added := by
  suffices hrow : ∃ q e' added, parse (forEach (paste none) text copies) = .ok q ∧ q.IsClean ∧
      q.components = [.node e' (cs ++ added)] ∧ e'.heading = e.heading ∧
      List.Forall₂ (Copied.IsPut e.id) (accepted (paste none) text copies) added by
    obtain ⟨q, e', added, hq, -, hcomponents, hheading, hput⟩ := hrow
    exact ⟨q, e', added, hq, hcomponents, hheading, hput⟩
  refine forEach_induction_accepted (P := fun done current ↦ ∃ q e' added,
    parse current = .ok q ∧ q.IsClean ∧ q.components = [.node e' (cs ++ added)] ∧
      e'.heading = e.heading ∧ List.Forall₂ (Copied.IsPut e.id) done added) ?_
    ⟨p, e, [], hparse, hclean, by rw [hroot, List.append_nil], rfl, .nil⟩
  rintro done copy current w hmem ⟨q, e', added, hq, hclean', hcomponents, hheading, hput⟩ hedit
  obtain ⟨r, f, f', ds, x, hr, hclean'', hf, hr', hheading', hx⟩ :=
    exists_components_paste hq hclean' (hcopies copy hmem) hedit
  rw [hcomponents, List.cons.injEq, Tree.node.injEq] at hf
  obtain ⟨⟨rfl, rfl⟩, -⟩ := hf
  have hid : e'.id = e.id := congrArg Heading.id hheading
  refine ⟨r, f', added ++ [x], hr, hclean'', by rw [hr', List.append_assoc],
    hheading'.trans hheading, ?_⟩
  exact List.rel_append hput (.cons (hid ▸ hx) .nil)

end Edit

end SvgWorkbench
