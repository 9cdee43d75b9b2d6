import SvgWorkbench.Proofs.Document.Context
import SvgWorkbench.Proofs.Drawing.Heading
import SvgWorkbench.Proofs.Drawing.Normal
import SvgWorkbench.Proofs.Tree.Context

/-!
# Places of elements and of their components

A place inside the root of some markup is a place among its components too: what stands around the
one is seen around the other, whatever stands in the gap, as long as there is an element in it.
Settling the markup settles what is around the place and what is in it, and giving out ids gives
none around a place where all elements have theirs.
-/

namespace SvgWorkbench

open SvgWorkbench.Tree

namespace Markup

variable {c : Context Content} {ts us : List (Tree Content)} {parent : Option String}

/-! ## The components around a place -/

/-- What the component of an element with elements inside holds besides its children. -/
def framed (parent : Option String) (e : Element) : Entry :=
  ⟨e.id?.getD "", e.kind, parent, Drawing.withStyle e (SortedMap.ofList e.attributes)⟩

theorem entryOf_of_hasElements (h : hasElements ts = true) (parent : Option String) (e : Element) :
    entryOf parent e ts = framed parent e := by
  rw [entryOf, attributesOf, h, Bool.true_or, if_pos rfl, framed]

/-- The components around a place below elements. -/
def viewContext (parent : Option String) : Context Content → Context Entry
  | .inside left (.element e) below right =>
    .inside (viewAll parent left) (framed parent e) (viewContext (some (e.id?.getD "")) below)
      (viewAll parent right)
  | .inside left _ _ right | .here left right => .here (viewAll parent left) (viewAll parent right)

/-- The id of the element next around a place below elements. -/
def scopeOf (parent : Option String) : Context Content → Option String
  | .inside _ (.element e) below _ => scopeOf (some (e.id?.getD "")) below
  | .inside _ _ _ _ | .here _ _ => parent

theorem hasElements_plug (hpath : ∀ a ∈ c.path, Content.isElement a = true)
    (hts : hasElements ts = true) : hasElements (c.plug ts) = true := by
  cases c with
  | here left right => simp [hasElements_append, hts]
  | inside left a below right =>
    rw [Context.plug_inside, hasElements_append, hasElements, hasElements, List.any_cons, label_node,
      hpath a List.mem_cons_self, Bool.true_or, Bool.or_true]

/-- **What stands around a place is seen around the components of what stands in it.** -/
theorem viewAll_plug (hpath : ∀ a ∈ c.path, Content.isElement a = true)
    (hts : hasElements ts = true) (parent : Option String) :
    viewAll parent (c.plug ts) = (viewContext parent c).plug (viewAll (scopeOf parent c) ts) := by
  induction c generalizing parent with
  | here left right => simp [viewContext, scopeOf]
  | inside left a below right ih =>
    rw [Context.path, List.forall_mem_cons] at hpath
    obtain ⟨e, rfl⟩ := a.eq_element_or.resolve_right (ne_false_of_eq_true hpath.1)
    rw [Context.plug_inside, viewAll_append, viewAll, view, ih hpath.2, viewContext, scopeOf,
      entryOf_of_hasElements (hasElements_plug hpath.2 hts)]
    rfl

/-! ## Settling around a place -/

/-- What stands around a place, settled. -/
def settledContext : Context Content → Context Content
  | .here left right => .here (settledAll "" left) (settledAll "" right)
  | .inside left a below right =>
    .inside (settledAll "" left) a (settledContext below) (settledAll "" right)

@[simp] theorem path_settledContext (c : Context Content) : (settledContext c).path = c.path := by
  induction c with
  | here left right => rfl
  | inside left a below right ih => rw [settledContext, Context.path, ih, Context.path]

/-- **An element at a place below elements settles by itself**, and so does what is around it. -/
theorem settledAll_plug (hpath : ∀ a ∈ c.path, Content.isElement a = true) (e : Element)
    (us : List (Tree Content)) : settledAll "" (c.plug [.node (.element e) us])
      = (settledContext c).plug [.node (.element e) (settledAll "" us)] := by
  induction c with
  | here left right =>
    rw [Context.plug_here, List.append_assoc, List.singleton_append, settledAll_append_cons rfl,
      settledContext, Context.plug_here, List.append_assoc, List.singleton_append, settled]
  | inside left a below right ih =>
    rw [Context.path, List.forall_mem_cons] at hpath
    obtain ⟨e', rfl⟩ := a.eq_element_or.resolve_right (ne_false_of_eq_true hpath.1)
    rw [Context.plug_inside, settledAll_append_cons rfl, settled, ih hpath.2, settledContext,
      Context.plug_inside]

/-! ## The place of the root -/

/-- Whether an element that stands at a place and can be the root is the root. -/
def IsRootPlace : Context Content → Prop
  | .here left _ => root? left = none
  | .inside left a below _ =>
    root? left = none ∧ a.isElement = true ∧ isRoot a = false ∧ IsRootPlace below

theorem IsRootPlace.path (h : IsRootPlace c) : ∀ a ∈ c.path, Content.isElement a = true := by
  induction c with
  | here left right => exact List.forall_mem_nil _
  | inside left a below right ih => exact List.forall_mem_cons.2 ⟨h.2.1, ih h.2.2.2⟩

theorem IsRootPlace.settled (h : IsRootPlace c) : IsRootPlace (settledContext c) := by
  have hnone : ∀ {left}, root? left = none → root? (settledAll "" left) = none := fun hleft ↦ by
    rw [root?_settledAll, hleft, Option.map_none]
  induction c with
  | here left right => exact hnone h
  | inside left a below right ih => exact ⟨hnone h.1, h.2.1, h.2.2.1, ih h.2.2.2⟩

theorem root?_append (ts us : List (Tree Content)) :
    root? (ts ++ us) = (root? ts).or (root? us) := by
  rw [root?, elementsOfAll_append, List.find?_append, root?, root?]

theorem IsRootPlace.comp_here (h : IsRootPlace c) {left : List (Tree Content)}
    (hleft : root? left = none) (right : List (Tree Content)) :
    IsRootPlace ((Context.here left right).comp c) := by
  cases c with
  | here left' right' => exact (root?_append left left').trans (by rw [hleft]; exact h)
  | inside left' a below right' =>
    exact ⟨(root?_append left left').trans (by rw [hleft]; exact h.1), h.2⟩

end Markup

/-! ## The root of a document -/

namespace Node

variable {c : Context Slot} {n root : Node} {ts : List Node}

private theorem root?_map_bare (ts : List Node) :
    Markup.root? (ts.map bare) = ((elementsAll ts).find? isRoot).map bare :=
  Document.root?_markup { topLevel := ts }

/-- An element at the place of the root is the root. -/
theorem find?_elementsAll_plug (hc : Markup.IsRootPlace (c.map Slot.content))
    (hn : n.isRoot = true) : (elementsAll (c.plug [n])).find? isRoot = some n := by
  have hleft : ∀ {left : List Node}, Markup.root? (mapAll Slot.content left) = none →
      (elementsAll left).find? isRoot = none := fun h ↦ by
    rw [mapAll_eq_map, ← show bare = Tree.map Slot.content from rfl, root?_map_bare] at h
    exact Option.map_eq_none_iff.1 h
  induction c with
  | here left right =>
    rw [Context.plug_here, List.append_assoc, elementsAll_append, List.find?_append, hleft hc,
      Option.none_or, List.singleton_append, elementsAll, List.find?_append,
      find?_elements_of_isRoot hn, Option.some_or]
  | inside left s below right ih =>
    obtain ⟨hnone, hs, hnot, hbelow⟩ := hc
    have hnot' : ¬ isRoot (.node s (below.plug [n])) = true := ne_true_of_eq_false hnot
    rw [Context.plug_inside, elementsAll_append, List.find?_append, hleft hnone, Option.none_or,
      elementsAll, elements, if_pos hs, List.cons_append, List.find?_cons_of_neg hnot',
      List.find?_append, ih hbelow, Option.some_or]

/-- The root stands at the place of the root. -/
theorem exists_plug_of_find?_elementsAll {ts : List Node}
    (h : (elementsAll ts).find? isRoot = some root) :
    ∃ c : Context Slot, ts = c.plug [root] ∧ Markup.IsRootPlace (c.map Slot.content) := by
  induction ts using forest_induction with
  | nil => cases h
  | cons s us ts ihus ihts =>
    rw [elementsAll, List.find?_append] at h
    cases hfirst : (elements (.node s us)).find? isRoot with
    | some first =>
      rw [hfirst] at h
      cases h
      rw [elements] at hfirst
      split at hfirst
      case isFalse => cases hfirst
      next hs =>
      rw [List.find?_cons] at hfirst
      split at hfirst
      · cases hfirst
        exact ⟨.here [] ts, rfl, rfl⟩
      · next hnot =>
        obtain ⟨c, rfl, hc⟩ := ihus hfirst
        exact ⟨.inside [] s c ts, rfl, rfl, hs, hnot, hc⟩
    | none =>
      rw [hfirst, Option.none_or] at h
      obtain ⟨c, rfl, hc⟩ := ihts h
      have hnone : Markup.root? (mapAll Slot.content [.node s us]) = none := by
        rw [mapAll_eq_map, ← show bare = Tree.map Slot.content from rfl, root?_map_bare, elementsAll,
          elementsAll, List.append_nil, hfirst, Option.map_none]
      refine ⟨(Context.here [.node s us] []).comp c, by simp, ?_⟩
      rw [Context.map_comp]
      exact hc.comp_here hnone _

end Node

theorem Document.root?_of_topLevel {d : Document} {c : Context Slot} {n : Node}
    (h : d.topLevel = c.plug [n]) (hc : Markup.IsRootPlace (c.map Slot.content))
    (hn : n.isRoot = true) : d.root? = some n := by
  rw [root?, elements, h]
  exact Node.find?_elementsAll_plug hc hn

namespace Markup

variable {c : Context Content}

/-- An element at the place of the root is the root. -/
theorem root?_plug (hc : IsRootPlace c) {t : Tree Content} (ht : isRoot t.label = true) :
    root? (c.plug [t]) = some t := by
  have hmarkup := Document.root?_markup (.ofMarkup (c.plug [t]))
  obtain ⟨d, ns, hplug, rfl, hns⟩ :=
    Node.exists_plug_of_map_bare (Document.markup_ofMarkup (c.plug [t]))
  obtain ⟨n, rfl, rfl⟩ := List.map_eq_singleton_iff.1 hns
  rw [Node.label_bare] at ht
  rwa [Document.markup_ofMarkup, Document.root?_of_topLevel hplug hc ht] at hmarkup

/-! ## Ids around a place -/

mutual

private theorem isSome_id?_of_hasIds {t : Tree Content} {top : Bool} (hread : IsRead top t)
    (hids : HasIds t) {e : Element} (he : .element e ∈ t.preorder) : e.id?.isSome = true := by
  match t with
  | .node a ts =>
    rcases a.eq_element_or with ⟨e', rfl⟩ | ha
    · rcases List.mem_cons.1 he with heq | he
      · cases heq
        exact hids.1
      · exact isSome_id?_of_haveIds hread.2 hids.2 he
    · obtain rfl := hread.eq_nil ha
      obtain rfl := List.mem_singleton.1 he
      cases ha

/-- Where no id is missing, every element has one. -/
theorem isSome_id?_of_haveIds {ts : List (Tree Content)} {top : Bool} (hread : AreRead top ts)
    (hids : HaveIds ts) {e : Element} (he : .element e ∈ preorderAll ts) : e.id?.isSome = true := by
  match ts with
  | [] => cases he
  | t :: ts =>
    rcases List.mem_append.1 he with he | he
    · exact isSome_id?_of_hasIds hread.1 hids.1 he
    · exact isSome_id?_of_haveIds hread.2 hids.2 he

end

theorem haveIds_of_plug (hpath : ∀ a ∈ c.path, Content.isElement a = true) {ts : List (Tree Content)}
    (h : HaveIds (c.plug ts)) : HaveIds ts := by
  induction c with
  | here left right =>
    rw [haveIds_iff] at h ⊢
    exact fun t ht ↦ h t (List.mem_append_left _ (List.mem_append_right _ ht))
  | inside left a below right ih =>
    rw [Context.path, List.forall_mem_cons] at hpath
    obtain ⟨e, rfl⟩ := a.eq_element_or.resolve_right (ne_false_of_eq_true hpath.1)
    exact ih hpath.2 (haveIds_iff.1 h _ (List.mem_append_right _ List.mem_cons_self)).2

theorem areRead_of_plug (hpath : ∀ a ∈ c.path, Content.isElement a = true)
    {ts : List (Tree Content)} {top : Bool} (h : AreRead top (c.plug ts)) :
    ∃ top, AreRead top ts := by
  induction c generalizing top with
  | here left right =>
    rw [areRead_iff] at h
    exact ⟨top, areRead_iff.2 fun t ht ↦
      h t (List.mem_append_left _ (List.mem_append_right _ ht))⟩
  | inside left a below right ih =>
    rw [Context.path, List.forall_mem_cons] at hpath
    obtain ⟨e, rfl⟩ := a.eq_element_or.resolve_right (ne_false_of_eq_true hpath.1)
    exact ih hpath.2 (areRead_iff.1 h _ (List.mem_append_right _ List.mem_cons_self)).2

end Markup

namespace Drawing

variable {c : Context Content}

/-- Ids are given out in the root and nowhere else. -/
theorem exists_markup_ofDocument (hc : Markup.IsRootPlace c) {t : Tree Content}
    (ht : Markup.isRoot t.label = true) :
    ∃ u, (ofDocument (.ofMarkup (c.plug [t]))).document.markup = c.plug [u] ∧
      Rel (IdGiven fun _ ↦ True) t u ∧ Markup.HasIds u := by
  have hnodup := Document.nodup_handlesAll_ofMarkup (c.plug [t])
  obtain ⟨d, ns, hplug, rfl, hns⟩ :=
    Node.exists_plug_of_map_bare (Document.markup_ofMarkup (c.plug [t]))
  obtain ⟨root, rfl, rfl⟩ := List.map_eq_singleton_iff.1 hns
  rw [Node.label_bare] at ht
  have hroot := Document.root?_of_topLevel hplug hc ht
  rw [hplug] at hnodup
  have hgiven := rel_name givesGood_true root (fun _ _ ↦ trivial) none none (fun _ _ ↦ trivial)
    (Naming.ofIds (Document.ofMarkup ((d.map Slot.content).plug [root.bare])).ids)
  refine ⟨_, ?_, Rel.map (fun _ _ hslot ↦ hslot.content) hgiven, hasIds_name root none none _⟩
  rw [ofDocument_of_root? hroot]
  show (Node.modifyAll root.handle _ (Document.ofMarkup _).topLevel).map Node.bare = _
  rw [hplug, Node.map_bare_modifyAll_plug hnodup]
  rfl

end Drawing

end SvgWorkbench
