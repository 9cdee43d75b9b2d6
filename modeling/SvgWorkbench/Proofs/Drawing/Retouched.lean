import SvgWorkbench.Proofs.Component.Spares
import SvgWorkbench.Proofs.Drawing.View
import SvgWorkbench.Proofs.Tree.Rel

/-!
# Retouched markup

Giving out ids and setting attributes change the attributes of some elements and nothing else. The
components of such elements change, and those of all others stay as they are: texts and the places
of elements, which the components of the elements around depend on, are not concerned.
-/

namespace SvgWorkbench.Markup

open SvgWorkbench.Tree Component

/-- What has become of the content of a node when attributes have been changed: nothing, or it is an
element whose id is in a set, and has kept its tag. -/
inductive Retouched (meant : String → Prop) : Content → Content → Prop where
  /-- The content stays. -/
  | same (c : Content) : Retouched meant c c
  /-- The element has other attributes. -/
  | element {e e' : Element} (hname : e'.name = e.name) (hmeant : meant (e.id?.getD "")) :
    Retouched meant (.element e) (.element e')

variable {meant : String → Prop}

theorem Retouched.isElement_eq {c c' : Content} (h : Retouched meant c c') :
    c'.isElement = c.isElement := by
  cases h <;> rfl

theorem Retouched.isRoot_eq {c c' : Content} (h : Retouched meant c c') :
    isRoot c' = isRoot c := by
  cases h with
  | same => rfl
  | element hname => simp [isRoot, Content.element?, hname]

/-! ## Texts and elements -/

mutual

theorem textOf_eq_of_rel {t u : Tree Content} (h : Rel (Retouched meant) t u) :
    textOf u = textOf t := by
  match t, u, h with
  | .node c ts, .node _ us, ⟨.same _, hchildren⟩ =>
    cases c with
    | element e => exact textOfAll_eq_of_relAll hchildren
    | text s => rfl
    | comment s => rfl
    | instruction s => rfl
    | doctype s => rfl
  | .node _ ts, .node _ us, ⟨.element _ _, hchildren⟩ => exact textOfAll_eq_of_relAll hchildren

theorem textOfAll_eq_of_relAll {ts us : List (Tree Content)} (h : RelAll (Retouched meant) ts us) :
    textOfAll us = textOfAll ts := by
  match ts, us, h with
  | [], [], _ => rfl
  | t :: ts, u :: us, h =>
    rw [textOfAll, textOfAll, textOf_eq_of_rel h.1, textOfAll_eq_of_relAll h.2]

end

theorem hasElements_eq_of_relAll {ts us : List (Tree Content)}
    (h : RelAll (Retouched meant) ts us) : hasElements us = hasElements ts := by
  match ts, us, h with
  | [], [], _ => rfl
  | .node c _ :: ts, .node c' _ :: us, h =>
    rw [hasElements, hasElements, List.any_cons, List.any_cons, label_node, label_node,
      h.1.1.isElement_eq]
    exact congrArg (c.isElement || ·) (hasElements_eq_of_relAll h.2)

/-- The attributes of a component depend on what is inside only by its text and whether there are
elements. -/
theorem attributesOf_congr (e : Element) {ts us : List (Tree Content)}
    (helements : hasElements us = hasElements ts)
    (htext : hasElements ts = false → textOfAll us = textOfAll ts) :
    attributesOf e us = attributesOf e ts := by
  rw [attributesOf, attributesOf, helements]
  cases hts : hasElements ts with
  | true => simp only [Bool.true_or, if_true]
  | false => rw [htext hts]

theorem attributesOf_eq_of_relAll {ts us : List (Tree Content)}
    (h : RelAll (Retouched meant) ts us) (e : Element) : attributesOf e us = attributesOf e ts :=
  attributesOf_congr e (hasElements_eq_of_relAll h) fun _ ↦ textOfAll_eq_of_relAll h

/-! ## The root -/

mutual

private theorem find?_elementsOf_of_rel {t u : Tree Content} (h : Rel (Retouched meant) t u) :
    Option.Rel (Rel (Retouched meant)) ((elementsOf t).find? (isRoot ·.label))
      ((elementsOf u).find? (isRoot ·.label)) := by
  match t, u, h with
  | .node c ts, .node c' us, h =>
    rw [elementsOf, elementsOf, h.1.isElement_eq]
    split
    case isFalse => exact .none
    rw [List.find?_cons, List.find?_cons, label_node, label_node, h.1.isRoot_eq]
    split
    · exact .some h
    · exact find?_elementsOfAll_of_relAll h.2

private theorem find?_elementsOfAll_of_relAll {ts us : List (Tree Content)}
    (h : RelAll (Retouched meant) ts us) :
    Option.Rel (Rel (Retouched meant)) ((elementsOfAll ts).find? (isRoot ·.label))
      ((elementsOfAll us).find? (isRoot ·.label)) := by
  match ts, us, h with
  | [], [], _ => exact .none
  | t :: ts, u :: us, h =>
    rw [elementsOfAll, elementsOfAll, List.find?_append, List.find?_append]
    -- both look into the first tree with the same result, found or not
    have hfirst := find?_elementsOf_of_rel h.1
    generalize (elementsOf t).find? _ = first at hfirst ⊢
    generalize (elementsOf u).find? _ = first' at hfirst ⊢
    cases hfirst with
    | some hroot => exact .some hroot
    | none => exact find?_elementsOfAll_of_relAll h.2

end

/-- The roots of markup and of retouched markup are at the same place. -/
theorem rel_root? {m m' : Markup} (h : RelAll (Retouched meant) m m') :
    Option.Rel (Rel (Retouched meant)) (root? m) (root? m') := find?_elementsOfAll_of_relAll h

/-! ## Components -/

mutual

theorem sparesAll_view_of_rel {t u : Tree Content} (h : Rel (Retouched meant) t u)
    (parent : Option String) : SparesAll meant (view parent t) (view parent u) := by
  match t, u, h with
  | .node c ts, .node _ us, ⟨.same _, hchildren⟩ =>
    rcases c.eq_element_or with ⟨e, rfl⟩ | hc
    · have hentry : entryOf parent e us = entryOf parent e ts := by
        rw [entryOf, entryOf, attributesOf_eq_of_relAll hchildren]
      rw [view, view, hentry]
      exact .keep ⟨rfl, .inl rfl⟩ (sparesAll_viewAll_of_relAll hchildren _) .nil
    · rw [view_of_isElement_eq_false hc, view_of_isElement_eq_false hc]
      exact .nil
  | .node _ ts, .node _ us, ⟨.element _ hmeant, _⟩ => exact .change hmeant .nil

theorem sparesAll_viewAll_of_relAll {ts us : List (Tree Content)}
    (h : RelAll (Retouched meant) ts us) (parent : Option String) :
    SparesAll meant (viewAll parent ts) (viewAll parent us) := by
  match ts, us, h with
  | [], [], _ => exact .nil
  | t :: ts, u :: us, h =>
    exact (sparesAll_view_of_rel h.1 parent).append (sparesAll_viewAll_of_relAll h.2 parent)

end

/-- **Retouching spares the components** of all elements that are not retouched. -/
theorem sparesAll_components_of_relAll {m m' : Markup} (h : RelAll (Retouched meant) m m') :
    SparesAll meant (components m) (components m') := by
  have hroot := rel_root? h
  rw [components, components]
  generalize root? m = r at hroot ⊢
  generalize root? m' = r' at hroot ⊢
  cases hroot with
  | some hrel => exact sparesAll_view_of_rel hrel none
  | none => exact .nil

/-! ## Ids -/

mutual

private theorem exists_id_eq_of_rel {t u : Tree Content} (h : Rel (Retouched meant) t u)
    (parent parent' : Option String) {c : Component} (hc : c ∈ subtreesAll (view parent t))
    (hnot : ¬ meant c.id) : ∃ c' : Component, c' ∈ subtreesAll (view parent' u) ∧ c'.id = c.id := by
  match t, u, h with
  | .node k ts, .node k' us, h =>
    rcases k.eq_element_or with ⟨e, rfl⟩ | hk
    case inr => rw [view_of_isElement_eq_false hk] at hc; cases hc
    rw [view, subtreesAll, subtreesAll, List.append_nil] at hc
    obtain ⟨e', rfl⟩ : ∃ e', k' = .element e' :=
      k'.eq_element_or.resolve_right fun hk' ↦ by cases hk'.symm.trans h.1.isElement_eq
    rw [view, subtreesAll, subtreesAll, List.append_nil]
    rcases List.mem_cons.1 hc with rfl | hc
    · -- an element that is not meant has not been retouched itself
      obtain ⟨hsame, -⟩ := h
      cases hsame with
      | same => exact ⟨_, List.mem_cons_self, rfl⟩
      | element _ hmeant => exact absurd hmeant hnot
    · obtain ⟨c', hc', heq⟩ := exists_id_eq_of_relAll h.2 _ (some (e'.id?.getD "")) hc hnot
      exact ⟨c', List.mem_cons_of_mem _ hc', heq⟩

private theorem exists_id_eq_of_relAll {ts us : List (Tree Content)}
    (h : RelAll (Retouched meant) ts us) (parent parent' : Option String) {c : Component}
    (hc : c ∈ subtreesAll (viewAll parent ts)) (hnot : ¬ meant c.id) :
    ∃ c' : Component, c' ∈ subtreesAll (viewAll parent' us) ∧ c'.id = c.id := by
  match ts, us, h with
  | [], [], _ => cases hc
  | t :: ts, u :: us, h =>
    rw [viewAll, subtreesAll_append] at hc ⊢
    rcases List.mem_append.1 hc with hc | hc
    · obtain ⟨c', hc', heq⟩ := exists_id_eq_of_rel h.1 parent parent' hc hnot
      exact ⟨c', List.mem_append_left _ hc', heq⟩
    · obtain ⟨c', hc', heq⟩ := exists_id_eq_of_relAll h.2 parent parent' hc hnot
      exact ⟨c', List.mem_append_right _ hc', heq⟩

end

/-- **Retouching leaves all ids but those of the elements that are retouched**, also inside these
elements. -/
theorem exists_id_eq_components {m m' : Markup} (h : RelAll (Retouched meant) m m') {c : Component}
    (hc : c ∈ subtreesAll (components m)) (hnot : ¬ meant c.id) :
    ∃ c' : Component, c' ∈ subtreesAll (components m') ∧ c'.id = c.id := by
  have hroot := rel_root? h
  rw [components] at hc ⊢
  generalize root? m = r at hroot hc
  generalize root? m' = r' at hroot ⊢
  cases hroot with
  | some hrel => exact exists_id_eq_of_rel hrel none none hc hnot
  | none => cases hc

end SvgWorkbench.Markup
