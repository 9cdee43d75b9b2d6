import SvgWorkbench.Proofs.Component.Outline
import SvgWorkbench.Proofs.Drawing.Positional

/-!
# Outlines of drawings

The components of a drawing are linked, since each takes the id of the element around it for its
parent. So a flat list of them can be nested again: nothing is lost, even if an element repeats an
id of its author, and if none does, the outline has the shape of the drawing.
-/

namespace SvgWorkbench

open SvgWorkbench.Tree

/-- The components of the elements of a forest are linked. -/
theorem Markup.areLinked_viewAll (ts : List (Tree Content)) (parent : Option String) :
    Component.AreLinked parent (viewAll parent ts) := by
  induction ts using forest_induction generalizing parent with
  | nil => exact Component.areLinked_nil parent
  | cons c us ts ihus ihts =>
    rw [viewAll]
    rcases c.eq_element_or with ⟨e, rfl⟩ | hc
    · exact Component.areLinked_cons.2 ⟨rfl, ihus _, ihts parent⟩
    · rw [view_of_isElement_eq_false hc]
      exact ihts parent

namespace Drawing

theorem areLinked_of_parse {markup : String} {p : Drawing} (h : parse markup = .ok p) :
    Component.AreLinked none p.components := by
  obtain ⟨-, m, -, rfl⟩ := exists_markup_of_parse h
  rw [components_ofDocument, Markup.components]
  cases hroot : Markup.root? (ofDocument (.ofMarkup m)).document.markup with
  | none => exact Component.areLinked_nil none
  | some root =>
    have hlinked := Markup.areLinked_viewAll [root] none
    rwa [Markup.viewAll, Markup.viewAll, List.append_nil] at hlinked

theorem exists_parse_of_componentsOf {markup : String} {forest : List Component}
    (h : componentsOf markup = .ok forest) : ∃ p, parse markup = .ok p ∧ p.components = forest := by
  rw [componentsOf] at h
  cases hparse : parse markup with
  | error e => rw [hparse] at h; cases h
  | ok p =>
    rw [hparse] at h
    exact ⟨p, rfl, Except.ok.inj h⟩

/-- **Nesting a flat list undoes flattening.** If components are linked and no two have the same id,
the outline of their flat list is they themselves without their attributes. The components of a text
are linked, and even if an id is repeated among them, their outline has one root, if there are any,
and as many entries as there are components. -/
theorem build_flatten (withAttributes : Bool) :
    (∀ forest, Component.AreLinked none forest →
      ((Component.all forest).map Component.id).Nodup →
      Outline.build (Component.flatten withAttributes forest) = mapAll Entry.heading forest) ∧
    ∀ markup forest, componentsOf markup = .ok forest → Component.AreLinked none forest ∧
      (forest ≠ [] → ∃ root, Outline.build (Component.flatten withAttributes forest) = [root]) ∧
      sizeAll (Outline.build (Component.flatten withAttributes forest)) = sizeAll forest := by
  constructor
  · intro forest hlinked hnodup
    rw [Component.all_eq] at hnodup
    exact Outline.build_flatten_of_nodup hlinked hnodup withAttributes
  · intro markup forest h
    obtain ⟨p, hparse, rfl⟩ := exists_parse_of_componentsOf h
    have hlinked := areLinked_of_parse hparse
    refine ⟨hlinked, fun hne ↦ ?_, Outline.sizeAll_build hlinked withAttributes⟩
    obtain hnil | ⟨c, hc⟩ := components_eq_nil_or_of_parse hparse
    · exact absurd hnil hne
    · have hlength := Outline.length_build hlinked withAttributes
      rw [hc] at hlength ⊢
      exact List.length_eq_one_iff.1 hlength

/-- A group with a child, and a drawing in which two groups have the same id. -/
theorem build_flatten_of_repeated_id :
    Outline.build (Component.flatten false
        [.node ⟨"a", "g", none, .ofList [("id", "a")]⟩ [.node ⟨"b", "rect", some "a", .ofList []⟩ []]])
      = [.node ⟨"a", "g", none⟩ [.node ⟨"b", "rect", some "a"⟩ []]] ∧
    ∃ forest, componentsOf "<svg><g id=\"a\"/><g id=\"a\"><rect/></g></svg>" = .ok forest ∧
      ¬ ((Component.all forest).map Component.id).Nodup ∧
      (∃ root, Outline.build (Component.flatten false forest) = [root]) ∧
      sizeAll (Outline.build (Component.flatten false forest)) = 4 := by
  have hforest : componentsOf "<svg><g id=\"a\"/><g id=\"a\"><rect/></g></svg>" = .ok
      [.node ⟨"svg-0", "svg", none, .ofList [("id", "svg-0")]⟩
        [.node ⟨"a", "g", some "svg-0", .ofList [("id", "a")]⟩ [],
          .node ⟨"a", "g", some "svg-0", .ofList [("id", "a")]⟩
            [.node ⟨"a-rect-0", "rect", some "a", .ofList [("id", "a-rect-0")]⟩ []]]] := by cbv
  obtain ⟨-, hroot, hsize⟩ := (build_flatten false).2 _ _ hforest
  refine ⟨(build_flatten false).1 _ ?_ ?_, _, hforest, ?_, hroot (List.cons_ne_nil _ _), hsize⟩
  · simp [Component.areLinked_cons, Component.areLinked_nil]
  · rw [Component.all_eq]
    decide
  · rw [Component.all_eq]
    decide

end Drawing

end SvgWorkbench
