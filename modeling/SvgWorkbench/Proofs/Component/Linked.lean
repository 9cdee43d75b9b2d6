import Mathlib.Data.List.Nodup
import SvgWorkbench.Proofs.Component.Lookup

/-!
# Linked components

A component names its parent by id. In a linked forest this is the component around it, so a
component comes after one with the id it names, and if no two components have the same id, those
that name one are its children. The components of a drawing are linked.
-/

namespace SvgWorkbench.Component

open SvgWorkbench.Tree

/-- Whether the components of a forest have a given parent at the top, and the component around them
as parent below. -/
structure AreLinked (parent : Option String) (forest : List Component) : Prop where
  /-- The roots have the given parent. -/
  roots : ∀ c ∈ forest, c.parent = parent
  /-- The others have the component around them. -/
  children : ∀ c : Component, c ∈ subtreesAll forest → ∀ d ∈ Tree.children c,
    Component.parent d = some c.id

variable {parent : Option String} {forest : List Component}

theorem areLinked_nil (parent : Option String) : AreLinked parent [] :=
  ⟨List.forall_mem_nil _, List.forall_mem_nil _⟩

theorem areLinked_cons {e : Entry} {cs ts : List Component} :
    AreLinked parent (.node e cs :: ts) ↔
      e.parent = parent ∧ AreLinked (some e.id) cs ∧ AreLinked parent ts := by
  constructor
  · rintro ⟨hroots, hchildren⟩
    simp only [subtreesAll, subtrees, List.cons_append, List.forall_mem_cons,
      List.forall_mem_append] at hroots hchildren
    exact ⟨hroots.1, ⟨hchildren.1, hchildren.2.1⟩, ⟨hroots.2, hchildren.2.2⟩⟩
  · rintro ⟨hparent, hcs, hts⟩
    constructor
    · exact List.forall_mem_cons.2 ⟨hparent, hts.roots⟩
    · simp only [subtreesAll, subtrees, List.cons_append, List.forall_mem_cons,
        List.forall_mem_append]
      exact ⟨hcs.roots, hcs.children, hts.children⟩

/-- A component comes after one with the id of its parent, unless it is a root. -/
theorem AreLinked.exists_before (h : AreLinked parent forest) {i : Nat} {c : Component}
    (hc : (subtreesAll forest)[i]? = some c) :
    c.parent = parent ∨
      ∃ j, j < i ∧ ∃ d : Component, (subtreesAll forest)[j]? = some d ∧ c.parent = some d.id := by
  induction forest using forest_induction generalizing parent i with
  | nil => cases hc
  | cons e cs ts ihcs ihts =>
    obtain ⟨hparent, hcs, hts⟩ := areLinked_cons.1 h
    have hsubtrees : subtreesAll (.node e cs :: ts)
        = .node e cs :: (subtreesAll cs ++ subtreesAll ts) := rfl
    rw [hsubtrees] at hc ⊢
    cases i with
    | zero =>
      obtain rfl := Option.some.inj hc
      exact .inl hparent
    | succ i =>
      rw [List.getElem?_cons_succ] at hc
      by_cases hi : i < (subtreesAll cs).length
      · rw [List.getElem?_append_left hi] at hc
        refine .inr ?_
        obtain hroot | ⟨j, hj, d, hd, hcd⟩ := ihcs hcs hc
        · exact ⟨0, Nat.succ_pos i, .node e cs, rfl, hroot⟩
        · refine ⟨j + 1, Nat.succ_lt_succ hj, d, ?_, hcd⟩
          rw [List.getElem?_cons_succ, List.getElem?_append_left (Nat.lt_trans hj hi), hd]
      · rw [List.getElem?_append_right (Nat.le_of_not_lt hi)] at hc
        obtain hroot | ⟨j, hj, d, hd, hcd⟩ := ihts hts hc
        · exact .inl hroot
        · refine .inr ⟨(subtreesAll cs).length + j + 1, by omega, d, ?_, hcd⟩
          rw [List.getElem?_cons_succ, List.getElem?_append_right (Nat.le_add_right _ _),
            Nat.add_sub_cancel_left, hd]

/-! ## Who names a component -/

/-- In a forest without a component of some id, only the roots can name it. -/
theorem AreLinked.filter_parent_of_forall_ne (h : AreLinked parent forest) {named : Option String}
    (hnamed : ∀ c : Component, c ∈ subtreesAll forest → some c.id ≠ named) :
    (subtreesAll forest).filter (fun c : Component ↦ c.parent == named)
      = if parent = named then forest else [] := by
  induction forest using forest_induction generalizing parent with
  | nil => rw [ite_self]; rfl
  | cons e cs ts ihcs ihts =>
    obtain ⟨rfl, hcs, hts⟩ := areLinked_cons.1 h
    simp only [subtreesAll, subtrees, List.cons_append, List.forall_mem_cons,
      List.forall_mem_append] at hnamed
    obtain ⟨hne, hcsnamed, htsnamed⟩ := hnamed
    have hne' : some e.id ≠ named := hne
    have hhead : (Component.parent (.node e cs) == named) = decide (e.parent = named) := by
      rw [Bool.eq_iff_iff, beq_iff_eq, decide_eq_true_iff]
      rfl
    rw [subtreesAll, subtrees, List.cons_append, List.filter_cons, List.filter_append,
      ihcs hcs hcsnamed, ihts hts htsnamed, if_neg hne', hhead]
    by_cases hparent : e.parent = named <;> simp [hparent]

/-- **Those that name a component are its children**, if no two components have the same id. -/
theorem AreLinked.filter_parent (h : AreLinked parent forest)
    (hnodup : ((subtreesAll forest).map Component.id).Nodup) {c : Component}
    (hc : c ∈ subtreesAll forest) (hparent : parent ≠ some c.id) :
    (subtreesAll forest).filter (fun d : Component ↦ d.parent == some c.id) = Tree.children c := by
  induction forest using forest_induction generalizing parent with
  | nil => cases hc
  | cons e cs ts ihcs ihts =>
    obtain ⟨rfl, hcs, hts⟩ := areLinked_cons.1 h
    have hsubtrees : subtreesAll (.node e cs :: ts)
        = .node e cs :: (subtreesAll cs ++ subtreesAll ts) := rfl
    rw [hsubtrees] at hc hnodup ⊢
    rw [List.map_cons, List.map_append, List.nodup_cons, List.nodup_append] at hnodup
    obtain ⟨hid, hcsnodup, htsnodup, hdisjoint⟩ := hnodup
    have hhead : ¬ (Component.parent (.node e cs) == some c.id) = true :=
      fun heq ↦ hparent (beq_iff_eq.1 heq)
    -- the children are among those below the root or among those after it, and the others are not
    have hne : ∀ {d : Component} {us : List Component}, d ∈ subtreesAll us →
        c.id ∉ (subtreesAll us).map Component.id → some d.id ≠ some c.id :=
      fun hd hnot heq ↦ hnot (Option.some.inj heq ▸ List.mem_map_of_mem hd)
    rw [List.filter_cons_of_neg (by simpa using hhead), List.filter_append]
    rcases List.mem_cons.1 hc with rfl | hc
    · rw [List.mem_append, not_or] at hid
      rw [hcs.filter_parent_of_forall_ne fun d hd ↦ hne hd hid.1,
        hts.filter_parent_of_forall_ne fun d hd ↦ hne hd hid.2, if_neg hparent, List.append_nil]
      exact if_pos rfl
    · rw [← List.map_append] at hid
      have hid' : some e.id ≠ some c.id := fun heq ↦
        hid (List.mem_map.2 ⟨c, hc, (Option.some.inj heq).symm⟩)
      rcases List.mem_append.1 hc with hc | hc
      · rw [ihcs hcs hcsnodup hc hid', hts.filter_parent_of_forall_ne fun d hd ↦ hne hd fun hmem ↦
          hdisjoint _ (List.mem_map_of_mem hc) _ hmem rfl, if_neg hparent, List.append_nil]
      · rw [ihts hts htsnodup hc hparent, hcs.filter_parent_of_forall_ne fun d hd ↦ hne hd fun hmem ↦
          hdisjoint _ hmem _ (List.mem_map_of_mem hc) rfl, if_neg hid', List.nil_append]

end SvgWorkbench.Component
