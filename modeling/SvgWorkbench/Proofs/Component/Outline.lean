import Mathlib.Data.List.Basic
import Mathlib.Data.List.Count
import Mathlib.Data.List.Induction
import SvgWorkbench.Component.Outline
import SvgWorkbench.Proofs.Component.Linked

/-!
# Outlines of linked components

An outline is nested by the parents that the entries of a flat list name. If these come earlier in
the list, as those of linked components do, no entry is its own ancestor, the depth to which the
nesting goes is enough, and every entry appears exactly once: this is so even if an id is repeated
and an entry goes under another component than the one it was in. If no id is repeated, the outline
has the shape of the components that were flattened.
-/

namespace SvgWorkbench

open SvgWorkbench.Tree

namespace Outline

/-! ## Places under one another -/

theorem placesUnder_eq_filter (parents : List (Option Nat)) (parent : Option Nat) :
    placesUnder parents parent
      = (List.range parents.length).filter fun i ↦ parents[i]? == some parent := by
  induction parents using List.reverseRecOn with
  | nil => rfl
  | append_singleton parents last ih =>
    have hbefore : (List.range parents.length).filter
          (fun i ↦ (parents ++ [last])[i]? == some parent)
        = (List.range parents.length).filter fun i ↦ parents[i]? == some parent :=
      List.filter_congr fun i hi ↦ by rw [List.getElem?_append_left (List.mem_range.1 hi)]
    rw [placesUnder] at ih ⊢
    rw [List.zipIdx_append, List.filter_append, List.map_append, ih, List.length_append,
      List.length_singleton, List.range_succ, List.filter_append, hbefore]
    by_cases hlast : last = parent <;> simp [hlast]

theorem mem_placesUnder {parents : List (Option Nat)} {parent : Option Nat} {i : Nat} :
    i ∈ placesUnder parents parent ↔ parents[i]? = some parent := by
  rw [placesUnder_eq_filter, List.mem_filter, List.mem_range, beq_iff_eq]
  exact ⟨And.right, fun h ↦ ⟨(List.getElem?_eq_some_iff.1 h).choose, h⟩⟩

theorem nodup_placesUnder (parents : List (Option Nat)) (parent : Option Nat) :
    (placesUnder parents parent).Nodup := by
  rw [placesUnder_eq_filter]
  exact List.nodup_range.filter _

/-- A place is under its parent and under no other place. -/
theorem count_placesUnder (parents : List (Option Nat)) (parent : Option Nat) (i : Nat) :
    (placesUnder parents parent).count i = if parents[i]? = some parent then 1 else 0 := by
  rw [(nodup_placesUnder parents parent).count]
  simp only [mem_placesUnder]

/-! ## Every place once -/

section

variable {parents : List (Option Nat)}

/-- Whether every place that has a parent comes after it. -/
def IsForward (parents : List (Option Nat)) : Prop :=
  ∀ i parent : Nat, parents[i]? = some (some parent) → parent < i

/-- Whether a place appears as often as its parent among some places, besides the times it is one of
the topmost of these. -/
def FollowsParent (parents : List (Option Nat)) (i : Nat) (topmost : List Nat)
    (places : List Nat) : Prop :=
  places.count i = topmost.count i +
    (parents[i]?.join.elim 0 fun parent ↦ places.count parent)

theorem followsParent_nil (i : Nat) : FollowsParent parents i [] [] := by
  rw [FollowsParent]
  cases parents[i]?.join <;> rfl

theorem FollowsParent.append {i : Nat} {topmost topmost' places places' : List Nat}
    (h : FollowsParent parents i topmost places)
    (h' : FollowsParent parents i topmost' places') :
    FollowsParent parents i (topmost ++ topmost') (places ++ places') := by
  rw [FollowsParent] at h h' ⊢
  rw [List.count_append, List.count_append, h, h']
  cases parents[i]?.join with
  | none => rfl
  | some parent =>
    simp only [Option.elim_some, List.count_append]
    omega

theorem followsParent_preorderAll {i depth : Nat} {js : List Nat}
    (h : ∀ j ∈ js, FollowsParent parents i [j] (nest parents depth j).preorder) :
    FollowsParent parents i js (preorderAll (js.map (nest parents depth))) := by
  induction js with
  | nil => exact followsParent_nil i
  | cons j js ih =>
    rw [List.forall_mem_cons] at h
    exact h.1.append (ih h.2)

/-- Places that are under a place follow their parents when it is put on top of them. -/
theorem FollowsParent.cons {i j : Nat} {places : List Nat}
    (h : FollowsParent parents i (placesUnder parents (some j)) places) :
    FollowsParent parents i [j] (j :: places) := by
  rw [FollowsParent, count_placesUnder] at h
  rw [FollowsParent, List.count_cons, h, List.count_singleton]
  cases hparent : parents[i]? with
  | none => simp
  | some parent =>
    cases parent with
    | none => simp
    | some parent =>
      simp only [Option.join_some, Option.elim_some, Option.some_inj, List.count_cons, beq_iff_eq,
        eq_comm (a := parent)]
      omega

/-- The nesting follows the parents, if its depth reaches beyond the last place. -/
theorem followsParent_nest (hforward : IsForward parents) (i : Nat) {depth j : Nat}
    (hdepth : parents.length ≤ depth + j) :
    FollowsParent parents i [j] (nest parents depth j).preorder := by
  induction depth generalizing j with
  | zero =>
    -- the depth is used up only beyond the last place, where nothing is under a place
    have hnone : placesUnder parents (some j) = [] := by
      refine List.eq_nil_iff_forall_not_mem.2 fun k hk ↦ ?_
      have hk := mem_placesUnder.1 hk
      have := (List.getElem?_eq_some_iff.1 hk).choose
      have := hforward k j hk
      omega
    have hunder : FollowsParent parents i (placesUnder parents (some j)) [] := by
      rw [hnone]
      exact followsParent_nil i
    exact hunder.cons
  | succ depth ih =>
    refine FollowsParent.cons (followsParent_preorderAll fun k hk ↦ ih ?_)
    have := hforward k j (mem_placesUnder.1 hk)
    omega

/-- **Every place appears exactly once.** -/
theorem perm_preorderAll_nest (hforward : IsForward parents) :
    (preorderAll ((placesUnder parents none).map (nest parents parents.length))).Perm
      (List.range parents.length) := by
  rw [List.perm_iff_count]
  intro i
  have hfollows : ∀ i, FollowsParent parents i (placesUnder parents none) _ := fun i ↦
    followsParent_preorderAll fun j _ ↦
      followsParent_nest hforward i (Nat.le_add_right parents.length j)
  rw [List.count_range]
  induction i using Nat.strongRecOn with
  | ind i ih =>
    have hi := hfollows i
    rw [FollowsParent, count_placesUnder] at hi
    rw [hi]
    cases hparent : parents[i]? with
    | none =>
      have := List.getElem?_eq_none_iff.1 hparent
      simp [Nat.not_lt.2 this]
    | some parent =>
      have hlt := (List.getElem?_eq_some_iff.1 hparent).choose
      cases parent with
      | none => simp [hlt]
      | some parent =>
        have hbefore := hforward i parent hparent
        simp [ih parent hbefore, hlt, Nat.lt_trans hbefore hlt]

end

/-! ## Flat lists of linked components -/

section

variable {forest : List Component}

@[simp] theorem length_parents (flat : List Flat) : (parents flat).length = flat.length := by
  rw [parents, List.length_map, List.length_range]

theorem getElem?_parents {flat : List Flat} {i : Nat} (hi : i < flat.length) :
    (parents flat)[i]? = some (parentIndex? flat i) := by
  rw [parents, List.getElem?_map, List.getElem?_range hi, Option.map_some]

theorem flatten_eq_map (withAttributes : Bool) (forest : List Component) :
    Component.flatten withAttributes forest = (subtreesAll forest).map fun c ↦
      ⟨c.label.heading, if withAttributes then some c.label.attributes else none⟩ := by
  rw [Component.flatten, Component.all_eq]

theorem length_flatten (withAttributes : Bool) (forest : List Component) :
    (Component.flatten withAttributes forest).length = (subtreesAll forest).length := by
  rw [flatten_eq_map, List.length_map]

theorem getElem?_parents_flatten {withAttributes : Bool} {i : Nat} {c : Component}
    (hc : (subtreesAll forest)[i]? = some c) :
    (parents (Component.flatten withAttributes forest))[i]?
      = some (parentIndex? (Component.flatten withAttributes forest) i) :=
  getElem?_parents (length_flatten withAttributes forest ▸ (List.getElem?_eq_some_iff.1 hc).choose)

theorem headingAt_flatten {withAttributes : Bool} {i : Nat} {c : Component}
    (hc : (subtreesAll forest)[i]? = some c) :
    headingAt (Component.flatten withAttributes forest) i = c.label.heading := by
  rw [headingAt, flatten_eq_map, List.getElem?_map, hc]
  rfl

/-- Where a list has some entry, there is a first such entry. -/
private theorem exists_findIdx? {α : Type} {xs : List α} {p : α → Bool} {j : Nat} {x : α}
    (hx : xs[j]? = some x) (hp : p x = true) :
    ∃ k, k ≤ j ∧ xs.findIdx? p = some k ∧ ∃ y, xs[k]? = some y ∧ p y = true := by
  obtain ⟨hj, rfl⟩ := List.getElem?_eq_some_iff.1 hx
  cases hfind : xs.findIdx? p with
  | none => exact absurd hp (by simpa using List.findIdx?_eq_none_iff.1 hfind _ (List.getElem_mem hj))
  | some k =>
    obtain ⟨hk, hpk, hbefore⟩ := List.findIdx?_eq_some_iff_getElem.1 hfind
    exact ⟨k, Nat.le_of_not_lt fun hlt ↦ hbefore j hlt hp, rfl, _, List.getElem?_eq_getElem hk, hpk⟩

/-- A component without a parent goes to the top, and every other one under an earlier one with the
id it names. -/
theorem parentIndex?_flatten (hlinked : Component.AreLinked none forest) (withAttributes : Bool)
    {i : Nat} {c : Component} (hc : (subtreesAll forest)[i]? = some c) :
    c.parent = none ∧ parentIndex? (Component.flatten withAttributes forest) i = none ∨
      ∃ j, j < i ∧ ∃ d : Component, (subtreesAll forest)[j]? = some d ∧ c.parent = some d.id ∧
        parentIndex? (Component.flatten withAttributes forest) i = some j := by
  have hplace : parentIndex? (Component.flatten withAttributes forest) i
      = c.parent.bind fun id ↦
        ((subtreesAll forest).findIdx? fun d : Component ↦ d.id == id).filter (· != i) := by
    rw [parentIndex?, flatten_eq_map, List.getElem?_map, hc]
    simp only [List.findIdx?_map]
    rfl
  rw [hplace]
  obtain hnone | ⟨j, hj, d, hd, hparent⟩ := hlinked.exists_before hc
  · exact .inl ⟨hnone, by rw [hnone, Option.bind_none]⟩
  · obtain ⟨k, hk, hfind, d', hd', hid⟩ :=
      exists_findIdx? (p := fun d' : Component ↦ d'.id == d.id) hd (beq_self_eq_true _)
    have hki : k < i := Nat.lt_of_le_of_lt hk hj
    refine .inr ⟨k, hki, d', hd', by rw [hparent, beq_iff_eq.1 hid], ?_⟩
    rw [hparent, Option.bind_some, hfind, Option.filter_some, if_pos]
    exact bne_iff_ne.2 (Nat.ne_of_lt hki)

theorem exists_of_getElem?_parents {withAttributes : Bool} {i : Nat} {parent : Option Nat}
    (h : (parents (Component.flatten withAttributes forest))[i]? = some parent) :
    ∃ c : Component, (subtreesAll forest)[i]? = some c ∧
      parentIndex? (Component.flatten withAttributes forest) i = parent := by
  have hi : i < (subtreesAll forest).length := by
    rw [← length_flatten withAttributes, ← length_parents]
    exact (List.getElem?_eq_some_iff.1 h).choose
  have hc := List.getElem?_eq_getElem hi
  rw [getElem?_parents_flatten hc, Option.some_inj] at h
  exact ⟨_, hc, h⟩

theorem isForward_parents (hlinked : Component.AreLinked none forest) (withAttributes : Bool) :
    IsForward (parents (Component.flatten withAttributes forest)) := by
  intro i parent hparent
  obtain ⟨c, hc, hplace⟩ := exists_of_getElem?_parents hparent
  obtain ⟨-, hnone⟩ | ⟨j, hj, -, -, -, hsome⟩ := parentIndex?_flatten hlinked withAttributes hc
  · cases hnone.symm.trans hplace
  · cases hsome.symm.trans hplace
    exact hj

/-- **Every component appears exactly once in the outline**, whether or not an id is repeated. -/
theorem perm_preorderAll_build (hlinked : Component.AreLinked none forest)
    (withAttributes : Bool) :
    (preorderAll (build (Component.flatten withAttributes forest))).Perm
      ((subtreesAll forest).map fun c ↦ c.label.heading) := by
  have hperm := perm_preorderAll_nest (isForward_parents hlinked withAttributes)
  rw [length_parents] at hperm
  rw [build, ← mapAll_eq_map, preorderAll_mapAll, places]
  refine (hperm.map _).trans (List.Perm.of_eq ?_)
  refine List.ext_getElem? fun i ↦ ?_
  rw [List.getElem?_map, List.getElem?_map]
  by_cases hi : i < (subtreesAll forest).length
  · have hc := List.getElem?_eq_getElem hi
    rw [List.getElem?_range (by rwa [length_flatten]), hc, Option.map_some, Option.map_some,
      headingAt_flatten hc]
  · rw [List.getElem?_eq_none (by simpa [length_flatten] using hi),
      List.getElem?_eq_none (Nat.le_of_not_lt hi)]
    rfl

/-! ## Outlines of the same shape -/

/-- The entries at some places of a list, taken by a test on the places, are those that a test on
the entries takes. -/
private theorem map_getElem?_filter_range {α : Type} {xs : List α} {p : α → Bool} {q : Nat → Bool}
    (h : ∀ i x, xs[i]? = some x → q i = p x) :
    ((List.range xs.length).filter q).map (xs[·]?) = (xs.filter p).map some := by
  have hplaces : (List.range xs.length).map (xs[·]?) = xs.map some := by
    refine List.ext_getElem? fun i ↦ ?_
    rw [List.getElem?_map, List.getElem?_map]
    by_cases hi : i < xs.length
    · rw [List.getElem?_range hi, Option.map_some, List.getElem?_eq_getElem hi, Option.map_some]
    · rw [List.getElem?_eq_none (by simpa using hi), List.getElem?_eq_none (Nat.le_of_not_lt hi)]
      rfl
  have hfilter : (List.range xs.length).filter q
      = (List.range xs.length).filter ((fun x ↦ x.any p) ∘ (xs[·]?)) := by
    refine List.filter_congr fun i hi ↦ ?_
    have hx := List.getElem?_eq_getElem (List.mem_range.1 hi)
    rw [Function.comp_apply, hx, Option.any_some, h i _ hx]
  rw [hfilter, ← List.filter_map, hplaces, List.filter_map]
  rfl

/-- Lists go together under two functions if their entries do. -/
private theorem map_eq_map_of_map_eq {α β γ : Type} {f : α → Option β} {g : α → γ} {h : β → γ}
    {xs : List α} {ys : List β} (heq : xs.map f = ys.map some)
    (hgh : ∀ x y, y ∈ ys → f x = some y → g x = h y) : xs.map g = ys.map h := by
  induction xs generalizing ys with
  | nil =>
    obtain rfl := List.map_eq_nil_iff.1 heq.symm
    rfl
  | cons x xs ih =>
    cases ys with
    | nil => cases heq
    | cons y ys =>
      obtain ⟨hxy, hrest⟩ := List.cons.inj heq
      rw [List.map_cons, List.map_cons, hgh x y List.mem_cons_self hxy,
        ih hrest fun x y hy ↦ hgh x y (List.mem_cons_of_mem _ hy)]

/-- At the top stand the roots. -/
theorem map_placesUnder_none (hlinked : Component.AreLinked none forest) (withAttributes : Bool) :
    (placesUnder (parents (Component.flatten withAttributes forest)) none).map
      ((subtreesAll forest)[·]?) = forest.map some := by
  have hne : ∀ c : Component, c ∈ subtreesAll forest → some c.id ≠ none := fun _ _ ↦ nofun
  have hroots := hlinked.filter_parent_of_forall_ne hne
  rw [if_pos rfl] at hroots
  rw [placesUnder_eq_filter, length_parents, length_flatten,
    map_getElem?_filter_range (p := fun c : Component ↦ c.parent == none), hroots]
  intro i c hc
  rw [getElem?_parents_flatten hc]
  obtain ⟨hnone, hplace⟩ | ⟨j, -, d, -, hparent, hplace⟩ :=
    parentIndex?_flatten hlinked withAttributes hc
  · rw [hnone, hplace]
    rfl
  · rw [hparent, hplace]
    rfl

/-- Under a component stand its children, if no two components have the same id. -/
theorem map_placesUnder_some (hlinked : Component.AreLinked none forest)
    (hnodup : ((subtreesAll forest).map Component.id).Nodup) (withAttributes : Bool) {i : Nat}
    {c : Component} (hc : (subtreesAll forest)[i]? = some c) :
    (placesUnder (parents (Component.flatten withAttributes forest)) (some i)).map
      ((subtreesAll forest)[·]?) = (Tree.children c).map some := by
  have hchildren := hlinked.filter_parent hnodup (List.mem_of_getElem? hc) nofun
  rw [placesUnder_eq_filter, length_parents, length_flatten,
    map_getElem?_filter_range (p := fun d : Component ↦ d.parent == some c.id), hchildren]
  intro k d hd
  rw [getElem?_parents_flatten hd]
  obtain ⟨hnone, hplace⟩ | ⟨j, -, d', hd', hparent, hplace⟩ :=
    parentIndex?_flatten hlinked withAttributes hd
  · rw [hnone, hplace]
    rfl
  · -- the place under which it goes is that of the component if the ids are the same
    have hids : ∀ {l : Nat} {x : Component}, (subtreesAll forest)[l]? = some x →
        ((subtreesAll forest).map Component.id)[l]? = some x.id := fun hx ↦ by
      rw [List.getElem?_map, hx, Option.map_some]
    rw [hparent, hplace, Bool.eq_iff_iff, beq_iff_eq, beq_iff_eq, Option.some_inj, Option.some_inj,
      Option.some_inj]
    constructor
    · rintro rfl
      rw [Option.some.inj (hd'.symm.trans hc)]
    · intro heq
      have hl := (List.getElem?_eq_some_iff.1 (hids hd')).choose
      exact (List.getElem?_inj hl hnodup).1 (by rw [hids hd', hids hc, heq])

/-- Nested to a depth that reaches its last descendant, the place of a component has the shape of
the component. -/
theorem map_headingAt_nest (hlinked : Component.AreLinked none forest)
    (hnodup : ((subtreesAll forest).map Component.id).Nodup) (withAttributes : Bool)
    {depth i : Nat} {c : Component} (hc : (subtreesAll forest)[i]? = some c)
    (hdepth : c.size ≤ depth + 1) :
    (nest (parents (Component.flatten withAttributes forest)) depth i).map
      (headingAt (Component.flatten withAttributes forest)) = c.map Entry.heading := by
  induction depth generalizing i c with
  | zero =>
    obtain ⟨e, cs⟩ := c
    cases cs with
    | nil =>
      rw [nest, Tree.map, headingAt_flatten hc]
      rfl
    | cons d ds =>
      obtain ⟨a, us⟩ := d
      simp only [size, sizeAll] at hdepth
      omega
  | succ depth ih =>
    obtain ⟨e, cs⟩ := c
    have hplaces := map_placesUnder_some hlinked hnodup withAttributes hc
    have hchildren := map_eq_map_of_map_eq (h := Tree.map Entry.heading) hplaces
      fun k d hd hk ↦ ih hk (by
        have := size_le_sizeAll (mem_subtreesAll_of_mem hd)
        rw [size] at hdepth
        show Tree.size d ≤ depth + 1
        have : sizeAll (Tree.children (.node e cs)) = sizeAll cs := rfl
        omega)
    rw [nest, Tree.map, mapAll_eq_map, List.map_map, headingAt_flatten hc, Tree.map, mapAll_eq_map]
    exact congrArg (Tree.node e.heading) hchildren

/-- **The outline of linked components has their shape**, if no two of them have the same id. -/
theorem build_flatten_of_nodup (hlinked : Component.AreLinked none forest)
    (hnodup : ((subtreesAll forest).map Component.id).Nodup) (withAttributes : Bool) :
    build (Component.flatten withAttributes forest) = mapAll Entry.heading forest := by
  rw [build, places, List.map_map, mapAll_eq_map]
  refine map_eq_map_of_map_eq (map_placesUnder_none hlinked withAttributes) fun i c hc hi ↦ ?_
  refine map_headingAt_nest hlinked hnodup withAttributes hi ?_
  have := size_le_sizeAll (mem_subtreesAll_of_mem hc)
  rw [length_flatten, length_subtreesAll]
  omega

theorem length_build (hlinked : Component.AreLinked none forest) (withAttributes : Bool) :
    (build (Component.flatten withAttributes forest)).length = forest.length := by
  have hroots := congrArg List.length (map_placesUnder_none hlinked withAttributes)
  rw [List.length_map, List.length_map] at hroots
  rw [build, places, List.length_map, List.length_map, hroots]

theorem sizeAll_build (hlinked : Component.AreLinked none forest) (withAttributes : Bool) :
    sizeAll (build (Component.flatten withAttributes forest)) = sizeAll forest := by
  rw [← length_preorderAll, (perm_preorderAll_build hlinked withAttributes).length_eq,
    List.length_map, length_subtreesAll]

end

end Outline

end SvgWorkbench
