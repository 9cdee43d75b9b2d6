import SvgWorkbench.Tree.Walk

/-!
# Subtrees

The subtrees of a forest are its trees and all that stands below them. A walk that goes step by step
visits exactly these, and in the order in which the recursion lists them: a tree before what is
below it, and all of that before the next tree.
-/

namespace SvgWorkbench.Tree

universe u v

variable {α : Type u} {β : Type v}

/-! ## Induction on forests -/

/-- What holds of the empty forest, and of a forest if it holds of what is below its first tree and
of the trees after that, holds of every forest. -/
theorem forest_induction {P : List (Tree α) → Prop} (nil : P [])
    (cons : ∀ a us ts, P us → P ts → P (.node a us :: ts)) : ∀ ts, P ts
  | [] => nil
  | .node a us :: ts => cons a us ts (forest_induction nil cons us) (forest_induction nil cons ts)

/-! ## What stands below -/

theorem mem_subtrees_self (t : Tree α) : t ∈ t.subtrees := by
  obtain ⟨a, ts⟩ := t
  exact List.mem_cons_self

theorem mem_subtreesAll_iff {n : Tree α} {ts : List (Tree α)} :
    n ∈ subtreesAll ts ↔ ∃ t ∈ ts, n ∈ t.subtrees := by
  rw [subtreesAll_eq_flatMap, List.mem_flatMap]

theorem mem_subtreesAll_of_mem {t : Tree α} {ts : List (Tree α)} (h : t ∈ ts) :
    t ∈ subtreesAll ts := mem_subtreesAll_iff.2 ⟨t, h, mem_subtrees_self t⟩

theorem subtreesAll_append (ts us : List (Tree α)) :
    subtreesAll (ts ++ us) = subtreesAll ts ++ subtreesAll us := by
  rw [subtreesAll_eq_flatMap, subtreesAll_eq_flatMap, subtreesAll_eq_flatMap, List.flatMap_append]

mutual

theorem mem_subtrees_trans {m n t : Tree α} (hn : n ∈ t.subtrees) (hm : m ∈ n.subtrees) :
    m ∈ t.subtrees := by
  match t with
  | .node s ts =>
    rcases List.mem_cons.1 hn with rfl | hn
    · exact hm
    · exact List.mem_cons_of_mem _ (mem_subtreesAll_trans hn hm)

theorem mem_subtreesAll_trans {m n : Tree α} {ts : List (Tree α)} (hn : n ∈ subtreesAll ts)
    (hm : m ∈ n.subtrees) : m ∈ subtreesAll ts := by
  match ts with
  | [] => cases hn
  | t :: ts =>
    rcases List.mem_append.1 hn with hn | hn
    · exact List.mem_append_left _ (mem_subtrees_trans hn hm)
    · exact List.mem_append_right _ (mem_subtreesAll_trans hn hm)

end

theorem mem_subtrees_of_mem_children {n child : Tree α} (h : child ∈ n.children) :
    child ∈ n.subtrees := by
  obtain ⟨a, ts⟩ := n
  exact List.mem_cons_of_mem _ (mem_subtreesAll_of_mem h)

/-- A child of a subtree stands below the root. -/
theorem mem_subtreesAll_children {n child t : Tree α} (hn : n ∈ t.subtrees)
    (hchild : child ∈ n.children) : child ∈ subtreesAll t.children := by
  obtain ⟨a, ts⟩ := t
  rcases List.mem_cons.1 hn with rfl | hn
  · exact mem_subtreesAll_of_mem hchild
  · exact mem_subtreesAll_trans hn (mem_subtrees_of_mem_children hchild)

/-- A child of a subtree of a forest is a subtree of the forest. -/
theorem mem_subtreesAll_of_mem_children {n child : Tree α} {ts : List (Tree α)}
    (hn : n ∈ subtreesAll ts) (hchild : child ∈ n.children) : child ∈ subtreesAll ts :=
  mem_subtreesAll_trans hn (mem_subtrees_of_mem_children hchild)

mutual

theorem map_label_subtrees (t : Tree α) : t.subtrees.map label = t.preorder := by
  match t with
  | .node a ts => rw [subtrees, preorder, List.map_cons, map_label_subtreesAll ts, label_node]

/-- The labels of the subtrees are the labels in preorder. -/
theorem map_label_subtreesAll (ts : List (Tree α)) :
    (subtreesAll ts).map label = preorderAll ts := by
  match ts with
  | [] => rfl
  | t :: ts =>
    rw [subtreesAll, preorderAll, List.map_append, map_label_subtrees t, map_label_subtreesAll ts]

end

mutual

theorem preorder_map (f : α → β) (t : Tree α) : (t.map f).preorder = t.preorder.map f := by
  match t with
  | .node a ts => rw [Tree.map, preorder, preorder, List.map_cons, preorderAll_mapAll f ts]

theorem preorderAll_mapAll (f : α → β) (ts : List (Tree α)) :
    preorderAll (mapAll f ts) = (preorderAll ts).map f := by
  match ts with
  | [] => rfl
  | t :: ts =>
    rw [mapAll, preorderAll, preorderAll, List.map_append, preorder_map f t, preorderAll_mapAll f ts]

end

/-! ## Sizes -/

theorem length_preorderAll (ts : List (Tree α)) : (preorderAll ts).length = sizeAll ts := by
  induction ts using forest_induction with
  | nil => rfl
  | cons a us ts ihus ihts =>
    rw [preorderAll, preorder, List.cons_append, List.length_cons, List.length_append, ihus, ihts,
      sizeAll, size]
    omega

theorem length_subtreesAll (ts : List (Tree α)) : (subtreesAll ts).length = sizeAll ts := by
  rw [← length_preorderAll, ← map_label_subtreesAll, List.length_map]

/-- What stands below is not larger. -/
theorem size_le_sizeAll {n : Tree α} {ts : List (Tree α)} (hn : n ∈ subtreesAll ts) :
    n.size ≤ sizeAll ts := by
  induction ts using forest_induction with
  | nil => cases hn
  | cons a us ts ihus ihts =>
    rw [sizeAll, size]
    rcases List.mem_append.1 hn with hn | hn
    · rcases List.mem_cons.1 hn with rfl | hn
      · exact Nat.le_add_right _ _
      · have := ihus hn
        omega
    · have := ihts hn
      omega

/-! ## Walks -/

/-- A walk visits the subtrees of what it has still to visit. -/
theorem Walk.toList_eq (w : Walk α) : w.toList = subtreesAll w.stack := by
  fun_induction Walk.toList w with
  | case1 w hdone =>
    obtain ⟨_ | ⟨t, ts⟩⟩ := w
    · rfl
    · cases hdone
  | case2 w t rest hnext ih =>
    obtain ⟨_ | ⟨⟨a, us⟩, ts⟩⟩ := w
    · cases hnext
    · cases hnext
      rw [ih, children_node, subtreesAll_append]
      rfl

theorem visited_eq (ts : List (Tree α)) : visited ts = subtreesAll ts := by
  rw [visited, subtreesAll_eq_flatMap]
  refine congrArg (List.flatMap · ts) (funext fun t ↦ ?_)
  rw [Walk.toList_eq]
  exact List.append_nil _

end SvgWorkbench.Tree
