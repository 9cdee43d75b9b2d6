/-!
# Rose trees

Nodes of a document, components and outlines are all trees of labels with a list of children each,
so the walks over them are defined and reasoned about once. Every function comes as a pair, one for
a tree and one for a forest.
-/

namespace SvgWorkbench

universe u v

/-- A label with a list of subtrees. -/
inductive Tree (α : Type u) where
  /-- A node with its label and its children. -/
  | node (label : α) (children : List (Tree α))
  deriving Repr

namespace Tree

variable {α : Type u} {β : Type v}

/-- The label of the root. -/
def label : Tree α → α
  | .node a _ => a

/-- The subtrees below the root. -/
def children : Tree α → List (Tree α)
  | .node _ ts => ts

@[simp] theorem label_node (a : α) (ts : List (Tree α)) : (node a ts).label = a := rfl

@[simp] theorem children_node (a : α) (ts : List (Tree α)) : (node a ts).children = ts := rfl

/-! ## Walks -/

mutual

/-- The labels in preorder: a node before its children, the children in order. -/
def preorder : Tree α → List α
  | .node a ts => a :: preorderAll ts

/-- The labels of a forest in preorder. -/
def preorderAll : List (Tree α) → List α
  | [] => []
  | t :: ts => t.preorder ++ preorderAll ts

end

mutual

/-- The subtrees in preorder, the tree itself first. -/
def subtrees : Tree α → List (Tree α)
  | .node a ts => .node a ts :: subtreesAll ts

/-- The subtrees of a forest in preorder. -/
def subtreesAll : List (Tree α) → List (Tree α)
  | [] => []
  | t :: ts => t.subtrees ++ subtreesAll ts

end

mutual

/-- The tree of the same shape with each label changed. -/
def map (f : α → β) : Tree α → Tree β
  | .node a ts => .node (f a) (mapAll f ts)

/-- The forest of the same shape with each label changed. -/
def mapAll (f : α → β) : List (Tree α) → List (Tree β)
  | [] => []
  | t :: ts => t.map f :: mapAll f ts

end

mutual

/-- The number of nodes. -/
def size : Tree α → Nat
  | .node _ ts => 1 + sizeAll ts

/-- The number of nodes of a forest. -/
def sizeAll : List (Tree α) → Nat
  | [] => 0
  | t :: ts => t.size + sizeAll ts

end

/-! ## Equality -/

mutual

/-- Decides whether two trees are equal. -/
def decEq [DecidableEq α] : (s t : Tree α) → Decidable (s = t)
  | .node a ss, .node b ts =>
    if h : a = b then
      match decEqAll ss ts with
      | isTrue hs => isTrue (by rw [h, hs])
      | isFalse hs => isFalse fun e ↦ hs (by injection e)
    else isFalse fun e ↦ h (by injection e)

/-- Decides whether two forests are equal. -/
def decEqAll [DecidableEq α] : (ss ts : List (Tree α)) → Decidable (ss = ts)
  | [], [] => isTrue rfl
  | [], _ :: _ => isFalse (by simp)
  | _ :: _, [] => isFalse (by simp)
  | s :: ss, t :: ts =>
    match decEq s t, decEqAll ss ts with
    | isTrue h, isTrue hs => isTrue (by rw [h, hs])
    | isFalse h, _ => isFalse fun e ↦ h (by injection e)
    | _, isFalse hs => isFalse fun e ↦ hs (by injection e)

end

instance [DecidableEq α] : DecidableEq (Tree α) := decEq

/-! ## Laws of the walks -/

theorem mapAll_eq_map (f : α → β) (ts : List (Tree α)) : mapAll f ts = ts.map (map f) := by
  induction ts with
  | nil => rfl
  | cons t ts ih => rw [mapAll, ih, List.map_cons]

theorem preorderAll_eq_flatMap (ts : List (Tree α)) :
    preorderAll ts = ts.flatMap preorder := by
  induction ts with
  | nil => rfl
  | cons t ts ih => rw [preorderAll, ih, List.flatMap_cons]

theorem subtreesAll_eq_flatMap (ts : List (Tree α)) :
    subtreesAll ts = ts.flatMap subtrees := by
  induction ts with
  | nil => rfl
  | cons t ts ih => rw [subtreesAll, ih, List.flatMap_cons]

end Tree

end SvgWorkbench
