import SvgWorkbench.Tree

/-!
# Walking a tree step by step

A walk is taken one node at a time. It keeps the trees it still has to visit; visiting one puts its
children in front of the others. A forest is walked by starting with all of its trees.
-/

namespace SvgWorkbench.Tree

universe u

variable {α : Type u}

/-- The trees a walk has still to visit, the next one first. -/
structure Walk (α : Type u) where
  /-- What is still to be visited. -/
  stack : List (Tree α)

namespace Walk

/-- The walk over one tree. -/
def start (t : Tree α) : Walk α := ⟨[t]⟩

/-- The next node with everything below it, and the walk after it. -/
def next? (w : Walk α) : Option (Tree α × Walk α) :=
  match w.stack with
  | [] => none
  | t :: ts => some (t, ⟨t.children ++ ts⟩)

/-- The number of nodes still to be visited. -/
def remaining (w : Walk α) : Nat := sizeAll w.stack

end Walk

theorem sizeAll_append (ss ts : List (Tree α)) :
    sizeAll (ss ++ ts) = sizeAll ss + sizeAll ts := by
  induction ss with
  | nil => simp [sizeAll]
  | cons s ss ih => simp [sizeAll, ih, Nat.add_assoc]

/-- A step visits one node. -/
theorem Walk.remaining_next {w rest : Walk α} {t : Tree α} (h : w.next? = some (t, rest)) :
    w.remaining = rest.remaining + 1 := by
  obtain ⟨_ | ⟨⟨a, ts⟩, stack⟩⟩ := w
  · simp [Walk.next?] at h
  · simp only [Walk.next?, Option.some.injEq, Prod.mk.injEq] at h
    obtain ⟨rfl, rfl⟩ := h
    simp only [remaining, children_node, sizeAll_append, sizeAll, size]
    omega

/-- The nodes a walk visits step by step, each with everything below it. -/
def Walk.toList (w : Walk α) : List (Tree α) :=
  match _h : w.next? with
  | none => []
  | some (t, rest) => t :: rest.toList
termination_by w.remaining
decreasing_by exact Nat.lt_of_lt_of_eq (Nat.lt_succ_self _) (Walk.remaining_next _h).symm

/-- The nodes of a forest in the order of a walk. -/
def visited (ts : List (Tree α)) : List (Tree α) := ts.flatMap fun t ↦ (Walk.start t).toList

end SvgWorkbench.Tree
