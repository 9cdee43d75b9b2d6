import SvgWorkbench.Proofs.Tree.Subtrees

/-!
# Walks, call by call

A walk is asked for one node at a time. After some calls it has still to visit what it had before,
less one node for each call, and this invariant gives what every single call answers. Its trees may
also be kept as a row that grows at its end: the last is then taken off, and its children are put
there from the last to the first, so that the first is next.
-/

namespace SvgWorkbench.Tree.Walk

universe u

variable {α : Type u}

/-! ## Calls -/

/-- The walk after a call. One that is over stays as it is. -/
def rest (w : Walk α) : Walk α := (w.next?.map Prod.snd).getD w

/-- The walk after a number of calls. -/
def after (w : Walk α) : Nat → Walk α
  | 0 => w
  | k + 1 => (w.after k).rest

/-- What a call answers when some others have been made before it. -/
def answer? (w : Walk α) (k : Nat) : Option (Tree α) := (w.after k).next?.map Prod.fst

theorem toList_nil : (⟨[]⟩ : Walk α).toList = [] := by rw [toList_eq, subtreesAll]

theorem toList_cons (t : Tree α) (ts : List (Tree α)) :
    (⟨t :: ts⟩ : Walk α).toList = t :: (⟨t.children ++ ts⟩ : Walk α).toList := by
  obtain ⟨a, us⟩ := t
  rw [toList_eq, toList_eq, subtreesAll, subtrees, children_node, subtreesAll_append,
    List.cons_append]

/-- A call answers the first of the nodes that are still to be visited. -/
theorem map_fst_next? (w : Walk α) : w.next?.map Prod.fst = w.toList.head? := by
  obtain ⟨_ | ⟨t, ts⟩⟩ := w
  · rw [toList_nil]
    rfl
  · rw [toList_cons]
    rfl

/-- A call leaves the others. -/
theorem toList_rest (w : Walk α) : w.rest.toList = w.toList.tail := by
  obtain ⟨_ | ⟨t, ts⟩⟩ := w
  · exact toList_nil.trans (congrArg List.tail toList_nil).symm
  · rw [toList_cons]
    rfl

theorem toList_after (w : Walk α) (k : Nat) : (w.after k).toList = w.toList.drop k := by
  induction k with
  | zero => rfl
  | succ k ih => rw [after, toList_rest, ih, List.tail_drop]

theorem answer?_eq (w : Walk α) (k : Nat) : w.answer? k = w.toList[k]? := by
  rw [answer?, map_fst_next?, toList_after, List.head?_drop]

/-! ## Walks over one tree -/

theorem toList_start (t : Tree α) : (start t).toList = t.subtrees := by
  rw [toList_eq, start, subtreesAll, subtreesAll, List.append_nil]

theorem length_toList_start (t : Tree α) : (start t).toList.length = t.size := by
  rw [toList_eq, length_subtreesAll, start, sizeAll, sizeAll, Nat.add_zero]

/-- A walk over a tree is the tree and then the walks over its children. -/
theorem toList_start_eq_cons (t : Tree α) : (start t).toList = t :: visited t.children := by
  obtain ⟨a, ts⟩ := t
  rw [toList_start, subtrees, visited_eq, children_node]

/-! ## Rows -/

/-- The walk whose trees are kept in a row, the next one last. -/
def ofRow (row : Array (Tree α)) : Walk α := ⟨row.toList.reverse⟩

theorem next?_ofRow (row : Array (Tree α)) :
    (ofRow row).next? = row.back?.map fun t ↦ (t, ofRow (row.pop ++ t.children.reverse)) := by
  obtain ⟨xs⟩ := row
  obtain rfl | ⟨ts, t, rfl⟩ := xs.eq_nil_or_concat
  · rfl
  · simp [ofRow, next?]

theorem start_eq_ofRow (t : Tree α) : start t = ofRow #[t] := rfl

end SvgWorkbench.Tree.Walk
