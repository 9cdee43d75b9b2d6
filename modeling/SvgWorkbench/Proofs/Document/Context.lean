import SvgWorkbench.Proofs.Document.Forest
import SvgWorkbench.Proofs.Document.Held
import SvgWorkbench.Proofs.Document.Insert
import SvgWorkbench.Proofs.Document.Neighbour
import SvgWorkbench.Proofs.Document.Place
import SvgWorkbench.Proofs.Tree.Context

/-!
# Edits at a place of a document

Handles are given once, so a handle means one place of a document. Changing the node of a handle
changes what stands at that place, and taking the node out leaves the place empty. What an edit does
to the rest of the document is then nothing, and no more has to be said of it than the context.
-/

namespace SvgWorkbench

open SvgWorkbench.Tree

namespace Node

variable {h : Handle} {f : Node → Node} {n : Node} {c : Context Slot}

/-! ## Places of elements -/

theorem elementsAll_append (ts us : List Node) :
    elementsAll (ts ++ us) = elementsAll ts ++ elementsAll us := by
  rw [elementsAll_eq_flatMap, elementsAll_eq_flatMap, elementsAll_eq_flatMap, List.flatMap_append]

/-- An element stands somewhere below elements. -/
theorem exists_plug_of_mem_elementsAll {ts : List Node} (h : n ∈ elementsAll ts) :
    ∃ c : Context Slot, ts = c.plug [n] ∧ ∀ s ∈ c.path, s.content.isElement = true := by
  induction ts using forest_induction with
  | nil => cases h
  | cons s us ts ihus ihts =>
    rw [elementsAll, elements, List.mem_append] at h
    rcases h with h | h
    · split at h
      case isFalse => cases h
      next hs =>
      rcases List.mem_cons.1 h with rfl | h
      · exact ⟨.here [] ts, rfl, nofun⟩
      · obtain ⟨c, rfl, hc⟩ := ihus h
        exact ⟨.inside [] s c ts, rfl, List.forall_mem_cons.2 ⟨hs, hc⟩⟩
    · obtain ⟨c, rfl, hc⟩ := ihts h
      refine ⟨(Context.here [.node s us] []).comp c, by simp, ?_⟩
      rwa [Context.path_comp]

/-- What stands below elements is an element of the forest, if it is one. -/
theorem mem_elementsAll_plug (hpath : ∀ s ∈ c.path, s.content.isElement = true)
    (hn : n.isElement = true) : n ∈ elementsAll (c.plug [n]) := by
  induction c with
  | here left right =>
    simp only [Context.plug_here, elementsAll_append, elementsAll, List.mem_append]
    exact .inl (.inr (.inl (mem_elements_self hn)))
  | inside left s below right ih =>
    rw [Context.path, List.forall_mem_cons] at hpath
    simp only [Context.plug_inside, elementsAll_append, elementsAll, List.mem_append, elements,
      if_pos hpath.1]
    exact .inr (.inl (List.mem_cons_of_mem _ (ih hpath.2)))

/-! ## Handles around a place -/

theorem perm_handlesAll_plug (c : Context Slot) (ts : List Node) :
    (handlesAll (c.plug ts)).Perm (handlesAll (c.plug []) ++ handlesAll ts) := by
  have hperm := (c.perm_preorderAll_plug ts).map Slot.handle
  rwa [List.map_append] at hperm

theorem notMem_of_nodup_plug (hnodup : (handlesAll (c.plug [n])).Nodup) :
    n.handle ∉ handlesAll (c.plug []) := by
  have hnodup' := (perm_handlesAll_plug c [n]).nodup hnodup
  have hmem := handle_mem_handlesAll (mem_subtreesAll_of_mem (List.mem_singleton_self n))
  exact fun hin ↦ (List.nodup_append.1 hnodup').2.2 _ hin _ hmem rfl

private theorem notMem_of_inside {left : List Node} {s : Slot} {right : List Node}
    (hh : h ∉ handlesAll ((Context.inside left s c right).plug [])) :
    h ∉ handlesAll left ∧ s.handle ≠ h ∧ h ∉ handlesAll (c.plug []) ∧ h ∉ handlesAll right := by
  simp only [Context.plug_inside, handlesAll_append, handlesAll_cons, handles_node,
    List.cons_append, List.mem_append, List.mem_cons, not_or] at hh
  exact ⟨hh.1, Ne.symm hh.2.1, hh.2.2⟩

/-- **Changing a node** changes what stands at its place. -/
theorem modifyAll_plug (hh : n.handle ∉ handlesAll (c.plug [])) :
    modifyAll n.handle f (c.plug [n]) = c.plug [f n] := by
  induction c with
  | here left right =>
    simp only [Context.plug_here, List.append_nil, handlesAll_append, List.mem_append, not_or] at hh
    simp only [Context.plug_here, modifyAll_append, modifyAll_of_notMem hh.1,
      modifyAll_of_notMem hh.2, modifyAll, modify_handle]
  | inside left s c right ih =>
    obtain ⟨hleft, hs, hbelow, hright⟩ := notMem_of_inside hh
    rw [Context.plug_inside, modifyAll_append, modifyAll_of_notMem hleft, modifyAll, modify,
      if_neg hs, ih hbelow, modifyAll_of_notMem hright, Context.plug_inside]

/-- **Taking a node out** leaves its place empty. -/
theorem pruneAll_plug (hh : n.handle ∉ handlesAll (c.plug [])) :
    pruneAll n.handle (c.plug [n]) = c.plug [] := by
  induction c with
  | here left right =>
    simp only [Context.plug_here, List.append_nil, handlesAll_append, List.mem_append, not_or] at hh
    simp only [Context.plug_here, pruneAll_append, pruneAll_of_notMem hh.1, pruneAll_of_notMem hh.2,
      pruneAll, if_pos (show n.label.handle = n.handle from rfl), List.append_nil]
  | inside left s c right ih =>
    obtain ⟨hleft, hs, hbelow, hright⟩ := notMem_of_inside hh
    rw [Context.plug_inside, pruneAll_append, pruneAll_of_notMem hleft, pruneAll, label_node,
      if_neg hs, prune, ih hbelow, pruneAll_of_notMem hright, Context.plug_inside]

theorem map_bare_plug (c : Context Slot) (ts : List Node) :
    (c.plug ts).map bare = (c.map Slot.content).plug (ts.map bare) := by
  simp only [← mapAll_eq_map, show bare = Tree.map Slot.content from rfl, Context.mapAll_plug]

/-- A place in the markup is a place in the nodes. -/
theorem exists_plug_of_map_bare {ts : List Node} {c : Context Content} {us : List (Tree Content)}
    (h : ts.map bare = c.plug us) : ∃ (d : Context Slot) (ns : List Node),
      ts = d.plug ns ∧ d.map Slot.content = c ∧ ns.map bare = us := by
  simp only [show bare = Tree.map Slot.content from rfl, ← mapAll_eq_map] at h ⊢
  exact Context.exists_of_mapAll_eq_plug h

/-- **A change of a node** changes the markup at its place. -/
theorem map_bare_modifyAll_plug (hnodup : (handlesAll (c.plug [n])).Nodup) (f : Node → Node) :
    (modifyAll n.handle f (c.plug [n])).map bare = (c.map Slot.content).plug [(f n).bare] := by
  rw [modifyAll_plug (notMem_of_nodup_plug hnodup), map_bare_plug, List.map_singleton]

end Node

/-- An element of a document stands somewhere below elements, and is changed there. -/
theorem Document.exists_plug {d : Document} (hnodup : (Node.handlesAll d.topLevel).Nodup) {n : Node}
    (hn : n ∈ d.elements) : ∃ c : Context Content, (∀ a ∈ c.path, a.isElement = true) ∧
      d.markup = c.plug [n.bare] ∧ ∀ f, (d.modify n.handle f).markup = c.plug [(f n).bare] := by
  obtain ⟨c, htop, hpath⟩ := Node.exists_plug_of_mem_elementsAll hn
  refine ⟨c.map Slot.content, ?_, ?_, fun f ↦ ?_⟩
  · rw [Context.path_map, List.forall_mem_map]
    exact hpath
  · rw [Document.markup, htop, Node.map_bare_plug, List.map_singleton]
  · rw [htop] at hnodup
    rw [Document.markup, Document.modify, htop, Node.map_bare_modifyAll_plug hnodup]

/-! ## Exchanging neighbours -/

/-- The one of two neighbours that moves in a direction: the first one is raised, and the second one
is lowered. -/
def Direction.pick {α : Type*} : Direction → α → α → α
  | .raise, x, _ => x
  | .lower, _, y => y

namespace Document

variable {h : Handle} {x y : Node} {ts us : List Node}

theorem exists_of_takePlace (hswap : takePlace x ts = some (y, us)) : ∃ between right,
    ts = between ++ y :: right ∧ us = between ++ x :: right ∧ y.isElement = true ∧
      ∀ n ∈ between, Node.isElement n = false := by
  induction ts generalizing y us with
  | nil => cases hswap
  | cons t ts ih =>
    rw [takePlace] at hswap
    split at hswap
    · next helement =>
      cases hswap
      exact ⟨[], ts, rfl, rfl, helement, List.forall_mem_nil _⟩
    · next helement =>
      obtain ⟨⟨found, rest⟩, hrest, heq⟩ := Option.map_eq_some_iff.1 hswap
      cases heq
      obtain ⟨between, right, rfl, rfl, hy, hbetween⟩ := ih hrest
      exact ⟨t :: between, right, rfl, rfl, hy,
        List.forall_mem_cons.2 ⟨eq_false_of_ne_true helement, hbetween⟩⟩

/-- **An exchange with the next element**: two elements with no element between them have changed
places, and all else is where it was. -/
theorem exists_of_swapNext (hswap : swapNext h ts = some us) : ∃ left x between y right,
    ts = left ++ x :: between ++ y :: right ∧ us = left ++ y :: between ++ x :: right ∧
      Node.handle x = h ∧ Node.isElement x = true ∧ Node.isElement y = true ∧
      ∀ n ∈ between, Node.isElement n = false := by
  induction ts generalizing us with
  | nil => cases hswap
  | cons t ts ih =>
    rw [swapNext] at hswap
    split at hswap
    · next ht =>
      rw [Bool.and_eq_true, decide_eq_true_eq] at ht
      obtain ⟨⟨y, rest⟩, hrest, rfl⟩ := Option.map_eq_some_iff.1 hswap
      obtain ⟨between, right, rfl, rfl, hy, hbetween⟩ := exists_of_takePlace hrest
      exact ⟨[], t, between, y, right, rfl, rfl, ht.1, ht.2, hy, hbetween⟩
    · obtain ⟨rest, hrest, rfl⟩ := Option.map_eq_some_iff.1 hswap
      obtain ⟨left, x, between, y, right, rfl, rfl, hx⟩ := ih hrest
      exact ⟨t :: left, x, between, y, right, rfl, rfl, hx⟩

/-- The exchange with the element before is the other way round. -/
theorem exists_of_swapPrevious (hswap : swapPrevious h ts = some us) : ∃ left x between y right,
    ts = left ++ x :: between ++ y :: right ∧ us = left ++ y :: between ++ x :: right ∧
      Node.handle y = h ∧ Node.isElement x = true ∧ Node.isElement y = true ∧
      ∀ n ∈ between, Node.isElement n = false := by
  obtain ⟨rest, hrest, rfl⟩ := Option.map_eq_some_iff.1 hswap
  obtain ⟨left, y, between, x, right, hts, rfl, hy, helement, hx, hbetween⟩ :=
    exists_of_swapNext hrest
  refine ⟨right.reverse, x, between.reverse, y, left.reverse, ?_, by simp, hy, hx, helement,
    by simpa using hbetween⟩
  rw [← List.reverse_reverse ts, hts]
  simp

/-- **An exchange**: an element and its neighbour have changed places. -/
theorem exists_of_exchanged? {direction : Direction} (hswap : exchanged? h direction ts = some us) :
    ∃ left x between y right, ts = left ++ x :: between ++ y :: right ∧
      us = left ++ y :: between ++ x :: right ∧ (direction.pick x y).handle = h ∧
      Node.isElement x = true ∧ Node.isElement y = true ∧
      ∀ n ∈ between, Node.isElement n = false := by
  cases direction with
  | raise => exact exists_of_swapNext hswap
  | lower => exact exists_of_swapPrevious hswap

section Neighbours

variable {left between right : List Node}

private theorem swapNext_neighbours (hx : x.handle ∉ left.map Node.handle) (hxe : x.isElement = true)
    (hye : y.isElement = true) (hbetween : ∀ n ∈ between, Node.isElement n = false) :
    swapNext x.handle (left ++ x :: between ++ y :: right)
      = some (left ++ y :: between ++ x :: right) := by
  rw [List.append_assoc, List.cons_append, swapNext_append hx, swapNext_self hxe,
    takePlace_append hbetween hye]
  simp

/-- **Neighbours change places**, whichever of them is moved. -/
theorem exchanged?_pick (hnodup : ((left ++ x :: between ++ y :: right).map Node.handle).Nodup)
    (hxe : x.isElement = true) (hye : y.isElement = true)
    (hbetween : ∀ n ∈ between, Node.isElement n = false) (direction : Direction) :
    exchanged? (direction.pick x y).handle direction (left ++ x :: between ++ y :: right)
      = some (left ++ y :: between ++ x :: right) := by
  cases direction with
  | raise =>
    rw [List.append_assoc, List.map_append, List.nodup_append] at hnodup
    exact swapNext_neighbours (fun hmem ↦ hnodup.2.2 _ hmem _ (by simp [Direction.pick]) rfl) hxe hye
      hbetween
  | lower =>
    rw [List.map_append, List.map_cons, List.nodup_append, List.nodup_cons] at hnodup
    -- towards the start is towards the end of the list turned round
    have hnext : swapNext y.handle (right.reverse ++ y :: between.reverse ++ x :: left.reverse)
        = some (right.reverse ++ x :: between.reverse ++ y :: left.reverse) :=
      swapNext_neighbours (by simpa [Direction.pick] using hnodup.2.1.1) hye hxe
        (by simpa using hbetween)
    have hreverse : (left ++ x :: between ++ y :: right).reverse
        = right.reverse ++ y :: between.reverse ++ x :: left.reverse := by simp
    rw [exchanged?, swapPrevious, hreverse, Direction.pick, hnext]
    simp

/-- An element that has no neighbour to change places with is the last one or the first one. -/
theorem isElement_eq_false_of_exchanged? (hnodup : ((left ++ x :: right).map Node.handle).Nodup)
    (hxe : x.isElement = true) {direction : Direction}
    (hnone : exchanged? x.handle direction (left ++ x :: right) = none) :
    ∀ n ∈ direction.pick right left, Node.isElement n = false := by
  cases direction with
  | raise =>
    cases hfind : right.find? Node.isElement with
    | none => simpa [Direction.pick] using hfind
    | some y =>
      obtain ⟨hye, between, after, rfl, hbetween⟩ := List.find?_eq_some_iff_append.1 hfind
      rw [← List.cons_append, ← List.append_assoc] at hnodup hnone
      cases hnone.symm.trans (exchanged?_pick hnodup hxe hye (by simpa using hbetween) .raise)
  | lower =>
    cases hfind : left.reverse.find? Node.isElement with
    | none => simpa [Direction.pick] using hfind
    | some y =>
      obtain ⟨hye, between, before, hreverse, hbetween⟩ := List.find?_eq_some_iff_append.1 hfind
      obtain rfl : left = before.reverse ++ y :: between.reverse := by
        rw [← List.reverse_reverse left, hreverse]
        simp
      cases hnone.symm.trans (exchanged?_pick hnodup hye hxe (by simpa using hbetween) .lower)

end Neighbours

end Document

end SvgWorkbench
