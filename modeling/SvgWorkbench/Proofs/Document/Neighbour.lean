import SvgWorkbench.Proofs.Document.Arena
import SvgWorkbench.Proofs.Document.Change

/-!
# Neighbours among elements

An element changes places with the next element of its list, whatever stands between the two. Going
through the list until it comes is one way to find that element, and the one that changes trees. The
other is to write down the places of all elements and to look for the place after its own. Both
exchange the same two nodes.
-/

namespace SvgWorkbench

open SvgWorkbench.Tree

variable {h k : Handle} {x y : Node} {xs ys zs : List Node}

/-! ## Going through the nodes -/

namespace Document

theorem takePlace_of_not_isElement (hys : ∀ n ∈ ys, Node.isElement n = false) :
    takePlace x ys = none := by
  induction ys with
  | nil => rfl
  | cons n ys ih =>
    rw [List.forall_mem_cons] at hys
    rw [takePlace, hys.1, ih hys.2]
    rfl

theorem takePlace_append (hys : ∀ n ∈ ys, Node.isElement n = false) (hy : y.isElement = true) :
    takePlace x (ys ++ y :: zs) = some (y, ys ++ x :: zs) := by
  induction ys with
  | nil => rw [List.nil_append, takePlace, hy]; rfl
  | cons n ys ih =>
    rw [List.forall_mem_cons] at hys
    rw [List.cons_append, takePlace, hys.1, ih hys.2]
    rfl

theorem swapNext_append (hxs : h ∉ xs.map Node.handle) (ys : List Node) :
    swapNext h (xs ++ ys) = (swapNext h ys).map (xs ++ ·) := by
  induction xs with
  | nil => exact (Option.map_id_fun' ▸ rfl)
  | cons n xs ih =>
    rw [List.map_cons, List.mem_cons, not_or] at hxs
    have hne : ¬ ((decide (n.handle = h) && n.isElement) = true) := by simp [Ne.symm hxs.1]
    rw [List.cons_append, swapNext, if_neg hne, ih hxs.2, Option.map_map]
    rfl

theorem swapNext_self (hx : x.isElement = true) (ys : List Node) :
    swapNext x.handle (x :: ys) = (takePlace x ys).map fun (y, rest) ↦ y :: rest :=
  if_pos (by simp [hx])

theorem swapNext_eq_none (hxs : ∀ n ∈ xs, Node.handle n = h → Node.isElement n = false) :
    swapNext h xs = none := by
  induction xs with
  | nil => rfl
  | cons n xs ih =>
    rw [List.forall_mem_cons] at hxs
    have hne : ¬ ((decide (n.handle = h) && n.isElement) = true) := by simpa using hxs.1
    rw [swapNext, if_neg hne, ih hxs.2]
    rfl

end Document

/-! ## Writing down places -/

namespace Arena

variable {isElement : Handle → Bool} {start : Nat} {hs ks ls : List Handle}

theorem slots_append : slots isElement start (hs ++ ks)
    = slots isElement start hs ++ slots isElement (start + hs.length) ks := by
  rw [slots, List.zipIdx_append, List.filter_append, List.map_append]
  rfl

theorem slots_cons : slots isElement start (k :: ks)
    = (if isElement k then [start] else []) ++ slots isElement (start + 1) ks := by
  rw [slots, List.zipIdx_cons, List.filter_cons]
  split <;> rfl

theorem slots_eq_nil (hks : ∀ k ∈ ks, isElement k = false) : slots isElement start ks = [] := by
  induction ks generalizing start with
  | nil => rfl
  | cons k ks ih =>
    rw [List.forall_mem_cons] at hks
    rw [slots_cons, hks.1, ih hks.2]
    rfl

theorem lt_of_mem_slots {place : Nat} (hplace : place ∈ slots isElement 0 hs) :
    place < hs.length := by
  obtain ⟨⟨k, i⟩, hentry, rfl⟩ := List.mem_map.1 hplace
  have := List.mem_zipIdx (List.mem_filter.1 hentry).1
  omega

theorem isElement_of_mem_slots {place : Nat} (hplace : place ∈ slots isElement 0 hs) :
    ∃ k, hs[place]? = some k ∧ isElement k = true := by
  obtain ⟨⟨k, i⟩, hentry, rfl⟩ := List.mem_map.1 hplace
  obtain ⟨hmem, helement⟩ := List.mem_filter.1 hentry
  exact ⟨k, List.mem_zipIdx_iff_getElem?.1 hmem, helement⟩

/-- The place of an element comes after the places of the elements before it. -/
theorem findIdx?_slots (helement : isElement h = true) (hhs : h ∉ hs) :
    (slots isElement 0 (hs ++ h :: ks)).findIdx? (fun place ↦ (hs ++ h :: ks)[place]? == some h)
      = some (slots isElement 0 hs).length := by
  have hbefore : (slots isElement 0 hs).findIdx?
      (fun place ↦ (hs ++ h :: ks)[place]? == some h) = none := by
    refine List.findIdx?_eq_none_iff.2 fun place hplace ↦ ?_
    rw [List.getElem?_append_left (lt_of_mem_slots hplace), beq_eq_false_iff_ne]
    exact fun heq ↦ hhs (List.mem_of_getElem? heq)
  rw [slots_append, List.findIdx?_append, hbefore, slots_cons, if_pos helement]
  simp [List.findIdx?_cons]

theorem exchange?_eq_none (helement : isElement h = false) (direction : Direction) :
    exchange? isElement h direction hs = none := by
  have hnone : (slots isElement 0 hs).findIdx? (fun place ↦ hs[place]? == some h) = none := by
    refine List.findIdx?_eq_none_iff.2 fun place hplace ↦ ?_
    obtain ⟨k, hk, hkelement⟩ := isElement_of_mem_slots hplace
    rw [hk, beq_eq_false_iff_ne]
    rintro heq
    rw [Option.some.inj heq, helement] at hkelement
    cases hkelement
  rw [exchange?, hnone]
  rfl

/-- The places next to that of an element are the next one after it and the last one before it. -/
theorem neighbour?_eq (before after : List Nat) (place : Nat) (direction : Direction) :
    neighbour? (before ++ place :: after) before.length direction = match direction with
      | .raise => after.head?
      | .lower => before.getLast? := by
  cases direction with
  | raise =>
    show (before ++ place :: after)[before.length + 1]? = _
    rw [List.getElem?_append_right (Nat.le_add_right _ 1), Nat.add_sub_cancel_left,
      List.getElem?_cons_succ, List.head?_eq_getElem?]
  | lower =>
    show (if before.length = 0 then none else (before ++ place :: after)[before.length - 1]?) = _
    rcases List.eq_nil_or_concat before with rfl | ⟨first, last, rfl⟩
    · rfl
    · simp

section Neighbours

variable (helement : isElement h = true) (hhs : h ∉ hs)

include helement hhs

/-- An element looks for its neighbour at the place after its own or before it. -/
theorem exchange?_eq (direction : Direction) :
    exchange? isElement h direction (hs ++ h :: ks) =
      (match direction with
        | .raise => (slots isElement (hs.length + 1) ks).head?
        | .lower => (slots isElement 0 hs).getLast?).bind fun neighbour ↦
      (hs ++ h :: ks)[neighbour]?.bind fun other ↦
        some (((hs ++ h :: ks).set hs.length other).set neighbour h) := by
  have hslots : slots isElement 0 (hs ++ h :: ks)
      = slots isElement 0 hs ++ hs.length :: slots isElement (hs.length + 1) ks := by
    rw [slots_append, slots_cons, if_pos helement, Nat.zero_add]
    rfl
  rw [exchange?, findIdx?_slots helement hhs, hslots]
  show (_ : Option Nat).bind (fun place ↦ (neighbour? _ _ direction).bind _) = _
  rw [List.getElem?_append_right (Nat.le_refl _), Nat.sub_self, neighbour?_eq]
  rfl

theorem exchange?_raise_of_last (hks : ∀ k ∈ ks, isElement k = false) :
    exchange? isElement h .raise (hs ++ h :: ks) = none := by
  rw [exchange?_eq helement hhs]
  show Option.bind (List.head? _) _ = _
  rw [slots_eq_nil hks]
  rfl

theorem exchange?_raise {ms : List Handle} (hls : ∀ k ∈ ls, isElement k = false)
    (hk : isElement k = true) :
    exchange? isElement h .raise (hs ++ h :: (ls ++ k :: ms))
      = some (hs ++ k :: (ls ++ h :: ms)) := by
  rw [exchange?_eq helement hhs]
  show Option.bind (List.head? _) _ = _
  rw [slots_append, slots_eq_nil hls, slots_cons, if_pos hk]
  have hplace : hs.length + 1 + ls.length = (hs ++ h :: ls).length := by simp; omega
  have hplace' : hs.length + 1 + ls.length = (hs ++ k :: ls).length := by simp; omega
  have hat : (hs ++ h :: (ls ++ k :: ms))[hs.length + 1 + ls.length]? = some k := by
    rw [hplace, ← List.cons_append, ← List.append_assoc, List.getElem?_append_right (Nat.le_refl _),
      Nat.sub_self, List.getElem?_cons_zero]
  show Option.bind (hs ++ h :: (ls ++ k :: ms))[hs.length + 1 + ls.length]? _ = _
  rw [hat]
  show some (((hs ++ h :: (ls ++ k :: ms)).set hs.length k).set _ h) = _
  rw [List.set_append_right _ _ (Nat.le_refl _), Nat.sub_self, List.set_cons_zero, hplace',
    ← List.cons_append, ← List.append_assoc, List.set_append_right _ _ (Nat.le_refl _),
    Nat.sub_self, List.set_cons_zero, List.append_assoc, List.cons_append]

theorem exchange?_lower_of_first (hfirst : ∀ k ∈ hs, isElement k = false) :
    exchange? isElement h .lower (hs ++ h :: ks) = none := by
  rw [exchange?_eq helement hhs]
  show Option.bind (List.getLast? _) _ = _
  rw [slots_eq_nil hfirst]
  rfl

end Neighbours

theorem exchange?_lower {ms : List Handle} (helement : isElement h = true)
    (hhs : h ∉ ms ++ k :: ls) (hls : ∀ k ∈ ls, isElement k = false)
    (hk : isElement k = true) :
    exchange? isElement h .lower ((ms ++ k :: ls) ++ h :: ks)
      = some ((ms ++ h :: ls) ++ k :: ks) := by
  rw [exchange?_eq helement hhs]
  show Option.bind (List.getLast? _) _ = _
  rw [slots_append, slots_cons, slots_eq_nil hls, if_pos hk]
  simp

end Arena

/-! ## The same exchange -/

namespace Document

open Arena

variable {isElement : Handle → Bool} {ts : List Node}

theorem swapNext_eq_none_of_not_isElement (hx : x.isElement = false)
    (hys : x.handle ∉ ys.map Node.handle) : swapNext x.handle (x :: ys) = none := by
  refine swapNext_eq_none (List.forall_mem_cons.2 ⟨fun _ ↦ hx, fun n hn heq ↦ ?_⟩)
  exact absurd (heq ▸ List.mem_map_of_mem hn) hys

/-- What the handles of some nodes say of them, the nodes say themselves. -/
private theorem forall_mem_map_handle (hts : ∀ t ∈ ts, isElement (Node.handle t) = Node.isElement t)
    (hnone : ∀ n ∈ ts, Node.isElement n = false) :
    ∀ k ∈ ts.map Node.handle, isElement k = false := by
  intro k hk
  obtain ⟨t, ht, rfl⟩ := List.mem_map.1 hk
  rw [hts t ht, hnone t ht]

section Nodes

variable (hnodup : ((xs ++ x :: ys).map Node.handle).Nodup)
  (hnodes : ∀ t ∈ xs ++ x :: ys, isElement (Node.handle t) = Node.isElement t)

include hnodup hnodes

theorem map_handle_swapNext_append : (swapNext x.handle (xs ++ x :: ys)).map (List.map Node.handle)
    = exchange? isElement x.handle .raise ((xs ++ x :: ys).map Node.handle) := by
  rw [List.map_append, List.map_cons, List.nodup_append, List.nodup_cons] at hnodup
  obtain ⟨-, ⟨hys, -⟩, hxs⟩ := hnodup
  replace hxs : x.handle ∉ xs.map Node.handle := fun hmem ↦ hxs _ hmem _ List.mem_cons_self rfl
  rw [List.forall_mem_append, List.forall_mem_cons] at hnodes
  obtain ⟨-, hx, hnodes⟩ := hnodes
  rw [swapNext_append hxs, List.map_append, List.map_cons]
  cases helement : x.isElement with
  | false =>
    rw [swapNext_eq_none_of_not_isElement helement hys, exchange?_eq_none (hx.trans helement)]
    rfl
  | true =>
    rw [swapNext_self helement]
    cases hfind : ys.find? Node.isElement with
    | none =>
      have hnone : ∀ n ∈ ys, Node.isElement n = false := by simpa using hfind
      rw [takePlace_of_not_isElement hnone, exchange?_raise_of_last (hx.trans helement) hxs
        (forall_mem_map_handle hnodes hnone)]
      rfl
    | some y =>
      obtain ⟨hy, between, after, rfl, hbetween⟩ := List.find?_eq_some_iff_append.1 hfind
      have hnone : ∀ n ∈ between, Node.isElement n = false := by simpa using hbetween
      rw [List.forall_mem_append, List.forall_mem_cons] at hnodes
      rw [takePlace_append hnone hy, List.map_append, List.map_cons,
        exchange?_raise (hx.trans helement) hxs (forall_mem_map_handle hnodes.1 hnone)
          (hnodes.2.1.trans hy)]
      simp

theorem map_handle_swapPrevious_append :
    (swapPrevious x.handle (xs ++ x :: ys)).map (List.map Node.handle)
      = exchange? isElement x.handle .lower ((xs ++ x :: ys).map Node.handle) := by
  rw [List.map_append, List.map_cons, List.nodup_append, List.nodup_cons] at hnodup
  obtain ⟨-, ⟨hys, -⟩, hxs⟩ := hnodup
  replace hxs : x.handle ∉ xs.map Node.handle := fun hmem ↦ hxs _ hmem _ List.mem_cons_self rfl
  rw [List.forall_mem_append, List.forall_mem_cons] at hnodes
  obtain ⟨hnodes, hx, -⟩ := hnodes
  -- towards the start is towards the end of the list turned round
  have hys' : x.handle ∉ ys.reverse.map Node.handle := by simpa using hys
  have hxs' : x.handle ∉ xs.reverse.map Node.handle := by simpa using hxs
  rw [swapPrevious, List.reverse_append, List.reverse_cons, List.append_assoc,
    swapNext_append hys', List.map_append, List.map_cons]
  show Option.map _ (Option.map _ (Option.map _ (swapNext x.handle (x :: xs.reverse)))) = _
  cases helement : x.isElement with
  | false =>
    rw [swapNext_eq_none_of_not_isElement helement hxs', exchange?_eq_none (hx.trans helement)]
    rfl
  | true =>
    rw [swapNext_self helement]
    cases hfind : xs.reverse.find? Node.isElement with
    | none =>
      have hnone : ∀ n ∈ xs, Node.isElement n = false := by simpa using hfind
      rw [takePlace_of_not_isElement (by simpa using hnone),
        exchange?_lower_of_first (hx.trans helement) hxs (forall_mem_map_handle hnodes hnone)]
      rfl
    | some y =>
      obtain ⟨hy, between, before, hrev, hbetween⟩ := List.find?_eq_some_iff_append.1 hfind
      have hnone : ∀ n ∈ between, Node.isElement n = false := by simpa using hbetween
      obtain rfl : xs = before.reverse ++ y :: between.reverse := by
        rw [← List.reverse_reverse xs, hrev]
        simp
      rw [List.forall_mem_append, List.forall_mem_cons] at hnodes
      rw [hrev, takePlace_append hnone hy, List.map_append, List.map_cons]
      rw [List.map_append, List.map_cons] at hxs
      rw [exchange?_lower (hx.trans helement) hxs
          (forall_mem_map_handle hnodes.2.2 (by simpa using hnone)) (hnodes.2.1.trans hy)]
      simp

end Nodes

/-- A list with an element and its neighbour exchanged. -/
def exchanged? (h : Handle) (direction : Direction) (ts : List Node) : Option (List Node) :=
  match direction with
  | .raise => swapNext h ts
  | .lower => swapPrevious h ts

theorem perm_exchanged? {direction : Direction} {us : List Node}
    (hus : exchanged? h direction ts = some us) : us.Perm ts := by
  cases direction with
  | raise => exact perm_swapNext hus
  | lower => exact perm_swapPrevious hus

theorem swap?_of_parent? {d : Document} {parent : Node} (hparent : d.parent? h = some parent)
    (direction : Direction) : d.swap? h direction = (exchanged? h direction parent.children).map
      fun children ↦ d.modify parent.handle (Node.withChildren children) := by
  rw [swap?, hparent]
  cases direction <;> exact Option.map_eq_bind.symm

/-- **Two ways to exchange neighbours**: going through the nodes of a list and writing down the
places of its elements lead to the same list. -/
theorem map_handle_exchanged? (hnodup : (ts.map Node.handle).Nodup)
    (hnodes : ∀ t ∈ ts, isElement (Node.handle t) = Node.isElement t) (hx : x ∈ ts)
    (direction : Direction) : (exchanged? x.handle direction ts).map (List.map Node.handle)
      = exchange? isElement x.handle direction (ts.map Node.handle) := by
  obtain ⟨xs, ys, rfl⟩ := List.append_of_mem hx
  cases direction with
  | raise => exact map_handle_swapNext_append hnodup hnodes
  | lower => exact map_handle_swapPrevious_append hnodup hnodes

end Document

end SvgWorkbench
