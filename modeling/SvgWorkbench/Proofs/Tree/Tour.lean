import SvgWorkbench.Proofs.Tree.Walk

/-!
# Tours of a tree

Nodes at two places of a tree may look the same, so what is visited is said by addresses. The
address of a node tells which child to go to, level by level. A tour stops once at every address, in
lexicographic order: a node comes before what is below it, and the children come in their order. The
stops at a node and below it are not interrupted. The recursion through a tree makes a tour, and a
walk visits the nodes of its stops.
-/

namespace SvgWorkbench.Tree

universe u

variable {α : Type u}

/-! ## Addresses -/

/-- The node that an address leads to. -/
def reach? : Tree α → List Nat → Option (Tree α)
  | t, [] => some t
  | t, i :: p => t.children[i]?.bind fun u ↦ u.reach? p

/-- The node of a forest that an address leads to. The first number tells the tree. -/
def reachAll? (ts : List (Tree α)) : List Nat → Option (Tree α)
  | [] => none
  | i :: p => ts[i]?.bind fun t ↦ t.reach? p

theorem reach?_node_cons (a : α) (ts : List (Tree α)) (i : Nat) (p : List Nat) :
    (node a ts).reach? (i :: p) = reachAll? ts (i :: p) := rfl

theorem reach?_append (t : Tree α) (p q : List Nat) :
    t.reach? (p ++ q) = (t.reach? p).bind fun u ↦ u.reach? q := by
  induction p generalizing t with
  | nil => rfl
  | cons i p ih =>
    rw [List.cons_append, reach?, reach?]
    cases t.children[i]? with
    | none => rfl
    | some u => exact ih u

theorem reachAll?_append {ts : List (Tree α)} {p : List Nat} {t : Tree α}
    (hp : reachAll? ts p = some t) (q : List Nat) : reachAll? ts (p ++ q) = t.reach? q := by
  cases p with
  | nil => cases hp
  | cons i p =>
    obtain ⟨u, hu, hut⟩ := Option.bind_eq_some_iff.1 hp
    rw [List.cons_append, reachAll?, hu, Option.bind_some, reach?_append, hut, Option.bind_some]

/-- What is above comes before. -/
theorem lt_of_isPrefix {p q : List Nat} (h : p <+: q) (hne : p ≠ q) : p < q := by
  obtain ⟨r, rfl⟩ := h
  cases r with
  | nil => exact absurd (List.append_nil p).symm hne
  | cons i r =>
    have hlt : p ++ [] < p ++ i :: r := List.append_left_lt (List.nil_lt_cons i r)
    rwa [List.append_nil] at hlt

/-! ## Stops -/

/-- A node together with its address. -/
structure Stop (α : Type u) where
  /-- The address. -/
  address : List Nat
  /-- The node, with everything below it. -/
  tree : Tree α

/-- The same stop, seen from higher up. -/
def Stop.under (p : List Nat) (x : Stop α) : Stop α := ⟨p ++ x.address, x.tree⟩

mutual

/-- The stops of a tree, a node before its children. -/
def stops : Tree α → List (Stop α)
  | .node a ts => ⟨[], .node a ts⟩ :: stopsFrom 0 ts

/-- The stops of some siblings, the first of which has a given number. -/
def stopsFrom (i : Nat) : List (Tree α) → List (Stop α)
  | [] => []
  | t :: ts => t.stops.map (Stop.under [i]) ++ stopsFrom (i + 1) ts

end

/-- The stops of a forest. -/
def stopsAll (ts : List (Tree α)) : List (Stop α) := stopsFrom 0 ts

mutual

theorem map_tree_stops (t : Tree α) : t.stops.map Stop.tree = t.subtrees := by
  match t with
  | .node a ts => rw [stops, subtrees, List.map_cons, map_tree_stopsFrom 0 ts]

theorem map_tree_stopsFrom (i : Nat) (ts : List (Tree α)) :
    (stopsFrom i ts).map Stop.tree = subtreesAll ts := by
  match ts with
  | [] => rfl
  | t :: ts =>
    have hunder : Stop.tree ∘ Stop.under [i] = (Stop.tree : Stop α → Tree α) := rfl
    rw [stopsFrom, subtreesAll, List.map_append, List.map_map, hunder, map_tree_stops t,
      map_tree_stopsFrom (i + 1) ts]

end

/-! ## Where the stops are -/

theorem stops_node (a : α) (ts : List (Tree α)) :
    (node a ts).stops = ⟨[], .node a ts⟩ :: stopsAll ts := by rw [stops, stopsAll]

theorem mem_stopsFrom {ts : List (Tree α)} {i : Nat} {p : List Nat} {u : Tree α} :
    ⟨p, u⟩ ∈ stopsFrom i ts ↔
      ∃ j q, p = (i + j) :: q ∧ ∃ t : Tree α, ts[j]? = some t ∧ ⟨q, u⟩ ∈ t.stops := by
  induction ts generalizing i with
  | nil => simp [stopsFrom]
  | cons t ts ih =>
    rw [stopsFrom, List.mem_append, List.mem_map, ih]
    constructor
    · rintro (⟨⟨q, u⟩, hq, heq⟩ | ⟨j, q, rfl, hj⟩)
      · cases heq
        exact ⟨0, q, rfl, t, rfl, hq⟩
      · exact ⟨j + 1, q, by rw [Nat.add_assoc, Nat.add_comm 1], hj⟩
    · rintro ⟨_ | j, q, rfl, v, hv, hq⟩
      · cases hv
        exact .inl ⟨⟨q, u⟩, hq, rfl⟩
      · exact .inr ⟨j, q, by rw [Nat.add_assoc, Nat.add_comm 1], v, hv, hq⟩

theorem nil_notMem_stopsAll (ts : List (Tree α)) (u : Tree α) : ⟨[], u⟩ ∉ stopsAll ts := by
  intro h
  obtain ⟨j, q, heq, -⟩ := mem_stopsFrom.1 h
  cases heq

/-- A stop of a forest is one of the tree that the first number of its address tells. -/
theorem cons_mem_stopsAll {ts : List (Tree α)} {i : Nat} {p : List Nat} {u : Tree α} :
    ⟨i :: p, u⟩ ∈ stopsAll ts ↔ ∃ t : Tree α, ts[i]? = some t ∧ ⟨p, u⟩ ∈ t.stops := by
  rw [stopsAll, mem_stopsFrom]
  constructor
  · rintro ⟨j, q, heq, h⟩
    rw [Nat.zero_add] at heq
    cases heq
    exact h
  · exact fun h ↦ ⟨i, p, by rw [Nat.zero_add], h⟩

/-- A tree has a stop at every address that leads to a node. -/
theorem mem_stops_iff {t u : Tree α} {p : List Nat} : ⟨p, u⟩ ∈ t.stops ↔ t.reach? p = some u := by
  induction p generalizing t with
  | nil =>
    obtain ⟨a, ts⟩ := t
    rw [stops_node, List.mem_cons, or_iff_left (nil_notMem_stopsAll ts u), reach?, Option.some_inj,
      Stop.mk.injEq, eq_self, true_and, eq_comm]
  | cons i p ih =>
    obtain ⟨a, ts⟩ := t
    have hroot : (⟨i :: p, u⟩ : Stop α) ≠ ⟨[], .node a ts⟩ := fun heq ↦ by cases heq
    rw [stops_node, List.mem_cons, or_iff_right hroot, cons_mem_stopsAll, reach?, children_node,
      Option.bind_eq_some_iff]
    exact exists_congr fun t ↦ and_congr_right fun _ ↦ ih

theorem mem_stopsAll_iff {ts : List (Tree α)} {p : List Nat} {u : Tree α} :
    ⟨p, u⟩ ∈ stopsAll ts ↔ reachAll? ts p = some u := by
  cases p with
  | nil => exact iff_of_false (nil_notMem_stopsAll ts u) fun h ↦ by cases h
  | cons i p =>
    rw [cons_mem_stopsAll, reachAll?, Option.bind_eq_some_iff]
    exact exists_congr fun t ↦ and_congr_right fun _ ↦ mem_stops_iff

/-! ## In which order they come -/

mutual

theorem pairwise_stops (t : Tree α) : t.stops.Pairwise fun x y ↦ x.address < y.address := by
  match t with
  | .node a ts =>
    rw [stops, List.pairwise_cons]
    refine ⟨fun ⟨p, u⟩ h ↦ ?_, pairwise_stopsFrom 0 ts⟩
    obtain ⟨j, q, rfl, -⟩ := mem_stopsFrom.1 h
    exact List.nil_lt_cons _ q

/-- The stops of some siblings come in the order of their addresses. -/
theorem pairwise_stopsFrom (i : Nat) (ts : List (Tree α)) :
    (stopsFrom i ts).Pairwise fun x y ↦ x.address < y.address := by
  match ts with
  | [] => exact .nil
  | t :: ts =>
    rw [stopsFrom, List.pairwise_append, List.pairwise_map]
    refine ⟨(pairwise_stops t).imp fun h ↦ List.cons_lt_cons_iff.2 (.inr ⟨rfl, h⟩),
      pairwise_stopsFrom (i + 1) ts, ?_⟩
    -- all that stands in the first tree has its number, and what comes after has a larger one
    rintro x hx ⟨p, u⟩ h
    obtain ⟨y, -, rfl⟩ := List.mem_map.1 hx
    obtain ⟨j, q, rfl, -⟩ := mem_stopsFrom.1 h
    exact List.cons_lt_cons_iff.2 (.inl (by omega))

end

/-! ## What stands below a stop -/

theorem Stop.under_under (p q : List Nat) (x : Stop α) :
    Stop.under p (Stop.under q x) = Stop.under (p ++ q) x := by
  rw [under, under, under, List.append_assoc]

theorem exists_stopsFrom_eq_append {ts : List (Tree α)} {j : Nat} {t : Tree α}
    (ht : ts[j]? = some t) (i : Nat) : ∃ before later,
      stopsFrom i ts = before ++ t.stops.map (Stop.under [i + j]) ++ later := by
  induction ts generalizing i j with
  | nil => cases ht
  | cons u us ih =>
    cases j with
    | zero =>
      cases ht
      exact ⟨[], stopsFrom (i + 1) us, by rw [stopsFrom]; rfl⟩
    | succ j =>
      obtain ⟨before, later, heq⟩ := ih ht (i + 1)
      refine ⟨u.stops.map (Stop.under [i]) ++ before, later, ?_⟩
      rw [stopsFrom, heq, Nat.add_assoc, Nat.add_comm 1, List.append_assoc, List.append_assoc,
        List.append_assoc]

/-- The stops of a forest go through what stands at an address without an interruption. -/
theorem exists_stopsAll_eq_append {ts : List (Tree α)} {p : List Nat} {u : Tree α}
    (hp : reachAll? ts p = some u) :
    ∃ before later, stopsAll ts = before ++ u.stops.map (Stop.under p) ++ later := by
  induction p generalizing ts with
  | nil => cases hp
  | cons i p ih =>
    obtain ⟨⟨a, us⟩, ht, hu⟩ := Option.bind_eq_some_iff.1 hp
    obtain ⟨before, later, hts⟩ := exists_stopsFrom_eq_append ht 0
    rw [Nat.zero_add] at hts
    cases p with
    | nil =>
      cases hu
      exact ⟨before, later, hts⟩
    | cons j p =>
      -- below the tree that the first number tells, the rest of the address is one of its forest
      rw [reach?_node_cons] at hu
      obtain ⟨before', later', hus⟩ := ih hu
      refine ⟨before ++ Stop.under [i] ⟨[], .node a us⟩ :: before'.map (Stop.under [i]),
        later'.map (Stop.under [i]) ++ later, ?_⟩
      have hunder : Stop.under [i] ∘ Stop.under (j :: p) = (Stop.under (i :: j :: p) : Stop α → _) :=
        funext (Stop.under_under [i] (j :: p))
      rw [stopsAll, hts, stops_node, hus, List.map_cons, List.map_append, List.map_append,
        List.map_map, hunder]
      simp only [List.append_assoc, List.cons_append]

theorem exists_stops_eq_append {t u : Tree α} {p : List Nat} (hp : t.reach? p = some u) :
    ∃ before later, t.stops = before ++ u.stops.map (Stop.under p) ++ later := by
  obtain ⟨a, ts⟩ := t
  cases p with
  | nil =>
    cases hp
    exact ⟨[], [], by rw [List.nil_append, List.append_nil]; exact (List.map_id _).symm⟩
  | cons i p =>
    rw [reach?_node_cons] at hp
    obtain ⟨before, later, hts⟩ := exists_stopsAll_eq_append hp
    exact ⟨⟨[], .node a ts⟩ :: before, later, by rw [stops_node, hts]; rfl⟩

/-! ## Tours -/

/-- Whether stops go in preorder through the nodes that addresses lead to. -/
structure IsTour (reach : List Nat → Option (Tree α)) (stops : List (Stop α)) : Prop where
  /-- The stops are in the lexicographic order of their addresses, so none is made twice. -/
  ordered : stops.Pairwise fun x y ↦ x.address < y.address
  /-- There is a stop at every address that leads to a node, and at no other one. -/
  mem_iff : ∀ p t, ⟨p, t⟩ ∈ stops ↔ reach p = some t
  /-- The stops at a node and below it are not interrupted, and they are a walk over it. -/
  contiguous : ∀ p t, reach p = some t → ∃ before inside later,
    stops = before ++ inside ++ later ∧ (∀ x ∈ stops, x ∈ inside ↔ p <+: x.address) ∧
      inside.map Stop.tree = (Walk.start t).toList

/-- Whether a node is the first that has a property: it stands at the least address of those that
have it. -/
def IsFirst (reach : List Nat → Option (Tree α)) (P : Tree α → Prop) (t : Tree α) : Prop :=
  ∃ p, reach p = some t ∧ P t ∧ ∀ q u, reach q = some u → P u → p = q ∨ p < q

section

variable {reach : List Nat → Option (Tree α)} {stops : List (Stop α)}

/-- It is enough that the stops go through what stands at an address one after another, and that the
addresses below it are those that go on from there. -/
theorem isTour_of_forall (hordered : stops.Pairwise fun x y ↦ x.address < y.address)
    (hmem : ∀ p t, ⟨p, t⟩ ∈ stops ↔ reach p = some t)
    (hbelow : ∀ p t, reach p = some t → ∀ q, reach (p ++ q) = t.reach? q)
    (happend : ∀ p t, reach p = some t →
      ∃ before later, stops = before ++ t.stops.map (Stop.under p) ++ later) :
    IsTour reach stops := by
  refine ⟨hordered, hmem, fun p t hp ↦ ?_⟩
  obtain ⟨before, later, hstops⟩ := happend p t hp
  refine ⟨before, t.stops.map (Stop.under p), later, hstops, fun ⟨q, u⟩ hq ↦ ⟨fun h ↦ ?_, ?_⟩, ?_⟩
  · obtain ⟨y, -, heq⟩ := List.mem_map.1 h
    rw [← heq]
    exact List.prefix_append p y.address
  · rintro ⟨r, rfl⟩
    rw [hmem, hbelow p t hp r] at hq
    exact List.mem_map.2 ⟨⟨r, u⟩, mem_stops_iff.2 hq, rfl⟩
  · rw [List.map_map, Walk.toList_start, ← map_tree_stops]
    rfl

/-- What stands below another node comes after it. -/
theorem IsTour.lt_of_isPrefix (h : IsTour reach stops) {i j : Nat} {x y : Stop α}
    (hx : stops[i]? = some x) (hy : stops[j]? = some y) (hpre : x.address <+: y.address)
    (hne : x.address ≠ y.address) : i < j := by
  have hlt : x.address < y.address := Tree.lt_of_isPrefix hpre hne
  obtain ⟨hi, rfl⟩ := List.getElem?_eq_some_iff.1 hx
  obtain ⟨hj, rfl⟩ := List.getElem?_eq_some_iff.1 hy
  rcases Nat.lt_trichotomy i j with hij | rfl | hji
  · exact hij
  · exact absurd rfl hne
  · exact absurd (List.pairwise_iff_getElem.1 h.ordered j i hj hi hji) (List.lt_asymm hlt)

/-- Where some node has a property, the first of a tour that has it stands at the least address. -/
theorem IsTour.exists_find? (h : IsTour reach stops) (test : Tree α → Bool)
    (hsome : ∃ q u, reach q = some u ∧ test u = true) :
    ∃ t, (stops.map Stop.tree).find? test = some t ∧ IsFirst reach (test · = true) t := by
  obtain ⟨q₀, u₀, hq₀, hu₀⟩ := hsome
  have hisSome : (stops.find? (test ∘ Stop.tree)).isSome :=
    List.find?_isSome.2 ⟨⟨q₀, u₀⟩, (h.mem_iff q₀ u₀).2 hq₀, hu₀⟩
  obtain ⟨⟨p, t⟩, hfind⟩ := Option.isSome_iff_exists.1 hisSome
  obtain ⟨ht, earlier, later, hstops, hearlier⟩ := List.find?_eq_some_iff_append.1 hfind
  have hp : reach p = some t := (h.mem_iff p t).1 (List.mem_of_find?_eq_some hfind)
  refine ⟨t, by rw [List.find?_map, hfind]; rfl, p, hp, ht, fun q u hq hu ↦ ?_⟩
  have hordered := h.ordered
  have hmem : ⟨q, u⟩ ∈ stops := (h.mem_iff q u).2 hq
  rw [hstops] at hordered hmem
  rcases List.mem_append.1 hmem with hmem | hmem
  · simpa [hu] using hearlier _ hmem
  · rcases List.mem_cons.1 hmem with heq | hmem
    · cases heq
      exact .inl rfl
    · exact .inr (List.rel_of_pairwise_cons (List.pairwise_append.1 hordered).2.1 hmem)

end

theorem isTour_stops (t : Tree α) : IsTour t.reach? t.stops :=
  isTour_of_forall (pairwise_stops t) (fun _ _ ↦ mem_stops_iff)
    (fun p u hp q ↦ by rw [reach?_append, hp, Option.bind_some])
    fun _ _ ↦ exists_stops_eq_append

theorem isTour_stopsAll (ts : List (Tree α)) : IsTour (reachAll? ts) (stopsAll ts) :=
  isTour_of_forall (pairwise_stopsFrom 0 ts) (fun _ _ ↦ mem_stopsAll_iff)
    (fun _ _ hp ↦ reachAll?_append hp) fun _ _ ↦ exists_stopsAll_eq_append

/-! ## Walks are tours -/

/-- Whether the calls of a walk over a tree go through the tree in preorder. -/
structure IsWalked (t : Tree α) : Prop where
  /-- The calls answer one node of the list after another. -/
  answer?_eq : ∀ k, (Walk.start t).answer? k = (Walk.start t).toList[k]?
  /-- A call has no answer when there have been as many calls as there are nodes. -/
  answer?_eq_none_iff : ∀ k, (Walk.start t).answer? k = none ↔ t.size ≤ k
  /-- The tree itself comes first, and then the walks over its children in order. -/
  toList_eq_cons : (Walk.start t).toList = t :: t.children.flatMap fun u ↦ (Walk.start u).toList
  /-- The nodes that are visited are those of the stops. -/
  map_tree_stops : t.stops.map Stop.tree = (Walk.start t).toList
  /-- The stops are a tour of the tree. -/
  isTour : IsTour t.reach? t.stops

theorem isWalked (t : Tree α) : IsWalked t where
  answer?_eq := (Walk.start t).answer?_eq
  answer?_eq_none_iff k := by
    rw [Walk.answer?_eq, List.getElem?_eq_none_iff, Walk.length_toList_start]
  toList_eq_cons := Walk.toList_start_eq_cons t
  map_tree_stops := (map_tree_stops t).trans (Walk.toList_start t).symm
  isTour := isTour_stops t

/-- Leaves that look the same are two stops. -/
example : (node 1 [.node 2 [.node 3 []], .node 3 []]).stops.map (fun x ↦ (x.address, x.tree.label))
    = [([], 1), ([0], 2), ([0, 0], 3), ([1], 3)] := rfl

end SvgWorkbench.Tree
