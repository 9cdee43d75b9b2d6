import SvgWorkbench.Proofs.Document.Stored

/-!
# The arena of a document is a forest

Everything a list of cells says of how nodes hang together, the trees of the document say too, and
trees cannot be wrong about it. So parents and lists of children agree, no node is listed twice, and
going through an arena from its top level comes to an end: it is going through the trees.
-/

namespace SvgWorkbench

open SvgWorkbench.Tree

/-! ## Elements of a forest -/

namespace Node

variable {n t : Node} {ts : List Node}

theorem elementsAll_eq_flatMap (ts : List Node) : elementsAll ts = ts.flatMap elements := by
  induction ts with
  | nil => rfl
  | cons t ts ih => rw [elementsAll, ih, List.flatMap_cons]

theorem elements_of_isElement (hn : n.isElement = true) :
    n.elements = n :: elementsAll n.children := by
  obtain ⟨s, ts⟩ := n
  exact if_pos hn

theorem elements_of_not_isElement (hn : ¬ n.isElement = true) : n.elements = [] := by
  obtain ⟨s, ts⟩ := n
  exact if_neg hn

theorem mem_elementsAll_of_mem (ht : t ∈ ts) (helement : t.isElement = true) :
    t ∈ elementsAll ts := by
  rw [elementsAll_eq_flatMap]
  exact List.mem_flatMap.2 ⟨t, ht, mem_elements_self helement⟩

/-- An element right below an element is below whatever that is below. -/
theorem mem_elements_of_mem_children {child : Node} (hn : n ∈ t.elements)
    (hchild : child ∈ n.children) (helement : child.isElement = true) : child ∈ t.elements := by
  refine mem_elements_trans hn ?_
  rw [elements_of_isElement (isElement_of_mem_elements hn)]
  exact List.mem_cons_of_mem _ (mem_elementsAll_of_mem hchild helement)

/-- The children of a node have handles of their own. -/
theorem nodup_handles_children (hnodup : (handlesAll ts).Nodup) (hn : n ∈ subtreesAll ts) :
    (n.children.map handle).Nodup := by
  have hinside := nodup_handles_of_mem_subtreesAll hnodup hn
  rw [handles_eq, List.nodup_cons] at hinside
  exact hinside.2.sublist (sublist_handlesAll _)

/-- The elements come in the order of all nodes. -/
theorem sublist_elementsAll (ts : List Node) :
    ((elementsAll ts).map handle).Sublist (handlesAll ts) := by
  induction ts using forest_induction with
  | nil => exact .slnil
  | cons s us ts ihus ihts =>
    rw [elementsAll, handlesAll_cons, List.map_append]
    refine List.Sublist.append ?_ ihts
    rw [handles_node]
    by_cases hs : isElement (.node s us) = true
    · rw [elements_of_isElement hs]
      exact ihus.cons_cons _
    · rw [elements_of_not_isElement hs]
      exact List.nil_sublist _

end Node

namespace Arena

variable {a : Arena} {d : Document} {n : Node} {p q h : Handle}

/-! ## Lists of children -/

theorem lt_length_of_mem_children (hq : q ∈ a.children p) : p < a.cells.length := by
  by_contra hp
  rw [children, List.getElem?_eq_none (Nat.le_of_not_lt hp)] at hq
  cases hq

theorem lt_length_of_parent? (hq : a.parent? q = some p) : q < a.cells.length := by
  by_contra hlt
  rw [parent?, List.getElem?_eq_none (Nat.le_of_not_lt hlt)] at hq
  cases hq

namespace Stores

theorem exists_of_mem_children (hs : a.Stores d) (hq : q ∈ a.children p) :
    ∃ m ∈ d.nodes, ∃ n ∈ Tree.children m, Node.handle m = p ∧ Node.handle n = q := by
  obtain ⟨m, hm, rfl⟩ := hs.exists_node (hs.length ▸ lt_length_of_mem_children hq)
  rw [hs.children_eq hm] at hq
  obtain ⟨n, hn, rfl⟩ := List.mem_map.1 hq
  exact ⟨m, hm, n, hn, rfl, rfl⟩

/-- **Parents and lists of children say the same.** -/
theorem mem_children_iff (hs : a.Stores d) : q ∈ a.children p ↔ a.parent? q = some p := by
  constructor
  · intro hq
    obtain ⟨m, hm, n, hn, rfl, rfl⟩ := hs.exists_of_mem_children hq
    exact (hs.parent?_eq_some hm hn).2
  · intro hp
    obtain ⟨n, hn, rfl⟩ := hs.exists_node (hs.length ▸ lt_length_of_parent? hp)
    rcases hs.root_or_below hn with ⟨hroot, -⟩ | ⟨m, hm, hmem, -⟩
    · rw [(hs.parent?_eq_none hroot).2] at hp
      cases hp
    · rw [(hs.parent?_eq_some hm hmem).2] at hp
      obtain rfl := Option.some.inj hp
      rw [hs.children_eq hm]
      exact List.mem_map_of_mem hmem

theorem nodup_children (hs : a.Stores d) (p : Handle) : (a.children p).Nodup := by
  by_cases hp : p < a.cells.length
  · obtain ⟨m, hm, rfl⟩ := hs.exists_node (hs.length ▸ hp)
    rw [hs.children_eq hm]
    exact Node.nodup_handles_children hs.nodup hm
  · rw [children, List.getElem?_eq_none (Nat.le_of_not_lt hp)]
    exact List.nodup_nil

theorem nodup_topLevel (hs : a.Stores d) : (Node.handlesAll d.topLevel).Nodup := by
  have hnodup := hs.nodup
  rw [Node.handlesAll_append, List.nodup_append] at hnodup
  exact hnodup.1

theorem lt_of_mem_children (hs : a.Stores d) (hq : q ∈ a.children p) : p < q := by
  obtain ⟨m, hm, n, hn, rfl, rfl⟩ := hs.exists_of_mem_children hq
  obtain ⟨r, hholds⟩ := hs.exists_holds hm
  exact (holds_iff.1 hholds).2.1 _ (List.mem_map_of_mem hn)

/-- **The arena of a document is a forest.** -/
theorem isForest (hs : a.Stores d) : a.IsForest where
  mem_children_iff _ _ := hs.mem_children_iff
  nodup_children := hs.nodup_children
  nodup_topLevel := hs.topLevel ▸ hs.nodup_topLevel.sublist (Node.sublist_handlesAll _)
  notMem_children := by
    intro q hq p hmem
    rw [hs.topLevel] at hq
    obtain ⟨t, ht, rfl⟩ := List.mem_map.1 hq
    obtain ⟨m, hm, n, hn, -, heq⟩ := hs.exists_of_mem_children hmem
    exact Node.handle_ne_of_mem_children hs.nodup hm hn t (List.mem_append_left _ ht) heq.symm
  lt_of_mem_children _ _ hq := hs.lt_of_mem_children hq
  lt_length := by
    rintro row (rfl | ⟨p, rfl⟩) q hq
    · rw [hs.topLevel] at hq
      obtain ⟨t, ht, rfl⟩ := List.mem_map.1 hq
      exact hs.length ▸ hs.lt_next (mem_subtreesAll_of_mem (List.mem_append_left _ ht))
    · obtain ⟨m, hm, n, hn, -, rfl⟩ := hs.exists_of_mem_children hq
      exact hs.length ▸ hs.lt_next (mem_subtreesAll_of_mem_children hm hn)

end Stores

/-- In a forest, a node is detached exactly if it is in a list. -/
theorem IsForest.isSome_detach?_iff (ha : a.IsForest) (h : Handle) :
    (a.detach? h).isSome = true ↔ (∃ p, h ∈ a.children p) ∨ h ∈ a.topLevel := by
  cases hparent : a.parent? h with
  | some p =>
    have hmem : h ∈ a.children p := (ha.mem_children_iff p h).2 hparent
    rw [detach?, hparent]
    simpa [hmem] using .inl ⟨p, hmem⟩
  | none =>
    have hout : ¬ ∃ p, h ∈ a.children p := by
      rintro ⟨p, hmem⟩
      rw [(ha.mem_children_iff p h).1 hmem] at hparent
      cases hparent
    rw [or_iff_right hout, detach?, hparent]
    simp

/-! ## Going down -/

/-- The elements of a forest are collected tree by tree. -/
theorem mapM_eq_some {f : Handle → Option (List Handle)} {ts : List Node}
    (hts : ∀ t ∈ ts, f (Node.handle t) = some ((Node.elements t).map Node.handle)) :
    ((ts.map Node.handle).mapM f).map List.flatten
      = some ((Node.elementsAll ts).map Node.handle) := by
  suffices hmapM : (ts.map Node.handle).mapM f
      = some (ts.map fun t ↦ (Node.elements t).map Node.handle) by
    rw [hmapM, Option.map_some, Node.elementsAll_eq_flatMap, List.map_flatMap, List.flatMap]
  induction ts with
  | nil => rfl
  | cons t ts ih =>
    rw [List.forall_mem_cons] at hts
    rw [List.map_cons, List.mapM_cons, hts.1, ih hts.2]
    rfl

theorem size_eq (t : Node) : t.size = 1 + sizeAll t.children := by
  obtain ⟨s, ts⟩ := t
  rfl

theorem size_le_of_mem {t : Node} {ts : List Node} (ht : t ∈ ts) : t.size ≤ sizeAll ts :=
  size_le_sizeAll (mem_subtreesAll_of_mem ht)

/-- **Going down comes to an end**: a bound on the number of nodes is one on the depth. -/
theorem collect?_eq {depth : Nat} {r : Option Handle} (hn : a.Holds r n) (hsize : n.size ≤ depth) :
    a.collect? depth n.handle = some (n.elements.map Node.handle) := by
  induction depth generalizing n r with
  | zero =>
    rw [size_eq] at hsize
    omega
  | succ depth ih =>
    rw [size_eq] at hsize
    rw [collect?, isElement_of_holds hn]
    by_cases helement : n.isElement = true
    · have hbelow := mapM_eq_some (f := a.collect? depth) fun t (ht : t ∈ n.children) ↦
        ih (holdsAll_iff.1 (holds_iff.1 hn).2.2 t ht) (by have := size_le_of_mem ht; omega)
      obtain ⟨below, hmapM, hflatten⟩ := Option.map_eq_some_iff.1 hbelow
      rw [if_pos helement, children_of_holds hn, hmapM, Option.map_some, hflatten,
        Node.elements_of_isElement helement, List.map_cons]
    · rw [if_neg helement, Node.elements_of_not_isElement helement]
      rfl

/-! ## What is reached -/

/-- The elements of a forest are reached if its roots are. -/
theorem HoldsAll.reaches {r : Option Handle} {ts : List Node} (hts : a.HoldsAll r ts)
    (hroots : ∀ t ∈ ts, Node.isElement t = true → a.Reaches (Node.handle t)) :
    ∀ n ∈ Node.elementsAll ts, a.Reaches n.handle := by
  induction ts using forest_induction generalizing r with
  | nil => exact nofun
  | cons s us ts ihus ihts =>
    obtain ⟨hself, hrest⟩ := hts
    rw [List.forall_mem_cons] at hroots
    refine List.forall_mem_append.2 ⟨fun n hn ↦ ?_, ihts hrest hroots.2⟩
    by_cases helement : Node.isElement (.node s us) = true
    · have hreaches := hroots.1 helement
      rw [Node.elements_of_isElement helement] at hn
      rcases List.mem_cons.1 hn with rfl | hn
      · exact hreaches
      · refine ihus hself.2.2 (fun t ht htelement ↦ .child hreaches ?_ ?_) n hn
        · rw [children_of_holds hself]
          exact List.mem_map_of_mem ht
        · rwa [isElement_of_holds (holdsAll_iff.1 hself.2.2 t ht)]
    · rw [Node.elements_of_not_isElement helement] at hn
      cases hn

/-! ## The order of a text -/

/-- What stands in a forest hangs at or below one of its roots. -/
theorem HoldsAll.exists_isBelow {r : Option Handle} {ts : List Node} (hts : a.HoldsAll r ts) :
    ∀ q ∈ Node.handlesAll ts, ∃ t ∈ ts, a.IsBelow (Node.handle t) q := by
  induction ts using forest_induction generalizing r with
  | nil => exact nofun
  | cons s us ts ihus ihts =>
    obtain ⟨hself, hrest⟩ := hts
    rw [Node.handlesAll_cons, Node.handles_node]
    refine List.forall_mem_append.2 ⟨List.forall_mem_cons.2 ⟨?_, fun q hq ↦ ?_⟩, fun q hq ↦ ?_⟩
    · exact ⟨_, List.mem_cons_self, .refl⟩
    · obtain ⟨t, ht, hbelow⟩ := ihus hself.2.2 q hq
      refine ⟨_, List.mem_cons_self, .head ?_ hbelow⟩
      rw [children_of_holds hself]
      exact List.mem_map_of_mem ht
    · obtain ⟨t, ht, hbelow⟩ := ihts hrest q hq
      exact ⟨t, List.mem_cons_of_mem _ ht, hbelow⟩

theorem Holds.isBelow {r : Option Handle} (hn : a.Holds r n) (hq : q ∈ n.handles) :
    a.IsBelow n.handle q := by
  have hforest : a.HoldsAll r [n] := ⟨hn, trivial⟩
  obtain ⟨t, ht, hbelow⟩ := hforest.exists_isBelow q (by simpa using hq)
  rwa [List.mem_singleton.1 ht] at hbelow

/-- **The nodes of a forest are in document order**, where its roots stand in one list. -/
theorem HoldsAll.pairwise_precedes {r : Option Handle} {ts : List Node} (hts : a.HoldsAll r ts)
    (hnodup : (Node.handlesAll ts).Nodup) {row : List Handle} (hrow : a.IsRow row)
    (hsub : (ts.map Node.handle).Sublist row) : (Node.handlesAll ts).Pairwise a.Precedes := by
  induction ts using forest_induction generalizing r row with
  | nil => exact .nil
  | cons s us ts ihus ihts =>
    obtain ⟨hself, hrest⟩ := hts
    rw [Node.handlesAll_cons, List.nodup_append] at hnodup
    obtain ⟨hinside, hbeside, hdisjoint⟩ := hnodup
    rw [Node.handlesAll_cons, List.pairwise_append]
    refine ⟨?_, ihts hrest hbeside hrow ((List.sublist_cons_self _ _).trans hsub), ?_⟩
    · rw [Node.handles_node, List.nodup_cons] at hinside
      rw [Node.handles_node, List.pairwise_cons]
      refine ⟨fun k hk ↦ ⟨fun heq ↦ hinside.1 (heq ▸ hk), .inl (hself.isBelow ?_)⟩, ?_⟩
      · rw [Node.handles_node]
        exact List.mem_cons_of_mem _ hk
      · exact ihus hself.2.2 hinside.2 (.inr ⟨s.handle, (children_of_holds hself).symm⟩) (.refl _)
    · intro q hq k hk
      obtain ⟨t, ht, hbelow⟩ := hrest.exists_isBelow k hk
      have hpair : [s.handle, Node.handle t].Sublist row :=
        ((List.singleton_sublist.2 (List.mem_map_of_mem ht)).cons_cons _).trans hsub
      exact ⟨hdisjoint q hq k hk, .inr ⟨row, _, _, hrow, hpair, hself.isBelow hq, hbelow⟩⟩

namespace Stores

theorem sizeAll_le (hs : a.Stores d) : sizeAll d.topLevel ≤ a.cells.length := by
  have hlength := hs.numbered.length_eq
  rw [Node.handlesAll, List.length_map, length_preorderAll, List.length_range, sizeAll_append]
    at hlength
  rw [hs.length, ← hlength]
  exact Nat.le_add_right _ _

theorem elements?_eq (hs : a.Stores d) {depth : Nat} (hdepth : a.cells.length ≤ depth) :
    a.elements? depth = some (d.elements.map Node.handle) := by
  have hholds := (holdsAll_append.1 hs.holds).1
  rw [elements?, hs.topLevel]
  refine mapM_eq_some fun t ht ↦ collect?_eq (holdsAll_iff.1 hholds t ht) ?_
  exact (size_le_of_mem ht).trans (hs.sizeAll_le.trans hdepth)

/-- The elements of the text are those that are reached through elements. -/
theorem mem_elements_iff (hs : a.Stores d) :
    q ∈ d.elements.map Node.handle ↔ a.Reaches q := by
  constructor
  · intro hq
    obtain ⟨n, hn, rfl⟩ := List.mem_map.1 hq
    have hholds := (holdsAll_append.1 hs.holds).1
    refine hholds.reaches (fun t ht helement ↦ .top ?_ ?_) n hn
    · rw [hs.topLevel]
      exact List.mem_map_of_mem ht
    · rwa [isElement_of_holds (holdsAll_iff.1 hholds t ht)]
  · intro hq
    induction hq with
    | @top h htop helement =>
      rw [hs.topLevel] at htop
      obtain ⟨t, ht, rfl⟩ := List.mem_map.1 htop
      rw [hs.isElement_eq (mem_subtreesAll_of_mem (List.mem_append_left _ ht))] at helement
      exact List.mem_map_of_mem (Node.mem_elementsAll_of_mem ht helement)
    | @child p h hp hmem helement ih =>
      obtain ⟨m, hm, rfl⟩ := List.mem_map.1 ih
      obtain ⟨m', hm', n, hn, hhandle, rfl⟩ := hs.exists_of_mem_children hmem
      have hnode : m ∈ d.nodes := by
        rw [Document.nodes, subtreesAll_append]
        exact List.mem_append_left _ (Node.mem_subtreesAll_of_mem_elementsAll hm)
      obtain rfl := Node.eq_of_handle_eq_all hs.nodup hm' hnode hhandle
      rw [hs.isElement_eq (mem_subtreesAll_of_mem_children hm' hn)] at helement
      refine List.mem_map_of_mem (Node.mem_elementsAll_trans hm ?_)
      rw [Node.elements_of_isElement (Node.isElement_of_mem_elementsAll hm)]
      exact List.mem_cons_of_mem _ (Node.mem_elementsAll_of_mem hn helement)

/-- The elements of a document are listed by its arena. -/
theorem listsElements (hs : a.Stores d) : a.ListsElements (d.elements.map Node.handle) where
  collected _ := hs.elements?_eq
  mem_iff _ := hs.mem_elements_iff
  nodup := hs.nodup_topLevel.sublist (Node.sublist_elementsAll _)
  ordered := by
    refine List.Pairwise.sublist (Node.sublist_elementsAll _) ?_
    exact (holdsAll_append.1 hs.holds).1.pairwise_precedes hs.nodup_topLevel (.inl rfl)
      (hs.topLevel ▸ List.Sublist.refl _)

end Stores

end Arena

end SvgWorkbench
