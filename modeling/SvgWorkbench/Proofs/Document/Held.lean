import SvgWorkbench.Proofs.Document.Arena
import SvgWorkbench.Proofs.Document.Insert
import SvgWorkbench.Proofs.Document.Place

/-!
# Trees in an arena

An arena has a forest when the cell of every node says what the tree says of it. No cell is looked
at twice, since no handle means two nodes, so a change of some cells matters only to the nodes these
belong to. To change one node of a forest is to change the cells of that node and of what is below.
-/

namespace SvgWorkbench

open SvgWorkbench.Tree

/-! ## Handles of a forest -/

namespace Node

@[simp] theorem handle_node (s : Slot) (ts : List Node) : handle (.node s ts) = s.handle := rfl

theorem handlesAll_append (ts us : List Node) :
    handlesAll (ts ++ us) = handlesAll ts ++ handlesAll us := by
  induction ts with
  | nil => rfl
  | cons t ts ih => rw [List.cons_append, handlesAll_cons, ih, handlesAll_cons, List.append_assoc]

theorem handles_eq (n : Node) : n.handles = n.handle :: handlesAll n.children := by
  obtain ⟨s, ts⟩ := n
  exact handles_node s ts

mutual

theorem handles_subset_of_mem_subtrees {n t : Node} (hn : n ∈ t.subtrees) :
    n.handles ⊆ t.handles := by
  match t with
  | .node s ts =>
    rw [handles_node]
    rcases List.mem_cons.1 hn with rfl | hn
    · rw [handles_node]
      exact List.Subset.refl _
    · exact List.subset_cons_of_subset _ (handles_subset_of_mem_subtreesAll hn)

theorem handles_subset_of_mem_subtreesAll {n : Node} {ts : List Node} (hn : n ∈ subtreesAll ts) :
    n.handles ⊆ handlesAll ts := by
  match ts with
  | [] => cases hn
  | t :: ts =>
    rw [handlesAll_cons]
    rcases List.mem_append.1 hn with hn | hn
    · exact List.subset_append_of_subset_left _ (handles_subset_of_mem_subtrees hn)
    · exact List.subset_append_of_subset_right _ (handles_subset_of_mem_subtreesAll hn)

end

theorem perm_handlesAll {ts us : List Node} (h : us.Perm ts) :
    (handlesAll us).Perm (handlesAll ts) := by
  rw [handlesAll, handlesAll, preorderAll_eq_flatMap, preorderAll_eq_flatMap]
  exact (h.flatMap_right _).map _

/-- The roots of a forest are among its nodes. -/
theorem sublist_handlesAll (ts : List Node) : (ts.map handle).Sublist (handlesAll ts) := by
  induction ts with
  | nil => exact .slnil
  | cons t ts ih =>
    rw [List.map_cons, handlesAll_cons, handles_eq, List.cons_append]
    exact (ih.trans (List.sublist_append_right _ _)).cons_cons _

theorem exists_of_mem_handlesAll {h : Handle} {ts : List Node} (hmem : h ∈ handlesAll ts) :
    ∃ n ∈ subtreesAll ts, Node.handle n = h := by
  rw [handlesAll, ← map_label_subtreesAll, List.map_map] at hmem
  obtain ⟨n, hn, rfl⟩ := List.mem_map.1 hmem
  exact ⟨n, hn, rfl⟩

/-- Where no handle stands twice, what is below a root is no root. -/
theorem notMem_map_handle {h : Handle} {t : Node} {ts : List Node} (hnodup : (handlesAll ts).Nodup)
    (ht : t ∈ ts) (hmem : h ∈ handlesAll t.children) : h ∉ ts.map handle := by
  induction ts with
  | nil => cases ht
  | cons u ts ih =>
    rw [handlesAll_cons, handles_eq, List.nodup_append, List.nodup_cons] at hnodup
    obtain ⟨⟨hroot, -⟩, hts, hdisjoint⟩ := hnodup
    rw [List.map_cons, List.mem_cons, not_or]
    rcases List.mem_cons.1 ht with rfl | ht
    · refine ⟨fun heq ↦ hroot (heq ▸ hmem), fun hout ↦ ?_⟩
      exact hdisjoint _ (List.mem_cons_of_mem _ hmem) _ ((sublist_handlesAll ts).subset hout) rfl
    · refine ⟨fun heq ↦ ?_, ih hts ht⟩
      refine hdisjoint _ List.mem_cons_self _ ?_ heq.symm
      refine handles_subset_of_mem_subtreesAll (mem_subtreesAll_of_mem ht) ?_
      rw [handles_eq]
      exact List.mem_cons_of_mem _ hmem

/-! ## Handles of a changed forest -/

variable {f : Node → Node} {n : Node} {ts us : List Node} {s : Slot}

/-- Where no handle stands twice, a change of one node changes the first tree, what is below it or
the trees after it, and leaves the others as they are. -/
theorem modifyAll_cons_cases (hnodup : (handlesAll (.node s us :: ts)).Nodup)
    (hn : n ∈ subtreesAll (.node s us :: ts)) :
    (n = .node s us ∧ modifyAll n.handle f (.node s us :: ts) = f n :: ts) ∨
    (n ∈ subtreesAll us ∧
      modifyAll n.handle f (.node s us :: ts) = .node s (modifyAll n.handle f us) :: ts) ∨
    (n ∈ subtreesAll ts ∧
      modifyAll n.handle f (.node s us :: ts) = .node s us :: modifyAll n.handle f ts) := by
  rw [handlesAll_cons, List.nodup_append] at hnodup
  obtain ⟨hfirst, -, hdisjoint⟩ := hnodup
  rw [handles_node, List.nodup_cons] at hfirst
  rcases List.mem_append.1 hn with hn | hn
  · have hout : n.handle ∉ handlesAll ts := fun hmem ↦
      hdisjoint _ (handle_mem_handles hn) _ hmem rfl
    rw [modifyAll, modifyAll_of_notMem hout]
    rcases List.mem_cons.1 hn with rfl | hn
    · exact .inl ⟨rfl, by rw [modify_handle]⟩
    · have hne : s.handle ≠ n.handle := fun heq ↦ hfirst.1 (heq ▸ handle_mem_handlesAll hn)
      exact .inr (.inl ⟨hn, by rw [modify, if_neg hne]⟩)
  · have hout : n.handle ∉ handles (.node s us) := fun hmem ↦
      hdisjoint _ hmem _ (handle_mem_handlesAll hn) rfl
    refine .inr (.inr ⟨hn, ?_⟩)
    rw [modifyAll, modify_eq_self fun m hm heq ↦ ?_]
    exact absurd (heq ▸ handle_mem_handles hm : n.handle ∈ _) hout

/-- A change of one node changes the handles of that node. -/
theorem perm_handlesAll_modifyAll (hnodup : (handlesAll ts).Nodup) (hn : n ∈ subtreesAll ts) :
    (handlesAll (modifyAll n.handle f ts) ++ n.handles).Perm
      (handlesAll ts ++ (f n).handles) := by
  rw [List.perm_iff_count]
  intro k
  rw [List.count_append, List.count_append]
  induction ts using forest_induction with
  | nil => cases hn
  | cons s us ts ihus ihts =>
    have hparts := hnodup
    rw [handlesAll_cons, handles_node, List.nodup_append, List.nodup_cons] at hparts
    obtain ⟨⟨-, hus⟩, hts, -⟩ := hparts
    rcases modifyAll_cons_cases (f := f) hnodup hn with ⟨rfl, heq⟩ | ⟨hn, heq⟩ | ⟨hn, heq⟩ <;>
      rw [heq, handlesAll_cons, handlesAll_cons, List.count_append, List.count_append]
    · omega
    · have := ihus hus hn
      rw [handles_node, handles_node, List.count_cons, List.count_cons]
      omega
    · have := ihts hts hn
      omega

theorem handle_addChild (leaf n : Node) : handle (addChild leaf n) = handle n := rfl

theorem handle_withChildren (us : List Node) (n : Node) : handle (withChildren us n) = handle n :=
  rfl

theorem handle_mapElement (f : Element → Element) (n : Node) :
    handle (mapElement f n) = handle n := by
  obtain ⟨⟨k, c⟩, ts⟩ := n
  cases c <;> rfl

theorem handles_mapElement (f : Element → Element) (n : Node) :
    handles (mapElement f n) = handles n := by
  obtain ⟨⟨k, c⟩, ts⟩ := n
  cases c <;> rfl

/-- A change that leaves the handle of a node as it is leaves the roots where they are. -/
theorem map_handle_modifyAll (hf : ∀ n, handle (f n) = handle n) (h : Handle) (ts : List Node) :
    (modifyAll h f ts).map handle = ts.map handle := by
  induction ts with
  | nil => rfl
  | cons t ts ih =>
    obtain ⟨s, us⟩ := t
    rw [modifyAll, List.map_cons, ih, List.map_cons, modify]
    split
    · rw [hf]
    · rfl

/-! ## Handles of a forest without a node -/

theorem pruneAll_append (h : Handle) (ts us : List Node) :
    pruneAll h (ts ++ us) = pruneAll h ts ++ pruneAll h us := by
  induction ts with
  | nil => rfl
  | cons t ts ih =>
    rw [List.cons_append, pruneAll, pruneAll, ih]
    split
    · rfl
    · rw [List.cons_append]

theorem handle_prune (h : Handle) (n : Node) : handle (prune h n) = handle n := by
  obtain ⟨s, ts⟩ := n
  rfl

/-- The roots that stay are those of other handles. -/
theorem map_handle_pruneAll (h : Handle) (ts : List Node) :
    (pruneAll h ts).map handle = (ts.map handle).filter (· ≠ h) := by
  induction ts with
  | nil => rfl
  | cons t ts ih =>
    obtain ⟨s, us⟩ := t
    rw [pruneAll, List.map_cons, List.filter_cons, handle_node, label_node]
    split
    · next hs => rw [if_neg (by simpa using hs), ih]
    · next hs => rw [if_pos (by simpa using hs), List.map_cons, ih]; rfl

/-- Where no handle stands twice, taking out a root leaves the trees before it and after it, and its
handle in none of them. -/
theorem exists_pruneAll_eq (hnodup : (handlesAll ts).Nodup) (hn : n ∈ ts) :
    ∃ us vs, ts = us ++ n :: vs ∧ pruneAll n.handle ts = us ++ vs ∧
      n.handle ∉ handlesAll (us ++ vs) := by
  obtain ⟨us, vs, rfl⟩ := List.append_of_mem hn
  rw [handlesAll_append, handlesAll_cons, handles_eq, List.nodup_append, List.cons_append,
    List.nodup_cons, List.mem_append, not_or] at hnodup
  obtain ⟨-, ⟨⟨-, hvs⟩, -⟩, hdisjoint⟩ := hnodup
  have hus : n.handle ∉ handlesAll us := fun hmem ↦ hdisjoint _ hmem _ List.mem_cons_self rfl
  refine ⟨us, vs, rfl, ?_, ?_⟩
  · rw [pruneAll_append, pruneAll_of_notMem hus, pruneAll,
      if_pos (show n.label.handle = n.handle from rfl), pruneAll_of_notMem hvs]
  · rw [handlesAll_append, List.mem_append, not_or]
    exact ⟨hus, hvs⟩

variable {vs : List Node}

theorem erase_map_handle (hout : n.handle ∉ handlesAll (us ++ vs)) :
    ((us ++ n :: vs).map handle).erase n.handle = (us ++ vs).map handle := by
  have hus : n.handle ∉ us.map handle := fun hmem ↦ hout (by
    rw [handlesAll_append]
    exact List.mem_append_left _ ((sublist_handlesAll us).subset hmem))
  rw [List.map_append, List.map_cons, List.erase_append_right _ hus, List.erase_cons_head,
    ← List.map_append]

theorem perm_handlesAll_append_cons (us vs : List Node) (n : Node) :
    (handlesAll (us ++ vs) ++ n.handles).Perm (handlesAll (us ++ n :: vs)) := by
  rw [handlesAll_append, handlesAll_append, handlesAll_cons, List.append_assoc]
  exact List.perm_append_comm.append_left _

end Node

/-! ## Cells of a changed arena -/

namespace Arena

variable {a a' : Arena} {h k : Handle} {f : Cell → Cell}

@[simp] theorem length_alter : (a.alter h f).cells.length = a.cells.length :=
  List.length_modify ..

@[simp] theorem topLevel_alter : (a.alter h f).topLevel = a.topLevel := rfl

theorem getElem?_alter :
    (a.alter h f).cells[k]? = if h = k then a.cells[k]?.map f else a.cells[k]? := by
  rw [alter, List.getElem?_modify]
  split <;> simp

@[simp] theorem length_push (c : Cell) : (a.push c).cells.length = a.cells.length + 1 :=
  List.length_append ..

@[simp] theorem topLevel_push (c : Cell) : (a.push c).topLevel = a.topLevel := rfl

theorem getElem?_push_of_lt {k : Handle} (hk : k < a.cells.length) (c : Cell) :
    (a.push c).cells[k]? = a.cells[k]? := List.getElem?_append_left hk

theorem getElem?_push_length (c : Cell) : (a.push c).cells[a.cells.length]? = some c :=
  List.getElem?_concat_length

@[simp] theorem topLevel_release (hs : List Handle) : (a.release hs).topLevel = a.topLevel := by
  induction hs generalizing a with
  | nil => rfl
  | cons k hs ih => exact ih

@[simp] theorem length_release (hs : List Handle) :
    (a.release hs).cells.length = a.cells.length := by
  induction hs generalizing a with
  | nil => rfl
  | cons k hs ih => exact ih.trans length_alter

theorem getElem?_release_of_notMem {hs : List Handle} {k : Handle} (hk : k ∉ hs) :
    (a.release hs).cells[k]? = a.cells[k]? := by
  induction hs generalizing a with
  | nil => rfl
  | cons h hs ih =>
    rw [List.mem_cons, not_or] at hk
    refine (ih hk.2).trans ?_
    rw [getElem?_alter, if_neg (Ne.symm hk.1)]

theorem getElem?_release {hs : List Handle} {k : Handle} (hk : k ∈ hs) :
    (a.release hs).cells[k]? = a.cells[k]?.map fun c ↦ { c with parent := none } := by
  induction hs generalizing a with
  | nil => cases hk
  | cons h hs ih =>
    have hstep : (a.release (h :: hs)) = (a.alter h _).release hs := rfl
    rw [hstep]
    by_cases hmem : k ∈ hs
    · rw [ih hmem, getElem?_alter]
      split
      · rw [Option.map_map]
        rfl
      · rfl
    · obtain rfl := (List.mem_cons.1 hk).resolve_right hmem
      rw [getElem?_release_of_notMem hmem, getElem?_alter, if_pos rfl]

/-! ## Trees that are held -/

variable {p q : Option Handle} {n : Node} {ts us : List Node}

theorem holds_iff : a.Holds p n ↔
    a.cells[n.handle]? = some ⟨n.content, p, n.children.map Node.handle⟩ ∧
      (∀ k ∈ n.children.map Node.handle, n.handle < k) ∧
      a.HoldsAll (some n.handle) n.children := by
  obtain ⟨s, ts⟩ := n
  exact Iff.rfl

theorem isElement_of_holds (hn : a.Holds p n) : a.isElement n.handle = n.isElement := by
  rw [isElement, (holds_iff.1 hn).1]
  rfl

theorem children_of_holds (hn : a.Holds p n) :
    a.children n.handle = n.children.map Node.handle := by
  rw [children, (holds_iff.1 hn).1]
  rfl

theorem holdsAll_iff : a.HoldsAll p ts ↔ ∀ t ∈ ts, a.Holds p t := by
  induction ts with
  | nil => exact ⟨fun _ ↦ nofun, fun _ ↦ trivial⟩
  | cons t ts ih => rw [List.forall_mem_cons, ← ih]; exact Iff.rfl

theorem holdsAll_append : a.HoldsAll p (ts ++ us) ↔ a.HoldsAll p ts ∧ a.HoldsAll p us := by
  rw [holdsAll_iff, holdsAll_iff, holdsAll_iff, List.forall_mem_append]

/-- A forest is held as long as the cells of its nodes stay what they are. -/
theorem HoldsAll.congr (hts : a.HoldsAll p ts)
    (hcells : ∀ k ∈ Node.handlesAll ts, a'.cells[k]? = a.cells[k]?) : a'.HoldsAll p ts := by
  induction ts using forest_induction generalizing p with
  | nil => exact trivial
  | cons s us ts ihus ihts =>
    obtain ⟨⟨hcell, hlt, hbelow⟩, hbeside⟩ := hts
    rw [Node.handlesAll_cons, Node.handles_node, List.forall_mem_append, List.forall_mem_cons]
      at hcells
    exact ⟨⟨hcells.1.1.trans hcell, hlt, ihus hbelow hcells.1.2⟩, ihts hbeside hcells.2⟩

theorem Holds.congr (hn : a.Holds p n)
    (hcells : ∀ k ∈ n.handles, a'.cells[k]? = a.cells[k]?) : a'.Holds p n := by
  rw [Node.handles_eq, List.forall_mem_cons] at hcells
  obtain ⟨hroot, hlt, hbelow⟩ := holds_iff.1 hn
  exact holds_iff.2 ⟨hcells.1.trans hroot, hlt, hbelow.congr hcells.2⟩

/-- A tree may be put below another parent by changing the cell of its root. -/
theorem Holds.reparent (hn : a.Holds p n)
    (hcell : a'.cells[n.handle]? = a.cells[n.handle]?.map fun c ↦ { c with parent := q })
    (hcells : ∀ k ∈ Node.handlesAll n.children, a'.cells[k]? = a.cells[k]?) : a'.Holds q n := by
  obtain ⟨hroot, hlt, hbelow⟩ := holds_iff.1 hn
  exact holds_iff.2 ⟨by rw [hcell, hroot]; rfl, hlt, hbelow.congr hcells⟩

/-- **A changed node is held** as soon as the cells of that node and of what is below it have been
changed with it. -/
theorem HoldsAll.modifyAll {g : Node → Node} (hts : a.HoldsAll p ts)
    (hnodup : (Node.handlesAll ts).Nodup) (hn : n ∈ subtreesAll ts)
    (hcells : ∀ k ∈ Node.handlesAll ts, k ∉ n.handles → a'.cells[k]? = a.cells[k]?)
    (hhandle : ∀ n, Node.handle (g n) = Node.handle n)
    (hg : ∀ p, a.Holds p n → a'.Holds p (g n)) :
    a'.HoldsAll p (Node.modifyAll n.handle g ts) := by
  induction ts using forest_induction generalizing p with
  | nil => cases hn
  | cons s us ts ihus ihts =>
    obtain ⟨hfirst, hrest⟩ := hts
    have hparts := hnodup
    rw [Node.handlesAll_cons, List.nodup_append] at hparts
    obtain ⟨hinside, hbeside, hdisjoint⟩ := hparts
    rw [Node.handlesAll_cons, List.forall_mem_append] at hcells
    -- the cells of what is not in the tree of the changed node have stayed
    rcases Node.modifyAll_cons_cases (f := g) hnodup hn with ⟨rfl, heq⟩ | ⟨hn, heq⟩ | ⟨hn, heq⟩ <;>
      rw [heq]
    · exact ⟨hg p hfirst, hrest.congr fun k hk ↦ hcells.2 k hk fun hmem ↦ hdisjoint _ hmem _ hk rfl⟩
    · have hsub := Node.handles_subset_of_mem_subtreesAll hn
      rw [Node.handles_node, List.nodup_cons] at hinside
      rw [Node.handles_node, List.forall_mem_cons] at hcells
      obtain ⟨hcell, hlt, hbelow⟩ := hfirst
      refine ⟨⟨?_, ?_, ihus hbelow hinside.2 hn hcells.1.2⟩, hrest.congr fun k hk ↦ ?_⟩
      · rw [hcells.1.1 fun hmem ↦ hinside.1 (hsub hmem), hcell, Node.map_handle_modifyAll hhandle]
      · rwa [Node.map_handle_modifyAll hhandle]
      · refine hcells.2 k hk fun hmem ↦ hdisjoint _ ?_ _ hk rfl
        rw [Node.handles_node]
        exact List.mem_cons_of_mem _ (hsub hmem)
    · have hsub := Node.handles_subset_of_mem_subtreesAll hn
      exact ⟨hfirst.congr fun k hk ↦ hcells.1 k hk fun hmem ↦ hdisjoint _ hk _ (hsub hmem) rfl,
        ihts hrest hbeside hn hcells.2⟩

/-- A node of a held forest is a root of it or hangs below another of its nodes, and is held
there. -/
theorem HoldsAll.exists_holds (hts : a.HoldsAll p ts) (hn : n ∈ subtreesAll ts) :
    (n ∈ ts ∧ a.Holds p n) ∨
      ∃ m ∈ subtreesAll ts, n ∈ Tree.children m ∧ a.Holds (some (Node.handle m)) n := by
  induction ts using forest_induction generalizing p with
  | nil => cases hn
  | cons s us ts ihus ihts =>
    obtain ⟨hfirst, hrest⟩ := hts
    rcases List.mem_append.1 hn with hn | hn
    · rcases List.mem_cons.1 hn with rfl | hn
      · exact .inl ⟨List.mem_cons_self, hfirst⟩
      · right
        rcases ihus hfirst.2.2 hn with ⟨hmem, hholds⟩ | ⟨m, hm, hmem, hholds⟩
        · exact ⟨_, List.mem_cons_self, hmem, hholds⟩
        · exact ⟨m, List.mem_append_left _ (List.mem_cons_of_mem _ hm), hmem, hholds⟩
    · rcases ihts hrest hn with ⟨hmem, hholds⟩ | ⟨m, hm, hmem, hholds⟩
      · exact .inl ⟨List.mem_cons_of_mem _ hmem, hholds⟩
      · exact .inr ⟨m, List.mem_append_right _ hm, hmem, hholds⟩

end Arena

end SvgWorkbench
