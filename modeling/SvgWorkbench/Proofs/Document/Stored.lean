import SvgWorkbench.Proofs.Document.Held
import SvgWorkbench.Proofs.Document.Neighbour

/-!
# Documents in an arena

An arena that has a document's nodes has them still when the same change has been made to both. Most
changes are about one node. What has to be seen then is that its cells are changed along with it,
that the cells of all other nodes stay, and which handles the node has afterwards: those it had, but
for nodes that are new or put beside the text.
-/

namespace SvgWorkbench

open SvgWorkbench.Tree

namespace Arena

variable {a a' : Arena} {d d' : Document} {n : Node} {h : Handle}

namespace Stores

theorem nodup (hs : a.Stores d) : (Node.handlesAll (d.topLevel ++ d.loose)).Nodup :=
  hs.numbered.nodup_iff.2 List.nodup_range

theorem mem_handlesAll_iff (hs : a.Stores d) :
    h ∈ Node.handlesAll (d.topLevel ++ d.loose) ↔ h < d.next :=
  hs.numbered.mem_iff.trans List.mem_range

theorem lt_next (hs : a.Stores d) (hn : n ∈ d.nodes) : n.handle < d.next :=
  hs.mem_handlesAll_iff.1 (Node.handle_mem_handlesAll hn)

theorem exists_node (hs : a.Stores d) (hh : h < d.next) : ∃ n ∈ d.nodes, n.handle = h :=
  Node.exists_of_mem_handlesAll (hs.mem_handlesAll_iff.2 hh)

/-- A handle finds its node. -/
theorem node?_eq (hs : a.Stores d) (hn : n ∈ d.nodes) : d.node? n.handle = some n := by
  cases hfind : d.node? n.handle with
  | none => exact absurd hfind (by simpa [Document.node?] using ⟨n, hn, rfl⟩)
  | some m =>
    rw [Document.node?] at hfind
    have hm := List.mem_of_find?_eq_some hfind
    have hhandle : m.handle = n.handle := by simpa using List.find?_some hfind
    rw [Node.eq_of_handle_eq_all hs.nodup hm hn hhandle]

/-- Every node is held, below its parent if it has one. -/
theorem root_or_below (hs : a.Stores d) (hn : n ∈ d.nodes) :
    (n ∈ d.topLevel ++ d.loose ∧ a.Holds none n) ∨
      ∃ m ∈ d.nodes, n ∈ Tree.children m ∧ a.Holds (some (Node.handle m)) n :=
  hs.holds.exists_holds hn

theorem exists_holds (hs : a.Stores d) (hn : n ∈ d.nodes) : ∃ p, a.Holds p n := by
  rcases hs.root_or_below hn with ⟨-, hholds⟩ | ⟨m, -, -, hholds⟩
  · exact ⟨_, hholds⟩
  · exact ⟨_, hholds⟩

theorem children_eq (hs : a.Stores d) (hn : n ∈ d.nodes) :
    a.children n.handle = n.children.map Node.handle := by
  obtain ⟨p, hholds⟩ := hs.exists_holds hn
  exact children_of_holds hholds

theorem isElement_eq (hs : a.Stores d) (hn : n ∈ d.nodes) :
    a.isElement n.handle = n.isElement := by
  obtain ⟨p, hholds⟩ := hs.exists_holds hn
  exact isElement_of_holds hholds

/-- A node with a parent hangs below it, and it is the one that is found. -/
theorem parent?_eq_some (hs : a.Stores d) {m : Node} (hm : m ∈ d.nodes) (hn : n ∈ m.children) :
    d.parent? n.handle = some m ∧ a.parent? n.handle = some m.handle := by
  have hmem : n ∈ d.nodes := mem_subtreesAll_of_mem_children hm hn
  refine ⟨Document.parent?_of_mem_children hs.nodup hm hn, ?_⟩
  rcases hs.root_or_below hmem with ⟨hroot, -⟩ | ⟨m', hm', hn', hholds⟩
  · exact absurd rfl (Node.handle_ne_of_mem_children hs.nodup hm hn n hroot)
  · rw [parent?, (holds_iff.1 hholds).1, Node.eq_of_mem_children hs.nodup hm' hm hn' hn]
    rfl

/-- A node that nothing is above has no parent. -/
theorem parent?_eq_none (hs : a.Stores d) (hn : n ∈ d.topLevel ++ d.loose) :
    d.parent? n.handle = none ∧ a.parent? n.handle = none := by
  constructor
  · refine Option.eq_none_iff_forall_ne_some.2 fun m hfind ↦ ?_
    obtain ⟨hm, child, hchild, heq⟩ := Document.exists_of_parent? hfind
    exact Node.handle_ne_of_mem_children hs.nodup hm hchild n hn heq.symm
  · rw [parent?, (holds_iff.1 (holdsAll_iff.1 hs.holds n hn)).1]
    rfl

end Stores

/-! ## One node changed -/

/-- **A change of one node and its cells** may give new handles and put trees aside, as long as the
handles stay those of single nodes. -/
theorem Stores.of_modifyAll (g : Node → Node) (aside : List Node) (fresh : List Handle)
    (hs : a.Stores d) (hn : n ∈ d.nodes) (htop : a'.topLevel = d'.topLevel.map Node.handle)
    (hforest : d'.topLevel ++ d'.loose
      = Node.modifyAll n.handle g (d.topLevel ++ d.loose) ++ aside)
    (hcells : ∀ k < d.next, k ∉ n.handles → a'.cells[k]? = a.cells[k]?)
    (hhandle : ∀ n, Node.handle (g n) = Node.handle n)
    (hg : ∀ p, a.Holds p n → a'.Holds p (g n)) (haside : a'.HoldsAll none aside)
    (hhandles : ((g n).handles ++ Node.handlesAll aside).Perm (n.handles ++ fresh))
    (hfresh : List.range d'.next = List.range d.next ++ fresh)
    (hlength : a'.cells.length = d'.next) : a'.Stores d' where
  topLevel := htop
  holds := by
    rw [hforest, holdsAll_append]
    exact ⟨hs.holds.modifyAll hs.nodup hn (fun k hk ↦ hcells k (hs.mem_handlesAll_iff.1 hk))
      hhandle hg, haside⟩
  numbered := by
    have hmodify := Node.perm_handlesAll_modifyAll (f := g) hs.nodup hn
    rw [hforest, Node.handlesAll_append, hfresh]
    rw [List.perm_iff_count] at hmodify hhandles ⊢
    intro k
    have hcount := hmodify k
    have hcount' := hhandles k
    have hcount'' := hs.numbered.count_eq k
    simp only [List.count_append] at hcount hcount' ⊢
    omega
  length := hlength

theorem Stores.notMem_children (hs : a.Stores d) (hn : n ∈ d.nodes) :
    n.handle ∉ Node.handlesAll n.children := by
  have hnodup := Node.nodup_handles_of_mem_subtreesAll hs.nodup hn
  rw [Node.handles_eq, List.nodup_cons] at hnodup
  exact hnodup.1

theorem getElem?_alter_of_notMem {f : Cell → Cell} {k : Handle} (hk : k ∉ n.handles) :
    (a.alter n.handle f).cells[k]? = a.cells[k]? := by
  rw [getElem?_alter, if_neg]
  rintro rfl
  exact hk (Node.handle_mem_handles (mem_subtrees_self n))

/-- When the cell of a node is changed, what is below it is held as before. -/
theorem Holds.alter {p : Option Handle} {f : Cell → Cell} (hn : a.Holds p n)
    (hout : n.handle ∉ Node.handlesAll n.children) :
    (a.alter n.handle f).cells[n.handle]?
        = some (f ⟨n.content, p, n.children.map Node.handle⟩) ∧
      (∀ k ∈ n.children.map Node.handle, n.handle < k) ∧
      (a.alter n.handle f).HoldsAll (some n.handle) n.children := by
  obtain ⟨hcell, hlt, hbelow⟩ := holds_iff.1 hn
  refine ⟨by rw [getElem?_alter, if_pos rfl, hcell]; rfl, hlt, hbelow.congr fun k hk ↦ ?_⟩
  rw [getElem?_alter, if_neg]
  rintro rfl
  exact hout hk

theorem Stores.topLevel_modify {g : Node → Node} (hs : a.Stores d)
    (hg : ∀ n, Node.handle (g n) = Node.handle n) :
    a.topLevel = (d.modify h g).topLevel.map Node.handle :=
  hs.topLevel.trans (Node.map_handle_modifyAll hg _ _).symm

/-! ## Attributes -/

theorem Stores.mapElement (hs : a.Stores d) (hh : h < d.next) (f : Element → Element) :
    (a.alter h (Cell.mapElement f)).Stores (d.modifyElement h f) := by
  obtain ⟨n, hn, rfl⟩ := hs.exists_node hh
  refine hs.of_modifyAll (Node.mapElement f) [] [] hn ?_ ?_ (fun k _ ↦ getElem?_alter_of_notMem)
    (Node.handle_mapElement f) ?_ trivial ?_ (List.append_nil _).symm ?_
  · exact hs.topLevel_modify (Node.handle_mapElement f)
  · rw [List.append_nil, Node.modifyAll_append]
    rfl
  · intro p hp
    have halter := hp.alter (f := Cell.mapElement f) (hs.notMem_children hn)
    obtain ⟨⟨k, c⟩, ts⟩ := n
    cases c <;> exact halter
  · exact .of_eq (congrArg (· ++ []) (Node.handles_mapElement f n))
  · rw [length_alter]
    exact hs.length

/-! ## New nodes -/

theorem Stores.append_top (hs : a.Stores d) (content : Content) :
    (a.append none content).Stores (d.append none content) := by
  have hcells : ∀ k ∈ Node.handlesAll (d.topLevel ++ d.loose),
      (a.append none content).cells[k]? = a.cells[k]? := fun k hk ↦
    getElem?_push_of_lt (hs.length ▸ hs.mem_handlesAll_iff.1 hk) _
  have hholds := holdsAll_append.1 (hs.holds.congr hcells)
  refine ⟨?_, ?_, ?_, ?_⟩
  · show a.topLevel ++ [a.cells.length] = (d.topLevel ++ [_]).map Node.handle
    rw [hs.topLevel, hs.length, List.map_append]
    rfl
  · refine holdsAll_append.2 ⟨holdsAll_append.2 ⟨hholds.1, ⟨?_, nofun, trivial⟩, trivial⟩, hholds.2⟩
    show (a.push _).cells[d.next]? = _
    rw [← hs.length, getElem?_push_length]
    rfl
  · show (Node.handlesAll (d.topLevel ++ [.node ⟨d.next, content⟩ []] ++ d.loose)).Perm
      (List.range (d.next + 1))
    rw [List.range_succ, List.perm_iff_count]
    intro k
    have hcount := hs.numbered.count_eq k
    have hleaf : Node.handlesAll [.node ⟨d.next, content⟩ []] = [d.next] := rfl
    simp only [Node.handlesAll_append, List.count_append, hleaf] at hcount ⊢
    omega
  · show (a.push _).cells.length = d.next + 1
    rw [length_push, hs.length]

theorem Stores.append_below (hs : a.Stores d) (hh : h < d.next) (content : Content) :
    (a.append (some h) content).Stores (d.append (some h) content) := by
  obtain ⟨n, hn, rfl⟩ := hs.exists_node hh
  have hout := hs.notMem_children hn
  have hlt : ∀ k ∈ n.handles, k < a.cells.length := fun k hk ↦
    hs.length ▸ hs.mem_handlesAll_iff.1 (Node.handles_subset_of_mem_subtreesAll hn hk)
  have hnext : n.handle ≠ a.cells.length :=
    (hlt _ (Node.handle_mem_handles (mem_subtrees_self n))).ne
  refine hs.of_modifyAll (Node.addChild (.node ⟨d.next, content⟩ [])) [] [d.next] hn ?_ ?_ ?_
    (Node.handle_addChild _) ?_ trivial ?_ List.range_succ ?_
  · exact hs.topLevel_modify (Node.handle_addChild _)
  · rw [List.append_nil, Node.modifyAll_append]
    rfl
  · intro k hk hnotMem
    refine (getElem?_alter_of_notMem hnotMem).trans (getElem?_push_of_lt ?_ _)
    rwa [hs.length]
  · intro p hp
    have hpush : (a.push ⟨content, some n.handle, []⟩).Holds p n :=
      hp.congr fun k hk ↦ getElem?_push_of_lt (hlt k hk) _
    obtain ⟨hcell, hgrow, hbelow⟩ := hpush.alter
      (f := fun c ↦ { c with children := c.children ++ [a.cells.length] }) hout
    refine holds_iff.2 ⟨?_, ?_, holdsAll_append.2 ⟨hbelow, ⟨?_, nofun, trivial⟩, trivial⟩⟩
    · refine hcell.trans ?_
      rw [hs.length, Node.addChild, children_node, List.map_append]
      rfl
    · rw [Node.addChild, children_node, List.map_append, List.forall_mem_append]
      exact ⟨hgrow, List.forall_mem_singleton.2 hh⟩
    · show ((a.push _).alter _ _).cells[d.next]? = _
      rw [← hs.length, getElem?_alter, if_neg hnext, getElem?_push_length]
      rfl
  · rw [Node.handlesAll_nil, List.append_nil, Node.handles_eq, Node.handles_eq n, Node.addChild,
      children_node, Node.handlesAll_append]
    exact .refl _
  · show ((a.push _).alter _ _).cells.length = d.next + 1
    rw [length_alter, length_push, hs.length]

/-! ## Texts -/

/-- A node is cleared by putting the trees below it beside the text. -/
theorem Stores.clear (hs : a.Stores d) (hn : n ∈ d.nodes) :
    (a.clear n.handle).Stores { d.modify n.handle (Node.withChildren []) with
      loose := (d.modify n.handle (Node.withChildren [])).loose ++ n.children } := by
  have hout := hs.notMem_children hn
  have hchildren := hs.children_eq hn
  have hnodup := Node.nodup_handles_of_mem_subtreesAll hs.nodup hn
  rw [Node.handles_eq, List.nodup_cons] at hnodup
  have hsub : a.children n.handle ⊆ Node.handlesAll n.children :=
    hchildren ▸ (Node.sublist_handlesAll _).subset
  refine hs.of_modifyAll (Node.withChildren []) n.children [] hn ?_ ?_ ?_
    (Node.handle_withChildren []) ?_ ?_ ?_ (List.append_nil _).symm ?_
  · rw [Arena.clear, topLevel_release]
    exact hs.topLevel_modify (Node.handle_withChildren [])
  · rw [Node.modifyAll_append, List.append_assoc]
    rfl
  · intro k _ hk
    rw [Arena.clear, getElem?_release_of_notMem, getElem?_alter_of_notMem hk]
    rw [Node.handles_eq] at hk
    exact fun hmem ↦ hk (List.mem_cons_of_mem _ (hsub hmem))
  · intro p hp
    refine holds_iff.2 ⟨?_, nofun, trivial⟩
    show (a.clear n.handle).cells[n.handle]? = _
    rw [Arena.clear, getElem?_release_of_notMem fun hmem ↦ hout (hsub hmem), (hp.alter hout).1]
    rfl
  · obtain ⟨p, hp⟩ := hs.exists_holds hn
    have halter := (hp.alter (f := fun c ↦ { c with children := [] }) hout).2.2
    refine holdsAll_iff.2 fun t ht ↦ (holdsAll_iff.1 halter t ht).reparent
      (getElem?_release ?_) fun k hk ↦ getElem?_release_of_notMem ?_
    · rw [hchildren]
      exact List.mem_map_of_mem ht
    · rw [hchildren]
      exact Node.notMem_map_handle hnodup.2 ht hk
  · rw [List.append_nil]
    exact .of_eq (Node.handles_eq n).symm
  · rw [Arena.clear, length_release, length_alter]
    exact hs.length

theorem Stores.setText (hs : a.Stores d) (hh : h < d.next) (text : String) :
    (a.setText h text).Stores (d.setText h text) := by
  obtain ⟨n, hn, rfl⟩ := hs.exists_node hh
  rw [Arena.setText, Document.setText, hs.node?_eq hn]
  split
  · exact hs.clear hn
  · exact (hs.clear hn).append_below hh _

/-! ## Nodes that are taken out -/

/-- A child that is taken off its parent is a tree of its own. -/
theorem Holds.takeOff {p : Option Handle} {m : Node} (hm : a.Holds p m)
    (hnodup : m.handles.Nodup) (hn : n ∈ m.children) :
    (a.takeOff m.handle n.handle).Holds p (Node.prune n.handle m) ∧
      (a.takeOff m.handle n.handle).Holds none n ∧
      ((Node.prune n.handle m).handles ++ n.handles).Perm m.handles := by
  obtain ⟨s, ts⟩ := m
  rw [Node.handles_node, List.nodup_cons] at hnodup
  obtain ⟨us, vs, rfl, hprune, hout⟩ := Node.exists_pruneAll_eq hnodup.2 hn
  have hself := Node.handles_eq n ▸ Node.nodup_handles_of_mem_subtreesAll hnodup.2
    (mem_subtreesAll_of_mem hn)
  have hne : s.handle ∉ [n.handle] := fun heq ↦ hnodup.1 (List.mem_singleton.1 heq ▸
    Node.handle_mem_handlesAll (mem_subtreesAll_of_mem hn))
  obtain ⟨hcell, hlt, hbelow⟩ := hm.alter
    (f := fun c ↦ { c with children := c.children.erase n.handle }) hnodup.1
  obtain ⟨hus, hholds, hvs⟩ := holdsAll_append.1 hbelow
  rw [Node.prune, hprune]
  refine ⟨⟨?_, ?_, ?_⟩, ?_, ?_⟩
  · refine (getElem?_release_of_notMem hne).trans (hcell.trans ?_)
    show some (Cell.mk s.content p _) = some ⟨s.content, p, _⟩
    exact congrArg (fun ks ↦ some (Cell.mk s.content p ks)) (Node.erase_map_handle hout)
  · exact fun k hk ↦ hlt k (((List.sublist_cons_self n vs).append_left us |>.map _).subset hk)
  · refine (holdsAll_append.2 ⟨hus, hvs⟩).congr fun k hk ↦ getElem?_release_of_notMem fun heq ↦ ?_
    exact hout (List.mem_singleton.1 heq ▸ hk)
  · refine hholds.reparent (getElem?_release List.mem_cons_self) fun k hk ↦
      getElem?_release_of_notMem fun heq ↦ ?_
    exact (List.nodup_cons.1 hself).1 (List.mem_singleton.1 heq ▸ hk)
  · rw [Node.handles_node, Node.handles_node]
    exact (Node.perm_handlesAll_append_cons us vs n).cons s.handle

theorem Stores.detach_below (hs : a.Stores d) {m : Node} (hm : m ∈ d.nodes)
    (hn : n ∈ m.children) :
    d.isAttached n.handle = true ∧
      ∃ a', a.detach? n.handle = some a' ∧ a'.Stores (d.detach n.handle) := by
  obtain ⟨hparent, hparent'⟩ := hs.parent?_eq_some hm hn
  have hattached : d.isAttached n.handle = true := by rw [Document.isAttached, hparent]; rfl
  have hlisted : n.handle ∈ a.children m.handle := by
    rw [hs.children_eq hm]
    exact List.mem_map_of_mem hn
  refine ⟨hattached, a.takeOff m.handle n.handle, ?_, ?_⟩
  · rw [detach?, hparent']
    exact if_pos hlisted
  have hnodup := Node.nodup_handles_of_mem_subtreesAll hs.nodup hm
  obtain ⟨p, hp⟩ := hs.exists_holds hm
  rw [Document.detach, if_pos hattached, hs.node?_eq (mem_subtreesAll_of_mem_children hm hn)]
  refine hs.of_modifyAll (Node.prune n.handle) [n] [] hm ?_ ?_ ?_ (Node.handle_prune _)
    (fun p hp ↦ (hp.takeOff hnodup hn).1) ⟨(hp.takeOff hnodup hn).2.1, trivial⟩ ?_
    (List.append_nil _).symm ?_
  · rw [takeOff, topLevel_release, topLevel_alter, hs.topLevel, Node.map_handle_pruneAll,
      List.filter_eq_self.2]
    intro k hk
    obtain ⟨t, ht, rfl⟩ := List.mem_map.1 hk
    exact decide_eq_true (Node.handle_ne_of_mem_children hs.nodup hm hn t
      (List.mem_append_left _ ht))
  · rw [← Node.pruneAll_eq_modifyAll hs.nodup hm hn, Node.pruneAll_append, List.append_assoc]
    rfl
  · intro k _ hk
    rw [takeOff, getElem?_release_of_notMem, getElem?_alter_of_notMem hk]
    rw [Node.handles_eq, List.mem_cons, not_or] at hk
    exact fun heq ↦ hk.2 (List.mem_singleton.1 heq ▸
      Node.handle_mem_handlesAll (mem_subtreesAll_of_mem hn))
  · rw [Node.handlesAll_cons, Node.handlesAll_nil, List.append_nil, List.append_nil]
    exact (hp.takeOff hnodup hn).2.2
  · rw [takeOff, length_release, length_alter]
    exact hs.length

theorem Stores.detach_top (hs : a.Stores d) (hn : n ∈ d.topLevel) :
    d.isAttached n.handle = true ∧
      ∃ a', a.detach? n.handle = some a' ∧ a'.Stores (d.detach n.handle) := by
  have hroot : n ∈ d.topLevel ++ d.loose := List.mem_append_left _ hn
  have hattached : d.isAttached n.handle = true := by
    rw [Document.isAttached, Bool.or_eq_true, List.any_eq_true]
    exact .inr ⟨n, hn, beq_self_eq_true _⟩
  have hlisted : n.handle ∈ a.topLevel := by
    rw [hs.topLevel]
    exact List.mem_map_of_mem hn
  refine ⟨hattached, a.takeOffTop n.handle, ?_, ?_⟩
  · rw [detach?, (hs.parent?_eq_none hroot).2]
    exact if_pos hlisted
  have hnodup := hs.nodup
  rw [Node.handlesAll_append, List.nodup_append] at hnodup
  obtain ⟨us, vs, hsplit, hprune, hout⟩ := Node.exists_pruneAll_eq hnodup.1 hn
  have hloose : n.handle ∉ Node.handlesAll d.loose := fun hmem ↦
    hnodup.2.2 _ (Node.handle_mem_handlesAll (mem_subtreesAll_of_mem hn)) _ hmem rfl
  -- no cell changes, since the node had no parent before either
  have hcells : ∀ k : Handle, (a.takeOffTop n.handle).cells[k]? = a.cells[k]? := by
    intro k
    by_cases hk : k ∈ [n.handle]
    · have hcell := (holds_iff.1 (holdsAll_iff.1 hs.holds n hroot)).1
      rw [takeOffTop, getElem?_release hk, List.mem_singleton.1 hk]
      show a.cells[n.handle]?.map _ = _
      rw [hcell]
      rfl
    · exact getElem?_release_of_notMem hk
  have hholds := hs.holds.congr fun k _ ↦ hcells k
  rw [hsplit, holdsAll_append, holdsAll_append] at hholds
  obtain ⟨⟨hus, hself, hvs⟩, hrest⟩ := hholds
  rw [Document.detach, if_pos hattached, hs.node?_eq (mem_subtreesAll_of_mem hroot), hprune,
    Node.pruneAll_of_notMem hloose]
  refine ⟨?_, ?_, ?_, ?_⟩
  · rw [takeOffTop, topLevel_release]
    show a.topLevel.erase n.handle = (us ++ vs).map Node.handle
    rw [hs.topLevel, hsplit, Node.erase_map_handle hout]
  · exact holdsAll_append.2 ⟨holdsAll_append.2 ⟨hus, hvs⟩,
      holdsAll_append.2 ⟨hrest, hself, trivial⟩⟩
  · refine List.Perm.trans ?_ hs.numbered
    rw [hsplit, List.perm_iff_count]
    intro k
    simp only [Node.handlesAll_append, Node.handlesAll_cons, Option.toList_some,
      Node.handlesAll_nil, List.count_append, List.count_nil]
    omega
  · rw [takeOffTop, length_release]
    exact hs.length

/-- A node is attached unless it heads a tree beside the text. -/
theorem Stores.isAttached_iff (hs : a.Stores d) (hh : h < d.next) :
    d.isAttached h = true ↔ h ∉ d.loose.map Node.handle := by
  obtain ⟨n, hn, rfl⟩ := hs.exists_node hh
  rcases hs.root_or_below hn with ⟨hroot, -⟩ | ⟨m, hm, hmem, -⟩
  · have hnodup := hs.nodup
    rw [Node.handlesAll_append, List.nodup_append] at hnodup
    have hapart : n.handle ∈ d.topLevel.map Node.handle → n.handle ∉ d.loose.map Node.handle :=
      fun htop hloose ↦ hnodup.2.2 _ ((Node.sublist_handlesAll _).subset htop) _
        ((Node.sublist_handlesAll _).subset hloose) rfl
    have hattached : d.isAttached n.handle = true ↔ n.handle ∈ d.topLevel.map Node.handle := by
      rw [Document.isAttached, (hs.parent?_eq_none hroot).1]
      simp
    rw [hattached]
    rw [List.mem_append] at hroot
    exact ⟨hapart, fun hloose ↦ List.mem_map_of_mem
      (hroot.resolve_right fun hmem ↦ hloose (List.mem_map_of_mem hmem))⟩
  · refine ⟨fun _ hloose ↦ ?_, fun _ ↦ (hs.detach_below hm hmem).1⟩
    obtain ⟨t, ht, heq⟩ := List.mem_map.1 hloose
    exact Node.handle_ne_of_mem_children hs.nodup hm hmem t (List.mem_append_right _ ht) heq

/-- **Taking a node out** works exactly for the nodes that are attached. -/
theorem Stores.detach (hs : a.Stores d) (hh : h < d.next) :
    (a.detach? h).isSome = d.isAttached h ∧ ((a.detach? h).getD a).Stores (d.detach h) := by
  obtain ⟨n, hn, rfl⟩ := hs.exists_node hh
  by_cases hattached : d.isAttached n.handle = true
  · obtain ⟨a', heq, ha'⟩ : ∃ a', a.detach? n.handle = some a' ∧ a'.Stores (d.detach n.handle) := by
      rcases hs.root_or_below hn with ⟨hroot, -⟩ | ⟨m, hm, hmem, -⟩
      · refine (hs.detach_top ((List.mem_append.1 hroot).resolve_right fun hloose ↦ ?_)).2
        exact (hs.isAttached_iff hh).1 hattached (List.mem_map_of_mem hloose)
      · exact (hs.detach_below hm hmem).2
    rw [heq, hattached]
    exact ⟨rfl, ha'⟩
  · have hloose : n.handle ∈ d.loose.map Node.handle :=
      not_not.1 fun hout ↦ hattached ((hs.isAttached_iff hh).2 hout)
    obtain ⟨t, ht, heq⟩ := List.mem_map.1 hloose
    have hparent := hs.parent?_eq_none (List.mem_append_right _ ht)
    rw [heq] at hparent
    have hout : n.handle ∉ a.topLevel := fun htop ↦ hattached (by
      rw [hs.topLevel] at htop
      rw [Document.isAttached, hparent.1]
      simpa using htop)
    have hnone : a.detach? n.handle = none := by
      rw [detach?, hparent.2]
      exact if_neg hout
    rw [hnone, Document.detach, if_neg hattached, eq_false_of_ne_true hattached]
    exact ⟨rfl, hs⟩

/-! ## Neighbours -/

theorem Stores.withChildren (hs : a.Stores d) {m : Node} (hm : m ∈ d.nodes) {us : List Node}
    (hperm : us.Perm m.children) :
    (a.alter m.handle fun c ↦ { c with children := us.map Node.handle }).Stores
      (d.modify m.handle (Node.withChildren us)) := by
  have hout := hs.notMem_children hm
  refine hs.of_modifyAll (Node.withChildren us) [] [] hm ?_ ?_
    (fun k _ ↦ getElem?_alter_of_notMem) (fun _ ↦ rfl) ?_ trivial ?_ (List.append_nil _).symm ?_
  · exact hs.topLevel_modify (Node.handle_withChildren us)
  · rw [List.append_nil, Node.modifyAll_append]
    rfl
  · intro p hp
    obtain ⟨hcell, hlt, hbelow⟩ := hp.alter
      (f := fun c ↦ { c with children := us.map Node.handle }) hout
    refine holds_iff.2 ⟨hcell, fun k hk ↦ hlt k ((hperm.map _).subset hk), ?_⟩
    exact holdsAll_iff.2 fun t ht ↦ holdsAll_iff.1 hbelow t (hperm.subset ht)
  · rw [List.append_nil, Node.handlesAll_nil, List.append_nil, Node.handles_eq,
      Node.handles_eq m]
    exact (Node.perm_handlesAll hperm).cons _
  · rw [length_alter]
    exact hs.length

theorem Stores.swap (hs : a.Stores d) (hh : h < d.next) (direction : Direction) :
    ((a.swap? h direction).getD a).Stores ((d.swap? h direction).getD d) := by
  obtain ⟨n, hn, rfl⟩ := hs.exists_node hh
  rcases hs.root_or_below hn with ⟨hroot, -⟩ | ⟨m, hm, hmem, -⟩
  · obtain ⟨hparent, hparent'⟩ := hs.parent?_eq_none hroot
    rw [Document.swap?, swap?, hparent, hparent']
    exact hs
  · obtain ⟨hparent, hparent'⟩ := hs.parent?_eq_some hm hmem
    have hnodup := Node.nodup_handles_of_mem_subtreesAll hs.nodup hm
    rw [Node.handles_eq, List.nodup_cons] at hnodup
    have hexchange := Document.map_handle_exchanged?
      (hnodup.2.sublist (Node.sublist_handlesAll m.children))
      (fun t ht ↦ hs.isElement_eq (mem_subtreesAll_of_mem_children hm ht)) hmem direction
    have hswap : a.swap? n.handle direction
        = ((Document.exchanged? n.handle direction m.children).map (List.map Node.handle)).map
          fun children ↦ a.alter m.handle fun c ↦ { c with children } := by
      rw [hexchange, ← hs.children_eq hm, swap?, hparent']
      exact Option.map_eq_bind.symm
    rw [hswap, Document.swap?_of_parent? hparent]
    cases hus : Document.exchanged? n.handle direction m.children with
    | none => exact hs
    | some us => exact hs.withChildren hm (Document.perm_exchanged? hus)

/-! ## Runs of changes -/

/-- The empty document. -/
theorem stores_empty : ({} : Arena).Stores {} := ⟨rfl, trivial, .refl _, rfl⟩

/-- **A change of both** leaves an arena with the nodes of the document. -/
theorem Stores.apply (hs : a.Stores d) {c : Change} (hc : ∀ h ∈ c.target?, h < d.next) :
    (a.apply c).Stores (d.apply c) := by
  cases c with
  | append parent content =>
    cases parent with
    | none => exact hs.append_top content
    | some h => exact hs.append_below (hc h rfl) content
  | setAttribute h key value => exact hs.mapElement (hc h rfl) _
  | removeAttribute h key => exact hs.mapElement (hc h rfl) _
  | setText h text => exact hs.setText (hc h rfl) text
  | detach h => exact (hs.detach (hc h rfl)).2
  | swap h direction => exact hs.swap (hc h rfl) direction

theorem Stores.run (hs : a.Stores d) {cs : List Change} (hcs : d.Allows cs) :
    (a.run cs).Stores (d.run cs) := by
  induction cs generalizing a d with
  | nil => exact hs
  | cons c cs ih => exact ih (hs.apply hcs.1) hcs.2

end Arena

end SvgWorkbench
