import SvgWorkbench.Drawing
import SvgWorkbench.Proofs.Document.Added
import SvgWorkbench.Proofs.Document.Forest

/-!
# Nodes that have been taken out

A node that has been detached, or has made room for a text, heads a tree beside the text, and
nothing brings it back: a change puts no node into the text that has not just been made. So the
heads of those trees are just the nodes that have been taken out, one after the other, and it is for
these that there is nothing to detach.
-/

namespace SvgWorkbench

open SvgWorkbench.Tree

/-! ## Handles in a changed text -/

namespace Node

variable {f : Node → Node} {h q : Handle} {ts : List Node}

/-- A handle in a changed forest has been there, if the change of the node brings in no other. -/
theorem mem_of_mem_modifyAll
    (hf : ∀ n ∈ subtreesAll ts, handle n = h → q ∈ handles (f n) → q ∈ handles n)
    (hq : q ∈ handlesAll (modifyAll h f ts)) : q ∈ handlesAll ts := by
  induction ts using forest_induction with
  | nil => cases hq
  | cons s us ts ihus ihts =>
    rw [modifyAll, handlesAll_cons, List.mem_append] at hq
    rw [handlesAll_cons, List.mem_append]
    rcases hq with hq | hq
    · left
      rw [modify] at hq
      split at hq
      · next hs => exact hf _ List.mem_cons_self hs hq
      · rw [handles_node, List.mem_cons] at hq ⊢
        exact hq.imp_right (ihus fun n hn ↦
          hf n (List.mem_append_left _ (List.mem_cons_of_mem _ hn)))
    · exact .inr (ihts (fun n hn ↦ hf n (List.mem_append_right _ hn)) hq)

theorem mem_handles_of_addChild {k : Handle} {content : Content} {n : Node}
    (hq : q ∈ (addChild (.node ⟨k, content⟩ []) n).handles) (hne : q ≠ k) : q ∈ n.handles := by
  rw [handles_eq, addChild, children_node, handlesAll_append, ← List.cons_append,
    List.mem_append] at hq
  rw [handles_eq]
  exact hq.resolve_right fun hleaf ↦ hne (List.mem_singleton.1 hleaf)

theorem sublist_handlesAll_pruneAll (h : Handle) (ts : List Node) :
    (handlesAll (pruneAll h ts)).Sublist (handlesAll ts) := by
  induction ts using forest_induction with
  | nil => exact .slnil
  | cons s us ts ihus ihts =>
    rw [pruneAll, handlesAll_cons]
    split
    · exact ihts.trans (List.sublist_append_right _ _)
    · rw [handlesAll_cons, prune, handles_node, handles_node]
      exact (ihus.cons_cons _).append ihts

end Node

namespace Document

variable {d : Document} {h q : Handle}

theorem le_next_apply (d : Document) (c : Change) : d.next ≤ (d.apply c).next := by
  cases c with
  | append parent content => cases parent <;> exact Nat.le_succ _
  | setAttribute h key value => exact Nat.le_refl _
  | removeAttribute h key => exact Nat.le_refl _
  | setText h text =>
    rw [apply, setText]
    split
    · exact Nat.le_refl _
    · exact Nat.le_succ _
  | detach h =>
    rw [apply, detach]
    split <;> exact Nat.le_refl _
  | swap h direction =>
    rw [apply]
    cases hswap : d.swap? h direction with
    | none => exact Nat.le_refl _
    | some swapped =>
      obtain ⟨parent, children, -, -, rfl⟩ := exists_of_swap? hswap
      exact Nat.le_refl _

end Document

namespace Arena

variable {a : Arena} {d : Document} {n : Node} {c : Change} {h k q : Handle}

/-- **Nothing comes back**: an old node that is in the text after a change has been in it before. -/
theorem Stores.mem_topLevel_of_apply (hs : a.Stores d)
    (hq : q ∈ Node.handlesAll (d.apply c).topLevel) (hlt : q < d.next) :
    q ∈ Node.handlesAll d.topLevel := by
  have hadd : ∀ {h : Handle} {content : Content} {ts : List Node},
      q ∈ Node.handlesAll (Node.modifyAll h (Node.addChild (.node ⟨d.next, content⟩ [])) ts) →
        q ∈ Node.handlesAll ts := fun hq ↦
    Node.mem_of_mem_modifyAll (fun _ _ _ hmem ↦ Node.mem_handles_of_addChild hmem hlt.ne) hq
  have hmap : ∀ {h : Handle} {f : Element → Element} {ts : List Node},
      q ∈ Node.handlesAll (Node.modifyAll h (Node.mapElement f) ts) → q ∈ Node.handlesAll ts :=
    fun hq ↦ Node.mem_of_mem_modifyAll (fun n _ _ hmem ↦ Node.handles_mapElement _ n ▸ hmem) hq
  cases c with
  | append parent content =>
    cases parent with
    | none =>
      have hmem : q ∈ Node.handlesAll (d.topLevel ++ [.node ⟨d.next, content⟩ []]) := hq
      rw [Node.handlesAll_append, List.mem_append] at hmem
      exact hmem.resolve_right fun hleaf ↦ hlt.ne (List.mem_singleton.1 hleaf)
    | some h => exact hadd hq
  | setAttribute h key value => exact hmap hq
  | removeAttribute h key => exact hmap hq
  | setText h text =>
    have hclear : q ∈ Node.handlesAll (Node.modifyAll h (Node.withChildren []) d.topLevel) := by
      rw [Document.apply, Document.setText] at hq
      split at hq
      · exact hq
      · exact hadd hq
    refine Node.mem_of_mem_modifyAll (fun n _ _ hmem ↦ ?_) hclear
    rw [Node.handles_eq] at hmem ⊢
    rw [List.mem_singleton.1 hmem]
    exact List.mem_cons_self
  | detach h =>
    rw [Document.apply, Document.detach] at hq
    split at hq
    · exact (Node.sublist_handlesAll_pruneAll h d.topLevel).subset hq
    · exact hq
  | swap h direction =>
    rw [Document.apply] at hq
    cases hswap : d.swap? h direction with
    | none => rwa [hswap] at hq
    | some swapped =>
      obtain ⟨parent, children, hparent, hperm, rfl⟩ := Document.exists_of_swap? hswap
      rw [hswap] at hq
      refine Node.mem_of_mem_modifyAll (fun n hn hhandle hmem ↦ ?_) hq
      have hnode : n ∈ d.nodes := by
        rw [Document.nodes, subtreesAll_append]
        exact List.mem_append_left _ hn
      obtain rfl := Node.eq_of_handle_eq_all hs.nodup hnode
        (Document.exists_of_parent? hparent).1 hhandle
      rw [Node.handles_eq] at hmem ⊢
      exact ((Node.perm_handlesAll hperm).cons _).subset hmem

/-! ## What is beside the text -/

/-- **A change puts aside what it takes out** and leaves there what has been put aside before. -/
theorem Stores.loose_apply (hs : a.Stores d) (hc : ∀ h ∈ c.target?, h < d.next) :
    (d.apply c).loose.map Node.handle = d.loose.map Node.handle ++ a.takenOut c := by
  cases c with
  | append parent content =>
    cases parent with
    | none => exact (List.append_nil _).symm
    | some h =>
      exact (Node.map_handle_modifyAll (Node.handle_addChild _) h d.loose).trans
        (List.append_nil _).symm
  | setAttribute h key value =>
    exact (Node.map_handle_modifyAll (Node.handle_mapElement _) h d.loose).trans
      (List.append_nil _).symm
  | removeAttribute h key =>
    exact (Node.map_handle_modifyAll (Node.handle_mapElement _) h d.loose).trans
      (List.append_nil _).symm
  | setText h text =>
    obtain ⟨n, hn, rfl⟩ := hs.exists_node (hc h rfl)
    have hclear :
        (Node.modifyAll n.handle (Node.withChildren []) d.loose ++ n.children).map Node.handle
          = d.loose.map Node.handle ++ a.children n.handle := by
      rw [List.map_append, Node.map_handle_modifyAll (Node.handle_withChildren []),
        hs.children_eq hn]
    rw [Document.apply, Document.setText, hs.node?_eq hn]
    split
    · exact hclear
    · exact (Node.map_handle_modifyAll (Node.handle_addChild _) n.handle _).trans hclear
  | detach h =>
    obtain ⟨n, hn, rfl⟩ := hs.exists_node (hc h rfl)
    rw [takenOut, (hs.detach (hc _ rfl)).1, Document.apply, Document.detach]
    split
    · next hattached =>
      rw [hs.node?_eq hn, List.map_append, Node.map_handle_pruneAll, List.filter_eq_self.2]
      · rfl
      · rintro k hk
        refine decide_eq_true ?_
        rintro rfl
        exact (hs.isAttached_iff (hc _ rfl)).1 hattached hk
    · exact (List.append_nil _).symm
  | swap h direction =>
    rw [Document.apply]
    cases hswap : d.swap? h direction with
    | none => exact (List.append_nil _).symm
    | some swapped =>
      obtain ⟨parent, children, -, -, rfl⟩ := Document.exists_of_swap? hswap
      exact (Node.map_handle_modifyAll (Node.handle_withChildren children) _ d.loose).trans
        (List.append_nil _).symm

/-- What hangs below the head of a tree beside the text is not in the text. -/
theorem Stores.notMem_topLevel_of_isBelow (hs : a.Stores d) (hk : k ∈ d.loose.map Node.handle)
    (hbelow : a.IsBelow k q) : q < d.next ∧ q ∉ Node.handlesAll d.topLevel := by
  have hmem : q ∈ Node.handlesAll d.loose := by
    induction hbelow with
    | refl => exact (Node.sublist_handlesAll _).subset hk
    | @tail p q _ hq ih =>
      obtain ⟨m, hm, n, hn, rfl, rfl⟩ := hs.exists_of_mem_children hq
      obtain ⟨m', hm', heq⟩ := Node.exists_of_mem_handlesAll ih
      have hnode : m' ∈ d.nodes := by
        rw [Document.nodes, subtreesAll_append]
        exact List.mem_append_right _ hm'
      obtain rfl := Node.eq_of_handle_eq_all hs.nodup hnode hm heq
      exact Node.handle_mem_handlesAll (mem_subtreesAll_of_mem_children hm' hn)
  have hnodup := hs.nodup
  rw [Node.handlesAll_append, List.nodup_append] at hnodup
  refine ⟨hs.mem_handlesAll_iff.1 ?_, fun htop ↦ hnodup.2.2 _ htop _ hmem rfl⟩
  rw [Node.handlesAll_append]
  exact List.mem_append_right _ hmem

/-! ## Runs of changes -/

/-- Whether one of some changes takes a node out. -/
def TookOut (a : Arena) (cs : List Change) (k : Handle) : Prop :=
  ∃ before c after, cs = before ++ c :: after ∧ k ∈ (a.run before).takenOut c

theorem tookOut_cons {cs : List Change} :
    a.TookOut (c :: cs) k ↔ k ∈ a.takenOut c ∨ (a.apply c).TookOut cs k := by
  constructor
  · rintro ⟨before, c', after, heq, hk⟩
    cases before with
    | nil =>
      obtain ⟨rfl, rfl⟩ := List.cons.inj heq
      exact .inl hk
    | cons b before =>
      obtain ⟨rfl, rfl⟩ := List.cons.inj heq
      exact .inr ⟨before, c', after, rfl, hk⟩
  · rintro (hk | ⟨before, c', after, rfl, hk⟩)
    · exact ⟨[], c, cs, rfl, hk⟩
    · exact ⟨c :: before, c', after, rfl, hk⟩

/-- **Beside the text are the nodes that have been taken out**, and no others. -/
theorem Stores.mem_loose_run_iff (hs : a.Stores d) {cs : List Change} (hcs : d.Allows cs) :
    k ∈ (d.run cs).loose.map Node.handle ↔ k ∈ d.loose.map Node.handle ∨ a.TookOut cs k := by
  induction cs generalizing a d with
  | nil =>
    refine ⟨.inl, fun h ↦ h.resolve_right ?_⟩
    rintro ⟨before, c, after, heq, -⟩
    simp at heq
  | cons c cs ih =>
    refine (ih (hs.apply hcs.1) hcs.2).trans ?_
    rw [hs.loose_apply hcs.1, List.mem_append, tookOut_cons, or_assoc]

theorem Stores.mem_topLevel_of_run (hs : a.Stores d) {cs : List Change} (hcs : d.Allows cs)
    (hq : q ∈ Node.handlesAll (d.run cs).topLevel) (hlt : q < d.next) :
    q ∈ Node.handlesAll d.topLevel := by
  induction cs generalizing a d with
  | nil => exact hq
  | cons c cs ih =>
    have hlt' := Nat.lt_of_lt_of_le hlt (d.le_next_apply c)
    exact hs.mem_topLevel_of_apply (ih (hs.apply hcs.1) hcs.2 hq hlt') hlt

end Arena

/-! ## Documents that stay forests -/

/-- Whether nothing that is made of the text has a node: the text itself, the list of its elements,
its root and what is found by its id. -/
structure Document.IsAway (d : Document) (q : Handle) : Prop where
  /-- What is written is the top level with all that hangs below. -/
  notMem_topLevel : q ∉ Node.handlesAll d.topLevel
  /-- The node is not listed. -/
  ne_of_mem_elements : ∀ n ∈ d.elements, Node.handle n ≠ q
  /-- The node is not the root. -/
  ne_of_root? : ∀ n, d.root? = some n → Node.handle n ≠ q
  /-- The node is not found. -/
  ne_of_find? : ∀ id n, d.find? id = some n → Node.handle n ≠ q

theorem Document.isAway_of_notMem {d : Document} {q : Handle}
    (hq : q ∉ Node.handlesAll d.topLevel) : d.IsAway q := by
  have hlisted : ∀ n ∈ d.elements, Node.handle n ≠ q := by
    rintro n hn rfl
    exact hq (Node.handle_mem_handlesAll (Node.mem_subtreesAll_of_mem_elementsAll hn))
  refine ⟨hq, hlisted, fun n hroot ↦ hlisted n (List.mem_of_find?_eq_some hroot), ?_⟩
  intro id n hfind
  obtain ⟨root, hroot, hfind⟩ := Option.bind_eq_some_iff.1 hfind
  exact hlisted n (Node.mem_elementsAll_trans (List.mem_of_find?_eq_some hroot)
    (List.mem_of_find?_eq_some hfind))

/-- Whether some changes of an arena and a document leave both one forest, in which nothing that has
been taken out is found again. -/
structure StaysForest (a : Arena) (d : Document) (cs : List Change) : Prop where
  /-- The arena has the nodes of the document and no others. -/
  stores : (a.run cs).Stores (d.run cs)
  /-- Parents and lists of children say the same, and what they say is a forest. -/
  isForest : (a.run cs).IsForest
  /-- The elements are those that are reached through elements, each once, in document order. -/
  listsElements : (a.run cs).ListsElements ((d.run cs).elements.map Node.handle)
  /-- What has at any time hung below a node that had been taken out is away. -/
  isAway : ∀ cs₁ cs₂, cs = cs₁ ++ cs₂ → ∀ k, a.TookOut cs₁ k →
    ∀ q, (a.run cs₁).IsBelow k q → (d.run cs).IsAway q
  /-- A node is detached exactly if it is in a list of children or at the top level. -/
  isSome_detach?_iff : ∀ h, ((a.run cs).detach? h).isSome = true ↔
    (∃ p, h ∈ (a.run cs).children p) ∨ h ∈ (a.run cs).topLevel
  /-- So it is in the document. -/
  isAttached_eq : ∀ h < (d.run cs).next,
    (d.run cs).isAttached h = ((a.run cs).detach? h).isSome
  /-- A node stays attached until it is taken out. -/
  isAttached_iff : ∀ h < (d.run cs).next, (d.run cs).isAttached h = true ↔ ¬ a.TookOut cs h

namespace Document

variable {d : Document}

/-- Whether a document is what edits start from: an empty one or one that has been read. -/
def IsStart (d : Document) : Prop := d = {} ∨ ∃ text, read text = .ok d

theorem IsStart.exists_markup (hd : d.IsStart) : ∃ m, d = ofMarkup m := by
  rcases hd with rfl | ⟨text, hread⟩
  · exact ⟨[], rfl⟩
  · rw [read] at hread
    cases hm : Markup.read text with
    | error fault => rw [hm] at hread; cases hread
    | ok m =>
      rw [hm] at hread
      cases hread
      exact ⟨m, rfl⟩

/-- **A document stays a forest** whatever is done to the nodes that exist. -/
theorem staysForest_run (hd : d.IsStart) {cs : List Change} (hcs : d.Allows cs) :
    StaysForest (Arena.ofMarkup d.markup) d cs := by
  obtain ⟨m, rfl⟩ := hd.exists_markup
  rw [markup_ofMarkup]
  have hs := stores_ofMarkup m
  have hrun := hs.run hcs
  have htaken : ∀ {cs₁ : List Change}, (ofMarkup m).Allows cs₁ → ∀ {k : Handle},
      k ∈ ((ofMarkup m).run cs₁).loose.map Node.handle ↔ (Arena.ofMarkup m).TookOut cs₁ k :=
    fun hcs₁ ↦ (hs.mem_loose_run_iff hcs₁).trans (by simp)
  refine ⟨hrun, hrun.isForest, hrun.listsElements, ?_, ?_, ?_, ?_⟩
  · rintro cs₁ cs₂ rfl k hk q hbelow
    obtain ⟨hcs₁, hcs₂⟩ := allows_append.1 hcs
    obtain ⟨hlt, hout⟩ := (hs.run hcs₁).notMem_topLevel_of_isBelow ((htaken hcs₁).2 hk) hbelow
    rw [run_append]
    exact isAway_of_notMem fun hmem ↦ hout ((hs.run hcs₁).mem_topLevel_of_run hcs₂ hmem hlt)
  · exact hrun.isForest.isSome_detach?_iff
  · exact fun h hh ↦ (hrun.detach hh).1.symm
  · exact fun h hh ↦ (hrun.isAttached_iff hh).trans (htaken hcs).not

/-- A text takes the place of a rectangle and a text, an element is put below the rectangle and
changed, the group is swapped with the element before it, and the new text is taken out. -/
theorem staysForest_of_set_text : ∃ d, read "<svg><a/><g><rect/>x</g></svg>" = .ok d ∧
    d.IsStart ∧
    d.Allows [.setText 2 "y", .append (some 3) (.element ⟨"b", []⟩), .setAttribute 6 "k" "v",
      .swap 2 .lower, .detach 5] ∧
    StaysForest (Arena.ofMarkup d.markup) d [.setText 2 "y",
      .append (some 3) (.element ⟨"b", []⟩), .setAttribute 6 "k" "v", .swap 2 .lower,
      .detach 5] := by
  obtain ⟨m, hm⟩ : ∃ m : Markup, m = [.node (.element ⟨"svg", []⟩)
      [.node (.element ⟨"a", []⟩) [], .node (.element ⟨"g", []⟩)
        [.node (.element ⟨"rect", []⟩) [], .node (.text "x") []]]] := ⟨_, rfl⟩
  have hmarkup : Markup.read "<svg><a/><g><rect/>x</g></svg>" = .ok m := by
    subst hm
    cbv
  have hread : read "<svg><a/><g><rect/>x</g></svg>" = .ok (ofMarkup m) := by
    rw [read, hmarkup]
    rfl
  have hstart : (ofMarkup m).IsStart := .inr ⟨_, hread⟩
  have hallows : (ofMarkup m).Allows [.setText 2 "y", .append (some 3) (.element ⟨"b", []⟩),
      .setAttribute 6 "k" "v", .swap 2 .lower, .detach 5] := by
    subst hm
    decide +kernel
  exact ⟨_, hread, hstart, hallows, staysForest_run hstart hallows⟩

end Document

end SvgWorkbench
