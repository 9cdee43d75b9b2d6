import SvgWorkbench.Edit.Structure
import SvgWorkbench.Edit.Property
import SvgWorkbench.Proofs.Drawing.Rewritten

/-!
# Changed documents

An edit changes one node of a document, takes one out or puts a new one in. Whatever it does, what
stands in the document afterwards has been there before or is what the edit put there, so a document
whose contents are ordinary stays one as long as the edit puts nothing else in. The first node of
the top level stays too: an edit takes out only nodes that have a parent.
-/

namespace SvgWorkbench

open SvgWorkbench.Tree

/-! ## What stands in a changed node -/

namespace Node

variable {P : Content → Prop} {h : Handle}

mutual

theorem forall_preorder_modify {f : Node → Node}
    (hf : ∀ n : Node, (∀ c ∈ n.bare.preorder, P c) → ∀ c ∈ (f n).bare.preorder, P c) {t : Node}
    (ht : ∀ c ∈ t.bare.preorder, P c) : ∀ c ∈ (modify h f t).bare.preorder, P c := by
  match t with
  | .node s ts =>
    rw [modify]
    split
    · exact hf _ ht
    · rw [bare_node, preorder, List.forall_mem_cons] at ht ⊢
      exact ⟨ht.1, forall_preorderAll_modifyAll hf ht.2⟩

/-- What holds of everything in a document holds after one node has been changed, if it holds of
everything in the node then. -/
theorem forall_preorderAll_modifyAll {f : Node → Node}
    (hf : ∀ n : Node, (∀ c ∈ n.bare.preorder, P c) → ∀ c ∈ (f n).bare.preorder, P c)
    {ts : List Node} (hts : ∀ c ∈ preorderAll (ts.map bare), P c) :
    ∀ c ∈ preorderAll ((modifyAll h f ts).map bare), P c := by
  match ts with
  | [] => exact nofun
  | t :: ts =>
    rw [List.map_cons, preorderAll, List.forall_mem_append] at hts
    rw [modifyAll, List.map_cons, preorderAll, List.forall_mem_append]
    exact ⟨forall_preorder_modify hf hts.1, forall_preorderAll_modifyAll hf hts.2⟩

end

mutual

theorem forall_preorder_prune {t : Node} (ht : ∀ c ∈ t.bare.preorder, P c) :
    ∀ c ∈ (prune h t).bare.preorder, P c := by
  match t with
  | .node s ts =>
    rw [prune, bare_node, preorder, List.forall_mem_cons]
    rw [bare_node, preorder, List.forall_mem_cons] at ht
    exact ⟨ht.1, forall_preorderAll_pruneAll ht.2⟩

/-- Taking a node out puts nothing in. -/
theorem forall_preorderAll_pruneAll {ts : List Node} (hts : ∀ c ∈ preorderAll (ts.map bare), P c) :
    ∀ c ∈ preorderAll ((pruneAll h ts).map bare), P c := by
  match ts with
  | [] => exact nofun
  | t :: ts =>
    rw [List.map_cons, preorderAll, List.forall_mem_append] at hts
    rw [pruneAll]
    split
    · exact forall_preorderAll_pruneAll hts.2
    · rw [List.map_cons, preorderAll, List.forall_mem_append]
      exact ⟨forall_preorder_prune hts.1, forall_preorderAll_pruneAll hts.2⟩

end

/-- The first node of the top level stays what it is, a text or not. -/
theorem exists_startsSpaced_modifyAll {f : Node → Node} {ts : List Node}
    (hstart : ∃ t us, ts.map bare = t :: us ∧ Markup.StartsSpaced t)
    (htext : ∀ n, (bare (f n)).label.text? = (bare n).label.text?) :
    ∃ t us, (modifyAll h f ts).map bare = t :: us ∧ Markup.StartsSpaced t := by
  obtain ⟨t, us, hmarkup, hstart⟩ := hstart
  cases ts with
  | nil => cases hmarkup
  | cons n ns =>
    obtain ⟨rfl, rfl⟩ := List.cons.inj hmarkup
    rw [modifyAll, List.map_cons]
    refine ⟨_, _, rfl, fun s hs ↦ hstart s ?_⟩
    rw [← hs]
    obtain ⟨⟨k, c⟩, vs⟩ := n
    rw [modify]
    split
    · exact (htext _).symm
    · rfl

end Node

/-! ## Exchanged neighbours -/

namespace Document

theorem perm_takePlace {x y : Node} {ts us : List Node} (h : takePlace x ts = some (y, us)) :
    (y :: us).Perm (x :: ts) := by
  induction ts generalizing y us with
  | nil => cases h
  | cons t ts ih =>
    rw [takePlace] at h
    split at h
    · cases h
      exact List.Perm.swap x t ts
    · rw [Option.map_eq_some_iff] at h
      obtain ⟨⟨found, rest⟩, hrest, heq⟩ := h
      cases heq
      calc
        List.Perm (y :: t :: rest) (t :: y :: rest) := List.Perm.swap t y rest
        List.Perm _ (t :: x :: ts) := (ih hrest).cons t
        List.Perm _ (x :: t :: ts) := List.Perm.swap x t ts

/-- Exchanging two neighbours leaves the same nodes in another order. -/
theorem perm_swapNext {h : Handle} {ts us : List Node} (hswap : swapNext h ts = some us) :
    us.Perm ts := by
  induction ts generalizing us with
  | nil => cases hswap
  | cons t ts ih =>
    rw [swapNext] at hswap
    split at hswap
    · rw [Option.map_eq_some_iff] at hswap
      obtain ⟨⟨y, rest⟩, hrest, rfl⟩ := hswap
      exact perm_takePlace hrest
    · rw [Option.map_eq_some_iff] at hswap
      obtain ⟨rest, hrest, rfl⟩ := hswap
      exact (ih hrest).cons t

theorem perm_swapPrevious {h : Handle} {ts us : List Node} (hswap : swapPrevious h ts = some us) :
    us.Perm ts := by
  rw [swapPrevious, Option.map_eq_some_iff] at hswap
  obtain ⟨rest, hrest, rfl⟩ := hswap
  calc
    List.Perm rest.reverse rest := List.reverse_perm rest
    List.Perm _ ts.reverse := perm_swapNext hrest
    List.Perm _ ts := List.reverse_perm ts

/-- An exchange puts the children of the parent in another order. -/
theorem exists_of_swap? {d swapped : Document} {h : Handle} {direction : Direction}
    (hswap : d.swap? h direction = some swapped) : ∃ parent children, d.parent? h = some parent ∧
      children.Perm parent.children ∧
      swapped = d.modify parent.handle (Node.withChildren children) := by
  rw [swap?] at hswap
  obtain ⟨parent, hparent, hswap⟩ := Option.bind_eq_some_iff.1 hswap
  cases direction with
  | raise =>
    obtain ⟨children, hchildren, heq⟩ := Option.bind_eq_some_iff.1 hswap
    cases heq
    exact ⟨parent, children, hparent, perm_swapNext hchildren, rfl⟩
  | lower =>
    obtain ⟨children, hchildren, heq⟩ := Option.bind_eq_some_iff.1 hswap
    cases heq
    exact ⟨parent, children, hparent, perm_swapPrevious hchildren, rfl⟩

/-! ## Documents that can be edited -/

variable {legal : String → Prop}

/-- Whether a document holds ordinary content only, and its first node is no text, or a text that
starts with a space. -/
structure IsEditable (legal : String → Prop) (d : Document) : Prop where
  /-- Everything in the document is ordinary. -/
  ordinary : d.markup.IsOrdinary legal
  /-- There is a first node, which may stand there. -/
  start : ∃ t ts, d.markup = t :: ts ∧ Markup.StartsSpaced t

namespace IsEditable

variable {d : Document}

/-- The text of such a document is written, if the check lets it through. -/
theorem isWritten (h : d.IsEditable legal) (hcheck : Gate.check d.text = .ok ()) :
    IsWritten legal d.text := by
  obtain ⟨t, ts, hmarkup, hstart⟩ := h.start
  exact ⟨t, ts, by rw [text, hmarkup], hmarkup ▸ h.ordinary, hstart, hcheck⟩

/-- A change of one node that puts in nothing else than ordinary content, and makes no text of a
node and no node of a text. -/
theorem modify (h : d.IsEditable legal) (k : Handle) {f : Node → Node}
    (hcontents : ∀ n : Node, (∀ c ∈ n.bare.preorder, c.IsOrdinary legal) →
      ∀ c ∈ (f n).bare.preorder, c.IsOrdinary legal)
    (htext : ∀ n : Node, (f n).bare.label.text? = n.bare.label.text?) :
    (d.modify k f).IsEditable legal :=
  ⟨Node.forall_preorderAll_modifyAll hcontents h.ordinary,
    Node.exists_startsSpaced_modifyAll h.start htext⟩

theorem modifyElement (h : d.IsEditable legal) (k : Handle) {f : Element → Element}
    (hf : ∀ e : Element, e.IsOrdinary legal → (f e).IsOrdinary legal) :
    (d.modifyElement k f).IsEditable legal := by
  refine h.modify k (fun n hn ↦ ?_) fun n ↦ ?_
  · obtain ⟨⟨k', c⟩, ts⟩ := n
    cases c with
    | element e =>
      rw [Node.bare_node, preorder, List.forall_mem_cons] at hn
      show ∀ c ∈ (Node.bare (.node ⟨k', .element (f e)⟩ ts)).preorder, _
      rw [Node.bare_node, preorder, List.forall_mem_cons]
      exact ⟨hf e hn.1, hn.2⟩
    | _ => exact hn
  · obtain ⟨⟨k', c⟩, ts⟩ := n
    cases c <;> rfl

theorem append (h : d.IsEditable legal) (parent : Handle) {c : Content}
    (hc : c.IsOrdinary legal) : (d.append (some parent) c).IsEditable legal := by
  have hnext : Document.IsEditable legal { d with next := d.next + 1 } := ⟨h.ordinary, h.start⟩
  refine hnext.modify parent (fun n hn ↦ ?_) fun n ↦ ?_
  · obtain ⟨s, ts⟩ := n
    rw [Node.bare_node, preorder, List.forall_mem_cons] at hn
    rw [Node.addChild, label_node, children_node, Node.bare_node, preorder, List.forall_mem_cons,
      List.map_append, Markup.preorderAll_append, List.forall_mem_append]
    exact ⟨hn.1, hn.2, by simpa [preorderAll, preorder] using hc⟩
  · obtain ⟨s, ts⟩ := n
    rfl

/-- The children of a node may be replaced by ordinary ones. -/
theorem withChildren (h : d.IsEditable legal) (k : Handle) {us : List Node}
    (hus : ∀ c ∈ preorderAll (us.map Node.bare), c.IsOrdinary legal) :
    (d.modify k (Node.withChildren us)).IsEditable legal := by
  refine h.modify k (fun n hn ↦ ?_) fun n ↦ ?_
  · obtain ⟨s, ts⟩ := n
    rw [Node.bare_node, preorder, List.forall_mem_cons] at hn
    rw [Node.withChildren, label_node, Node.bare_node, preorder, List.forall_mem_cons]
    exact ⟨hn.1, hus⟩
  · obtain ⟨s, ts⟩ := n
    rfl

theorem setText (h : d.IsEditable legal) (k : Handle) (text : String) :
    (d.setText k text).IsEditable legal := by
  have hempty : Document.IsEditable legal (d.modify k (Node.withChildren [])) :=
    h.withChildren k nofun
  -- what was inside is kept aside, where it is not written
  have hfreed : Document.IsEditable legal { d.modify k (Node.withChildren []) with
      loose := (d.modify k (Node.withChildren [])).loose ++
        ((d.node? k).map (·.children)).getD [] } := ⟨hempty.ordinary, hempty.start⟩
  rw [Document.setText]
  split
  · exact hfreed
  · exact hfreed.append k trivial

/-- A node that does not stand at the top level may be taken out. -/
theorem detach (h : d.IsEditable legal) {k : Handle} (hbelow : ∀ n ∈ d.topLevel, n.label.handle ≠ k) :
    (d.detach k).IsEditable legal := by
  rw [Document.detach]
  split
  case isFalse => exact h
  refine ⟨Node.forall_preorderAll_pruneAll h.ordinary, ?_⟩
  obtain ⟨t, ts, hmarkup, hstart⟩ := h.start
  -- the first node of the top level is not the one that is taken out
  show ∃ t ts, (Node.pruneAll k d.topLevel).map Node.bare = t :: ts ∧ _
  rw [markup] at hmarkup
  cases htop : d.topLevel with
  | nil => rw [htop] at hmarkup; cases hmarkup
  | cons n ns =>
    rw [htop] at hmarkup hbelow
    obtain ⟨rfl, rfl⟩ := List.cons.inj hmarkup
    rw [Node.pruneAll, if_neg (hbelow n List.mem_cons_self), List.map_cons]
    refine ⟨_, _, rfl, fun s hs ↦ hstart s ?_⟩
    rw [← hs]
    obtain ⟨s, us⟩ := n
    rfl

/-- Neighbours may be exchanged, since nothing else than their order changes. -/
theorem swap (h : d.IsEditable legal) (hloose : d.loose = []) {k : Handle} {direction : Direction}
    {swapped : Document} (hswap : d.swap? k direction = some swapped) :
    swapped.IsEditable legal := by
  obtain ⟨parent, children, hparent, hperm, rfl⟩ := exists_of_swap? hswap
  refine h.withChildren parent.handle fun c hc ↦ h.ordinary c ?_
  have hmem := (exists_of_parent? hparent).1
  rw [nodes_of_loose_eq_nil hloose] at hmem
  refine Node.mem_preorderAll_map_bare hmem ?_
  obtain ⟨s, ts⟩ := parent
  rw [Node.bare_node, preorder]
  rw [preorderAll_eq_flatMap] at hc ⊢
  exact List.mem_cons_of_mem _ ((hperm.map Node.bare).flatMap_right _ |>.mem_iff.1 hc)

end IsEditable

end Document

end SvgWorkbench
