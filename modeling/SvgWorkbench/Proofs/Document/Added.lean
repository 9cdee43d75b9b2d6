import SvgWorkbench.Proofs.Document.Stored

/-!
# Documents made by adding nodes

Markup becomes a document by giving all its nodes their handles. Adding the nodes one after the
other to an empty document, each below one that is there, makes the same document: a node that is
added stands at the end of what is there, and gets the number that comes next.
-/

namespace SvgWorkbench

open SvgWorkbench.Tree

/-- A node with some children more at its end. -/
def Node.addChildren (us : List Node) (n : Node) : Node := .node n.label (n.children ++ us)

namespace Document

variable {a : Arena} {d : Document} {p next next' : Handle}

theorem run_append (d : Document) (cs cs' : List Change) :
    d.run (cs ++ cs') = (d.run cs).run cs' := List.foldl_append

theorem allows_append {cs cs' : List Change} :
    d.Allows (cs ++ cs') ↔ d.Allows cs ∧ (d.run cs).Allows cs' := by
  induction cs generalizing d with
  | nil => exact ⟨fun h ↦ ⟨trivial, h⟩, And.right⟩
  | cons c cs ih => exact (and_congr_right fun _ ↦ ih).trans and_assoc.symm

/-! ## Trees put into a document -/

/-- A document with some trees more at the end of a node. -/
def addBelow (d : Document) (p : Handle) (us : List Node) (next : Handle) : Document :=
  { d.modify p (Node.addChildren us) with next }

/-- A document with some trees more at the end of its top level. -/
def addTop (d : Document) (us : List Node) (next : Handle) : Document :=
  { d with topLevel := d.topLevel ++ us, next }

@[simp] theorem next_addBelow (us : List Node) : (d.addBelow p us next).next = next := rfl

@[simp] theorem next_addTop (us : List Node) : (d.addTop us next).next = next := rfl

theorem addBelow_nil (d : Document) (p : Handle) : d.addBelow p [] d.next = d := by
  have hnil : ∀ n, Node.addChildren [] n = n := by
    rintro ⟨s, ts⟩
    exact congrArg _ (List.append_nil ts)
  rw [addBelow, modify, Node.modifyAll_eq_self fun n _ _ ↦ hnil n,
    Node.modifyAll_eq_self fun n _ _ ↦ hnil n]

theorem addTop_nil (d : Document) : d.addTop [] d.next = d := by
  rw [addTop, List.append_nil]

theorem addBelow_addBelow (us vs : List Node) :
    (d.addBelow p us next).addBelow p vs next' = d.addBelow p (us ++ vs) next' := by
  have hadd : ∀ n, Node.addChildren vs (Node.addChildren us n) = Node.addChildren (us ++ vs) n :=
    fun n ↦ congrArg _ (List.append_assoc _ _ _)
  rw [addBelow, addBelow, modify, modify,
    Node.modifyAll_modifyAll (f := Node.addChildren us) fun _ h ↦ h,
    Node.modifyAll_modifyAll (f := Node.addChildren us) fun _ h ↦ h, funext hadd]
  rfl

theorem addTop_addTop (us vs : List Node) :
    (d.addTop us next).addTop vs next' = d.addTop (us ++ vs) next' := by
  rw [addTop, addTop, List.append_assoc]
  rfl

/-- Of the next handle there is no node yet. -/
theorem next_notMem (hs : a.Stores d) :
    d.next ∉ Node.handlesAll d.topLevel ∧ d.next ∉ Node.handlesAll d.loose := by
  rw [← not_or, ← List.mem_append, ← Node.handlesAll_append, hs.mem_handlesAll_iff]
  exact Nat.lt_irrefl _

/-- What is put into a node that has just been added is added with it. -/
theorem addBelow_append (hs : a.Stores d) (content : Content) (us : List Node) :
    (d.append (some p) content).addBelow d.next us next
      = d.addBelow p [.node ⟨d.next, content⟩ us] next := by
  have hleaf : ∀ n : Node, d.next ∉ n.handles → Node.modify d.next (Node.addChildren us)
      (Node.addChild (.node ⟨d.next, content⟩ []) n)
        = Node.addChildren [.node ⟨d.next, content⟩ us] n := fun n hn ↦
    Node.modify_addChild (.node ⟨d.next, content⟩ []) hn
  rw [append, addBelow, modify, modify,
    Node.modifyAll_modifyAll_of_notMem hleaf (next_notMem hs).1,
    Node.modifyAll_modifyAll_of_notMem hleaf (next_notMem hs).2]
  rfl

theorem addBelow_append_top (hs : a.Stores d) (content : Content) (us : List Node) :
    (d.append none content).addBelow d.next us next
      = d.addTop [.node ⟨d.next, content⟩ us] next := by
  rw [append, addBelow, modify, Node.modifyAll_append,
    Node.modifyAll_of_notMem (next_notMem hs).1, Node.modifyAll_of_notMem (next_notMem hs).2,
    Node.modifyAll, Node.modify, if_pos rfl]
  rfl

/-! ## Nodes added one after the other -/

theorem snd_numberAll_eq (next : Handle) (c : Content) (us : List (Tree Content)) :
    (numberAll (next + 1) us).2 = next + (Tree.node c us).size := by
  rw [numberAll_snd, size, Nat.add_assoc]

/-- **Nodes added below a node**, one after the other, are the trees that are numbered at once. -/
theorem run_addingAll (hs : a.Stores d) (hp : p < d.next) (ts : List (Tree Content)) :
    d.run (Change.addingAll (some p) d.next ts)
        = d.addBelow p (numberAll d.next ts).1 (numberAll d.next ts).2 ∧
      d.Allows (Change.addingAll (some p) d.next ts) := by
  induction ts using forest_induction generalizing a d p with
  | nil => exact ⟨(addBelow_nil d p).symm, trivial⟩
  | cons c us ts ihus ihts =>
    have hfirst := hs.append_below hp c
    obtain ⟨hus, hallows⟩ := ihus hfirst (Nat.lt_succ_self d.next)
    have hsecond := hfirst.run hallows
    rw [hus, addBelow_append hs] at hsecond
    have hnext := snd_numberAll_eq d.next c us
    have hlt : p < (numberAll (d.next + 1) us).2 :=
      Nat.lt_of_lt_of_le hp (hnext ▸ Nat.le_add_right _ _)
    obtain ⟨hts, hallows'⟩ := ihts hsecond hlt
    have hrun : d.run (Change.adding (some p) d.next (.node c us)) = _ :=
      hus.trans (addBelow_append hs _ _)
    rw [Change.addingAll, run_append, allows_append, hrun, ← hnext]
    refine ⟨hts.trans (addBelow_addBelow _ _), ⟨?_, hallows⟩, hallows'⟩
    exact fun _ heq ↦ Option.some.inj heq ▸ hp

/-- Trees added at the top level. -/
theorem run_addingAll_top (hs : a.Stores d) (ts : List (Tree Content)) :
    d.run (Change.addingAll none d.next ts)
        = d.addTop (numberAll d.next ts).1 (numberAll d.next ts).2 ∧
      d.Allows (Change.addingAll none d.next ts) := by
  induction ts generalizing a d with
  | nil => exact ⟨(addTop_nil d).symm, trivial⟩
  | cons t ts ih =>
    obtain ⟨c, us⟩ := t
    have hfirst := hs.append_top c
    obtain ⟨hus, hallows⟩ := run_addingAll hfirst (Nat.lt_succ_self d.next) us
    have hsecond := hfirst.run hallows
    rw [hus, addBelow_append_top hs] at hsecond
    have hnext := snd_numberAll_eq d.next c us
    obtain ⟨hts, hallows'⟩ := ih hsecond
    have hrun : d.run (Change.adding none d.next (.node c us)) = _ :=
      hus.trans (addBelow_append_top hs _ _)
    rw [Change.addingAll, run_append, allows_append, hrun, ← hnext]
    exact ⟨hts.trans (addTop_addTop _ _), ⟨nofun, hallows⟩, hallows'⟩

/-- **Markup is read into an empty document**: the arena to which its nodes have been added has the
nodes of its document. -/
theorem stores_ofMarkup (m : Markup) : (Arena.ofMarkup m).Stores (ofMarkup m) := by
  obtain ⟨hrun, hallows⟩ := run_addingAll_top Arena.stores_empty m
  have hstores := Arena.stores_empty.run hallows
  rw [hrun] at hstores
  exact hstores

end Document

end SvgWorkbench
