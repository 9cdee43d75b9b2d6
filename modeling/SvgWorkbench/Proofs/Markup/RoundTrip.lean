import SvgWorkbench.Proofs.Markup.Settled

/-!
# Reading undoes writing

The writer goes down the tree, the reader goes along the text with a stack of open elements. The
step law says what reading one written node does to the stack: it adds the settled node to the
innermost open element. Texts are special, since they are read together with the texts next to them,
so the law for a forest carries along the text that has been written but not been read.
-/

namespace SvgWorkbench.Markup

open Text Xml

/-! ## Reading in steps -/

/-- Reading a text from a state comes down to reading a later text from another state. -/
def Reads (r : Reading) (cs : List Char) (r' : Reading) (rest : List Char) : Prop :=
  ∀ offset, ∃ offset', readFrom r offset cs = readFrom r' offset' rest

theorem Reads.refl (r : Reading) (cs : List Char) : Reads r cs r cs := fun offset ↦ ⟨offset, rfl⟩

theorem Reads.trans {r r' r'' : Reading} {cs ds es : List Char} (h : Reads r cs r' ds)
    (h' : Reads r' ds r'' es) : Reads r cs r'' es := by
  intro offset
  obtain ⟨after, hafter⟩ := h offset
  obtain ⟨last, hlast⟩ := h' after
  exact ⟨last, hafter.trans hlast⟩

/-- A token that is cut off is added to what has been read. -/
theorem reads_of_cuts {r r' : Reading} {cs rest : List Char} (token : Token) (hne : cs ≠ [])
    (hcut : Cuts r.innermost? cs token rest) (hstep : r.step token = .ok r') :
    Reads r cs r' rest := by
  intro offset
  obtain ⟨c, cs, rfl⟩ := List.exists_cons_of_ne_nil hne
  obtain ⟨size, hsize⟩ := hcut offset
  have hend : ¬ (c = '<' ∧ cs = []) := by
    rintro ⟨rfl, rfl⟩
    cases hsize
  refine ⟨offset + size, ?_⟩
  rw [readFrom, if_neg hend]
  split
  · next heq =>
    rw [hsize] at heq
    cases heq
  · next x heq =>
    rw [hsize] at heq
    cases heq
    simp only [hstep]

/-! ## Adding nodes to the innermost open element -/

namespace Reading

/-- Adds finished nodes to the innermost open element. -/
def addAll (r : Reading) (ts : List (Tree Content)) : Reading := ts.foldl add r

/-- The state with other entities. -/
def withEntities (r : Reading) (entities : Entities) : Reading := { r with entities }

@[simp] theorem addAll_nil (r : Reading) : r.addAll [] = r := rfl

@[simp] theorem addAll_cons (r : Reading) (t : Tree Content) (ts : List (Tree Content)) :
    r.addAll (t :: ts) = (r.add t).addAll ts := rfl

theorem addAll_append (r : Reading) (ss ts : List (Tree Content)) :
    r.addAll (ss ++ ts) = (r.addAll ss).addAll ts := List.foldl_append

@[simp] theorem waiting_add (r : Reading) (t : Tree Content) : (r.add t).waiting = r.waiting := by
  unfold add
  split <;> rfl

@[simp] theorem entities_add (r : Reading) (t : Tree Content) :
    (r.add t).entities = r.entities := by
  unfold add
  split <;> rfl

@[simp] theorem innermost?_add (r : Reading) (t : Tree Content) :
    (r.add t).innermost? = r.innermost? := by
  unfold add innermost?
  split <;> simp_all

@[simp] theorem waiting_withEntities (r : Reading) (entities : Entities) :
    (r.withEntities entities).waiting = r.waiting := rfl

@[simp] theorem opened_withEntities (r : Reading) (entities : Entities) :
    (r.withEntities entities).opened = r.opened := rfl

@[simp] theorem withEntities_withEntities (r : Reading) (entities entities' : Entities) :
    (r.withEntities entities).withEntities entities' = r.withEntities entities' := rfl

theorem add_withEntities_self (r : Reading) (t : Tree Content) :
    (r.add t).withEntities r.entities = r.add t := by
  rw [← entities_add r t]
  rfl

@[simp] theorem waiting_addAll (r : Reading) (ts : List (Tree Content)) :
    (r.addAll ts).waiting = r.waiting := by
  induction ts generalizing r with
  | nil => rfl
  | cons t ts ih => rw [addAll_cons, ih, waiting_add]

theorem opened_add_eq_nil_iff {r : Reading} {t : Tree Content} :
    (r.add t).opened = [] ↔ r.opened = [] := by
  unfold add
  split <;> simp_all

theorem add_withEntities (r : Reading) (entities : Entities) (t : Tree Content) :
    (r.withEntities entities).add t = (r.add t).withEntities entities := by
  unfold add withEntities
  split <;> simp_all

theorem addAll_withEntities (r : Reading) (entities : Entities) (ts : List (Tree Content)) :
    (r.withEntities entities).addAll ts = (r.addAll ts).withEntities entities := by
  induction ts generalizing r with
  | nil => rfl
  | cons t ts ih => rw [addAll_cons, addAll_cons, add_withEntities, ih]

/-- Nodes that are added at the top level are finished. -/
theorem addAll_of_opened_eq_nil {r : Reading} (h : r.opened = []) (ts : List (Tree Content)) :
    r.addAll ts = { r with finished := ts.reverse ++ r.finished } := by
  induction ts generalizing r with
  | nil => rfl
  | cons t ts ih =>
    rw [addAll_cons, ih (opened_add_eq_nil_iff.2 h)]
    simp [add, h]

/-- Nodes that are added while an element is open become its children. -/
theorem addAll_of_opened_eq_cons {r : Reading} {f : Frame} {fs : List Frame}
    (h : r.opened = f :: fs) (ts : List (Tree Content)) :
    r.addAll ts = { r with opened := { f with children := ts.reverse ++ f.children } :: fs } := by
  induction ts generalizing r f with
  | nil =>
    rw [addAll_nil, List.reverse_nil, List.nil_append, ← h]
  | cons t ts ih =>
    rw [addAll_cons, ih (f := { f with children := t :: f.children }) (by simp [add, h])]
    simp [add, h]

/-- Opening an element, adding its children and closing it adds the element. -/
theorem close_addAll_open {r : Reading} (hwaiting : r.waiting = []) (e : Element)
    (ts : List (Tree Content)) (entities : Entities) :
    (({ r with opened := ⟨e, []⟩ :: r.opened }.addAll ts).withEntities entities).close
      = (r.add (.node (.element e) ts)).withEntities entities := by
  rw [addAll_of_opened_eq_cons rfl]
  cases hopened : r.opened with
  | nil => simp [withEntities, close, add, hopened, hwaiting, Frame.close]
  | cons f fs => simp [withEntities, close, add, hopened, Frame.close]

end Reading

/-! ## Reading what was written -/

theorem lt_notMem_escape (cs : List Char) : '<' ∉ escape cs :=
  fun h ↦ ne_of_mem_escape h rfl (by decide) rfl

/-- A written text is read as one text, unless it is empty. -/
private theorem reads_escape (r : Reading) (before : String) {rest : List Char}
    (hrest : rest = [] ∨ rest.head? = some '<') :
    Reads r (escape before.toList ++ rest) (r.addAll (textNodes before)) rest := by
  by_cases hbefore : before = ""
  · subst hbefore
    exact Reads.refl r rest
  · have hne : escape before.toList ≠ [] := by
      rw [ne_eq, escape_eq_nil_iff, String.toList_eq_nil_iff]
      exact hbefore
    refine reads_of_cuts _ (by simp [hne]) (cuts_text hne (lt_notMem_escape _) hrest _) ?_
    simp [Reading.step, unescape_escape, textNodes, hbefore, Reading.addLeaf]

/-- What is written for a node other than a text starts with a less-than sign. -/
theorem head?_writeNode {t : Tree Content} (h : t.label.text? = none) (rest : List Char) :
    (writeNode t ++ rest).head? = some '<' := by
  match t, h with
  | .node (.element e) [], _ => rfl
  | .node (.element e) (u :: us), _ => rfl
  | .node (.comment s) ts, _ => rfl
  | .node (.instruction s) ts, _ => rfl
  | .node (.doctype s) ts, _ => rfl

mutual

/-- **Step law.** Reading a written node other than a text adds the settled node to the innermost
open element, whatever follows. -/
theorem reads_writeNode {top : Bool} {t : Tree Content} (h : IsWritable top t)
    (htext : t.label.text? = none) (r : Reading) (hwaiting : r.waiting = [])
    (htop : top = true → r.opened = []) :
    ∃ entities, ∀ rest, Reads r (writeNode t ++ rest)
      ((r.add (settled (t.map Content.spaced))).withEntities entities) rest := by
  match t, h with
  | .node (.element e) [], h =>
    refine ⟨r.entities, fun rest ↦ reads_of_cuts (.emptyTag (writeTag e)) (by simp [writeNode]) ?_ ?_⟩
    · simpa [writeNode, writeTag] using
        cuts_emptyTag h.1.names.1 (tagParts_of_hasXmlNames h.1.names) r.innermost? rest
    · rw [Reading.add_withEntities_self, Reading.step, readElement_writeTag r.entities h.1]
      rfl
  | .node (.element e) (u :: us), h =>
    -- the start tag opens a frame, the children are read into it, and the close tag closes it
    obtain ⟨entities, hchildren⟩ := reads_writeNodes h.2 ""
      { r with opened := ⟨e.spaced, []⟩ :: r.opened } hwaiting (by simp)
    refine ⟨entities, fun rest ↦ ?_⟩
    have hopen : Reads r (writeNode (.node (.element e) (u :: us)) ++ rest)
        { r with opened := ⟨e.spaced, []⟩ :: r.opened }
        (writeNodes (u :: us) ++ (Mark.closeTag ++ (e.name.toList ++ '>' :: rest))) := by
      refine reads_of_cuts (.openTag (writeTag e)) (by simp [writeNode]) ?_ ?_
      · simpa [writeNode, writeNodes, writeTag] using cuts_openTag h.1.names.1
          (tagParts_of_hasXmlNames h.1.names) r.innermost?
          (writeNodes (u :: us) ++ (Mark.closeTag ++ (e.name.toList ++ '>' :: rest)))
      · rw [Reading.step, readElement_writeTag r.entities h.1]
        rfl
    have hclose : (Mark.closeTag ++ (e.name.toList ++ '>' :: rest)).head? = some '<' := rfl
    refine hopen.trans ((hchildren _ (.inr hclose)).trans (reads_of_cuts .closeTag ?_ ?_ ?_))
    · simp [Mark.closeTag]
    · rw [Reading.addAll_of_opened_eq_cons rfl]
      exact cuts_closeTag rfl h.1.names.1 (List.forall_mem_nil _) rest
    · rw [Reading.step, Reading.close_addAll_open hwaiting]
      rfl
  | .node (.comment s) ts, h =>
    refine ⟨r.entities, fun rest ↦
      reads_of_cuts (.comment s.toList) (by simp [writeNode, Mark.openComment]) ?_ ?_⟩
    · simpa [writeNode] using cuts_comment h r.innermost? rest
    · rw [Reading.add_withEntities_self, Reading.step, String.ofList_toList]
      rfl
  | .node (.instruction s) ts, h =>
    refine ⟨r.entities, fun rest ↦
      reads_of_cuts (.instruction s.toList) (by simp [writeNode, Mark.openInstruction]) ?_ ?_⟩
    · simpa [writeNode] using cuts_instruction h r.innermost? rest
    · rw [Reading.add_withEntities_self, Reading.step, String.ofList_toList]
      rfl
  | .node (.doctype s) ts, h =>
    refine ⟨r.entities.collect s.toList, fun rest ↦
      reads_of_cuts (.doctype s.toList) (by simp [writeNode, Mark.doctype]) ?_ ?_⟩
    · simpa [writeNode] using
        cuts_doctype (List.forall_mem_singleton.2 rfl) h.2 r.innermost? rest
    · have htrim : trimStart s.toList = s.toList := by
        obtain ⟨c, more, hs, hc⟩ := h.2.starts
        rw [hs, trimStart, List.dropWhile_cons_of_neg (by simp [hc])]
      have hopened := htop h.1
      simp [Reading.step, Reading.addDoctype, htrim, hopened, Reading.add, Reading.withEntities,
        settled, Tree.map, Content.spaced]

/-- **Step law for forests.** Reading a written forest, with a text before it that is still to be
read, adds the settled forest to the innermost open element, whatever follows. -/
theorem reads_writeNodes {top : Bool} {ts : List (Tree Content)} (h : AreWritable top ts)
    (before : String) (r : Reading) (hwaiting : r.waiting = [])
    (htop : top = true → r.opened = []) :
    ∃ entities, ∀ rest, rest = [] ∨ rest.head? = some '<' →
      Reads r (escape before.toList ++ (writeNodes ts ++ rest))
        ((r.addAll (settledAll before (Tree.mapAll Content.spaced ts))).withEntities entities)
        rest := by
  match ts, h with
  | [], _ =>
    refine ⟨(r.addAll (textNodes before)).entities, fun rest hrest ↦ ?_⟩
    rw [writeNodes, List.nil_append, Tree.mapAll, settledAll_nil]
    exact reads_escape r before hrest
  | .node c us :: ts, h =>
    have htop' : ∀ ss, top = true → (r.addAll ss).opened = [] := by
      intro ss htrue
      rw [Reading.addAll_of_opened_eq_nil (htop htrue)]
      exact htop htrue
    cases htext : c.text? with
    | some s =>
      obtain rfl := Content.eq_text_of_text? htext
      obtain ⟨entities, hread⟩ := reads_writeNodes h.2 (before ++ s) r hwaiting htop
      refine ⟨entities, fun rest hrest ↦ ?_⟩
      replace hread := hread rest hrest
      rw [String.toList_append, escape_append, List.append_assoc] at hread
      rw [writeNodes, writeNode, List.append_assoc, settledAll_spaced_text]
      exact hread
    | none =>
      obtain ⟨entities, hnode⟩ := reads_writeNode h.1 htext (r.addAll (textNodes before))
        (by simpa using hwaiting) (htop' _)
      obtain ⟨entities', hforest⟩ := reads_writeNodes h.2 ""
        ((r.addAll (textNodes before ++ [settled ((Tree.node c us).map Content.spaced)])).withEntities
          entities) (by simpa using hwaiting) (htop' _)
      refine ⟨entities', fun rest hrest ↦ ?_⟩
      replace hforest := hforest rest hrest
      rw [settledAll_spaced_cons htext, writeNodes, List.append_assoc]
      refine (reads_escape r before (.inr (head?_writeNode (t := .node c us) htext _))).trans
        ((hnode _).trans ?_)
      rw [Reading.addAll_append] at hforest
      simpa [Tree.map, Reading.addAll_append, Reading.addAll_withEntities] using hforest

end

/-- A text that does not start with a byte order mark is read as it is. -/
theorem getD_afterPrefix?_of_head? {cs : List Char} (h : cs.head? ≠ some '\uFEFF') :
    (afterPrefix? ['\uFEFF'] cs).getD cs = cs := by
  cases cs with
  | nil => rfl
  | cons c cs =>
    have hc : '\uFEFF' ≠ c := fun hc ↦ h (by rw [hc]; rfl)
    rw [afterPrefix?, if_neg hc, Option.getD_none]

/-- **Reading undoes writing.** What comes back is the settled markup with the tabs and line breaks
of its attribute values turned into spaces. -/
theorem read_write {m : Markup} (h : AreWritable true m)
    (hbom : (writeNodes m).head? ≠ some '\uFEFF') :
    read (write m) = .ok (settledAll "" (Tree.mapAll Content.spaced m)) := by
  obtain ⟨entities, hread⟩ := reads_writeNodes h "" {} rfl fun _ ↦ rfl
  obtain ⟨offset, hread⟩ := hread [] (.inl rfl) 0
  rw [List.append_nil, readFrom, Reading.addAll_of_opened_eq_nil rfl] at hread
  rw [read, write_eq, String.toList_ofList, getD_afterPrefix?_of_head? hbom]
  rw [show writeNodes m = escape "".toList ++ writeNodes m from rfl, hread]
  simp [Except.map, Reading.markup, Reading.withEntities, Reading.closeAll]

end SvgWorkbench.Markup
