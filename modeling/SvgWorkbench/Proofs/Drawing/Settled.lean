import SvgWorkbench.Proofs.Drawing.OfDocument
import SvgWorkbench.Proofs.Markup.Settled

/-!
# Settling is not seen

Settled markup has the same components: texts count as a whole, and elements stay where they are.
Its text is the same too, unless an empty text was all that kept an element from closing itself.
-/

namespace SvgWorkbench.Markup

open SvgWorkbench.Tree

/-! ## Texts and elements -/

@[simp] theorem textOfAll_append (ts us : List (Tree Content)) :
    textOfAll (ts ++ us) = textOfAll ts ++ textOfAll us := by
  induction ts with
  | nil => simp [textOfAll]
  | cons t ts ih => rw [List.cons_append, textOfAll, textOfAll, ih, String.append_assoc]

@[simp] theorem viewAll_append (parent : Option String) (ts us : List (Tree Content)) :
    viewAll parent (ts ++ us) = viewAll parent ts ++ viewAll parent us := by
  induction ts with
  | nil => rfl
  | cons t ts ih => rw [List.cons_append, viewAll, viewAll, ih, List.append_assoc]

@[simp] theorem elementsOfAll_append (ts us : List (Tree Content)) :
    elementsOfAll (ts ++ us) = elementsOfAll ts ++ elementsOfAll us := by
  induction ts with
  | nil => rfl
  | cons t ts ih => rw [List.cons_append, elementsOfAll, elementsOfAll, ih, List.append_assoc]

theorem hasElements_append (ts us : List (Tree Content)) :
    hasElements (ts ++ us) = (hasElements ts || hasElements us) := List.any_append

@[simp] theorem textOfAll_textNodes (s : String) : textOfAll (textNodes s) = s := by
  rw [textNodes]
  split
  · next h => rw [String.isEmpty_iff.1 h]; rfl
  · rw [textOfAll, textOf, textOfAll, String.append_empty]

@[simp] theorem viewAll_textNodes (parent : Option String) (s : String) :
    viewAll parent (textNodes s) = [] := by
  rw [textNodes]
  split <;> rfl

@[simp] theorem elementsOfAll_textNodes (s : String) : elementsOfAll (textNodes s) = [] := by
  rw [textNodes]
  split <;> rfl

@[simp] theorem hasElements_textNodes (s : String) : hasElements (textNodes s) = false := by
  rw [textNodes]
  split <;> rfl

@[simp] theorem label_settled (t : Tree Content) : (settled t).label = t.label := by
  obtain ⟨c, ts⟩ := t
  cases c <;> rfl

mutual

@[simp] theorem textOf_settled (t : Tree Content) : textOf (settled t) = textOf t := by
  match t with
  | .node (.element e) ts =>
    rw [settled, textOf, textOf, textOfAll_settledAll ts "", String.empty_append]
  | .node (.text s) _ => rfl
  | .node (.comment s) _ => rfl
  | .node (.instruction s) _ => rfl
  | .node (.doctype s) _ => rfl

@[simp] theorem textOfAll_settledAll (ts : List (Tree Content)) (before : String) :
    textOfAll (settledAll before ts) = before ++ textOfAll ts := by
  match ts with
  | [] => rw [settledAll_nil, textOfAll_textNodes, textOfAll, String.append_empty]
  | .node c us :: ts =>
    cases htext : c.text? with
    | some s =>
      obtain rfl := Content.eq_text_of_text? htext
      rw [settledAll_text, textOfAll_settledAll ts, textOfAll, textOf, String.append_assoc]
    | none =>
      rw [settledAll_cons htext, textOfAll_append, textOfAll_textNodes, textOfAll, textOfAll,
        textOf_settled (.node c us), textOfAll_settledAll ts "", String.empty_append]

end

@[simp] theorem hasElements_settledAll (ts : List (Tree Content)) (before : String) :
    hasElements (settledAll before ts) = hasElements ts := by
  induction ts generalizing before with
  | nil => rw [settledAll_nil, hasElements_textNodes]; rfl
  | cons t ts ih =>
    obtain ⟨c, us⟩ := t
    cases htext : c.text? with
    | some s =>
      obtain rfl := Content.eq_text_of_text? htext
      rw [settledAll_text, ih]
      rfl
    | none =>
      rw [settledAll_cons htext, hasElements_append, hasElements_textNodes, Bool.false_or,
        hasElements, List.any_cons, label_settled, ← hasElements, ih]
      rfl

/-- What is no text settles by itself among other nodes, and so does what stands on either side. -/
theorem settledAll_append_cons {c : Content} (hc : c.text? = none) (ts us vs : List (Tree Content))
    (before : String) : settledAll before (ts ++ .node c us :: vs)
      = settledAll before ts ++ settled (.node c us) :: settledAll "" vs := by
  induction ts generalizing before with
  | nil => rw [List.nil_append, settledAll_cons hc, settledAll_nil]
  | cons t ts ih =>
    obtain ⟨c, ws⟩ := t
    cases htext : c.text? with
    | some s =>
      obtain rfl := Content.eq_text_of_text? htext
      rw [List.cons_append, settledAll_text, settledAll_text, ih]
    | none =>
      rw [List.cons_append, settledAll_cons htext, settledAll_cons htext, ih, List.append_assoc,
        List.cons_append]

theorem settledAll_concat_element (ts : List (Tree Content)) (e : Element) (us : List (Tree Content))
    (before : String) : settledAll before (ts ++ [.node (.element e) us])
      = settledAll before ts ++ [settled (.node (.element e) us)] :=
  settledAll_append_cons rfl ts us [] before

/-! ## Components -/

mutual

/-- **Settling is not seen in the components.** -/
theorem view_settled (t : Tree Content) (parent : Option String) :
    view parent (settled t) = view parent t := by
  match t with
  | .node (.element e) ts =>
    -- texts are joined, but all that is shown of them is their text as a whole
    have hattributes : attributesOf e (settledAll "" ts) = attributesOf e ts := by
      rw [attributesOf, attributesOf, hasElements_settledAll, textOfAll_settledAll,
        String.empty_append]
    rw [settled, view, view, viewAll_settledAll ts, entryOf, entryOf, hattributes]
  | .node (.text s) _ => rfl
  | .node (.comment s) _ => rfl
  | .node (.instruction s) _ => rfl
  | .node (.doctype s) _ => rfl

theorem viewAll_settledAll (ts : List (Tree Content)) (before : String) (parent : Option String) :
    viewAll parent (settledAll before ts) = viewAll parent ts := by
  match ts with
  | [] => rw [settledAll_nil, viewAll_textNodes]; rfl
  | .node c us :: ts =>
    cases htext : c.text? with
    | some s =>
      obtain rfl := Content.eq_text_of_text? htext
      rw [settledAll_text, viewAll_settledAll ts]
      rfl
    | none =>
      rw [settledAll_cons htext, viewAll_append, viewAll_textNodes, List.nil_append, viewAll,
        viewAll, view_settled (.node c us), viewAll_settledAll ts]

end

mutual

theorem elementsOf_settled (t : Tree Content) :
    elementsOf (settled t) = (elementsOf t).map settled := by
  match t with
  | .node (.element e) ts =>
    show .node (.element e) (settledAll "" ts) :: elementsOfAll (settledAll "" ts) = _
    rw [elementsOfAll_settledAll ts]
    rfl
  | .node (.text s) _ => rfl
  | .node (.comment s) _ => rfl
  | .node (.instruction s) _ => rfl
  | .node (.doctype s) _ => rfl

theorem elementsOfAll_settledAll (ts : List (Tree Content)) (before : String) :
    elementsOfAll (settledAll before ts) = (elementsOfAll ts).map settled := by
  match ts with
  | [] => rw [settledAll_nil, elementsOfAll_textNodes]; rfl
  | .node c us :: ts =>
    cases htext : c.text? with
    | some s =>
      obtain rfl := Content.eq_text_of_text? htext
      rw [settledAll_text, elementsOfAll_settledAll ts]
      rfl
    | none =>
      rw [settledAll_cons htext, elementsOfAll_append, elementsOfAll_textNodes, List.nil_append,
        elementsOfAll, elementsOfAll, elementsOf_settled (.node c us), elementsOfAll_settledAll ts,
        List.map_append]

end

theorem root?_settledAll (m : Markup) : root? (settledAll "" m) = (root? m).map settled := by
  rw [root?, elementsOfAll_settledAll, List.find?_map, root?]
  refine congrArg (Option.map settled) (congrArg (List.find? · _) (funext fun t ↦ ?_))
  rw [Function.comp_apply, label_settled]

theorem components_settledAll (m : Markup) : components (settledAll "" m) = components m := by
  rw [components, root?_settledAll, components]
  cases root? m with
  | none => rfl
  | some root => exact view_settled root none

/-! ## Ids -/

mutual

theorem HasIds.settled {t : Tree Content} (h : HasIds t) : HasIds (settled t) := by
  match t, h with
  | .node (.element e) ts, h => exact ⟨h.1, HaveIds.settledAll h.2 ""⟩
  | .node (.text s) _, _ => exact trivial
  | .node (.comment s) _, _ => exact trivial
  | .node (.instruction s) _, _ => exact trivial
  | .node (.doctype s) _, _ => exact trivial

theorem HaveIds.settledAll {ts : List (Tree Content)} (h : HaveIds ts) (before : String) :
    HaveIds (settledAll before ts) := by
  match ts, h with
  | [], _ => rw [settledAll_nil, textNodes]; split <;> simp [HaveIds, HasIds]
  | .node c us :: ts, h =>
    cases htext : c.text? with
    | some s =>
      obtain rfl := Content.eq_text_of_text? htext
      rw [settledAll_text]
      exact HaveIds.settledAll h.2 _
    | none =>
      rw [settledAll_cons htext, textNodes]
      split
      · exact ⟨HasIds.settled h.1, HaveIds.settledAll h.2 ""⟩
      · exact ⟨trivial, HasIds.settled h.1, HaveIds.settledAll h.2 ""⟩

end

/-! ## Texts of settled markup -/

/-- An element with children is written with a start tag and a close tag. -/
theorem writeNode_of_ne_nil (e : Element) {ts : List (Tree Content)} (h : ts ≠ []) :
    writeNode (.node (.element e) ts) = '<' :: writeTag e ++ ['>'] ++ writeNodes ts ++
      Xml.Mark.closeTag ++ e.name.toList ++ ['>'] := by
  obtain ⟨t, ts, rfl⟩ := List.exists_cons_of_ne_nil h
  rw [writeNode, writeNodes]

theorem writeNodes_append (ts us : List (Tree Content)) :
    writeNodes (ts ++ us) = writeNodes ts ++ writeNodes us := by
  induction ts with
  | nil => rfl
  | cons t ts ih => rw [List.cons_append, writeNodes, writeNodes, ih, List.append_assoc]

theorem writeNodes_textNodes (s : String) : writeNodes (textNodes s) = escape s.toList := by
  rw [textNodes]
  split
  · next h => rw [String.isEmpty_iff.1 h]; rfl
  · simp [writeNodes, writeNode]

/-- Only empty texts settle to nothing. -/
theorem settledAll_eq_nil {before : String} {ts : List (Tree Content)}
    (h : settledAll before ts = []) : before = "" ∧ (ts ≠ [] → .text "" ∈ preorderAll ts) := by
  induction ts generalizing before with
  | nil =>
    rw [settledAll_nil, textNodes] at h
    split at h
    · next hempty => exact ⟨String.isEmpty_iff.1 hempty, by simp⟩
    · cases h
  | cons t ts ih =>
    obtain ⟨c, us⟩ := t
    cases htext : c.text? with
    | some s =>
      obtain rfl := Content.eq_text_of_text? htext
      rw [settledAll_text] at h
      obtain ⟨rfl, rfl⟩ := String.append_eq_empty_iff.1 (ih h).1
      exact ⟨rfl, fun _ ↦ by simp [preorderAll, preorder]⟩
    | none => simp [settledAll_cons htext] at h

mutual

/-- Settling does not change how a node without empty texts inside is written. -/
theorem writeNode_settled {t : Tree Content} (h : .text "" ∉ t.preorder) :
    writeNode (settled t) = writeNode t := by
  match t with
  | .node (.element e) [] => rfl
  | .node (.element e) (t :: ts) =>
    have hts : .text "" ∉ preorderAll (t :: ts) := fun hmem ↦ h (List.mem_cons_of_mem _ hmem)
    -- if all children were gone, the element would be written as an empty tag
    have hne : settledAll "" (t :: ts) ≠ [] :=
      fun hnil ↦ hts ((settledAll_eq_nil hnil).2 (List.cons_ne_nil t ts))
    rw [settled, writeNode_of_ne_nil e hne, writeNodes_settledAll hts,
      writeNode_of_ne_nil e (List.cons_ne_nil t ts)]
    rfl
  | .node (.text s) _ => rfl
  | .node (.comment s) _ => rfl
  | .node (.instruction s) _ => rfl
  | .node (.doctype s) _ => rfl

theorem writeNodes_settledAll {ts : List (Tree Content)} (h : .text "" ∉ preorderAll ts)
    (before : String) :
    writeNodes (settledAll before ts) = escape before.toList ++ writeNodes ts := by
  match ts with
  | [] => rw [settledAll_nil, writeNodes_textNodes, writeNodes, List.append_nil]
  | .node c us :: ts =>
    rw [preorderAll, List.mem_append, not_or] at h
    cases htext : c.text? with
    | some s =>
      obtain rfl := Content.eq_text_of_text? htext
      rw [settledAll_text, writeNodes_settledAll h.2, String.toList_append, escape_append,
        writeNodes, writeNode, List.append_assoc]
    | none =>
      rw [settledAll_cons htext, writeNodes_append, writeNodes_textNodes, writeNodes, writeNodes,
        writeNode_settled h.1, writeNodes_settledAll h.2]
      rfl

end

end SvgWorkbench.Markup
