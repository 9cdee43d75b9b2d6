import SvgWorkbench.Proofs.Drawing.Reparse
import SvgWorkbench.Proofs.Gate.WrittenDoctype
import SvgWorkbench.Proofs.Markup.Contents

/-!
# What the check lets through stays so

Markup that was written and let through is read, settled and given ids before it is written again.
Neither settling nor turning line breaks in values into spaces can bring anything into it that the
check would refuse. An id that is given can: it may stand beside an attribute whose name is that of
an id behind an empty prefix. That is the only way.
-/

namespace SvgWorkbench

open Text Xml Markup SvgWorkbench.Tree

/-! ## Spacing -/

theorem Element.HasDocumentValues.spaced {e : Element} (h : e.HasDocumentValues) :
    e.spaced.HasDocumentValues := by
  intro a ha
  obtain ⟨b, hb, rfl⟩ := List.mem_map.1 ha
  rw [String.toList_ofList]
  exact (h b hb).spaced

namespace Gate

/-- The check turns line breaks into spaces itself, so spacing changes nothing for it. -/
theorem Opens.spaced {outer inner : List Binding} {e : Element} {q : QName}
    (h : Opens outer e q inner) : Opens outer e.spaced q inner := by
  obtain ⟨hq, hspace, parts, sorted, hparts, hrest⟩ := h
  refine ⟨hq, hspace, parts, sorted, ?_, hrest⟩
  rw [← hparts, Element.spaced, List.map_map]
  refine List.map_congr_left fun a _ ↦ ?_
  simp only [Function.comp_apply, attributeParts, String.toList_ofList,
    (unbroken_spaced a.2.toList).spaced_eq]

/-! ## Settling -/

private theorem acceptsAll_append {scope : List Binding} {ts us : List (Tree Content)} :
    AcceptsAll scope (ts ++ us) ↔ AcceptsAll scope ts ∧ AcceptsAll scope us := by
  induction ts with
  | nil => simp only [List.nil_append, AcceptsAll, true_and]
  | cons t ts ih => rw [List.cons_append, AcceptsAll, AcceptsAll, ih, and_assoc]

private theorem acceptsAll_textNodes {scope : List Binding} {s : String}
    (h : IsDocumentText s.toList) : AcceptsAll scope (textNodes s) := by
  rw [textNodes]
  split
  · trivial
  · exact ⟨h, trivial⟩

mutual

/-- A node that may stand in content may stand there once it is settled. -/
theorem Accepts.settled {scope : List Binding} {t : Tree Content} (h : Accepts scope t) :
    Accepts scope (settled (t.map Content.spaced)) := by
  match t, h with
  | .node (.element e) ts, ⟨hvalues, q, inner, hopens, hts⟩ =>
    exact ⟨hvalues.spaced, q, inner, hopens.spaced, AcceptsAll.settledAll hts nofun⟩
  | .node (.text s) ts, h => exact h
  | .node (.comment s) ts, h => exact h
  | .node (.instruction s) ts, h => exact h

/-- Texts that may stand in content may stand there as one text. -/
theorem AcceptsAll.settledAll {scope : List Binding} {ts : List (Tree Content)}
    (h : AcceptsAll scope ts) {before : String} (hbefore : IsDocumentText before.toList) :
    AcceptsAll scope (settledAll before (mapAll Content.spaced ts)) := by
  match ts, h with
  | [], _ =>
    rw [mapAll, settledAll_nil]
    exact acceptsAll_textNodes hbefore
  | .node c us :: ts, ⟨ht, hts⟩ =>
    cases htext : c.text? with
    | some s =>
      obtain rfl := Content.eq_text_of_text? htext
      rw [settledAll_spaced_text]
      refine AcceptsAll.settledAll hts ?_
      rw [String.toList_append, isDocumentText_append]
      exact ⟨hbefore, ht⟩
    | none =>
      rw [settledAll_spaced_cons htext, acceptsAll_append]
      exact ⟨acceptsAll_textNodes hbefore, Accepts.settled ht,
        AcceptsAll.settledAll hts nofun⟩

end

/-! ## Settling the top level -/

private theorem isAround_textNodes {s : String} (h : ∀ c ∈ s.toList, isSpace c = true) :
    ∀ u ∈ textNodes s, IsAround u := by
  rw [textNodes]
  split
  · exact List.forall_mem_nil _
  · simpa [IsAround] using h

theorem IsAround.settled {c : Content} {ts : List (Tree Content)} (h : IsAround (.node c ts)) :
    IsAround (settled (.node c.spaced (mapAll Content.spaced ts))) := by
  cases c with
  | element e => exact h.elim
  | doctype s => exact h.elim
  | _ => exact h

/-- What stands around the root still may once it is settled. -/
theorem forall_isAround_settledAll {ts : List (Tree Content)} (h : ∀ u ∈ ts, IsAround u)
    {before : String} (hbefore : ∀ c ∈ before.toList, isSpace c = true) :
    ∀ u ∈ settledAll before (mapAll Content.spaced ts), IsAround u := by
  induction ts generalizing before with
  | nil =>
    rw [mapAll, settledAll_nil]
    exact isAround_textNodes hbefore
  | cons t ts ih =>
    obtain ⟨c, us⟩ := t
    obtain ⟨ht, hts⟩ := List.forall_mem_cons.1 h
    cases htext : c.text? with
    | some s =>
      obtain rfl := Content.eq_text_of_text? htext
      rw [settledAll_spaced_text]
      refine ih hts ?_
      rw [String.toList_append]
      exact List.forall_mem_append.2 ⟨hbefore, ht⟩
    | none =>
      rw [settledAll_spaced_cons htext, List.forall_mem_append, List.forall_mem_cons]
      exact ⟨isAround_textNodes hbefore, ht.settled, ih hts nofun⟩

/-- Spaces in front of a document leave it one. -/
private theorem acceptsBody_textNodes {s : String} (hs : ∀ c ∈ s.toList, isSpace c = true)
    {ts : List (Tree Content)} (h : AcceptsBody ts) : AcceptsBody (textNodes s ++ ts) := by
  rw [textNodes]
  split
  · exact h
  · exact ⟨hs, h⟩

/-- A body that is let through is let through once it is settled. -/
theorem AcceptsBody.settledAll {ts : List (Tree Content)} (h : AcceptsBody ts) {before : String}
    (hbefore : ∀ c ∈ before.toList, isSpace c = true) :
    AcceptsBody (settledAll before (mapAll Content.spaced ts)) := by
  induction ts generalizing before with
  | nil => exact h.elim
  | cons t ts ih =>
    obtain ⟨c, us⟩ := t
    rcases c.eq_element_or with ⟨e, rfl⟩ | hc
    · obtain ⟨hroot, haround⟩ : Accepts [] (.node (.element e) us) ∧ ∀ u ∈ ts, IsAround u := h
      rw [settledAll_spaced_cons rfl]
      refine acceptsBody_textNodes hbefore ?_
      exact ⟨hroot.settled, forall_isAround_settledAll haround nofun⟩
    · rw [AcceptsBody, label_node, hc, if_neg (by decide)] at h
      obtain ⟨ht, hts⟩ := h
      cases htext : c.text? with
      | some s =>
        obtain rfl := Content.eq_text_of_text? htext
        rw [settledAll_spaced_text]
        refine ih hts ?_
        rw [String.toList_append]
        exact List.forall_mem_append.2 ⟨hbefore, ht⟩
      | none =>
        rw [settledAll_spaced_cons htext]
        refine acceptsBody_textNodes hbefore ?_
        have helement : c.spaced.isElement = false := by
          cases c <;> first | rfl | cases hc
        rw [AcceptsBody, label_settled, Tree.map, label_node, helement, if_neg (by decide)]
        exact ⟨ht.settled, ih hts nofun⟩

/-- **A document that is let through is let through once it is settled.** -/
theorem AcceptsDocument.settledAll {m : Markup} (h : AcceptsDocument m) :
    AcceptsDocument (settledAll "" (mapAll Content.spaced m)) := by
  match m, h with
  | .node c us :: ts, .inl ⟨⟨s, hlabel, hstart, hdeclaration⟩, hbody⟩ =>
    obtain rfl : c = .instruction s := hlabel
    exact .inl ⟨⟨s, rfl, hstart, hdeclaration⟩, hbody.settledAll nofun⟩
  | t :: ts, .inr hbody =>
    have hsettled : AcceptsBody (Markup.settledAll "" _) := hbody.settledAll nofun
    cases hm : Markup.settledAll "" (mapAll Content.spaced (t :: ts)) with
    | nil => rw [hm] at hsettled; exact hsettled.elim
    | cons u us => rw [hm] at hsettled; exact .inr hsettled

end Gate

/-! ## Ids -/

namespace Element

theorem HasDocumentValues.set {e : Element} (h : e.HasDocumentValues) (key : String)
    {value : String} (hvalue : Gate.IsDocumentText value.toList) :
    (e.set key value).HasDocumentValues := by
  intro a ha
  rcases mem_setEntry ha with rfl | ha
  · exact hvalue
  · exact h a ha

end Element

/-- Whether the elements of some markup do not have their ids under both names. -/
def Markup.IsClashFree (m : Markup) : Prop := ∀ e, .element e ∈ preorderAll m → e.IsClashFree

/-- Whether no element that is read in a text has its id under both of its names. -/
def HasNoClash (text : String) : Prop := ∀ m, Markup.read text = .ok m → m.IsClashFree

namespace Gate

open Drawing

variable {good : String → Prop}

mutual

/-- A node may still stand in content when ids have been given to it, unless there is a clash. -/
theorem Accepts.of_rel (hgood : ∀ id, good id → IsDocumentText id.toList)
    {scope : List Binding} {t u : Tree Content} (hrel : Rel (IdGiven good) t u)
    (hfree : ∀ e, .element e ∈ u.preorder → e.IsClashFree) (h : Accepts scope t) :
    Accepts scope u := by
  match t, u, hrel with
  | .node c ts, .node _ us, ⟨.same _, hchildren⟩ =>
    cases c with
    | element e =>
      obtain ⟨hvalues, q, inner, hopens, hts⟩ := h
      exact ⟨hvalues, q, inner, hopens, AcceptsAll.of_relAll hgood hchildren
        (fun e' he' ↦ hfree e' (List.mem_cons_of_mem _ he')) hts⟩
    | _ => exact h
  | .node (.element e) ts, .node _ us, ⟨@IdGiven.given _ _ id hnone hid, hchildren⟩ =>
    obtain ⟨hvalues, q, inner, hopens, hts⟩ := h
    -- the key beside the new id would make a clash
    have hprefixed : prefixedIdKey ∉ e.keys := fun hmem ↦
      hfree _ List.mem_cons_self ⟨Element.mem_keys_set_self e "id" id, Element.mem_keys_set hmem⟩
    exact ⟨hvalues.set "id" (hgood id hid), q, inner, hopens.set_id id hprefixed,
      AcceptsAll.of_relAll hgood hchildren
        (fun e' he' ↦ hfree e' (List.mem_cons_of_mem _ he')) hts⟩

theorem AcceptsAll.of_relAll (hgood : ∀ id, good id → IsDocumentText id.toList)
    {scope : List Binding} {ts us : List (Tree Content)} (hrel : RelAll (IdGiven good) ts us)
    (hfree : ∀ e, .element e ∈ preorderAll us → e.IsClashFree) (h : AcceptsAll scope ts) :
    AcceptsAll scope us := by
  match ts, us, hrel with
  | [], [], _ => exact trivial
  | t :: ts, u :: us, hrel =>
    exact ⟨Accepts.of_rel hgood hrel.1 (fun e he ↦ hfree e (List.mem_append_left _ he)) h.1,
      AcceptsAll.of_relAll hgood hrel.2 (fun e he ↦ hfree e (List.mem_append_right _ he)) h.2⟩

end

/-- No id is given to what stands around the root. -/
theorem IsAround.of_rel {t u : Tree Content} (hrel : Rel (IdGiven good) t u) (h : IsAround t) :
    IsAround u := by
  match t, u, hrel with
  | .node c ts, .node _ us, ⟨.same _, _⟩ => cases c <;> exact h
  | .node _ ts, .node _ us, ⟨.given _ _, _⟩ => exact h.elim

theorem forall_isAround_of_relAll {ts us : List (Tree Content)} (hrel : RelAll (IdGiven good) ts us)
    (h : ∀ t ∈ ts, IsAround t) : ∀ u ∈ us, IsAround u := by
  match ts, us, hrel with
  | [], [], _ => exact List.forall_mem_nil _
  | t :: ts, u :: us, hrel =>
    obtain ⟨ht, hts⟩ := List.forall_mem_cons.1 h
    exact List.forall_mem_cons.2 ⟨ht.of_rel hrel.1, forall_isAround_of_relAll hrel.2 hts⟩

theorem AcceptsBody.of_relAll (hgood : ∀ id, good id → IsDocumentText id.toList)
    {ts us : List (Tree Content)} (hrel : RelAll (IdGiven good) ts us)
    (hfree : Markup.IsClashFree us) (h : AcceptsBody ts) : AcceptsBody us := by
  match ts, us, hrel with
  | [], [], _ => exact h.elim
  | .node c vs :: ts, .node d ws :: us, ⟨hnode, hrest⟩ =>
    have helement : d.isElement = c.isElement := hnode.1.isElement_eq
    rw [AcceptsBody, label_node] at h ⊢
    rw [helement]
    cases hc : c.isElement with
    | true =>
      rw [hc, if_pos rfl] at h
      rw [if_pos rfl]
      exact ⟨h.1.of_rel hgood hnode fun e he ↦ hfree e (List.mem_append_left _ he),
        forall_isAround_of_relAll hrest h.2⟩
    | false =>
      rw [hc, if_neg (by decide)] at h
      rw [if_neg (by decide)]
      exact ⟨h.1.of_rel hnode, AcceptsBody.of_relAll hgood hrest
        (fun e he ↦ hfree e (List.mem_append_right _ he)) h.2⟩

/-- **A document that is let through is let through once ids have been given out**, unless an
element has its id under both names then. -/
theorem AcceptsDocument.of_relAll (hgood : ∀ id, good id → IsDocumentText id.toList)
    {m m' : Markup} (hrel : RelAll (IdGiven good) m m') (hfree : Markup.IsClashFree m')
    (h : AcceptsDocument m) : AcceptsDocument m' := by
  match m, m', hrel, h with
  | .node _ ts :: ms, .node _ us :: ms', hrel, .inl ⟨⟨s, hlabel, hs⟩, hbody⟩ =>
    obtain ⟨⟨hgiven, -⟩, hrest⟩ := hrel
    cases hlabel
    cases hgiven
    exact .inl ⟨⟨s, rfl, hs⟩, hbody.of_relAll hgood hrest
      fun e he ↦ hfree e (List.mem_append_right _ he)⟩
  | t :: ts, u :: us, hrel, .inr hbody => exact .inr (hbody.of_relAll hgood hrel hfree)

/-! ## Documents with a document type -/

theorem IsDeclaration.of_rel {t u : Tree Content} (hrel : Rel (IdGiven good) t u)
    (h : IsDeclaration t) : IsDeclaration u := by
  match t, u, hrel with
  | .node _ _, .node _ _, ⟨.same _, _⟩ => exact h
  | .node _ _, .node _ _, ⟨.given _ _, _⟩ =>
    obtain ⟨_, hlabel, -⟩ := h
    cases hlabel

theorem AcceptsFront.of_relAll {ts us : List (Tree Content)} (hrel : RelAll (IdGiven good) ts us)
    (h : AcceptsFront ts) : AcceptsFront us := by
  match ts, us, hrel with
  | [], [], _ => exact trivial
  | t :: ts, u :: us, hrel =>
    exact ⟨h.1.imp (·.of_rel hrel.1) (·.of_rel hrel.1), forall_isAround_of_relAll hrel.2 h.2⟩

/-- No id is given to a document type. -/
theorem exists_of_relAll_typed {front body m : List (Tree Content)} {s : String}
    (hrel : RelAll (IdGiven good) (front ++ .node (.doctype s) [] :: body) m) :
    ∃ front' body', m = front' ++ .node (.doctype s) [] :: body' ∧
      RelAll (IdGiven good) front front' ∧ RelAll (IdGiven good) body body' := by
  obtain ⟨front', us, rfl, hfront, hrest⟩ := hrel.exists_of_append
  match us, hrest with
  | .node _ [] :: body', ⟨⟨.same _, _⟩, hbody⟩ => exact ⟨front', body', rfl, hfront, hbody⟩

theorem AcceptsMarkup.of_relAll (hgood : ∀ id, good id → IsDocumentText id.toList)
    {m m' : Markup} (hrel : RelAll (IdGiven good) m m') (hfree : Markup.IsClashFree m')
    (h : AcceptsMarkup m) : AcceptsMarkup m' := by
  rcases h with h | ⟨front, s, body, rfl, hfront, hs, hbody⟩
  · exact .inl (h.of_relAll hgood hrel hfree)
  · obtain ⟨front', body', rfl, hrel, hrel'⟩ := exists_of_relAll_typed hrel
    refine .inr ⟨front', s, body', rfl, hfront.of_relAll hrel, hs, hbody.of_relAll hgood hrel' ?_⟩
    exact fun e he ↦ hfree e (mem_preorderAll_append.2 (.inr (List.mem_cons_of_mem _ he)))

end Gate

end SvgWorkbench
