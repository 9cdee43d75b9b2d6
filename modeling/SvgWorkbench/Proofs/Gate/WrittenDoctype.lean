import SvgWorkbench.Proofs.Drawing.Settled
import SvgWorkbench.Proofs.Gate.Doctype
import SvgWorkbench.Proofs.Gate.WrittenDocument

/-!
# Written documents with a document type

A document type that declares nothing may stand between the declaration and the root, with spaces,
comments and instructions before and after it. A document that is written in this way is let through
if what follows the document type would be let through without it.
-/

namespace SvgWorkbench.Gate

open Text Xml Markup SvgWorkbench.Tree

/-- Whether nodes may stand before a document type. -/
def AcceptsFront : List (Tree Content) → Prop
  | [] => True
  | t :: ts => (IsDeclaration t ∨ IsAround t) ∧ ∀ u ∈ ts, IsAround u

/-- Whether the nodes of the top level may make up a document with a document type. -/
def AcceptsTyped (m : Markup) : Prop :=
  ∃ front s body, m = front ++ .node (.doctype s) [] :: body ∧ AcceptsFront front ∧
    IsStrictDoctype (' ' :: s.toList) ∧ AcceptsBody body

/-- Whether the nodes of the top level may make up a document with a document type or without. -/
def AcceptsMarkup (m : Markup) : Prop := AcceptsDocument m ∨ AcceptsTyped m

/-! ## What stands before the root -/

/-- Whether nodes may stand before the root element. -/
def AcceptsProlog (ts : List (Tree Content)) : Prop :=
  AcceptsFront ts ∨ ∃ front s us, ts = front ++ .node (.doctype s) [] :: us ∧ AcceptsFront front ∧
    IsStrictDoctype (' ' :: s.toList) ∧ ∀ u ∈ us, IsAround u

theorem AcceptsFront.append {ts us : List (Tree Content)} (h : AcceptsFront ts)
    (hus : ∀ u ∈ us, IsAround u) : AcceptsFront (ts ++ us) := by
  cases ts with
  | nil =>
    cases us with
    | nil => trivial
    | cons u us =>
      obtain ⟨hu, hus⟩ := List.forall_mem_cons.1 hus
      exact ⟨.inr hu, hus⟩
  | cons t ts => exact ⟨h.1, List.forall_mem_append.2 ⟨h.2, hus⟩⟩

theorem AcceptsProlog.append {ts us : List (Tree Content)} (h : AcceptsProlog ts)
    (hus : ∀ u ∈ us, IsAround u) : AcceptsProlog (ts ++ us) := by
  rcases h with h | ⟨front, s, vs, rfl, hfront, hs, hvs⟩
  · exact .inl (h.append hus)
  · exact .inr ⟨front, s, vs ++ us, by simp, hfront, hs, List.forall_mem_append.2 ⟨hvs, hus⟩⟩

/-- What may stand around the root is no element. -/
theorem IsAround.isElement_eq {t : Tree Content} (h : IsAround t) : t.label.isElement = false := by
  obtain ⟨c, ts⟩ := t
  cases c with
  | element e => exact h.elim
  | _ => rfl

/-- Nodes that may stand around the root may stand in front of a body. -/
theorem acceptsBody_append {us ts : List (Tree Content)} (hus : ∀ u ∈ us, IsAround u)
    (h : AcceptsBody ts) : AcceptsBody (us ++ ts) := by
  induction us with
  | nil => exact h
  | cons u us ih =>
    obtain ⟨hu, hus⟩ := List.forall_mem_cons.1 hus
    rw [List.cons_append, AcceptsBody, hu.isElement_eq]
    exact ⟨hu, ih hus⟩

/-- **What may stand before the root and a body make up a document.** -/
theorem AcceptsProlog.acceptsMarkup {ts us : List (Tree Content)} (h : AcceptsProlog ts)
    (hus : AcceptsBody us) : AcceptsMarkup (ts ++ us) := by
  rcases h with h | ⟨front, s, vs, rfl, hfront, hs, hvs⟩
  · refine .inl ?_
    cases ts with
    | nil =>
      cases us with
      | nil => exact hus.elim
      | cons u us => exact .inr hus
    | cons t ts =>
      obtain ⟨hdeclaration | ht, hts⟩ := h
      · exact .inl ⟨hdeclaration, acceptsBody_append hts hus⟩
      · exact .inr (acceptsBody_append (List.forall_mem_cons.2 ⟨ht, hts⟩) hus)
  · exact .inr ⟨front, s, vs ++ us, by simp, hfront, hs, acceptsBody_append hvs hus⟩

/-! ## Below the top level -/

/-- What may stand around the root is no document type. -/
theorem IsAround.label_ne {t : Tree Content} (h : IsAround t) (s : String) :
    t.label ≠ .doctype s := by
  obtain ⟨c, ts⟩ := t
  rintro rfl
  exact h

theorem AcceptsBody.label_ne {ts : List (Tree Content)} (h : AcceptsBody ts) :
    ∀ t ∈ ts, ∀ s, t.label ≠ .doctype s := by
  induction ts with
  | nil => exact List.forall_mem_nil _
  | cons t ts ih =>
    rw [AcceptsBody] at h
    split at h
    · next helement =>
      refine List.forall_mem_cons.2 ⟨fun s hs ↦ ?_, fun u hu ↦ (h.2 u hu).label_ne⟩
      rw [hs] at helement
      cases helement
    · exact List.forall_mem_cons.2 ⟨h.1.label_ne, ih h.2⟩

theorem AcceptsDocument.label_ne {m : Markup} (h : AcceptsDocument m) :
    ∀ t ∈ m, ∀ s, t.label ≠ .doctype s := by
  match m, h with
  | t :: ts, .inl ⟨⟨_, hlabel, _⟩, hbody⟩ =>
    refine List.forall_mem_cons.2 ⟨fun s hs ↦ ?_, hbody.label_ne⟩
    cases hlabel.symm.trans hs
  | t :: ts, .inr hbody => exact hbody.label_ne

/-- Only document types are bound to the top level. -/
theorem isWritable_of_label_ne {t : Tree Content} {top : Bool} (h : IsWritable top t)
    (hdoctype : ∀ s, t.label ≠ .doctype s) : IsWritable false t := by
  match t, h with
  | .node (.element _) _, h => exact h
  | .node (.text _) _, h => exact h
  | .node (.comment _) _, h => exact h
  | .node (.instruction _) _, h => exact h
  | .node (.doctype s) _, _ => exact absurd rfl (hdoctype s)

theorem areWritable_of_label_ne {ts : List (Tree Content)} {top : Bool} (h : AreWritable top ts)
    (hdoctype : ∀ t ∈ ts, ∀ s, t.label ≠ .doctype s) : AreWritable false ts := by
  induction ts with
  | nil => trivial
  | cons t ts ih =>
    obtain ⟨ht, hts⟩ := List.forall_mem_cons.1 hdoctype
    exact ⟨isWritable_of_label_ne h.1 ht, ih h.2 hts⟩

/-! ## Before the document type -/

/-- What may stand around the root is passed over up to something that may not. -/
theorem misc_writeNodes_append {ts : List (Tree Content)} (h : AreWritable false ts)
    (haround : ∀ t ∈ ts, IsAround t) {rest : List Char} (hsign : rest.head? = some '<')
    (hrest : misc rest = .ok rest) : misc (writeNodes ts ++ rest) = .ok rest := by
  induction ts with
  | nil => exact hrest
  | cons t ts ih =>
    obtain ⟨ht, hts⟩ := List.forall_mem_cons.1 haround
    rw [writeNodes, List.append_assoc]
    exact (misc_writeNode h.1 ht.isElement_eq _ (.inr hsign)).2 ⟨ht, ih h.2 hts⟩

theorem misc_doctype (rest : List Char) :
    misc (Mark.doctype ++ rest) = .ok (Mark.doctype ++ rest) :=
  misc_of_ne rfl (by simp [Mark.doctype]) (by simp [Mark.doctype])

/-- **The part before something that is not passed over** is passed over. -/
theorem exists_optionalDeclaration_append {front : List (Tree Content)} {top : Bool}
    (h : AreWritable top front) (hstart : ∀ t ∈ front.head?, StartsSpaced t)
    (hfront : AcceptsFront front) {rest : List Char}
    (hdeclaration : optionalDeclaration rest = .ok rest) (hsign : rest.head? = some '<')
    (hrest : misc rest = .ok rest) :
    ∃ after, optionalDeclaration (writeNodes front ++ rest) = .ok after ∧
      misc after = .ok rest := by
  have hpass : ∀ {ts : List (Tree Content)}, AreWritable top ts → (∀ t ∈ ts, IsAround t) →
      misc (writeNodes ts ++ rest) = .ok rest :=
    fun hts haround ↦ misc_writeNodes_append
      (areWritable_of_label_ne hts fun t ht ↦ (haround t ht).label_ne) haround hsign hrest
  cases front with
  | nil => exact ⟨rest, hdeclaration, hrest⟩
  | cons t ts =>
    obtain ⟨ht, haround⟩ := hfront
    rw [writeNodes, List.append_assoc]
    rcases ht with ⟨s, hlabel, ⟨more, hs⟩, hstrict⟩ | ht
    · obtain ⟨c, us⟩ := t
      obtain rfl : c = .instruction s := hlabel
      have hsign : '>' ∉ ' ' :: more :=
        fun hmem ↦ h.1.2 (hs ▸ List.mem_append_right ['x', 'm', 'l'] hmem)
      rw [← hs] at hstrict
      refine ⟨_, ?_, hpass h.2 haround⟩
      rw [optionalDeclaration_writeNode hs]
      exact IsStrictDeclaration.declaration_closed hstrict hsign _
    · refine ⟨_, optionalDeclaration_writeNode_of_not (isWritable_of_label_ne h.1 ht.label_ne)
        (hstart t rfl) (fun s hs hprefix ↦ ?_) _, ?_⟩
      · obtain ⟨c, us⟩ := t
        obtain rfl : c = .instruction s := hs
        exact IsStrictInstruction.notDeclaration ht hprefix
      · rw [← List.append_assoc, ← writeNodes]
        exact hpass h (List.forall_mem_cons.2 ⟨ht, haround⟩)

/-- **The part before a document type** is passed over. -/
theorem exists_optionalDeclaration_written {front : List (Tree Content)} {top : Bool}
    (h : AreWritable top front) (hstart : ∀ t ∈ front.head?, StartsSpaced t)
    (hfront : AcceptsFront front) (rest : List Char) :
    ∃ after, optionalDeclaration (writeNodes front ++ (Mark.doctype ++ rest)) = .ok after ∧
      misc after = .ok (Mark.doctype ++ rest) :=
  exists_optionalDeclaration_append h hstart hfront rfl rfl (misc_doctype rest)

/-! ## Whole documents -/

theorem writeNodes_typed (front : List (Tree Content)) (s : String) (body : List (Tree Content)) :
    writeNodes (front ++ .node (.doctype s) [] :: body)
      = writeNodes front ++ (Mark.doctype ++ (' ' :: s.toList ++ '>' :: writeNodes body)) := by
  rw [writeNodes_append, writeNodes, writeNode]
  simp

/-- A written document with a document type is let through if its nodes make one up. -/
theorem AcceptsTyped.check_write {m : Markup} (hm : AcceptsTyped m) (h : AreWritable true m)
    (hstart : ∀ t ∈ m.head?, StartsSpaced t) : check (write m) = .ok () := by
  obtain ⟨front, s, body, rfl, hfront, hs, hbody⟩ := hm
  obtain ⟨hwritable, -, hwritable'⟩ := areWritable_append.1 h
  obtain ⟨after, hafter, hmisc⟩ := exists_optionalDeclaration_written hwritable
    (fun t ht ↦ hstart t (by cases front <;> simp_all)) hfront
    (' ' :: s.toList ++ '>' :: writeNodes body)
  obtain ⟨inside, st, rest, hbefore, hread⟩ :=
    (readsBody_writeNodes (areWritable_of_label_ne hwritable' hbody.label_ne)).2 hbody
  rw [check_eq_ok_iff, write_eq, String.toList_ofList, writeNodes_typed, document_eq_ok_iff]
  exact ⟨[], inside, st, rest, prolog_eq_ok_iff.2 ⟨after, _, hafter, hmisc, .inr
    ⟨' ' :: s.toList ++ '>' :: writeNodes body, _, afterPrefix?_eq_some_iff.2 rfl,
      hs.doctype_closed _ _, hbefore⟩⟩, hread⟩

/-- **A written document is let through** if its nodes make up a document, with a document type or
without. The first of them has to be something else than a text, or a text that starts with a
space. -/
theorem AcceptsMarkup.check_write {m : Markup} (hm : AcceptsMarkup m) (h : AreWritable true m)
    (hstart : ∀ t ∈ m.head?, StartsSpaced t) : check (write m) = .ok () := by
  rcases hm with hm | hm
  · cases m with
    | nil => exact hm.elim
    | cons t ts => exact (check_write_iff (areWritable_of_label_ne h hm.label_ne) (hstart t rfl)).2 hm
  · exact hm.check_write h hstart

end SvgWorkbench.Gate
