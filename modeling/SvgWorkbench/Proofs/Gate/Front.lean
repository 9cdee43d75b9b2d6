import SvgWorkbench.Proofs.Gate.FollowDocument
import SvgWorkbench.Proofs.Gate.Kept

/-!
# What stands before the root

A document that is let through is a front, a root and what may stand around it. The front alone says
whether the document type is plain, so an edit in the root leaves a plain one plain, whatever it
puts there: the text need not even be markup any more.
-/

namespace SvgWorkbench.Gate

open Text Xml Markup SvgWorkbench.Tree Drawing

variable {front ts : List (Tree Content)} {m : Markup}

/-! ## Fronts and roots -/

theorem AcceptsFront.isElement_eq (h : AcceptsFront front) :
    ∀ t ∈ front, t.label.isElement = false := by
  cases front with
  | nil => exact List.forall_mem_nil _
  | cons t ts =>
    refine List.forall_mem_cons.2 ⟨?_, fun u hu ↦ (h.2 u hu).isElement_eq⟩
    rcases h.1 with ⟨s, hs, -⟩ | ht
    · rw [hs]
      rfl
    · exact ht.isElement_eq

/-- No element stands before the root. -/
theorem AcceptsProlog.isElement_eq (h : AcceptsProlog front) :
    ∀ t ∈ front, t.label.isElement = false := by
  rcases h with h | ⟨front, s, us, rfl, hfront, -, hus⟩
  · exact h.isElement_eq
  · rw [List.forall_mem_append, List.forall_mem_cons]
    exact ⟨hfront.isElement_eq, rfl, fun u hu ↦ (hus u hu).isElement_eq⟩

theorem AcceptsBody.exists_around (h : AcceptsBody ts) : ∃ us t after, ts = us ++ t :: after ∧
    (∀ u ∈ us, IsAround u) ∧ t.label.isElement = true := by
  induction ts with
  | nil => exact h.elim
  | cons t ts ih =>
    rw [AcceptsBody] at h
    split at h
    · next helement => exact ⟨[], t, ts, rfl, List.forall_mem_nil _, helement⟩
    · obtain ⟨us, t', after, rfl, hus, ht'⟩ := ih h.2
      exact ⟨t :: us, t', after, rfl, List.forall_mem_cons.2 ⟨h.1, hus⟩, ht'⟩

/-- **What is let through has a root** after what may stand before one. -/
theorem AcceptsMarkup.exists_prolog (h : AcceptsMarkup m) : ∃ front t after,
    m = front ++ t :: after ∧ AcceptsProlog front ∧ t.label.isElement = true := by
  rcases h with h | ⟨front, s, body, rfl, hfront, hs, hbody⟩
  · match m, h with
    | t :: ts, .inl ⟨hdeclaration, hbody⟩ =>
      obtain ⟨us, t', after, rfl, hus, ht'⟩ := hbody.exists_around
      exact ⟨t :: us, t', after, rfl, .inl ⟨.inl hdeclaration, hus⟩, ht'⟩
    | t :: ts, .inr hbody =>
      obtain ⟨us, t', after, hts, hus, ht'⟩ := hbody.exists_around
      have hfront : AcceptsFront ([] ++ us) := AcceptsFront.append trivial hus
      exact ⟨us, t', after, hts, .inl hfront, ht'⟩
  · obtain ⟨us, t, after, rfl, hus, ht⟩ := hbody.exists_around
    exact ⟨front ++ .node (.doctype s) [] :: us, t, after, by simp,
      .inr ⟨front, s, us, rfl, hfront, hs, hus⟩, ht⟩

/-- No id is given to what stands before the root. -/
theorem AcceptsProlog.of_relAll {good : String → Prop} {us : List (Tree Content)}
    (hrel : RelAll (IdGiven good) ts us) (h : AcceptsProlog ts) : AcceptsProlog us := by
  rcases h with h | ⟨front, s, vs, rfl, hfront, hs, hvs⟩
  · exact .inl (h.of_relAll hrel)
  · obtain ⟨front', vs', rfl, hrel, hrel'⟩ := exists_of_relAll_typed hrel
    exact .inr ⟨front', s, vs', rfl, hfront.of_relAll hrel, hs,
      forall_isAround_of_relAll hrel' hvs⟩

/-! ## Plain document types -/

/-- **Whether the document type is plain is settled before the root.** -/
theorem hasPlainDoctype_of_prolog {top : Bool} (h : AreWritable top front)
    (hstart : ∀ t ∈ front.head?, StartsSpaced t) (hfront : AcceptsProlog front) {c : Char}
    (hc : isNameStart c = true) (more : List Char) :
    HasPlainDoctype (writeNodes front ++ '<' :: c :: more) := by
  rcases hfront with hfront | ⟨front, s, us, rfl, hfront, hs, hus⟩
  · intro after around inner hafter haround hinner
    have hdeclaration : optionalDeclaration ('<' :: c :: more) = .ok ('<' :: c :: more) :=
      if_neg fun hdeclaration ↦
        not_prefix_of_isNameStart hc rfl more _ (startsWith_iff.1 hdeclaration)
    obtain ⟨after', hafter', hmisc⟩ :=
      exists_optionalDeclaration_append h hstart hfront hdeclaration rfl (misc_tag hc more)
    cases hafter'.symm.trans hafter
    cases hmisc.symm.trans haround
    -- a tag is no document type
    exact absurd ⟨inner, (afterPrefix?_eq_some_iff.1 hinner).symm⟩
      (not_prefix_of_isNameStart hc rfl more _)
  · rw [writeNodes_typed, List.append_assoc, List.append_assoc, List.append_assoc, List.cons_append]
    exact hasPlainDoctype_append (areWritable_append.1 h).1
      (fun t ht ↦ hstart t (by cases front <;> simp_all)) hfront hs _

/-- A text that starts with a tag has neither a declaration nor a document type. -/
theorem hasPlainDeclaration_and_doctype_of_tag {c : Char} (hc : isNameStart c = true)
    (more : List Char) : HasPlainDeclaration (unmarked ('<' :: c :: more)) ∧
      HasPlainDoctype ('<' :: c :: more) :=
  ⟨fun hprefix ↦ absurd hprefix (not_prefix_of_isNameStart hc rfl more _),
    hasPlainDoctype_of_prolog (show AreWritable true [] from trivial) nofun (.inl trivial) hc more⟩

/-! ## Settling -/

theorem AcceptsFront.settledAll (h : AcceptsFront front) :
    AcceptsFront (settledAll "" (mapAll Content.spaced front)) := by
  match front, h with
  | [], _ => exact trivial
  | .node c us :: ts, ⟨.inl ⟨s, hlabel, hdeclaration⟩, hts⟩ =>
    obtain rfl : c = .instruction s := hlabel
    exact ⟨.inl ⟨s, rfl, hdeclaration⟩, forall_isAround_settledAll hts (List.forall_mem_nil _)⟩
  | t :: ts, ⟨.inr ht, hts⟩ =>
    exact AcceptsFront.append (show AcceptsFront [] from trivial)
      (forall_isAround_settledAll (List.forall_mem_cons.2 ⟨ht, hts⟩) (List.forall_mem_nil _))

/-- **What makes up a document makes one up once it is settled.** -/
theorem AcceptsMarkup.settledAll (h : AcceptsMarkup m) :
    AcceptsMarkup (settledAll "" (mapAll Content.spaced m)) := by
  rcases h with h | ⟨front, s, body, rfl, hfront, hs, hbody⟩
  · exact .inl h.settledAll
  · have hbody' : AcceptsBody (Markup.settledAll "" (mapAll Content.spaced body)) :=
      hbody.settledAll (List.forall_mem_nil _)
    refine .inr ⟨_, s, _, ?_, hfront.settledAll, hs, hbody'⟩
    rw [mapAll_eq_map, List.map_append, List.map_cons, mapAll_eq_map, mapAll_eq_map]
    exact settledAll_append_cons (c := .doctype s) rfl _ _ _ ""

end SvgWorkbench.Gate
