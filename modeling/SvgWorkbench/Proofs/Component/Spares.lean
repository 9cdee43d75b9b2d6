import SvgWorkbench.Component.Basic
import SvgWorkbench.Proofs.Tree.Subtrees

/-!
# Edits that spare components

An edit is meant for the components of certain ids. Whatever it does to these and to what is inside
them, all other components are to stay. That one forest of components came from another in this way
is a relation between the two: component by component it keeps what stands there, or, where the id
is one of those the edit is meant for, changes it or leaves it out. The relation says enough to be
chained: the ids of what is kept are kept, so the next edit of a row is meant for nothing else than
its own components.
-/

namespace SvgWorkbench

open SvgWorkbench.Tree

/-! ## Kept components -/

/-- Whether a component is another one after an edit that was meant for neither: the id, the type
and the parent are the same, and so are the attributes, but for the text of a component that has no
components inside any more. -/
structure Component.KeptAs (c c' : Component) : Prop where
  /-- The id, the type and the parent stay. -/
  heading : c'.label.heading = c.label.heading
  /-- The attributes stay, or the text is added to them. -/
  attributes : c'.attributes = c.attributes ∨
    c.children ≠ [] ∧ c'.children = [] ∧ ∃ text, c'.attributes = c.attributes.insert textKey text

namespace Component

theorem KeptAs.refl (c : Component) : c.KeptAs c := ⟨rfl, .inl rfl⟩

theorem KeptAs.id_eq {c c' : Component} (h : c.KeptAs c') : c'.id = c.id :=
  congrArg Heading.id h.heading

/-! ## The relation -/

/-- Whether a forest of components is another one after an edit that was meant for the components
whose ids are in a set. -/
inductive SparesAll (meant : String → Prop) : List Component → List Component → Prop where
  /-- There is nothing to spare. -/
  | nil : SparesAll meant [] []
  /-- A component is kept, and what is inside is spared. -/
  | keep {c c' : Component} {cs cs' : List Component} (hkept : c.KeptAs c')
    (hinside : SparesAll meant c.children c'.children) (hrest : SparesAll meant cs cs') :
    SparesAll meant (c :: cs) (c' :: cs')
  /-- A component the edit is meant for is changed, with all that is inside. -/
  | change {c c' : Component} {cs cs' : List Component} (hmeant : meant c.id)
    (hrest : SparesAll meant cs cs') : SparesAll meant (c :: cs) (c' :: cs')
  /-- A component the edit is meant for is gone, with all that is inside. -/
  | drop {c : Component} {cs cs' : List Component} (hmeant : meant c.id)
    (hrest : SparesAll meant cs cs') : SparesAll meant (c :: cs) cs'

namespace SparesAll

variable {meant meant' : String → Prop} {cs ds es : List Component}

mutual

private theorem refl_children (meant : String → Prop) (c : Component) :
    SparesAll meant c.children c.children := by
  match c with
  | .node _ cs => exact SparesAll.refl meant cs

/-- An edit that does nothing spares everything. -/
theorem refl (meant : String → Prop) (cs : List Component) : SparesAll meant cs cs := by
  match cs with
  | [] => exact .nil
  | c :: cs => exact .keep (.refl c) (refl_children meant c) (SparesAll.refl meant cs)

end

theorem append {cs' ds' : List Component} (h : SparesAll meant cs cs')
    (h' : SparesAll meant ds ds') : SparesAll meant (cs ++ ds) (cs' ++ ds') := by
  induction h with
  | nil => exact h'
  | keep hkept hinside _ _ ih => exact .keep hkept hinside ih
  | change hmeant _ ih => exact .change hmeant ih
  | drop hmeant _ ih => exact .drop hmeant ih

/-- An edit may be taken to be meant for more, as far as there are components of these ids. -/
theorem mono (h : SparesAll meant cs ds)
    (hmono : ∀ c : Component, c ∈ subtreesAll cs → meant c.id → meant' c.id) :
    SparesAll meant' cs ds := by
  induction h with
  | nil => exact .nil
  | @keep c c' cs cs' hkept _ _ hinside hrest =>
    obtain ⟨e, us⟩ := c
    exact .keep hkept
      (hinside fun a ha ↦ hmono a (List.mem_append_left _ (List.mem_cons_of_mem _ ha)))
      (hrest fun a ha ↦ hmono a (List.mem_append_right _ ha))
  | @change c c' cs cs' hmeant _ hrest =>
    exact .change (hmono c (List.mem_append_left _ (mem_subtrees_self c)) hmeant)
      (hrest fun a ha ↦ hmono a (List.mem_append_right _ ha))
  | @drop c cs cs' hmeant _ hrest =>
    exact .drop (hmono c (List.mem_append_left _ (mem_subtrees_self c)) hmeant)
      (hrest fun a ha ↦ hmono a (List.mem_append_right _ ha))

theorem eq_nil (h : SparesAll meant [] cs) : cs = [] := by
  cases h
  rfl

/-- A component that has been kept twice has been kept. It lost what was inside in one of the two
edits at most, since what is not there cannot be lost. -/
private theorem keptAs_trans {c c' c'' : Component} (h : c.KeptAs c')
    (hinside : SparesAll meant c.children c'.children) (h' : c'.KeptAs c'')
    (hinside' : SparesAll meant' c'.children c''.children) : c.KeptAs c'' := by
  refine ⟨h'.heading.trans h.heading, ?_⟩
  rcases h.attributes with heq | ⟨hne, hnil, htext⟩
  · rw [← heq]
    refine h'.attributes.imp_right fun ⟨hne', hrest⟩ ↦ ⟨fun hnil ↦ hne' ?_, hrest⟩
    rw [hnil] at hinside
    exact hinside.eq_nil
  · rw [hnil] at hinside'
    refine .inr ⟨hne, hinside'.eq_nil, ?_⟩
    rw [h'.attributes.resolve_right fun h ↦ h.1 hnil]
    exact htext

/-- **Two edits in a row** spare what neither was meant for. -/
theorem trans (h : SparesAll meant cs ds) (h' : SparesAll meant' ds es) :
    SparesAll (fun id ↦ meant id ∨ meant' id) cs es := by
  -- on the first edit: what the second does to a kept component decides what the two do, and a
  -- component that was changed or is gone was meant already
  induction h generalizing es with
  | nil =>
    obtain rfl := h'.eq_nil
    exact .nil
  | @keep c c' cs cs' hkept hinside _ ihinside ihrest =>
    cases h' with
    | keep hkept' hinside' hrest' =>
      exact .keep (keptAs_trans hkept hinside hkept' hinside') (ihinside hinside')
        (ihrest hrest')
    | change hmeant' hrest' => exact .change (.inr (hkept.id_eq ▸ hmeant')) (ihrest hrest')
    | drop hmeant' hrest' => exact .drop (.inr (hkept.id_eq ▸ hmeant')) (ihrest hrest')
  | change hmeant _ ihrest =>
    cases h' with
    | keep _ _ hrest' => exact .change (.inl hmeant) (ihrest hrest')
    | change _ hrest' => exact .change (.inl hmeant) (ihrest hrest')
    | drop _ hrest' => exact .drop (.inl hmeant) (ihrest hrest')
  | drop hmeant _ ihrest => exact .drop (.inl hmeant) (ihrest h')

/-! ## What is spared -/

/-- **Every component is kept** unless the edit is meant for it or for one that it is inside of. -/
theorem exists_keptAs (h : SparesAll meant cs ds) {c : Component} (hc : c ∈ subtreesAll cs)
    (hout : ∀ a : Component, a ∈ subtreesAll cs → meant a.id → c ∉ a.subtrees) :
    ∃ c' ∈ subtreesAll ds, c.KeptAs c' := by
  -- the component stands in what is kept or beside it, since it is in nothing that is meant
  induction h with
  | nil => cases hc
  | @keep a a' cs cs' hkept _ _ ihinside ihrest =>
    obtain ⟨e, us⟩ := a
    obtain ⟨e', us'⟩ := a'
    rcases List.mem_append.1 hc with hc | hc
    · rcases List.mem_cons.1 hc with rfl | hc
      · exact ⟨_, List.mem_append_left _ (mem_subtrees_self _), hkept⟩
      · obtain ⟨c', hc', hkept'⟩ := ihinside hc fun b hb ↦
          hout b (List.mem_append_left _ (List.mem_cons_of_mem _ hb))
        exact ⟨c', List.mem_append_left _ (List.mem_cons_of_mem _ hc'), hkept'⟩
    · obtain ⟨c', hc', hkept'⟩ := ihrest hc fun b hb ↦ hout b (List.mem_append_right _ hb)
      exact ⟨c', List.mem_append_right _ hc', hkept'⟩
  | @change a a' cs cs' hmeant _ ihrest =>
    have ha := List.mem_append_left (subtreesAll cs) (mem_subtrees_self a)
    rcases List.mem_append.1 hc with hc | hc
    · exact absurd hc (hout a ha hmeant)
    · obtain ⟨c', hc', hkept'⟩ := ihrest hc fun b hb ↦ hout b (List.mem_append_right _ hb)
      exact ⟨c', List.mem_append_right _ hc', hkept'⟩
  | @drop a cs cs' hmeant _ ihrest =>
    have ha := List.mem_append_left (subtreesAll cs) (mem_subtrees_self a)
    rcases List.mem_append.1 hc with hc | hc
    · exact absurd hc (hout a ha hmeant)
    · exact ihrest hc fun b hb ↦ hout b (List.mem_append_right _ hb)

end SparesAll

end Component

end SvgWorkbench
