import SvgWorkbench.Proofs.Markup.Element
import SvgWorkbench.Style

/-!
# Declarations of a style

The declarations of a text have distinct names: one that is there already is changed in place. And
where there are no tabs and no line breaks in what declarations are made from, there are none in
their text.
-/

namespace SvgWorkbench

/-! ## Pieces of a text -/

namespace Text

variable {c : Char} {cs piece before after : List Char}

theorem mem_of_mem_trimChars (h : c ∈ trimChars cs) : c ∈ cs := by
  have hend : c ∈ (trimStart cs).reverse :=
    (List.dropWhile_sublist _).subset (List.mem_reverse.1 h)
  exact (List.dropWhile_sublist _).subset (List.mem_reverse.1 hend)

theorem mem_of_mem_splitAll {sep : Char} (hpiece : piece ∈ splitAll sep cs) (h : c ∈ piece) :
    c ∈ cs := by
  induction cs generalizing piece with
  | nil =>
    rw [splitAll, List.mem_singleton] at hpiece
    rwa [hpiece] at h
  | cons d cs ih =>
    rw [splitAll] at hpiece
    split at hpiece
    · rcases List.mem_cons.1 hpiece with rfl | hpiece
      · cases h
      · exact List.mem_cons_of_mem d (ih hpiece h)
    · split at hpiece
      · obtain rfl := List.mem_singleton.1 hpiece
        exact List.mem_cons.2 (.inl (List.mem_singleton.1 h))
      · next first pieces heq =>
        rcases List.mem_cons.1 hpiece with rfl | hpiece
        · rcases List.mem_cons.1 h with rfl | h
          · exact List.mem_cons_self
          · exact List.mem_cons_of_mem d (ih (heq ▸ List.mem_cons_self) h)
        · exact List.mem_cons_of_mem d (ih (heq ▸ List.mem_cons_of_mem first hpiece) h)

theorem eq_of_splitFirst {sep : Char} (h : splitFirst sep cs = some (before, after)) :
    cs = before ++ sep :: after := by
  induction cs generalizing before with
  | nil => cases h
  | cons d cs ih =>
    rw [splitFirst] at h
    split at h
    · next heq =>
      cases h
      rw [heq]
      rfl
    · obtain ⟨⟨front, back⟩, hsplit, hpair⟩ := Option.map_eq_some_iff.1 h
      cases hpair
      rw [ih hsplit, List.cons_append]

end Text

namespace Style

open Markup Text

/-! ## Names -/

/-- Whether no name is declared twice. -/
def IsDistinct (s : Style) : Prop := (s.entries.map Prod.fst).Nodup

theorem IsDistinct.set {s : Style} (h : s.IsDistinct) (name value : String) :
    (s.set name value).IsDistinct := by
  rw [Style.set]
  split
  · exact h
  · split
    · exact Element.nodup_keys_eraseEntry h _
    · exact Element.nodup_keys_setEntry h _ _

private theorem isDistinct_foldl_set (declarations : List (String × String)) {s : Style}
    (h : s.IsDistinct) : (declarations.foldl (fun s d ↦ s.set d.1 d.2) s).IsDistinct := by
  induction declarations generalizing s with
  | nil => exact h
  | cons d declarations ih =>
    rw [List.foldl_cons]
    exact ih (h.set d.1 d.2)

theorem isDistinct_ofText (text : String) : (ofText text).IsDistinct :=
  isDistinct_foldl_set _ List.nodup_nil

/-! ## Tabs and line breaks -/

/-- Whether no name and no value of a declaration has a tab or a line break. -/
def IsUnbroken (s : Style) : Prop :=
  ∀ d ∈ s.entries, Unbroken d.1.toList ∧ Unbroken d.2.toList

private theorem unbroken_trim {text : String} (h : Unbroken text.toList) :
    Unbroken (trim text).toList := by
  rw [trim, String.toList_ofList]
  exact fun c hc ↦ h c (mem_of_mem_trimChars hc)

theorem IsUnbroken.set {s : Style} (h : s.IsUnbroken) {name value : String}
    (hname : Unbroken name.toList) (hvalue : Unbroken value.toList) :
    (s.set name value).IsUnbroken := by
  rw [Style.set]
  split
  · exact h
  split
  · exact fun d hd ↦ h d (List.mem_of_mem_eraseP hd)
  · intro d hd
    rcases Element.mem_setEntry hd with rfl | hd
    · exact ⟨unbroken_trim hname, unbroken_trim hvalue⟩
    · exact h d hd

private theorem unbroken_of_declaration? {piece : List Char} (h : Unbroken piece)
    {d : String × String} (hd : declaration? piece = some d) :
    Unbroken d.1.toList ∧ Unbroken d.2.toList := by
  obtain ⟨⟨name, value⟩, hsplit, hd⟩ := Option.bind_eq_some_iff.1 hd
  have hpiece := eq_of_splitFirst hsplit
  simp only at hd
  split at hd <;> cases hd
  simp only [String.toList_ofList]
  refine ⟨fun c hc ↦ h c ?_, fun c hc ↦ h c ?_⟩ <;> rw [hpiece]
  · exact List.mem_append_left _ (mem_of_mem_trimChars hc)
  · exact List.mem_append_right _ (List.mem_cons_of_mem _ (mem_of_mem_trimChars hc))

theorem isUnbroken_ofText {text : String} (h : Unbroken text.toList) :
    (ofText text).IsUnbroken := by
  have hdeclarations : ∀ d ∈ (splitAll ';' text.toList).filterMap declaration?,
      Unbroken d.1.toList ∧ Unbroken d.2.toList := by
    intro d hd
    obtain ⟨piece, hpiece, hd⟩ := List.mem_filterMap.1 hd
    exact unbroken_of_declaration? (fun c hc ↦ h c (mem_of_mem_splitAll hpiece hc)) hd
  rw [ofText]
  generalize (splitAll ';' text.toList).filterMap declaration? = declarations at hdeclarations
  have hfold : ∀ s : Style, s.IsUnbroken →
      (declarations.foldl (fun s d ↦ s.set d.1 d.2) s).IsUnbroken := by
    induction declarations with
    | nil => exact fun s hs ↦ hs
    | cons d declarations ih =>
      intro s hs
      obtain ⟨hd, hrest⟩ := List.forall_mem_cons.1 hdeclarations
      exact ih hrest _ (hs.set hd.1 hd.2)
  exact hfold {} nofun

private theorem unbroken_intercalate {sep : List Char} (hsep : Unbroken sep) :
    ∀ {parts : List (List Char)}, (∀ part ∈ parts, Unbroken part) → Unbroken (sep.intercalate parts)
  | [], _ => by simp [List.intercalate, Unbroken]
  | [part], h => by simpa [List.intercalate] using h
  | part :: next :: parts, h => by
    obtain ⟨hpart, hparts⟩ := List.forall_mem_cons.1 h
    rw [List.intercalate_cons_cons]
    exact (hpart.append hsep).append (unbroken_intercalate hsep hparts)

/-- The text of declarations without tabs and line breaks has none. -/
theorem IsUnbroken.text {s : Style} (h : s.IsUnbroken) : Unbroken s.text.toList := by
  rw [Style.text, String.toList_intercalate]
  refine unbroken_intercalate (by decide) fun part hpart ↦ ?_
  obtain ⟨t, ht, rfl⟩ := List.mem_map.1 hpart
  obtain ⟨d, hd, rfl⟩ := List.mem_map.1 ht
  rw [declarationText, String.toList_append, String.toList_append]
  exact ((h d hd).1.append (by decide)).append (h d hd).2

end Style

end SvgWorkbench
