import Mathlib.Data.List.DropRight
import Mathlib.Data.List.TakeWhile
import SvgWorkbench.Proofs.Style

/-!
# Declarations are read as they are written

The declarations that are read in a text, and those that are set, have names and values without
blanks at their ends, without the semicolons that stand between declarations, and names without the
colon that stands before a value. What is written of such declarations is read as the same
declarations in the same order. So a style may be taken apart, changed and written any number of
times, and only what was changed is.
-/

namespace SvgWorkbench

/-! ## Trimming and cutting -/

namespace Text

variable {sep : Char} {cs ds piece before after : List Char}

/-- Whether no blank character stands at the two ends. -/
def IsTrimmed (cs : List Char) : Prop := trimStart cs = cs ∧ trimEnd cs = cs

theorem IsTrimmed.trimChars_eq (h : IsTrimmed cs) : trimChars cs = cs := by
  rw [trimChars, h.1, h.2]

theorem isTrimmed_trimChars (cs : List Char) : IsTrimmed (trimChars cs) := by
  constructor
  · -- what is left begins as what was left of the front, unless nothing is left
    have hprefix : trimChars cs <+: trimStart cs := by
      rw [trimChars, trimEnd, ← List.reverse_suffix, List.reverse_reverse]
      exact List.dropWhile_suffix _
    cases hleft : trimChars cs with
    | nil => rfl
    | cons c rest =>
      obtain ⟨back, hback⟩ := hleft ▸ hprefix
      have hfirst := List.head?_dropWhile_not isBlank cs
      rw [show cs.dropWhile isBlank = c :: (rest ++ back) from hback.symm] at hfirst
      exact List.dropWhile_cons_of_neg (ne_true_of_eq_false hfirst)
  · rw [trimChars, trimEnd, trimEnd, List.reverse_reverse, List.dropWhile_idempotent]

theorem trimChars_cons_of_isBlank {c : Char} (h : isBlank c = true) (cs : List Char) :
    trimChars (c :: cs) = trimChars cs := by
  rw [trimChars, trimChars, trimStart, List.dropWhile_cons_of_pos h, trimStart]

theorem splitAll_of_notMem (h : sep ∉ cs) : splitAll sep cs = [cs] := by
  induction cs with
  | nil => rfl
  | cons c cs ih =>
    rw [List.mem_cons, not_or] at h
    rw [splitAll, if_neg (Ne.symm h.1), ih h.2]

theorem splitAll_append (h : sep ∉ cs) (ds : List Char) :
    splitAll sep (cs ++ sep :: ds) = cs :: splitAll sep ds := by
  induction cs with
  | nil => rw [List.nil_append, splitAll, if_pos rfl]
  | cons c cs ih =>
    rw [List.mem_cons, not_or] at h
    rw [List.cons_append, splitAll, if_neg (Ne.symm h.1), ih h.2]

theorem notMem_of_mem_splitAll (h : piece ∈ splitAll sep cs) : sep ∉ piece := by
  induction cs generalizing piece with
  | nil =>
    rw [splitAll, List.mem_singleton] at h
    rw [h]
    exact List.not_mem_nil
  | cons c cs ih =>
    rw [splitAll] at h
    split at h
    · rcases List.mem_cons.1 h with rfl | h
      · exact List.not_mem_nil
      · exact ih h
    · next hne =>
      split at h
      · rw [List.mem_singleton.1 h, List.mem_singleton]
        exact Ne.symm hne
      · next first pieces heq =>
        rcases List.mem_cons.1 h with rfl | h
        · rw [List.mem_cons, not_or]
          exact ⟨Ne.symm hne, ih (heq ▸ List.mem_cons_self)⟩
        · exact ih (heq ▸ List.mem_cons_of_mem first h)

theorem splitFirst_append (h : sep ∉ cs) (ds : List Char) :
    splitFirst sep (cs ++ sep :: ds) = some (cs, ds) := by
  induction cs with
  | nil => rw [List.nil_append, splitFirst, if_pos rfl]
  | cons c cs ih =>
    rw [List.mem_cons, not_or] at h
    rw [List.cons_append, splitFirst, if_neg (Ne.symm h.1), ih h.2, Option.map_some]

theorem notMem_of_splitFirst (h : splitFirst sep cs = some (before, after)) : sep ∉ before := by
  induction cs generalizing before with
  | nil => cases h
  | cons c cs ih =>
    rw [splitFirst] at h
    split at h
    · cases h
      exact List.not_mem_nil
    · next hne =>
      obtain ⟨⟨front, back⟩, hsplit, hpair⟩ := Option.map_eq_some_iff.1 h
      cases hpair
      rw [List.mem_cons, not_or]
      exact ⟨Ne.symm hne, ih hsplit⟩

end Text

namespace Style

open Markup Text

variable {s : Style} {name value : String}

/-! ## Declarations that are read as they are written -/

/-- Whether a declaration can be written so that it is read again: no blanks at the ends of name and
value, no semicolon in them, no colon in the name, and neither is empty. -/
structure IsPlain (d : String × String) : Prop where
  /-- The name has no blanks at its ends. -/
  trimmed_name : IsTrimmed d.1.toList
  /-- The name is not empty. -/
  name_ne : d.1 ≠ ""
  /-- The name has no colon. -/
  colon_notMem : ':' ∉ d.1.toList
  /-- The name has no semicolon. -/
  semicolon_notMem : ';' ∉ d.1.toList
  /-- The value has no blanks at its ends. -/
  trimmed_value : IsTrimmed d.2.toList
  /-- The value is not empty. -/
  value_ne : d.2 ≠ ""
  /-- The value has no semicolon. -/
  semicolon_notMem_value : ';' ∉ d.2.toList

/-- Whether all declarations can be written, and no name is declared twice. -/
structure IsNormal (s : Style) : Prop where
  /-- The names are distinct. -/
  distinct : s.IsDistinct
  /-- Every declaration can be written. -/
  plain : ∀ d ∈ s.entries, IsPlain d

theorem isTrimmed_trim (t : String) : IsTrimmed (trim t).toList := by
  rw [trim, String.toList_ofList]
  exact isTrimmed_trimChars _

theorem notMem_trim {c : Char} {t : String} (h : c ∉ t.toList) : c ∉ (trim t).toList := by
  rw [trim, String.toList_ofList]
  exact fun hc ↦ h (mem_of_mem_trimChars hc)

theorem trim_eq {t : String} (h : IsTrimmed t.toList) : trim t = t := by
  rw [trim, h.trimChars_eq, String.ofList_toList]

/-- Setting a declaration without separators keeps a style normal. -/
theorem IsNormal.set (h : s.IsNormal) (hcolon : ':' ∉ name.toList) (hsemicolon : ';' ∉ name.toList)
    (hvalue : ';' ∉ value.toList) : (s.set name value).IsNormal := by
  refine ⟨h.distinct.set name value, ?_⟩
  rw [Style.set]
  split
  · exact h.plain
  next hname =>
  split
  · exact fun d hd ↦ h.plain d (List.mem_of_mem_eraseP hd)
  next hempty =>
  intro d hd
  rcases Element.mem_setEntry hd with rfl | hd
  · exact ⟨isTrimmed_trim name, fun heq ↦ hname (String.isEmpty_iff.2 heq), notMem_trim hcolon,
      notMem_trim hsemicolon, isTrimmed_trim value, fun heq ↦ hempty (String.isEmpty_iff.2 heq),
      notMem_trim hvalue⟩
  · exact h.plain d hd

/-- What is read in a piece without semicolons can be written. -/
theorem isPlain_of_declaration? {piece : List Char} (hpiece : ';' ∉ piece) {d : String × String}
    (h : declaration? piece = some d) : IsPlain d := by
  obtain ⟨⟨before, after⟩, hsplit, hd⟩ := Option.bind_eq_some_iff.1 h
  have hcut := eq_of_splitFirst hsplit
  have hbefore : ';' ∉ before := fun hmem ↦ hpiece (hcut ▸ List.mem_append_left _ hmem)
  have hafter : ';' ∉ after := fun hmem ↦
    hpiece (hcut ▸ List.mem_append_right _ (List.mem_cons_of_mem _ hmem))
  simp only at hd
  split at hd
  · cases hd
  next hne =>
  cases hd
  rw [Bool.or_eq_true, not_or, List.isEmpty_iff, List.isEmpty_iff] at hne
  have hnotnil : ∀ cs : List Char, cs ≠ [] → String.ofList cs ≠ "" := fun cs hcs heq ↦
    hcs (by rw [← String.toList_ofList (l := cs), heq]; rfl)
  constructor <;> simp only [String.toList_ofList]
  · exact isTrimmed_trimChars before
  · exact hnotnil _ hne.1
  · exact fun hmem ↦ notMem_of_splitFirst hsplit (mem_of_mem_trimChars hmem)
  · exact fun hmem ↦ hbefore (mem_of_mem_trimChars hmem)
  · exact isTrimmed_trimChars after
  · exact hnotnil _ hne.2
  · exact fun hmem ↦ hafter (mem_of_mem_trimChars hmem)

/-- **The declarations of a text can be written.** -/
theorem isNormal_ofText (text : String) : (ofText text).IsNormal := by
  have hplain : ∀ d ∈ (splitAll ';' text.toList).filterMap declaration?, IsPlain d := by
    intro d hd
    obtain ⟨piece, hpiece, hd⟩ := List.mem_filterMap.1 hd
    exact isPlain_of_declaration? (notMem_of_mem_splitAll hpiece) hd
  have hfold : ∀ (ds : List (String × String)) (s : Style), (∀ d ∈ ds, IsPlain d) → s.IsNormal →
      (ds.foldl (fun s d ↦ s.set d.1 d.2) s).IsNormal := by
    intro ds
    induction ds with
    | nil => exact fun _ _ hs ↦ hs
    | cons d ds ih =>
      intro s hds hs
      obtain ⟨hd, hds⟩ := List.forall_mem_cons.1 hds
      exact ih _ hds (hs.set hd.colon_notMem hd.semicolon_notMem hd.semicolon_notMem_value)
  exact hfold _ {} hplain ⟨List.nodup_nil, nofun⟩

/-! ## Writing and reading -/

theorem declaration?_declarationText {d : String × String} (hd : IsPlain d) :
    declaration? (declarationText d).toList = some d := by
  have hblank : isBlank ' ' = true := by decide
  have htext : (declarationText d).toList = d.1.toList ++ ':' :: ' ' :: d.2.toList := by
    rw [declarationText, String.toList_append, String.toList_append, List.append_assoc]
    rfl
  have hne : ∀ t : String, t ≠ "" → t.toList.isEmpty = false := by
    intro t ht
    rw [List.isEmpty_eq_false_iff]
    exact fun heq ↦ ht (String.toList_eq_nil_iff.1 heq)
  rw [declaration?, htext, splitFirst_append hd.colon_notMem, Option.bind_some]
  simp only [trimChars_cons_of_isBlank hblank, hd.trimmed_name.trimChars_eq,
    hd.trimmed_value.trimChars_eq, hne _ hd.name_ne, hne _ hd.value_ne, String.ofList_toList]
  rfl

/-- A blank before a piece does not matter. -/
theorem declaration?_cons_of_isBlank {c : Char} (hblank : isBlank c = true) (hc : c ≠ ':')
    (piece : List Char) : declaration? (c :: piece) = declaration? piece := by
  rw [declaration?, declaration?, splitFirst, if_neg hc]
  cases splitFirst ':' piece with
  | none => rfl
  | some cut => simp [trimChars_cons_of_isBlank hblank]

theorem filterMap_splitAll_cons_of_isBlank {c : Char} (hblank : isBlank c = true) (hc : c ≠ ':')
    (hc' : c ≠ ';') (cs : List Char) : (splitAll ';' (c :: cs)).filterMap declaration?
      = (splitAll ';' cs).filterMap declaration? := by
  rw [splitAll, if_neg hc']
  have hpiece := declaration?_cons_of_isBlank hblank hc
  cases splitAll ';' cs with
  | nil => rw [List.filterMap_cons, hpiece]; rfl
  | cons first pieces => rw [List.filterMap_cons, List.filterMap_cons, hpiece]

/-- The declarations that are read in the text of some declarations. -/
private theorem filterMap_splitAll_intercalate {ds : List (String × String)}
    (hds : ∀ d ∈ ds, IsPlain d) :
    (splitAll ';' ("; ".toList.intercalate (ds.map fun d ↦ (declarationText d).toList))).filterMap
      declaration? = ds := by
  have hnotMem : ∀ d ∈ ds, ';' ∉ (declarationText d).toList := by
    intro d hd
    rw [declarationText, String.toList_append, String.toList_append, List.mem_append, List.mem_append]
    rintro ((hmem | hmem) | hmem)
    · exact (hds d hd).semicolon_notMem hmem
    · exact absurd hmem (by decide)
    · exact (hds d hd).semicolon_notMem_value hmem
  induction ds with
  | nil => rfl
  | cons d ds ih =>
    obtain ⟨hd, hds⟩ := List.forall_mem_cons.1 hds
    have hrest := ih hds fun a ha ↦ hnotMem a (List.mem_cons_of_mem d ha)
    have hnone := hnotMem d List.mem_cons_self
    have hsep : "; ".toList = [';', ' '] := rfl
    cases ds with
    | nil =>
      rw [List.map_singleton, List.intercalate_singleton, splitAll_of_notMem hnone,
        List.filterMap_cons, declaration?_declarationText hd, List.filterMap_nil]
    | cons d' ds =>
      rw [List.map_cons, List.map_cons, List.intercalate_cons_cons, hsep, List.append_assoc,
        List.cons_append, splitAll_append hnone, List.filterMap_cons,
        declaration?_declarationText hd, List.cons_append, List.nil_append,
        filterMap_splitAll_cons_of_isBlank (by decide) (by decide) (by decide), ← hsep,
        ← List.map_cons (f := fun d ↦ (declarationText d).toList), hrest]

/-- Setting declarations of new names adds them at the end. -/
private theorem entries_foldl_set {ds : List (String × String)} (hds : ∀ d ∈ ds, IsPlain d) (s : Style)
    (hdistinct : ((s.entries ++ ds).map Prod.fst).Nodup) :
    (ds.foldl (fun s d ↦ s.set d.1 d.2) s).entries = s.entries ++ ds := by
  induction ds generalizing s with
  | nil => rw [List.foldl_nil, List.append_nil]
  | cons d ds ih =>
    obtain ⟨hd, hds⟩ := List.forall_mem_cons.1 hds
    have hnotMem : d.1 ∉ s.entries.map Prod.fst := by
      rw [List.map_append, List.map_cons, List.nodup_append] at hdistinct
      exact fun hmem ↦ hdistinct.2.2 _ hmem _ List.mem_cons_self rfl
    have hset : (s.set d.1 d.2).entries = s.entries ++ [d] := by
      rw [Style.set, trim_eq hd.trimmed_name, trim_eq hd.trimmed_value, if_neg, if_neg]
      · exact Element.setEntry_of_notMem hnotMem d.2
      · exact fun hempty ↦ hd.value_ne (String.isEmpty_iff.1 hempty)
      · exact fun hempty ↦ hd.name_ne (String.isEmpty_iff.1 hempty)
    rw [List.foldl_cons, ih hds, hset, List.append_assoc, List.singleton_append]
    rwa [hset, List.append_assoc, List.singleton_append]

/-- **The text of a normal style is read as the style.** -/
theorem ofText_text (h : s.IsNormal) : ofText s.text = s := by
  have htext : s.text.toList
      = "; ".toList.intercalate (s.entries.map fun d ↦ (declarationText d).toList) := by
    rw [Style.text, String.toList_intercalate, List.map_map]
    rfl
  have hentries := entries_foldl_set h.plain {} h.distinct
  rw [ofText, htext, filterMap_splitAll_intercalate h.plain]
  generalize s.entries.foldl _ _ = t at hentries
  obtain ⟨es⟩ := t
  rw [show es = s.entries from hentries]

/-- **Declarations stay what they are** when the text they were read in is replaced by theirs. -/
theorem ofText_text_ofText (t : String) : ofText (ofText t).text = ofText t :=
  ofText_text (isNormal_ofText t)

/-! ## What setting a declaration changes -/

/-- Declarations after one has been set: an empty value takes the name away, a name that is there
keeps its place, and a new one comes last. -/
def upserted (name value : String) (ds : List (String × String)) : List (String × String) :=
  if value = "" then ds.filter fun d ↦ d.1 ≠ name
  else if name ∈ ds.map Prod.fst then ds.map fun d ↦ if d.1 = name then (name, value) else d
  else ds ++ [(name, value)]

private theorem eraseEntry_eq_filter {ds : List (String × String)} (h : (ds.map Prod.fst).Nodup)
    (name : String) : Element.eraseEntry name ds = ds.filter fun d ↦ d.1 ≠ name := by
  rw [Element.eraseEntry]
  induction ds with
  | nil => rfl
  | cons d ds ih =>
    rw [List.map_cons, List.nodup_cons] at h
    by_cases hd : d.1 = name
    · have hrest : ds.filter (fun d ↦ d.1 ≠ name) = ds := by
        refine List.filter_eq_self.2 fun a ha ↦ ?_
        rw [decide_eq_true_iff]
        exact fun heq ↦ h.1 (hd.trans heq.symm ▸ List.mem_map_of_mem ha)
      rw [List.eraseP_cons_of_pos (by simpa using hd), List.filter_cons_of_neg (by simpa using hd),
        hrest]
    · rw [List.eraseP_cons_of_neg (by simpa using hd), List.filter_cons_of_pos (by simpa using hd),
        ih h.2]

private theorem setEntry_eq_map {ds : List (String × String)} (h : (ds.map Prod.fst).Nodup)
    {name : String} (hname : name ∈ ds.map Prod.fst) (value : String) :
    Element.setEntry name value ds = ds.map fun d ↦ if d.1 = name then (name, value) else d := by
  induction ds with
  | nil => cases hname
  | cons d ds ih =>
    obtain ⟨k, v⟩ := d
    rw [List.map_cons, List.nodup_cons] at h
    rw [Element.setEntry, List.map_cons]
    by_cases hk : k = name
    · have hrest : (ds.map fun d ↦ if d.1 = name then (name, value) else d) = ds := by
        refine (List.map_congr_left fun a ha ↦ if_neg fun heq ↦ h.1 ?_).trans (List.map_id ds)
        show k ∈ ds.map Prod.fst
        rw [hk, ← heq]
        exact List.mem_map_of_mem ha
      rw [if_pos hk, if_pos hk, hrest, hk]
    · have hmem := (List.mem_cons.1 (List.map_cons ▸ hname)).resolve_left (Ne.symm hk)
      rw [if_neg hk, if_neg hk, ih h.2 hmem]

theorem entries_set (h : s.IsDistinct) (hname : trim name ≠ "") (value : String) :
    (s.set name value).entries = upserted (trim name) (trim value) s.entries := by
  rw [Style.set, if_neg fun hempty ↦ hname (String.isEmpty_iff.1 hempty), upserted]
  by_cases hvalue : trim value = ""
  · rw [if_pos (String.isEmpty_iff.2 hvalue), if_pos hvalue]
    exact eraseEntry_eq_filter h _
  · rw [if_neg fun hempty ↦ hvalue (String.isEmpty_iff.1 hempty), if_neg hvalue]
    split
    · next hmem => exact setEntry_eq_map h hmem _
    · next hmem => exact Element.setEntry_of_notMem hmem _

theorem get?_set (h : s.IsDistinct) (hname : trim name ≠ "") (value k : String) :
    (s.set name value).get? k
      = if k = trim name then (if trim value = "" then none else some (trim value))
        else s.get? k := by
  rw [Style.set, if_neg fun hempty ↦ hname (String.isEmpty_iff.1 hempty)]
  -- declarations are looked up, set and taken away as attributes are
  have hkeys : (Element.mk "" s.entries).keys.Nodup := h
  by_cases hvalue : trim value = ""
  · rw [if_pos (String.isEmpty_iff.2 hvalue), if_pos hvalue]
    split
    · next hk => rw [hk]; exact Element.get?_erase_self hkeys _
    · next hk => exact Element.get?_erase_of_ne ⟨"", s.entries⟩ hk
  · rw [if_neg fun hempty ↦ hvalue (String.isEmpty_iff.1 hempty), if_neg hvalue]
    refine (Element.get?_set ⟨"", s.entries⟩ (trim name) (trim value) k).trans ?_
    simp only [eq_comm]
    rfl

/-! ## Runs of changes -/

/-- A change of a style. -/
inductive Change where
  /-- Sets a declaration. -/
  | set (name value : String)
  /-- Takes the declaration of a name away. -/
  | erase (name : String)
  deriving DecidableEq, Repr

/-- A style after a change. -/
def Change.apply (s : Style) : Change → Style
  | .set name value => s.set name value
  | .erase name => s.erase name

/-- Whether what is set has none of the characters that separate declarations from one another and
names from values. -/
def Change.IsPlain : Change → Prop
  | .set name value => ':' ∉ name.toList ∧ ';' ∉ name.toList ∧ ';' ∉ value.toList
  | .erase _ => True

theorem IsNormal.erase (h : s.IsNormal) (name : String) : (s.erase name).IsNormal :=
  ⟨Element.nodup_keys_eraseEntry h.distinct _,
    fun d hd ↦ h.plain d (List.mem_of_mem_eraseP hd)⟩

theorem IsNormal.apply (h : s.IsNormal) {c : Change} (hc : c.IsPlain) : (c.apply s).IsNormal := by
  cases c with
  | set name value => exact h.set hc.1 hc.2.1 hc.2.2
  | erase name => exact h.erase name

theorem IsNormal.foldl_apply (h : s.IsNormal) {changes : List Change}
    (hchanges : ∀ c ∈ changes, c.IsPlain) : (changes.foldl Change.apply s).IsNormal := by
  induction changes generalizing s with
  | nil => exact h
  | cons c changes ih =>
    obtain ⟨hc, hchanges⟩ := List.forall_mem_cons.1 hchanges
    exact ih (h.apply hc) hchanges

/-- **A text that is read and changed any number of times is written as it is read.** No name is
declared twice, and neither names nor values are empty or have blanks at their ends. -/
theorem ofText_text_changed (t : String) (changes : List Change)
    (hchanges : ∀ c ∈ changes, c.IsPlain) :
    let s := changes.foldl Change.apply (ofText t)
    (s.entries.map Prod.fst).Nodup ∧
      (∀ d ∈ s.entries, d.1 ≠ "" ∧ trim d.1 = d.1 ∧ d.2 ≠ "" ∧ trim d.2 = d.2) ∧
      ofText s.text = s ∧ ofText (ofText t).text = ofText t := by
  intro s
  have hnormal : s.IsNormal := (isNormal_ofText t).foldl_apply hchanges
  refine ⟨hnormal.distinct, fun d hd ↦ ?_, ofText_text hnormal, ofText_text_ofText t⟩
  have hplain := hnormal.plain d hd
  exact ⟨hplain.name_ne, trim_eq hplain.trimmed_name, hplain.value_ne,
    trim_eq hplain.trimmed_value⟩

theorem ofText_text_changed_fill :
    let changes : List Change := [.set "fill" " blue ", .set "x" "", .erase "stroke", .set "y" "2:3"]
    (∀ c ∈ changes, c.IsPlain) ∧
      changes.foldl Change.apply (ofText "fill:red; ;broken; stroke : a;x:1")
        = ⟨[("fill", "blue"), ("y", "2:3")]⟩ ∧
      ofText (changes.foldl Change.apply (ofText "fill:red; ;broken; stroke : a;x:1")).text
        = changes.foldl Change.apply (ofText "fill:red; ;broken; stroke : a;x:1") := by
  intro changes
  have hchanges : ∀ c ∈ changes, c.IsPlain := by simp [changes, Change.IsPlain]
  exact ⟨hchanges, by decide, (ofText_text_changed _ changes hchanges).2.2.1⟩

end Style

end SvgWorkbench
