import SvgWorkbench.Gate.Content
import SvgWorkbench.Proofs.Gate.Tag
import SvgWorkbench.Proofs.Markup.Cut

/-!
# Pieces of content

What the strict check takes for a piece of content begins in one of a few ways. `IsPiece` says so
about the text alone, so that the reader can be led over a piece without a look at how the check has
found it.
-/

namespace SvgWorkbench.Gate

open Text Xml Markup

/-! ## Start tags -/

/-- Whether a start tag is written as a name and the inside of a tag. -/
structure StartTag.IsWritten (tag : StartTag) (key body : List Char)
    (parts : List (List Char × List Char)) : Prop where
  /-- The name of the element is a name of XML. -/
  isName : IsName key
  /-- It is the qualified name that was scanned. -/
  qname : QName.ofChars? key = some tag.qname
  /-- The rest is made of attributes. -/
  inside : TagParts body parts
  /-- They have the names and values that were scanned. -/
  attributes : parts.map (fun part ↦ (QName.ofChars? part.1, part.2))
    = tag.attributes.map fun a ↦ (some a.qname, a.value)
  /-- The values are made of characters of documents. -/
  values : ∀ a ∈ tag.attributes, ∀ c ∈ a.value, isDocumentChar c = true

/-- A start tag whose scan ends well is a name, attributes and an end. -/
theorem exists_of_startTag {cs rest : List Char} {tag : StartTag} {ending : TagEnd}
    (h : startTag cs = .ok (tag, rest)) (hending : tag.ending = .ok ending) :
    ∃ key body parts, tag.IsWritten key body parts ∧ cs = key ++ (body ++ (ending.text ++ rest)) ∧
      (ending = .cut → rest = []) := by
  simp only [startTag, bind_eq_ok_iff, Prod.exists, pure_eq_ok_iff, Prod.mk.injEq,
    qname_eq_ok_iff] at h
  obtain ⟨q, _, ⟨hq, rfl⟩, rfl, rfl⟩ := h
  obtain ⟨body, parts, hinside, hsplit, hcut, hattributes, hvalues⟩ := tagParts_of_tagBody
    (show tagBody _ = (_, .ok ending, _) from Prod.ext rfl (Prod.ext hending rfl))
  have hrun : ∀ c ∈ cs.takeWhile isNameChar, isNameChar c = true :=
    fun c hc ↦ List.all_eq_true.1 List.all_takeWhile c hc
  refine ⟨cs.takeWhile isNameChar, body, parts,
    ⟨isName_of_ofChars? hq hrun, hq, hinside, hattributes, hvalues⟩, ?_, hcut⟩
  rw [← hsplit, List.takeWhile_append_dropWhile]

/-! ## Pieces -/

/-- Whether a text begins with a piece of content, and what follows it. -/
inductive IsPiece : List Char → Piece → List Char → Prop where
  /-- A comment. -/
  | comment {s rest : List Char} (hs : IsStrictComment s) :
    IsPiece (Mark.openComment ++ (s ++ (Mark.closeComment ++ rest))) .silent rest
  /-- A section. -/
  | cdata {s rest : List Char} (hchars : ∀ c ∈ s, isDocumentChar c = true)
    (hs : ¬ Mark.closeSection <:+: s) :
    IsPiece (Mark.openSection ++ (s ++ (Mark.closeSection ++ rest))) .silent rest
  /-- An instruction. -/
  | instruction {s rest : List Char} (hs : IsStrictInstruction s) :
    IsPiece (Mark.openInstruction ++ (s ++ (Mark.closeInstruction ++ rest))) .silent rest
  /-- A start tag; nothing follows one that is cut. -/
  | startTag {tag : StartTag} {key body rest : List Char} {parts : List (List Char × List Char)}
    {ending : TagEnd} (htag : tag.IsWritten key body parts) (hending : tag.ending = .ok ending)
    (hcut : ending = .cut → rest = []) :
    IsPiece ('<' :: (key ++ (body ++ (ending.text ++ rest)))) (.startTag tag) rest
  /-- A close tag, with spaces perhaps after its name. -/
  | closeTag {key spaces rest : List Char} {q : QName} (hkey : IsName key)
    (hq : QName.ofChars? key = some q) (hspaces : ∀ c ∈ spaces, isSpace c = true) :
    IsPiece (Mark.closeTag ++ (key ++ (spaces ++ '>' :: rest))) (.closeTag q) rest
  /-- A run of text up to the next less-than sign. -/
  | run {text rest : List Char} (hne : text ≠ []) (hsign : '<' ∉ text)
    (hchars : ∀ c ∈ text, isDocumentChar c = true) (hrest : rest = [] ∨ rest.head? = some '<') :
    IsPiece (text ++ rest) (.run text) rest

theorem IsPiece.ne_nil {cs rest : List Char} {p : Piece} (h : IsPiece cs p rest) : cs ≠ [] := by
  cases h with
  | run hne => exact List.append_ne_nil_of_left_ne_nil hne _
  | _ => exact List.cons_ne_nil _ _

theorem IsPiece.suffix {cs rest : List Char} {p : Piece} (h : IsPiece cs p rest) : rest <:+ cs := by
  cases h with
  | comment | cdata | instruction =>
    exact (List.suffix_append_of_suffix (List.suffix_append_of_suffix (List.suffix_append _ _)))
  | @startTag tag key body rest parts ending =>
    exact ⟨'<' :: (key ++ (body ++ ending.text)), by simp⟩
  | @closeTag key spaces rest q => exact ⟨Mark.closeTag ++ (key ++ (spaces ++ ['>'])), by simp⟩
  | run => exact List.suffix_append _ _

private theorem isPiece_of_closeTag {cs rest : List Char} {q : QName}
    (h : closeTag cs = .ok (q, rest)) : IsPiece cs (.closeTag q) rest := by
  simp only [closeTag, bind_eq_ok_iff, Prod.exists, pure_eq_ok_iff, Prod.mk.injEq, mark_eq_ok_iff,
    qname_eq_ok_iff, char_eq_ok_iff] at h
  obtain ⟨after, rfl, q, _, ⟨hq, rfl⟩, rest, hskip, rfl, rfl⟩ := h
  obtain ⟨spaces, hspaces, hspaces'⟩ := exists_append_dropWhile isSpace (after.dropWhile isNameChar)
  rw [← skipSpaces, hskip] at hspaces
  have hrun : ∀ c ∈ after.takeWhile isNameChar, isNameChar c = true :=
    fun c hc ↦ List.all_eq_true.1 List.all_takeWhile c hc
  have hafter : after = after.takeWhile isNameChar ++ (spaces ++ '>' :: rest) := by
    rw [← hspaces, List.takeWhile_append_dropWhile]
  rw [hafter]
  exact .closeTag (isName_of_ofChars? hq hrun) hq hspaces'

private theorem isPiece_of_textRun {c : Char} {cs text rest : List Char} (hc : c ≠ '<')
    (h : textRun (c :: cs) = .ok (text, rest)) : IsPiece (c :: cs) (.run text) rest := by
  simp only [textRun, bind_eq_ok_iff, Prod.exists] at h
  obtain ⟨run, after, huntil, h⟩ := h
  split at h
  · exact absurd h fail_ne_ok
  cases h
  obtain ⟨hsplit, hchars, hrest⟩ :=
    (charsUntil_eq_ok_iff_of_next (· == '<') fun c more ↦ by simp).1 huntil
  simp only [beq_iff_eq, beq_eq_false_iff_ne] at hchars hrest
  rw [hsplit]
  refine .run ?_ (fun hmem ↦ (hchars _ hmem).2 rfl) (fun d hd ↦ (hchars d hd).1) ?_
  · rintro rfl
    obtain rfl : rest = c :: cs := hsplit.symm
    exact hc (hrest c cs rfl).1
  · cases rest with
    | nil => exact .inl rfl
    | cons d rest => exact .inr (congrArg some (hrest d rest rfl).1)

/-- **What the check takes for a piece** begins as a piece does, if the scan of a tag ends well. -/
theorem isPiece_of_piece {cs rest : List Char} {p : Piece} (hne : cs ≠ [])
    (h : piece cs = .ok (p, rest))
    (hp : ∀ tag, p = .startTag tag → ∃ ending, tag.ending = .ok ending) : IsPiece cs p rest := by
  unfold piece at h
  split at h
  · obtain ⟨after, hcomment, heq⟩ := map_eq_ok_iff.1 h
    cases heq
    obtain ⟨s, hs, rfl⟩ := comment_eq_ok_iff.1 hcomment
    exact .comment hs
  split at h
  · obtain ⟨after, hcdata, heq⟩ := map_eq_ok_iff.1 h
    cases heq
    obtain ⟨s, hchars, hs, rfl⟩ := cdata_eq_ok_iff.1 hcdata
    exact .cdata hchars hs
  split at h
  · exact absurd h fail_ne_ok
  split at h
  · obtain ⟨after, hinstruction, heq⟩ := map_eq_ok_iff.1 h
    cases heq
    obtain ⟨s, hs, rfl⟩ := instruction_eq_ok_iff.1 hinstruction
    exact .instruction hs
  split at h
  · obtain ⟨⟨q, after⟩, hclose, heq⟩ := map_eq_ok_iff.1 h
    cases heq
    exact isPiece_of_closeTag hclose
  split at h
  · exact absurd h fail_ne_ok
  · obtain ⟨⟨tag, after⟩, htag, heq⟩ := map_eq_ok_iff.1 h
    cases heq
    -- a tag that was read to its end gives its attributes, the others stand for themselves
    obtain ⟨ending, hending⟩ := hp tag rfl
    obtain ⟨key, body, parts, hwritten, rfl, hcut⟩ := exists_of_startTag htag hending
    exact .startTag hwritten hending hcut
  · next hother =>
    -- what is left is a run of text, since the first character is no less-than sign
    obtain ⟨⟨text, after⟩, hrun, heq⟩ := map_eq_ok_iff.1 h
    cases heq
    obtain ⟨c, cs, rfl⟩ := List.exists_cons_of_ne_nil hne
    exact isPiece_of_textRun (fun hc ↦ hother cs (by rw [hc])) hrun

end SvgWorkbench.Gate
