import SvgWorkbench.Proofs.Markup.Name
import SvgWorkbench.TagName

/-!
# Types are names

The type of an element is its tag name in lower case, and an element that is made from a type gets a
tag name back. Both are names of XML again: lower-casing takes letters to letters, since the runs of
the table are taken into ranges of name characters as a whole. And as types have no capital letters
any more, two types that agree up to letter case are the same. No run is taken into another one, so
lowering a type changes nothing, and the tag name that a type gets back is of that type again.
-/

namespace SvgWorkbench

open Text Xml

/-! ## One character -/

/-- The ranges of numbers of letters that a name may start with. -/
private def letterRanges : List Table.Range :=
  [(0x41, 0x5A), (0x61, 0x7A), (0xC0, 0xD6), (0xD8, 0xF6), (0xF8, 0x2FF), (0x370, 0x37D),
   (0x37F, 0x1FFF), (0x200C, 0x200D), (0x2070, 0x218F), (0x2C00, 0x2FEF), (0x3001, 0xD7FF),
   (0xF900, 0xFDCF), (0xFDF0, 0xFFFD), (0x10000, 0xEFFFF)]

private theorem char_le_iff {c d : Char} : c ≤ d ↔ c.toNat ≤ d.toNat := Iff.rfl

private theorem isNameStart_of_mem_letterRanges {n : Nat} {r : Table.Range} (hr : r ∈ letterRanges)
    (hfirst : r.1 ≤ n) (hlast : n ≤ r.2) : isNameStart (Char.ofNat n) = true := by
  simp only [letterRanges, List.mem_cons, List.not_mem_nil, or_false] at hr
  have hvalid : n.isValidChar := by
    rcases hr with rfl | rfl | rfl | rfl | rfl | rfl | rfl | rfl | rfl | rfl | rfl | rfl | rfl | rfl
    all_goals simp only [Nat.isValidChar] at hfirst hlast ⊢; omega
  have hnumber : (Char.ofNat n).toNat = n := by
    rw [Char.ofNat, dif_pos hvalid]
    rfl
  simp only [isNameStart, char_le_iff, hnumber, Bool.or_eq_true, Bool.and_eq_true,
    decide_eq_true_eq]
  rcases hr with rfl | rfl | rfl | rfl | rfl | rfl | rfl | rfl | rfl | rfl | rfl | rfl | rfl | rfl
  all_goals
    simp only at hfirst hlast
    simp only [Char.reduceToNat]
    omega

/-- Every run of letters is lowered into one range of letters that a name may start with, except for
the circled letters, which stand in no names. -/
private theorem lowerCaseRuns_letters : ∀ r ∈ Table.lowerCaseRuns,
    (∃ s ∈ letterRanges, (s.1 : Int) ≤ r.1 + r.2.2.2 ∧ r.2.1 + r.2.2.2 ≤ s.2) ∨
      r.1 = 0x24B6 ∧ r.2.1 = 0x24CF := by decide +kernel

private theorem asciiLower_letters : ∀ n < 0x80, asciiLower (Char.ofNat n) = Char.ofNat n ∨
    isNameStart (asciiLower (Char.ofNat n)) = true := by decide

/-- The lower-case form of a name character is the character itself or one that a name may start
with. -/
theorem lowerChar_eq_or_isNameStart {c : Char} (hc : isNameChar c = true) :
    lowerChar c = c ∨ isNameStart (lowerChar c) = true := by
  rw [lowerChar]
  split
  · next hascii =>
    have hletter := asciiLower_letters c.toNat hascii
    rwa [Char.ofNat_toNat] at hletter
  simp only
  split
  · next first last step shift hfind =>
    have hmem := List.mem_of_find?_eq_some hfind
    have hholds := List.find?_some hfind
    simp only [Bool.and_eq_true, decide_eq_true_eq] at hholds
    obtain ⟨⟨hfirst, hlast⟩, -⟩ := hholds
    rcases lowerCaseRuns_letters _ hmem with ⟨s, hs, hlow, hhigh⟩ | ⟨hcircled, hcircled'⟩
    · refine .inr (isNameStart_of_mem_letterRanges hs ?_ ?_)
      · simp only at hlow
        omega
      · simp only at hhigh
        omega
    · -- no circled letter stands in a name
      simp only at hcircled hcircled'
      simp only [isNameChar, isNameStart, char_le_iff, ← Char.toNat_inj, Char.reduceToNat,
        Bool.or_eq_true, Bool.and_eq_true, decide_eq_true_eq, beq_iff_eq] at hc
      omega
  · exact .inl rfl

/-! ## Whole names -/

private theorem isNameChar_lowerChar {c : Char} (hc : isNameChar c = true) :
    isNameChar (lowerChar c) = true := by
  rcases lowerChar_eq_or_isNameStart hc with h | h
  · rwa [h]
  · exact isNameChar_of_isNameStart h

private theorem isNameStart_lowerChar {c : Char} (hc : isNameStart c = true) :
    isNameStart (lowerChar c) = true := by
  rcases lowerChar_eq_or_isNameStart (isNameChar_of_isNameStart hc) with h | h
  · rwa [h]
  · exact h

private theorem isNameStart_lowerSigma (before after : List Char) :
    isNameStart (lowerSigma before after) = true := by
  rw [lowerSigma]
  split <;> rfl

private theorem forall_isNameChar_lowerAfter {cs : List Char} (h : ∀ c ∈ cs, isNameChar c = true)
    (before : List Char) : ∀ c ∈ lowerAfter before cs, isNameChar c = true := by
  induction cs generalizing before with
  | nil => exact nofun
  | cons c cs ih =>
    obtain ⟨hc, hcs⟩ := List.forall_mem_cons.1 h
    rw [lowerAfter]
    refine List.forall_mem_append.2 ⟨?_, ih hcs _⟩
    split
    · simpa using isNameChar_of_isNameStart (isNameStart_lowerSigma before cs)
    · split
      · exact List.all_eq_true.1 rfl
      · simpa using isNameChar_lowerChar hc

/-- A name in lower case is a name. -/
theorem Xml.IsName.lower {s : String} (h : IsName s.toList) : IsName (Text.lower s).toList := by
  rw [Text.lower, String.toList_ofList]
  obtain ⟨c, cs, hs, hc, hcs⟩ := h
  have hrest := forall_isNameChar_lowerAfter hcs [c]
  rw [hs, lowerAfter]
  split
  · exact ⟨_, _, rfl, isNameStart_lowerSigma _ _, hrest⟩
  · split
    · exact ⟨_, _, rfl, by decide, List.forall_mem_cons.2 ⟨by decide, hrest⟩⟩
    · exact ⟨_, _, rfl, isNameStart_lowerChar hc, hrest⟩

theorem Element.isName_kind {e : Element} (h : IsName e.name.toList) : IsName e.kind.toList :=
  h.lower

/-- The tag name of a type that is a name is a name. -/
theorem TagName.isName_ofKind {kind : String} (h : IsName kind.toList) :
    IsName (ofKind kind).toList := by
  have hmixed : ∀ name ∈ mixedCase, IsName name.toList := by decide
  rw [ofKind]
  cases hfind : mixedCase.find? fun name ↦ eqIgnoringAsciiCase name kind with
  | none => exact h
  | some name => exact hmixed name (List.mem_of_find?_eq_some hfind)

/-! ## Letter case -/

/-- No run of letters is lowered to a capital letter of ASCII. -/
private theorem lowerCaseRuns_beyond_capitals :
    ∀ r ∈ Table.lowerCaseRuns, ('Z'.toNat : Int) < r.1 + r.2.2.2 := by decide +kernel

private theorem asciiLower_of_lt {c : Char} (h : 'Z'.toNat < c.toNat) : asciiLower c = c := by
  rw [asciiLower, if_neg fun hc ↦ Nat.not_lt.2 hc.2 h]

private theorem asciiLower_ofNat {n : Nat} (h : 'Z'.toNat < n) :
    asciiLower (Char.ofNat n) = Char.ofNat n := by
  by_cases hvalid : n.isValidChar
  · have hnumber : (Char.ofNat n).toNat = n := by
      rw [Char.ofNat, dif_pos hvalid]
      rfl
    exact asciiLower_of_lt (hnumber.symm ▸ h)
  · rw [Char.ofNat, dif_neg hvalid]
    rfl

/-- A lowered character is no capital letter of ASCII. -/
theorem asciiLower_lowerChar (c : Char) : asciiLower (lowerChar c) = lowerChar c := by
  have hascii : ∀ n < 0x80, asciiLower (asciiLower (Char.ofNat n)) = asciiLower (Char.ofNat n) := by
    decide
  rw [lowerChar]
  by_cases hc : c.toNat < 0x80
  · rw [if_pos hc]
    simpa only [Char.ofNat_toNat] using hascii c.toNat hc
  simp only [if_neg hc]
  split
  · next first last step shift hfind =>
    have hbeyond := lowerCaseRuns_beyond_capitals _ (List.mem_of_find?_eq_some hfind)
    have hholds := List.find?_some hfind
    simp only [Bool.and_eq_true, decide_eq_true_eq] at hholds hbeyond
    exact asciiLower_ofNat (by omega)
  · exact asciiLower_of_lt (Nat.lt_of_lt_of_le (by decide) (Nat.not_lt.1 hc))

/-- A text in lower case has no capital letters of ASCII. -/
theorem map_asciiLower_lower (s : String) :
    (lower s).toList.map asciiLower = (lower s).toList := by
  have hafter : ∀ cs before, (lowerAfter before cs).map asciiLower = lowerAfter before cs := by
    intro cs
    induction cs with
    | nil => exact fun _ ↦ rfl
    | cons c cs ih =>
      intro before
      rw [lowerAfter]
      simp only [List.map_append, ih]
      split
      · rw [lowerSigma]
        split <;> rfl
      · split
        · rfl
        · rw [List.map_singleton, asciiLower_lowerChar]
  rw [lower, String.toList_ofList, hafter]

/-- What a run of letters is lowered to stands in no run, and is neither of the two letters that are
lowered in a way of their own. -/
private theorem lowerCaseRuns_lowered : ∀ r ∈ Table.lowerCaseRuns,
    (∀ s ∈ Table.lowerCaseRuns, (r.2.1 + r.2.2.2 < s.1 ∨ (s.2.1 : Int) < r.1 + r.2.2.2) ∨
      s.2.2.1 = 2 ∧ (r.2.2.1 = 2 ∨ r.1 = r.2.1) ∧ (r.1 + r.2.2.2 - s.1) % 2 = 1) ∧
    ∀ n ∈ ['Σ'.toNat, 'İ'.toNat], r.2.1 + r.2.2.2 < n ∨ (n : Int) < r.1 + r.2.2.2 ∨
      r.1 = r.2.1 ∧ r.1 + r.2.2.2 ≠ n ∨ r.2.2.1 = 2 ∧ (r.1 + r.2.2.2 - n) % 2 = 1 := by
  decide +kernel

/-- Whether lowering leaves a character as it is, wherever it stands. -/
private def IsLowered (c : Char) : Prop := c ≠ 'Σ' ∧ c ≠ 'İ' ∧ lowerChar c = c

private instance (c : Char) : Decidable (IsLowered c) :=
  inferInstanceAs (Decidable (c ≠ 'Σ' ∧ c ≠ 'İ' ∧ lowerChar c = c))

/-- A character that a run of letters is lowered to is lowered. -/
private theorem isLowered_ofNat {r : Nat × Nat × Nat × Int} (hr : r ∈ Table.lowerCaseRuns) {n : Nat}
    (hfirst : r.1 ≤ n) (hlast : n ≤ r.2.1) (hstep : (n - r.1) % r.2.2.1 = 0) :
    IsLowered (Char.ofNat (n + r.2.2.2).toNat) := by
  obtain ⟨hruns, hletters⟩ := lowerCaseRuns_lowered r hr
  have hbeyond := lowerCaseRuns_beyond_capitals r hr
  generalize ht : (n + r.2.2.2).toNat = t
  have htn : (t : Int) = n + r.2.2.2 := by omega
  by_cases hvalid : t.isValidChar
  case neg =>
    rw [Char.ofNat, dif_neg hvalid]
    decide
  have hnumber : (Char.ofNat t).toNat = t := by
    rw [Char.ofNat, dif_pos hvalid]
    rfl
  have hne : ∀ c, c.toNat ∈ ['Σ'.toNat, 'İ'.toNat] → Char.ofNat t ≠ c := by
    intro c hc heq
    have hc := hletters c.toNat hc
    rw [← heq, hnumber] at hc
    rcases hc with h | h | ⟨h, h'⟩ | ⟨h, h'⟩
    · omega
    · omega
    · omega
    · rw [h] at hstep
      omega
  refine ⟨hne _ (by decide), hne _ (by decide), ?_⟩
  rw [lowerChar]
  by_cases hascii : (Char.ofNat t).toNat < 0x80
  · rw [if_pos hascii]
    exact asciiLower_of_lt (by omega)
  simp only [if_neg hascii]
  split
  · next first last step shift hfind =>
    have hs := hruns _ (List.mem_of_find?_eq_some hfind)
    have hholds := List.find?_some hfind
    simp only [hnumber, Bool.and_eq_true, decide_eq_true_eq, beq_iff_eq] at hholds hs
    obtain ⟨⟨hlow, hhigh⟩, hmod⟩ := hholds
    rcases hs with (h | h) | ⟨h, h', hodd⟩
    · omega
    · omega
    · rw [h] at hmod
      rcases h' with h' | h'
      · rw [h'] at hstep
        omega
      · omega
  · rfl

private theorem isLowered_lowerChar {c : Char} (hsigma : c ≠ 'Σ') (hdotted : c ≠ 'İ') :
    IsLowered (lowerChar c) := by
  have hascii : ∀ n < 0x80, IsLowered (asciiLower (Char.ofNat n)) := by decide
  by_cases hc : c.toNat < 0x80
  · rw [lowerChar, if_pos hc]
    simpa only [Char.ofNat_toNat] using hascii c.toNat hc
  have hcases : lowerChar c = c ∨ ∃ r ∈ Table.lowerCaseRuns, r.1 ≤ c.toNat ∧ c.toNat ≤ r.2.1 ∧
      (c.toNat - r.1) % r.2.2.1 = 0 ∧ lowerChar c = Char.ofNat (c.toNat + r.2.2.2).toNat := by
    rw [lowerChar, if_neg hc]
    simp only
    split
    · next first last step shift hfind =>
      have hholds := List.find?_some hfind
      simp only [Bool.and_eq_true, decide_eq_true_eq, beq_iff_eq] at hholds
      exact .inr ⟨_, List.mem_of_find?_eq_some hfind, hholds.1.1, hholds.1.2, hholds.2, rfl⟩
    · exact .inl rfl
  rcases hcases with h | ⟨r, hr, hfirst, hlast, hstep, h⟩
  · rw [h]
    exact ⟨hsigma, hdotted, h⟩
  · rw [h]
    exact isLowered_ofNat hr hfirst hlast hstep

/-- **A text in lower case stays as it is when it is lowered once more.** -/
theorem lower_lower (s : String) : lower (lower s) = lower s := by
  have hlowered : ∀ cs before, ∀ c ∈ lowerAfter before cs, IsLowered c := by
    intro cs
    induction cs with
    | nil => exact fun _ ↦ nofun
    | cons c cs ih =>
      intro before
      rw [lowerAfter]
      refine List.forall_mem_append.2 ⟨?_, ih _⟩
      split
      · rw [List.forall_mem_singleton, lowerSigma]
        split <;> decide
      · split
        · exact List.forall_mem_cons.2 ⟨by decide, List.forall_mem_singleton.2 (by decide)⟩
        · next hsigma hdotted =>
          exact List.forall_mem_singleton.2 (isLowered_lowerChar hsigma hdotted)
  have hself : ∀ cs before, (∀ c ∈ cs, IsLowered c) → lowerAfter before cs = cs := by
    intro cs
    induction cs with
    | nil => exact fun _ _ ↦ rfl
    | cons c cs ih =>
      intro before h
      obtain ⟨⟨hsigma, hdotted, hc⟩, hcs⟩ := List.forall_mem_cons.1 h
      rw [lowerAfter, if_neg hsigma, if_neg hdotted, hc, ih _ hcs, List.singleton_append]
  have hstays := hself (lower s).toList [] (by
    rw [lower, String.toList_ofList]
    exact hlowered s.toList [])
  rw [lower, hstays, String.ofList_toList]

/-- The tag name that a type gets back is of that type. -/
theorem TagName.lower_ofKind_lower (name : String) :
    lower (ofKind (lower name)) = lower name := by
  have hmixed : ∀ tag ∈ mixedCase, (lower tag).toList = tag.toList.map asciiLower := by
    decide +kernel
  rw [ofKind]
  cases hfind : mixedCase.find? fun tag ↦ eqIgnoringAsciiCase tag (lower name) with
  | none => exact lower_lower name
  | some tag =>
    have hequal := List.find?_some hfind
    rw [eqIgnoringAsciiCase, beq_iff_eq, map_asciiLower_lower] at hequal
    rw [Option.getD_some, ← String.toList_inj, hmixed tag (List.mem_of_find?_eq_some hfind), hequal]

/-- Types differ in more than letter case. -/
theorem Element.eqIgnoringAsciiCase_kind_iff {e e' : Element} :
    eqIgnoringAsciiCase e.kind e'.kind = true ↔ e.kind = e'.kind := by
  rw [eqIgnoringAsciiCase, beq_iff_eq, Element.kind, Element.kind, map_asciiLower_lower,
    map_asciiLower_lower, String.toList_inj]
end SvgWorkbench
