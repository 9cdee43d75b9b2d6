import SvgWorkbench.Gate.Tag
import SvgWorkbench.Proofs.Gate.Lexeme
import SvgWorkbench.Proofs.Markup.Tag

/-!
# Tags the check lets through

The strict check scans a tag by its grammar. The reader cuts it off at the first greater-than sign
outside quotes and takes it apart afterwards. On a tag that the check lets through both find the
same: the same end, the same tag name and the same attributes. What the check has scanned is
described by the text alone, so that the two scans can be compared without a word about either.
-/

namespace SvgWorkbench.Gate

open Text Xml

/-! ## Qualified names -/

theorem qname_eq_ok_iff {cs rest : List Char} {q : QName} :
    qname cs = .ok (q, rest) ↔
      QName.ofChars? (cs.takeWhile isNameChar) = some q ∧ rest = cs.dropWhile isNameChar := by
  rw [qname]
  cases QName.ofChars? (cs.takeWhile isNameChar) with
  | none => simp [fail]
  | some q' => simp [eq_comm]

theorem splitFirst_eq_some {sep : Char} {cs before after : List Char}
    (h : splitFirst sep cs = some (before, after)) : cs = before ++ sep :: after := by
  induction cs generalizing before with
  | nil => cases h
  | cons c cs ih =>
    rw [splitFirst] at h
    split at h
    · next hc =>
      cases h
      rw [hc, List.nil_append]
    · obtain ⟨p, hp, heq⟩ := Option.map_eq_some_iff.1 h
      cases heq
      rw [ih hp, List.cons_append]

/-- A run of name characters that is a qualified name is a name of XML. -/
theorem isName_of_ofChars? {run : List Char} {q : QName} (h : QName.ofChars? run = some q)
    (hrun : ∀ c ∈ run, isNameChar c = true) : IsName run := by
  cases run with
  | nil => cases h
  | cons c run =>
    refine ⟨c, run, rfl, ?_, (List.forall_mem_cons.1 hrun).2⟩
    rw [QName.ofChars?] at h
    split at h
    · split at h
      · cases h
      · next hstart => simpa [startsName] using hstart
    · next space base hsplit =>
      split at h
      · cases h
      next hstart =>
      cases space with
      | nil => exact (List.cons.inj (splitFirst_eq_some hsplit)).1 ▸ rfl
      | cons d space =>
        have hd : startsName (d :: space) = true := by
          simp only [Bool.or_eq_true, Bool.not_eq_true', not_or, Bool.not_eq_false] at hstart
          exact hstart.1.2
        exact (List.cons.inj (splitFirst_eq_some hsplit)).1 ▸ hd

/-! ## The inside of a tag -/

/-- A value goes up to its quote, and there is no sign in it that opens a tag. -/
private theorem charsUntil_value_eq_ok_iff (quote : Char) {cs value rest : List Char} :
    charsUntil (fun r ↦ r.head? == some quote || r.head? == some '<') cs = .ok (value, rest) ↔
      cs = value ++ rest ∧ (∀ c ∈ value, isDocumentChar c = true ∧ c ≠ quote ∧ c ≠ '<') ∧
        ∀ c more, rest = c :: more → (c = quote ∨ c = '<') ∧ isDocumentChar c = true := by
  rw [charsUntil_eq_ok_iff_of_next (fun c ↦ c == quote || c == '<') fun c more ↦ by simp]
  simp only [Bool.or_eq_true, Bool.or_eq_false_iff, beq_iff_eq, beq_eq_false_iff_ne, ne_eq]

/-- An attribute that is scanned is a name, an equals sign and a value between quotes. -/
theorem writtenAttribute_eq_ok_iff {cs rest : List Char} {a : Attribute} :
    writtenAttribute cs = .ok (a, rest) ↔
      ∃ key before after quote,
        cs = key ++ (before ++ '=' :: (after ++ quote :: (a.value ++ quote :: rest))) ∧
        (∀ c ∈ key, isNameChar c = true) ∧ QName.ofChars? key = some a.qname ∧
        (∀ c ∈ before, isSpace c = true) ∧ (∀ c ∈ after, isSpace c = true) ∧
        (quote = '"' ∨ quote = '\x27') ∧
        (∀ c ∈ a.value, isDocumentChar c = true ∧ c ≠ quote ∧ c ≠ '<') ∧
        a.start = cs.length ∧ a.valueEnd = rest.length + 1 := by
  simp only [writtenAttribute, equals, bind_eq_ok_iff, Prod.exists, pure_eq_ok_iff, Prod.mk.injEq,
    qname_eq_ok_iff, char_eq_ok_iff, quote_eq_ok_iff]
  constructor
  · rintro ⟨q, _, ⟨hq, rfl⟩, _, ⟨afterEquals, hequals, rfl⟩, quote, _, ⟨hopen, hquote⟩, value, _,
      hvalue, _, rfl, rfl, rfl⟩
    obtain ⟨rfl, hchars, -⟩ := (charsUntil_value_eq_ok_iff quote).1 hvalue
    obtain ⟨key, hkey, hkey'⟩ := exists_append_dropWhile isNameChar cs
    obtain ⟨before, hbefore, hbefore'⟩ := exists_append_dropWhile isSpace (cs.dropWhile isNameChar)
    obtain ⟨after, hafter, hafter'⟩ := exists_append_dropWhile isSpace afterEquals
    rw [← skipSpaces, hequals] at hbefore
    rw [← skipSpaces, hopen] at hafter
    have hrun : cs.takeWhile isNameChar = key := by
      have := List.takeWhile_append_dropWhile (p := isNameChar) (l := cs)
      conv at this => rhs; rw [hkey]
      exact List.append_cancel_right this
    refine ⟨key, before, after, quote, ?_, hkey', hrun ▸ hq, hbefore', hafter', hquote, hchars, rfl,
      rfl⟩
    rw [← hafter, ← hbefore, ← hkey]
  · rintro ⟨key, before, after, quote, rfl, hkey, hq, hbefore, hafter, hquote, hvalue, hstart, hend⟩
    have hquote' : isSpace quote = false := by rcases hquote with rfl | rfl <;> rfl
    -- the name ends at the first space or, without one, at the equals sign
    obtain ⟨x, xs, hx, hx'⟩ : ∃ x xs, before ++ '=' :: (after ++ quote :: (a.value ++ quote :: rest))
        = x :: xs ∧ isNameChar x = false := by
      cases before with
      | nil => exact ⟨'=', _, rfl, rfl⟩
      | cons b before =>
        refine ⟨b, _, rfl, ?_⟩
        rcases isSpace_cases (hbefore b List.mem_cons_self) with rfl | rfl | rfl | rfl <;> rfl
    refine ⟨a.qname, _, ⟨?_, rfl⟩, _, ⟨after ++ quote :: (a.value ++ quote :: rest), ?_, rfl⟩, quote,
      _, ⟨dropWhile_until hafter hquote' _, hquote⟩, a.value, quote :: rest, ?_, rest, rfl, ?_, rfl⟩
    · rw [hx, takeWhile_until hkey hx', hq]
    · rw [hx, dropWhile_until hkey hx', ← hx]
      exact dropWhile_until hbefore rfl _
    · refine (charsUntil_value_eq_ok_iff quote).2 ⟨rfl, hvalue, fun c more heq ↦ ?_⟩
      cases heq
      rcases hquote with rfl | rfl <;> exact ⟨.inl rfl, rfl⟩
    · rw [List.length_cons, ← hend, ← hstart]

/-- What follows the attributes at each end of a tag. -/
def TagEnd.text : TagEnd → List Char
  | .empty => ['/', '>']
  | .opened => ['>']
  | .cut => []

/-- A tag whose scan ends well is a tag name, attributes and an end. -/
theorem tagParts_of_tagBody {cs rest : List Char} {as : List Attribute} {ending : TagEnd}
    (h : tagBody cs = (as, .ok ending, rest)) :
    ∃ body parts, Markup.TagParts body parts ∧ cs = body ++ (ending.text ++ rest) ∧
      (ending = .cut → rest = []) ∧
      parts.map (fun part ↦ (QName.ofChars? part.1, part.2))
        = as.map (fun a ↦ (some a.qname, a.value)) ∧
      ∀ a ∈ as, ∀ c ∈ a.value, isDocumentChar c = true := by
  fun_induction tagBody cs generalizing as with
  | case1 =>
    cases h
    exact ⟨[], [], .nil (List.forall_mem_nil _), rfl, fun _ ↦ rfl, rfl, List.forall_mem_nil _⟩
  | case2 => cases h
  | case3 c cs' after hskip rest' hchar =>
    cases h
    obtain ⟨spaces, hsplit, hspaces⟩ := exists_append_dropWhile isSpace (c :: cs')
    refine ⟨spaces, [], .nil hspaces, ?_, by rintro ⟨⟩, rfl, List.forall_mem_nil _⟩
    rw [hsplit, ← skipSpaces, hskip, char_eq_ok_iff.1 hchar]
    rfl
  | case4 => cases h
  | case5 c cs' rest' hskip =>
    cases h
    obtain ⟨spaces, hsplit, hspaces⟩ := exists_append_dropWhile isSpace (c :: cs')
    refine ⟨spaces, [], .nil hspaces, ?_, by rintro ⟨⟩, rfl, List.forall_mem_nil _⟩
    rw [hsplit, ← skipSpaces, hskip]
    rfl
  | case6 => cases h
  | case7 => cases h
  | case8 c cs' hc a rest' hattribute as' ending' after hbody hne hslash hgt ih =>
    cases h
    obtain ⟨body, parts, hparts, rfl, hcut, hsame, hchars⟩ := ih hbody
    obtain ⟨key, before, after', quote, hcs, hname, hq, hbefore, hafter, hquote, hvalue, -⟩ :=
      writtenAttribute_eq_ok_iff.1 hattribute
    obtain ⟨spaces, hsplit, hspaces⟩ := exists_append_dropWhile isSpace (c :: cs')
    -- without a space in front the scan would not have come to an attribute
    have hspaces' : spaces ≠ [] := by
      rintro rfl
      rw [List.nil_append, List.dropWhile_cons] at hsplit
      split at hsplit
      · have := congrArg List.length hsplit
        have := (List.dropWhile_suffix isSpace : _ <:+ cs').length_le
        simp only [List.length_cons] at *
        omega
      · simp_all
    refine ⟨_, (key, a.value) :: parts, .cons hspaces hspaces' (isName_of_ofChars? hq hname) hbefore
      hafter hquote (fun hmem ↦ (hvalue quote hmem).2.1 rfl) hparts, ?_, hcut, ?_, ?_⟩
    · rw [hsplit, ← skipSpaces, hcs]
      simp
    · rw [List.map_cons, List.map_cons, hq, hsame]
    · exact List.forall_mem_cons.2 ⟨fun c hc ↦ (hvalue c hc).1, hchars⟩

end SvgWorkbench.Gate
