import SvgWorkbench.Proofs.Markup.Tag

/-!
# Written nodes are cut off token by token

Text, tags, comments, instructions and document types are written in such a way that the reader cuts
them off again as one token each. For tags this needs names of XML. For the others it needs that
their text does not end the construct earlier, which holds of everything the reader ever finds
there: a comment has no end mark of a comment inside, an instruction no greater-than sign, and a
document type is balanced at its end and not before.

Messages count octets, so a token comes with its size. None of the laws here depends on it.
-/

namespace SvgWorkbench.Markup

open Text Xml

/-! ## Constructs that start with an exclamation mark -/

/-- The cut is at the first greater-than sign that closes. -/
theorem cutAtEnd_eq_some_iff {closes : List Char → Bool} {before cs body rest : List Char} :
    cutAtEnd closes before cs = some (body, rest) ↔
      ∃ inside, body = before.reverse ++ inside ∧ cs = inside ++ '>' :: rest ∧
        closes (inside.reverse ++ before) = true ∧
        ∀ a b, inside = a ++ '>' :: b → closes (a.reverse ++ before) = false := by
  induction cs generalizing before with
  | nil => simp [cutAtEnd]
  | cons c cs ih =>
    rw [cutAtEnd]
    by_cases hc : (c = '>' && closes before) = true
    · rw [if_pos hc]
      obtain ⟨rfl, hcloses⟩ : c = '>' ∧ closes before = true := by simpa using hc
      constructor
      · intro h
        cases h
        exact ⟨[], by simp, rfl, by simpa using hcloses, by simp⟩
      · rintro ⟨inside, rfl, hcs, -, hfirst⟩
        cases inside with
        | nil =>
          cases hcs
          simp
        | cons x inside =>
          rw [List.cons_append, List.cons.injEq] at hcs
          have := hfirst [] inside (by rw [← hcs.1]; rfl)
          rw [List.reverse_nil, List.nil_append, hcloses] at this
          cases this
    · rw [if_neg hc, ih]
      constructor
      · rintro ⟨inside, rfl, rfl, hcloses, hfirst⟩
        refine ⟨c :: inside, by simp, rfl, by simpa using hcloses, fun a b hab ↦ ?_⟩
        cases a with
        | nil =>
          cases hab
          simpa using hc
        | cons x a =>
          cases hab
          simpa using hfirst a b rfl
      · rintro ⟨inside, rfl, hcs, hcloses, hfirst⟩
        cases inside with
        | nil =>
          rw [List.nil_append, List.cons.injEq] at hcs
          exact absurd (by simp [hcs.1, show closes before = true by simpa using hcloses]) hc
        | cons x inside =>
          cases hcs
          refine ⟨inside, by simp, rfl, by simpa using hcloses, fun a b hab ↦ ?_⟩
          simpa using hfirst (c :: a) b (by rw [hab, List.cons_append])

/-- Nothing closes before the first greater-than sign. -/
theorem cutAtEnd_append {closes : List Char → Bool} {cs : List Char} (h : '>' ∉ cs)
    (before ds : List Char) :
    cutAtEnd closes before (cs ++ ds) = cutAtEnd closes (cs.reverse ++ before) ds := by
  induction cs generalizing before with
  | nil => rfl
  | cons c cs ih =>
    have hc : c ≠ '>' := fun hc ↦ h (hc ▸ List.mem_cons_self)
    rw [List.cons_append, cutAtEnd, if_neg (by simp [hc]),
      ih fun hmem ↦ h (List.mem_cons_of_mem c hmem), List.reverse_cons, List.append_assoc]
    rfl

/-! ## What the reader finds between two marks -/

/-- Whether a text may stand in a comment: the end mark of a comment is not in it. -/
def IsComment (cs : List Char) : Prop := ¬ Mark.closeComment <:+: cs

/-- Whether a text may stand in an instruction. -/
def IsInstruction (cs : List Char) : Prop := cs ≠ [] ∧ '>' ∉ cs

/-- Whether a text may follow the word of a document type declaration: it does not start blank, and
its angle brackets are balanced at its end and before none of its greater-than signs. -/
structure IsDoctype (cs : List Char) : Prop where
  /-- It starts with a character that is not blank. -/
  starts : ∃ c more, cs = c :: more ∧ isBlank c = false
  /-- The brackets are balanced at the end. -/
  balanced : endsDoctype cs.reverse = true
  /-- The brackets are not balanced before a greater-than sign. -/
  first : ∀ a b, cs = a ++ '>' :: b → endsDoctype a.reverse = false

/-- A text starts with a token, whatever its place, and goes on with a rest. -/
def Cuts (innermost : Option String) (cs : List Char) (token : Token) (rest : List Char) : Prop :=
  ∀ offset, ∃ size, cut innermost offset cs = .ok ⟨token, size, rest⟩

/-- A comment ends here if it ends in two hyphens after those of its start. -/
private theorem endsComment_iff {cs : List Char} :
    endsComment ('!' :: '-' :: '-' :: cs).reverse = true ↔ ['-', '-'] <:+ cs := by
  rw [endsComment, Bool.and_eq_true, startsWith_iff, ← List.reverse_suffix,
    List.reverse_reverse, decide_eq_true_eq]
  constructor
  · rintro ⟨hlength, x, hx⟩
    simp only [List.length_reverse, List.length_cons] at hlength
    have hcs : ['-', '-'].length ≤ cs.length := by
      simp only [List.length_cons, List.length_nil]
      omega
    exact List.suffix_of_suffix_length_le ⟨x, hx⟩ (List.suffix_append ['!', '-', '-'] cs) hcs
  · rintro ⟨x, rfl⟩
    exact ⟨by simp, ⟨'!' :: '-' :: '-' :: x, rfl⟩⟩

/-- The first greater-than sign of a comment stands after its opening mark. -/
private theorem openComment_of_append {cs a b : List Char}
    (h : '!' :: '-' :: '-' :: cs = a ++ '>' :: b) :
    ∃ t, a = '!' :: '-' :: '-' :: t ∧ cs = t ++ '>' :: b := by
  rcases a with _ | ⟨x, _ | ⟨y, _ | ⟨z, t⟩⟩⟩ <;> simp at h
  obtain ⟨rfl, rfl, rfl, h⟩ := h
  exact ⟨t, rfl, h⟩

/-- A comment is cut where its text says. -/
theorem cutAtEnd_comment_iff {cs body rest : List Char} :
    cutAtEnd endsComment [] ('!' :: '-' :: '-' :: cs) = some (body, rest) ↔
      ∃ s, IsComment s ∧ body = '!' :: '-' :: '-' :: (s ++ ['-', '-']) ∧
        cs = s ++ Mark.closeComment ++ rest := by
  rw [cutAtEnd_eq_some_iff]
  constructor
  · rintro ⟨inside, rfl, hcs, hcloses, hfirst⟩
    obtain ⟨t, rfl, rfl⟩ := openComment_of_append hcs
    rw [List.append_nil, endsComment_iff] at hcloses
    obtain ⟨s, rfl⟩ := hcloses
    refine ⟨s, ?_, rfl, by simp [Mark.closeComment]⟩
    rintro ⟨a, b, rfl⟩
    have := hfirst ('!' :: '-' :: '-' :: (a ++ ['-', '-'])) (b ++ ['-', '-'])
      (by simp [Mark.closeComment])
    rw [List.append_nil, endsComment_iff.2 (List.suffix_append a _)] at this
    cases this
  · rintro ⟨s, hs, rfl, rfl⟩
    refine ⟨_, rfl, by simp [Mark.closeComment], ?_, fun a b hab ↦ ?_⟩
    · rw [List.append_nil, endsComment_iff]
      exact List.suffix_append s _
    · obtain ⟨t, rfl, ht⟩ := openComment_of_append hab
      rw [List.append_nil, Bool.eq_false_iff, ne_eq, endsComment_iff]
      rintro ⟨x, rfl⟩
      have hwithin : ['-', '-'] ++ ['>'] <:+: s ++ ['-', '-'] := ⟨x, b, by rw [ht]; simp⟩
      exact hs (infix_of_infix_append hwithin (by decide))

/-! ## Written constructs -/

/-- A construct whose end is found and whose text fits is cut off. -/
private theorem cuts_construct (what : Construct) {closes : List Char → Bool} {token : Token}
    {c : Char} {cs body rest : List Char}
    (hend : cutAtEnd closes [] ('!' :: c :: cs) = some (body, rest))
    (htoken : what.token body = .ok token) (innermost : Option String)
    (hkind : ∀ offset, cutBang offset ('!' :: c :: cs)
      = cutConstruct what closes offset ('!' :: c :: cs)) :
    Cuts innermost ('<' :: '!' :: c :: cs) token rest := by
  intro offset
  refine ⟨octets body + 2, ?_⟩
  rw [cut, hkind, cutConstruct, hend]
  simp only [htoken]

theorem cuts_comment {s : List Char} (h : IsComment s) (innermost : Option String)
    (rest : List Char) :
    Cuts innermost (Mark.openComment ++ (s ++ (Mark.closeComment ++ rest))) (.comment s) rest := by
  have hend : cutAtEnd endsComment [] ('!' :: '-' :: '-' :: (s ++ (Mark.closeComment ++ rest)))
      = some ('!' :: '-' :: '-' :: (s ++ ['-', '-']), rest) :=
    cutAtEnd_comment_iff.2 ⟨s, h, rfl, by rw [List.append_assoc]⟩
  refine cuts_construct .comment hend ?_ innermost fun offset ↦ by simp [cutBang]
  simp [Construct.token, Mark.openComment, afterPrefix?]

/-- An instruction ends at the first greater-than sign, before which a question mark must stand. -/
private theorem cut_instruction {front : List Char} (hfront : '>' ∉ front)
    (innermost : Option String) (offset : Nat) (rest : List Char) : ∃ size fault,
      cut innermost offset (Mark.openInstruction ++ (front ++ '>' :: rest))
        = if 1 < front.length ∧ front.getLast? = some '?' then
            .ok ⟨.instruction front.dropLast, size, rest⟩
          else .error fault := by
  have hbody : ∀ c ∈ '?' :: front, decide (c ≠ '>') = true := by
    intro c hc
    rcases List.mem_cons.1 hc with rfl | hc
    · rfl
    · exact decide_eq_true fun heq ↦ hfront (heq ▸ hc)
  have hcut : cut innermost offset (Mark.openInstruction ++ (front ++ '>' :: rest))
      = cutInstruction offset ('?' :: front ++ '>' :: rest) := rfl
  have hiff : (2 < ('?' :: front).length && ('?' :: front).getLast? == some '?') = true ↔
      1 < front.length ∧ front.getLast? = some '?' := by
    cases front with
    | nil => simp
    | cons c front => simp [List.getLast?_cons_cons]
  refine ⟨octets ('?' :: front) + 1 + octets ['>'], ?_⟩
  rw [hcut, cutInstruction]
  simp only [takeWhile_until hbody (x := '>') rfl rest, dropWhile_until hbody (x := '>') rfl rest]
  by_cases h : 1 < front.length ∧ front.getLast? = some '?'
  · exact ⟨⟨0, .unfinished .instruction⟩, by rw [if_pos (hiff.2 h), if_pos h]; rfl⟩
  · rw [if_neg fun h' ↦ h (hiff.1 h')]
    exact ⟨_, (if_neg h).symm⟩

theorem cuts_instruction {s : List Char} (h : IsInstruction s) (innermost : Option String)
    (rest : List Char) :
    Cuts innermost (Mark.openInstruction ++ (s ++ (Mark.closeInstruction ++ rest)))
      (.instruction s) rest := by
  intro offset
  have hfront : '>' ∉ s ++ ['?'] := by simpa using h.2
  have hlength : 1 < (s ++ ['?']).length := by
    have := List.length_pos_iff.2 h.1
    simp only [List.length_append, List.length_cons, List.length_nil]
    omega
  obtain ⟨size, fault, hcut⟩ := cut_instruction hfront innermost offset rest
  rw [if_pos ⟨hlength, List.getLast?_concat⟩, List.dropLast_concat, List.append_assoc] at hcut
  exact ⟨size, hcut⟩

/-- An instruction is cut off at its first greater-than sign, or it is not. -/
theorem cuts_or_fault_of_instruction {front : List Char} (hfront : '>' ∉ front)
    (rest : List Char) :
    (∃ s, ∀ innermost,
        Cuts innermost (Mark.openInstruction ++ (front ++ '>' :: rest)) (.instruction s) rest) ∨
      ∀ innermost offset, ∃ fault,
        cut innermost offset (Mark.openInstruction ++ (front ++ '>' :: rest)) = .error fault := by
  by_cases h : 1 < front.length ∧ front.getLast? = some '?'
  · refine .inl ⟨front.dropLast, fun innermost offset ↦ ?_⟩
    obtain ⟨size, fault, hcut⟩ := cut_instruction hfront innermost offset rest
    exact ⟨size, by rw [hcut, if_pos h]⟩
  · refine .inr fun innermost offset ↦ ?_
    obtain ⟨size, fault, hcut⟩ := cut_instruction hfront innermost offset rest
    exact ⟨fault, by rw [hcut, if_neg h]⟩

/-- An instruction with a greater-than sign inside is not cut off, unless a question mark stands
before the sign. -/
theorem exists_fault_of_instruction {s : List Char} (hmark : ¬ Mark.closeInstruction <:+: s)
    (hsign : '>' ∈ s) (innermost : Option String) (offset : Nat) (rest : List Char) :
    ∃ fault, cut innermost offset (Mark.openInstruction ++ (s ++ rest)) = .error fault := by
  obtain ⟨front, back, rfl, hfront⟩ := List.eq_append_cons_of_mem hsign
  obtain ⟨size, fault, hcut⟩ := cut_instruction hfront innermost offset (back ++ rest)
  have hlast : front.getLast? ≠ some '?' := by
    intro hlast
    obtain ⟨init, rfl⟩ := List.getLast?_eq_some_iff.1 hlast
    exact hmark ⟨init, back, by simp [Mark.closeInstruction]⟩
  rw [if_neg fun h ↦ hlast h.2] at hcut
  exact ⟨fault, by rw [List.append_assoc]; exact hcut⟩

private theorem endsCdata_iff {before : List Char} :
    endsCdata before = true ↔ [']', ']'] <:+ before.reverse := by
  rw [endsCdata, startsWith_iff, ← List.reverse_prefix, List.reverse_reverse]
  rfl

/-- A section is cut off at its first end mark. -/
theorem cuts_cdata {s : List Char} (h : ¬ Mark.closeSection <:+: s) (innermost : Option String)
    (rest : List Char) :
    Cuts innermost (Mark.openSection ++ (s ++ (Mark.closeSection ++ rest))) (.cdata s) rest := by
  have hend : cutAtEnd endsCdata [] (Mark.openSection.drop 1 ++ (s ++ (Mark.closeSection ++ rest)))
      = some (Mark.openSection.drop 1 ++ (s ++ [']', ']']), rest) := by
    generalize hopen : Mark.openSection.drop 1 = opening
    have hopening : ']' ∉ opening := by
      rw [← hopen]
      decide
    refine cutAtEnd_eq_some_iff.2 ⟨opening ++ (s ++ [']', ']']), rfl, by simp [Mark.closeSection],
      ?_, fun a b hab ↦ ?_⟩
    · rw [List.append_nil, endsCdata_iff, List.reverse_reverse, ← List.append_assoc]
      exact List.suffix_append _ _
    · rw [List.append_nil, Bool.eq_false_iff, ne_eq, endsCdata_iff, List.reverse_reverse]
      rintro ⟨front, rfl⟩
      -- an earlier end mark would stand in the text between the marks
      have hwithin : ']' :: [']', '>'] <:+: opening ++ (s ++ [']', ']']) :=
        ⟨front, b, by rw [hab]; simp⟩
      exact h (infix_of_infix_append (p := [']', ']']) (infix_of_append_of_notMem hwithin hopening)
        (by decide))
  exact cuts_construct .cdata hend (by simp [Construct.token, afterWord?, Mark.openSection])
    innermost fun offset ↦ by simp [cutBang]

/-- A beginning without angle brackets does not matter for the end of a document type. -/
theorem endsDoctype_append {before : List Char} (hlt : before.count '<' = 0)
    (hgt : before.count '>' = 0) (cs : List Char) :
    endsDoctype (cs ++ before) = endsDoctype cs := by
  simp [endsDoctype, hlt, hgt]

/-- Whether the angle brackets of a text are paired: it has as many of either, but not before any of
its greater-than signs. -/
structure IsPaired (cs : List Char) : Prop where
  /-- The brackets are balanced at the end. -/
  balanced : endsDoctype cs.reverse = true
  /-- The brackets are not balanced before a greater-than sign. -/
  first : ∀ a b, cs = a ++ '>' :: b → endsDoctype a.reverse = false

namespace IsPaired

theorem of_notMem {cs : List Char} (hlt : '<' ∉ cs) (hgt : '>' ∉ cs) : IsPaired cs := by
  refine ⟨?_, fun a b hab ↦ absurd (hab ▸ by simp) hgt⟩
  simp [endsDoctype, List.count_eq_zero.2 hlt, List.count_eq_zero.2 hgt]

theorem append {cs ds : List Char} (hc : IsPaired cs) (hd : IsPaired ds) : IsPaired (cs ++ ds) := by
  have hbefore : ∀ xs : List Char,
      endsDoctype (xs ++ cs.reverse) = endsDoctype xs := by
    intro xs
    have hcount := hc.balanced
    rw [endsDoctype, beq_iff_eq] at hcount
    rw [endsDoctype, endsDoctype, List.count_append, List.count_append, hcount, Bool.eq_iff_iff,
      beq_iff_eq, beq_iff_eq, Nat.add_right_cancel_iff]
  refine ⟨by rw [List.reverse_append, hbefore, hd.balanced], fun a b hab ↦ ?_⟩
  rcases List.append_eq_append_iff.1 hab with ⟨a', rfl, hds⟩ | ⟨c', hcs, hb⟩
  · rw [List.reverse_append, hbefore]
    exact hd.first a' b hds
  · cases c' with
    | nil =>
      rw [List.append_nil] at hcs
      rw [← hcs, ← List.nil_append cs.reverse, hbefore]
      exact hd.first [] b hb.symm
    | cons c c' =>
      obtain rfl := (List.cons.inj hb).1
      exact hc.first a c' hcs

/-- One bracket of either kind at the two ends is a pair. -/
theorem bracketed {cs : List Char} (hlt : '<' ∉ cs) (hgt : '>' ∉ cs) :
    IsPaired ('<' :: (cs ++ ['>'])) := by
  refine ⟨?_, fun a b hab ↦ ?_⟩
  · simp [endsDoctype, List.count_eq_zero.2 hlt, List.count_eq_zero.2 hgt]
  · have hgt' : '>' ∉ '<' :: cs := by simpa using hgt
    obtain rfl : a = '<' :: cs := by
      rw [← List.cons_append] at hab
      rcases List.append_eq_append_iff.1 hab with ⟨a', rfl, hb⟩ | ⟨c', hcs, hb⟩
      · cases a' with
        | nil => exact List.append_nil _
        | cons => simp at hb
      · cases c' with
        | nil => rw [hcs, List.append_nil]
        | cons c c' =>
          obtain rfl := (List.cons.inj hb).1
          exact absurd (hcs ▸ List.mem_append_right a List.mem_cons_self) hgt'
    simp [endsDoctype, List.count_eq_zero.2 hlt, List.count_eq_zero.2 hgt]

end IsPaired

/-- A document type is cut off at the first greater-than sign before which its brackets are
paired. -/
theorem cuts_doctype_of_isPaired {s : List Char} (h : IsPaired s) (hne : skipSpaces s ≠ [])
    (innermost : Option String) (rest : List Char) :
    Cuts innermost (Mark.doctype ++ (s ++ '>' :: rest)) (.doctype (skipSpaces s)) rest := by
  have hend : cutAtEnd endsDoctype [] (Mark.doctype.drop 1 ++ (s ++ '>' :: rest))
      = some (Mark.doctype.drop 1 ++ s, rest) := by
    have hlt : (Mark.doctype.drop 1).reverse.count '<' = 0 := by decide
    have hgt : (Mark.doctype.drop 1).reverse.count '>' = 0 := by decide
    rw [cutAtEnd_append (by decide)]
    refine cutAtEnd_eq_some_iff.2 ⟨s, by simp, rfl, ?_, fun a b hab ↦ ?_⟩
    · rw [List.append_nil, endsDoctype_append hlt hgt]
      exact h.balanced
    · rw [List.append_nil, endsDoctype_append hlt hgt]
      exact h.first a b hab
  refine cuts_construct .doctype hend ?_ innermost fun offset ↦ by simp [cutBang]
  have hword : afterWord? (Mark.doctype.drop 1) (Mark.doctype.drop 1 ++ s) = some s := by
    simp [afterWord?, Mark.doctype]
  simp only [Construct.token, hword]
  rw [if_neg (by simpa using hne)]

theorem cuts_doctype {spaces s : List Char} (hspaces : ∀ c ∈ spaces, isSpace c = true)
    (h : IsDoctype s) (innermost : Option String) (rest : List Char) :
    Cuts innermost (Mark.doctype ++ (spaces ++ (s ++ '>' :: rest))) (.doctype s) rest := by
  have hskip : skipSpaces (spaces ++ s) = s := by
    obtain ⟨c, more, rfl, hc⟩ := h.starts
    have hspace : isSpace c = false := by
      rw [Bool.eq_false_iff]
      intro hs
      rcases isSpace_cases hs with rfl | rfl | rfl | rfl <;> cases hc
    exact dropWhile_until hspaces hspace more
  have hpaired : IsPaired (spaces ++ s) :=
    (IsPaired.of_notMem (notMem_spaces hspaces rfl) (notMem_spaces hspaces rfl)).append
      ⟨h.balanced, h.first⟩
  have hne : skipSpaces (spaces ++ s) ≠ [] := by
    obtain ⟨c, more, rfl, -⟩ := h.starts
    rw [hskip]
    exact List.cons_ne_nil c more
  have hcuts := cuts_doctype_of_isPaired hpaired hne innermost rest
  rwa [hskip, List.append_assoc] at hcuts

/-! ## Tags -/

/-- A name does not start like a construct, close tag or instruction. -/
theorem cut_tag {key : List Char} (hkey : IsName key) (innermost : Option String)
    (offset : Nat) (ds : List Char) :
    cut innermost offset ('<' :: (key ++ ds)) = cutTag offset (key ++ ds) := by
  obtain ⟨c, more, rfl, hc, -⟩ := hkey
  have hne : ∀ x, isNameStart x = false → c ≠ x := by
    rintro x hx rfl
    rw [hc] at hx
    cases hx
  simp only [List.cons_append]
  unfold cut
  split
  · next heq => exact absurd (List.cons.inj (List.cons.inj heq).2).1 (hne _ rfl)
  · next heq => exact absurd (List.cons.inj (List.cons.inj heq).2).1 (hne _ rfl)
  · next heq => exact absurd (List.cons.inj (List.cons.inj heq).2).1 (hne _ rfl)
  · next heq => rw [← (List.cons.inj heq).2]
  · next hother => exact absurd rfl (hother _)

variable {key body : List Char} {parts : List (List Char × List Char)}

/-- A tag is passed over as a whole when its end is looked for. -/
private theorem cutTagBody_tag (hkey : IsName key) (h : TagParts body parts) (ds : List Char) :
    cutTagBody none (key ++ (body ++ ds))
      = (cutTagBody none ds).map fun p ↦ (key ++ body ++ p.1, p.2) := by
  rw [cutTagBody_append fun c hc ↦ ⟨hkey.ne rfl c hc, hkey.ne rfl c hc, hkey.ne rfl c hc⟩,
    h.cutTagBody_append, Option.map_map]
  simp [Function.comp_def]

theorem cuts_emptyTag (hkey : IsName key) (h : TagParts body parts) (innermost : Option String)
    (rest : List Char) :
    Cuts innermost ('<' :: (key ++ (body ++ '/' :: '>' :: rest))) (.emptyTag (key ++ body)) rest := by
  intro offset
  have hend : cutTagBody none (key ++ (body ++ '/' :: '>' :: rest))
      = some (key ++ body ++ ['/'], rest) := by
    rw [cutTagBody_tag hkey h]
    simp [cutTagBody]
  refine ⟨octets (key ++ body ++ ['/']) + 2, ?_⟩
  rw [cut_tag hkey, cutTag, hend]
  simp

theorem cuts_openTag (hkey : IsName key) (h : TagParts body parts) (innermost : Option String)
    (rest : List Char) :
    Cuts innermost ('<' :: (key ++ (body ++ '>' :: rest))) (.openTag (key ++ body)) rest := by
  intro offset
  have hend : cutTagBody none (key ++ (body ++ '>' :: rest)) = some (key ++ body, rest) := by
    rw [cutTagBody_tag hkey h]
    simp [cutTagBody]
  have hslash : (key ++ body).getLast? ≠ some '/' := by
    rw [List.getLast?_append]
    cases hlast : body.getLast? with
    | none =>
      rw [Option.none_or]
      exact fun hmem ↦ hkey.notMem rfl (List.mem_of_getLast? hmem)
    | some c => simpa [hlast] using h.getLast?_ne
  refine ⟨octets (key ++ body) + 2, ?_⟩
  rw [cut_tag hkey, cutTag, hend]
  simp only
  rw [if_neg (by simpa using hslash)]

/-- A tag that the text ends in is not cut off. -/
theorem exists_fault_of_tag (hkey : IsName key) (h : TagParts body parts)
    (innermost : Option String) (offset : Nat) :
    ∃ fault, cut innermost offset ('<' :: (key ++ body)) = .error fault := by
  have hend : cutTagBody none (key ++ (body ++ [])) = none := by
    rw [cutTagBody_tag hkey h]
    rfl
  rw [List.append_nil] at hend
  rw [cut_tag hkey, cutTag, hend]
  exact ⟨_, rfl⟩

/-! ## Close tags -/

/-- The spaces after a name do not belong to it. -/
private theorem trimName_append {key spaces : List Char} (hkey : IsName key)
    (hspaces : ∀ c ∈ spaces, isSpace c = true) : trimName (key ++ spaces) = key := by
  obtain ⟨c, cs, hcs⟩ := List.exists_cons_of_ne_nil (List.reverse_ne_nil_iff.2 hkey.ne_nil)
  have hc : isSpace c = false := by
    refine hkey.not_isSpace c (List.mem_reverse.1 ?_)
    rw [hcs]
    exact List.mem_cons_self
  have hname : ¬ (key ++ spaces).all isSpace = true := by
    intro hall
    have hmem : c ∈ key := by
      rw [← List.mem_reverse, hcs]
      exact List.mem_cons_self
    have hspace := List.all_eq_true.1 hall c (List.mem_append_left spaces hmem)
    rw [hc] at hspace
    cases hspace
  rw [trimName, if_neg hname, List.reverse_append, List.dropWhile_append_of_pos
    fun x hx ↦ hspaces x (List.mem_reverse.1 hx), hcs, List.dropWhile_cons_of_neg (by simp [hc]),
    ← hcs, List.reverse_reverse]

/-- A close tag ends at its greater-than sign, and its name is looked at. -/
private theorem cut_closeTag {key spaces : List Char} (hkey : IsName key)
    (hspaces : ∀ c ∈ spaces, isSpace c = true) (innermost : Option String) (offset : Nat)
    (rest : List Char) : ∃ size fault,
      cut innermost offset (Mark.closeTag ++ (key ++ (spaces ++ '>' :: rest)))
        = if innermost = some (String.ofList key) then .ok ⟨.closeTag, size, rest⟩
          else .error fault := by
  have hbody : ∀ c ∈ '/' :: (key ++ spaces), decide (c ≠ '>') = true := by
    intro c hc
    rw [List.mem_cons, List.mem_append] at hc
    rcases hc with rfl | hc | hc
    · rfl
    · exact decide_eq_true (hkey.ne rfl c hc)
    · rcases isSpace_cases (hspaces c hc) with rfl | rfl | rfl | rfl <;> rfl
  have hcut : cut innermost offset (Mark.closeTag ++ (key ++ (spaces ++ '>' :: rest)))
      = cutCloseTag innermost offset ('/' :: (key ++ spaces) ++ '>' :: rest) := by
    rw [List.cons_append, List.append_assoc]
    rfl
  refine ⟨octets ('/' :: (key ++ spaces)) + 1 + octets ['>'], ?_⟩
  rw [hcut, cutCloseTag.eq_def]
  simp only [takeWhile_until hbody (x := '>') rfl rest, dropWhile_until hbody (x := '>') rfl rest,
    List.drop_succ_cons, List.drop_zero, trimName_append hkey hspaces, List.take_succ_cons,
    List.take_zero]
  cases innermost with
  | none => exact ⟨_, rfl⟩
  | some name =>
    by_cases hfound : String.ofList key = name
    · exact ⟨⟨0, .mismatchedCloseTag name name⟩, by simp [hfound]⟩
    · dsimp only
      rw [if_neg hfound]
      exact ⟨_, (if_neg fun heq ↦ hfound (Option.some.inj heq).symm).symm⟩

theorem cuts_closeTag {name : String} {key spaces : List Char} (hname : name.toList = key)
    (hkey : IsName key) (hspaces : ∀ c ∈ spaces, isSpace c = true) (rest : List Char) :
    Cuts (some name) (Mark.closeTag ++ (key ++ (spaces ++ '>' :: rest))) .closeTag rest := by
  intro offset
  obtain ⟨size, fault, hcut⟩ := cut_closeTag hkey hspaces (some name) offset rest
  exact ⟨size, by rw [hcut, ← hname, String.ofList_toList, if_pos rfl]⟩

/-- A close tag is not cut off inside an element with another name. -/
theorem exists_fault_of_closeTag {innermost : Option String} {key spaces : List Char}
    (hkey : IsName key) (hspaces : ∀ c ∈ spaces, isSpace c = true)
    (hname : innermost ≠ some (String.ofList key)) (offset : Nat) (rest : List Char) :
    ∃ fault, cut innermost offset (Mark.closeTag ++ (key ++ (spaces ++ '>' :: rest)))
      = .error fault := by
  obtain ⟨size, fault, hcut⟩ := cut_closeTag hkey hspaces innermost offset rest
  exact ⟨fault, by rw [hcut, if_neg hname]⟩

/-! ## Written text -/

/-- A text is cut off up to the next less-than sign. -/
theorem cuts_text {cs : List Char} (hne : cs ≠ []) (hlt : '<' ∉ cs) {rest : List Char}
    (hrest : rest = [] ∨ rest.head? = some '<') (innermost : Option String) :
    Cuts innermost (cs ++ rest) (.text cs) rest := by
  intro offset
  refine ⟨octets cs, ?_⟩
  have hstop : ∀ c ∈ cs, decide (c ≠ '<') = true :=
    fun c hc ↦ decide_eq_true fun heq ↦ hlt (heq ▸ hc)
  have hparts : (cs ++ rest).takeWhile (· ≠ '<') = cs ∧ (cs ++ rest).dropWhile (· ≠ '<') = rest := by
    cases rest with
    | nil =>
      rw [List.takeWhile_append_of_pos hstop, List.dropWhile_append_of_pos hstop]
      simp
    | cons x rest =>
      obtain rfl : x = '<' := by simpa using hrest
      exact ⟨takeWhile_until hstop rfl rest, dropWhile_until hstop rfl rest⟩
  obtain ⟨c, more, rfl⟩ := List.exists_cons_of_ne_nil hne
  have hc : c ≠ '<' := fun hc ↦ hlt (hc ▸ List.mem_cons_self)
  unfold cut
  split
  · next heq => exact absurd (List.cons.inj heq).1 hc
  · next heq => exact absurd (List.cons.inj heq).1 hc
  · next heq => exact absurd (List.cons.inj heq).1 hc
  · next heq => exact absurd (List.cons.inj heq).1 hc
  · simp only [hparts]

end SvgWorkbench.Markup
