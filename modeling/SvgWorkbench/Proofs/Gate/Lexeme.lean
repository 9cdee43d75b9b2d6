import SvgWorkbench.Gate.Lexeme
import SvgWorkbench.Proofs.Markup.Name
import SvgWorkbench.Proofs.Text.Split

/-!
# What the lexemes of the strict check take

A lexeme succeeds on a text exactly when the text begins in a certain way, and then leaves what
follows. These laws say so for marks, runs and comments, so that later arguments can speak about
texts only and need not look into the lexemes again.
-/

namespace SvgWorkbench.Gate

open Text Xml

/-! ## Steps that succeed -/

/-- Two steps succeed one after the other if the first gives something on which the second
succeeds. -/
theorem bind_eq_ok_iff {ε α β : Type} {x : Except ε α} {f : α → Except ε β} {b : β} :
    x >>= f = .ok b ↔ ∃ a, x = .ok a ∧ f a = .ok b := by
  cases x with
  | error fault => simp [bind, Except.bind]
  | ok a => simp [bind, Except.bind]

theorem pure_eq_ok_iff {ε α : Type} {a b : α} : (pure a : Except ε α) = .ok b ↔ a = b := by
  simp [pure, Except.pure]

theorem map_eq_ok_iff {ε α β : Type} {x : Except ε α} {f : α → β} {b : β} :
    x.map f = .ok b ↔ ∃ a, x = .ok a ∧ f a = b := by
  cases x with
  | error fault => simp [Except.map]
  | ok a => simp [Except.map]

theorem fail_ne_ok {α : Type} {cause : Cause} {cs : List Char} {a : α} :
    fail cause cs ≠ .ok a := by
  simp [fail]

/-! ## Marks and quotes -/

theorem char_eq_ok_iff {b : Char} {cs rest : List Char} :
    char b cs = .ok rest ↔ cs = b :: rest := by
  cases cs with
  | nil => simp [char, fail]
  | cons c cs => by_cases hc : c = b <;> simp [char, fail, hc]

theorem mark_eq_ok_iff {word cs rest : List Char} :
    mark word cs = .ok rest ↔ cs = word ++ rest := by
  rw [← afterPrefix?_eq_some_iff, mark]
  cases afterPrefix? word cs <;> simp [fail]

theorem quote_eq_ok_iff {q : Char} {cs rest : List Char} :
    quote cs = .ok (q, rest) ↔ cs = q :: rest ∧ (q = '"' ∨ q = '\x27') := by
  cases cs with
  | nil => simp [quote, fail]
  | cons c cs =>
    by_cases hc : c = '"' ∨ c = '\x27'
    · rw [quote, if_pos hc]
      constructor
      · intro h
        cases h
        exact ⟨rfl, hc⟩
      · rintro ⟨heq, -⟩
        cases heq
        rfl
    · rw [quote, if_neg hc]
      constructor
      · exact fun h ↦ absurd h fail_ne_ok
      · rintro ⟨heq, hq⟩
        cases heq
        exact absurd hq hc

/-! ## Runs of characters -/

/-- A run ends at the first character or takes it. -/
private theorem charsUntil_cons_eq_ok_iff {stop : List Char → Bool} {c : Char}
    {cs text rest : List Char} :
    charsUntil stop (c :: cs) = .ok (text, rest) ↔ isDocumentChar c = true ∧
      (stop (c :: cs) = true ∧ text = [] ∧ rest = c :: cs ∨
        stop (c :: cs) = false ∧ ∃ more, text = c :: more ∧ charsUntil stop cs = .ok (more, rest)) := by
  rw [charsUntil]
  by_cases hc : isDocumentChar c = true
  · rw [if_neg (by simp [hc])]
    by_cases hstop : stop (c :: cs) = true
    · simp [hc, hstop, eq_comm]
    · rw [if_neg hstop]
      cases charsUntil stop cs with
      | error fault => simp [hstop]
      | ok p =>
        simp only [Except.ok.injEq, Prod.mk.injEq]
        constructor
        · rintro ⟨rfl, rfl⟩
          exact ⟨hc, .inr ⟨by simpa using hstop, p.1, rfl, rfl⟩⟩
        · rintro ⟨-, ⟨heq, -⟩ | ⟨-, more, rfl, rfl⟩⟩
          · exact absurd heq hstop
          · exact ⟨rfl, rfl⟩
  · rw [if_pos (by simpa using hc)]
    simp [fail, hc]

/-- A run is of characters that may stand in a document, and it ends at the first place where it
has to, or with the text. -/
theorem charsUntil_eq_ok_iff {stop : List Char → Bool} {cs text rest : List Char} :
    charsUntil stop cs = .ok (text, rest) ↔
      cs = text ++ rest ∧ (∀ c ∈ text, isDocumentChar c = true) ∧
        (∀ a b, text = a ++ b → b ≠ [] → stop (b ++ rest) = false) ∧
        (∀ c more, rest = c :: more → stop rest = true ∧ isDocumentChar c = true) := by
  induction cs generalizing text with
  | nil =>
    constructor
    · intro h
      cases h
      simp
    · rintro ⟨hcs, -⟩
      obtain ⟨rfl, rfl⟩ := List.append_eq_nil_iff.1 hcs.symm
      rfl
  | cons c cs ih =>
    rw [charsUntil_cons_eq_ok_iff]
    constructor
    · rintro ⟨hc, ⟨hstop, rfl, rfl⟩ | ⟨hstop, more, rfl, h⟩⟩
      · refine ⟨rfl, by simp, fun a b hab hb ↦ ?_, fun d more heq ↦ ?_⟩
        · exact absurd (List.append_eq_nil_iff.1 hab.symm).2 hb
        · cases heq
          exact ⟨hstop, hc⟩
      · obtain ⟨rfl, hchars, hfirst, hrest⟩ := ih.1 h
        refine ⟨rfl, List.forall_mem_cons.2 ⟨hc, hchars⟩, fun a b hab hb ↦ ?_, hrest⟩
        cases a with
        | nil =>
          obtain rfl : c :: more = b := hab
          exact hstop
        | cons x a =>
          cases hab
          exact hfirst a b rfl hb
    · rintro ⟨hcs, hchars, hfirst, hrest⟩
      cases text with
      | nil =>
        obtain ⟨hstop, hc⟩ := hrest c cs hcs.symm
        exact ⟨hc, .inl ⟨hcs ▸ hstop, rfl, hcs.symm⟩⟩
      | cons x text =>
        cases hcs
        have hstop := hfirst [] (c :: text) rfl (List.cons_ne_nil c text)
        refine ⟨hchars c List.mem_cons_self, .inr ⟨hstop, text, rfl, ih.2 ⟨rfl, ?_, ?_, hrest⟩⟩⟩
        · exact (List.forall_mem_cons.1 hchars).2
        · exact fun a b hab hb ↦ hfirst (c :: a) b (by rw [hab, List.cons_append]) hb

/-- A run that the next character alone can end takes the characters before the first that ends it. -/
theorem charsUntil_eq_ok_iff_of_next {stop : List Char → Bool} (ends : Char → Bool)
    (hstop : ∀ c more, stop (c :: more) = ends c) {cs text rest : List Char} :
    charsUntil stop cs = .ok (text, rest) ↔
      cs = text ++ rest ∧ (∀ c ∈ text, isDocumentChar c = true ∧ ends c = false) ∧
        (∀ c more, rest = c :: more → ends c = true ∧ isDocumentChar c = true) := by
  rw [charsUntil_eq_ok_iff]
  constructor
  · rintro ⟨hcs, hchars, hfirst, hrest⟩
    refine ⟨hcs, fun c hc ↦ ⟨hchars c hc, ?_⟩, fun c more heq ↦ ?_⟩
    · obtain ⟨a, b, hab⟩ := List.append_of_mem hc
      exact (hstop c (b ++ rest)).symm.trans (hfirst a (c :: b) hab (List.cons_ne_nil c b))
    · have := hrest c more heq
      rwa [heq, hstop] at this
  · rintro ⟨hcs, hchars, hrest⟩
    refine ⟨hcs, fun c hc ↦ (hchars c hc).1, fun a b hab hb ↦ ?_, fun c more heq ↦ ?_⟩
    · obtain ⟨c, b, rfl⟩ := List.exists_cons_of_ne_nil hb
      exact (hstop c (b ++ rest)).trans (hchars c (by simp [hab])).2
    · rw [heq, hstop]
      exact hrest c more heq

/-- A run over a text in which it does not have to stop takes the whole text. -/
theorem charsUntil_append_eq_ok_iff {stop : List Char → Bool} {cs rest : List Char}
    (hcs : ∀ c ∈ cs, ∀ more, stop (c :: more) = false)
    (hrest : ∀ c more, rest = c :: more → stop rest = true ∧ isDocumentChar c = true)
    {r : List Char × List Char} :
    charsUntil stop (cs ++ rest) = .ok r ↔ (∀ c ∈ cs, isDocumentChar c = true) ∧ r = (cs, rest) := by
  obtain ⟨text, after⟩ := r
  induction cs generalizing text with
  | nil =>
    have hempty : charsUntil stop rest = .ok ([], rest) := by
      refine charsUntil_eq_ok_iff.2 ⟨rfl, nofun, fun a b hab hb ↦ ?_, hrest⟩
      exact absurd (List.append_eq_nil_iff.1 hab.symm).2 hb
    rw [List.nil_append, hempty, Except.ok.injEq]
    exact ⟨fun heq ↦ ⟨nofun, heq.symm⟩, fun h ↦ h.2.symm⟩
  | cons c cs ih =>
    rw [List.cons_append, charsUntil_cons_eq_ok_iff, hcs c List.mem_cons_self, List.forall_mem_cons]
    simp only [ih fun d hd ↦ hcs d (List.mem_cons_of_mem c hd), Prod.mk.injEq]
    constructor
    · rintro ⟨hc, ⟨⟨⟩, -⟩ | ⟨-, more, rfl, hchars, rfl, rfl⟩⟩
      exact ⟨⟨hc, hchars⟩, rfl, rfl⟩
    · rintro ⟨⟨hc, hchars⟩, rfl, rfl⟩
      exact ⟨hc, .inr ⟨trivial, cs, rfl, hchars, rfl, rfl⟩⟩

/-! ## Runs up to a mark

The end marks of comments, sections and instructions end in a greater-than sign and have no other,
so an end mark cannot overlap with a later one. -/

private theorem startsWith_append_iff {q b rest : List Char} (hq : '>' ∉ q) (hb : b ≠ []) :
    startsWith (q ++ ['>']) (b ++ (q ++ ['>'] ++ rest)) = true ↔ q ++ ['>'] <+: b := by
  rw [startsWith_iff]
  refine ⟨fun h ↦ ?_, fun h ↦ h.trans (List.prefix_append b _)⟩
  rcases List.prefix_or_prefix_of_prefix h (List.prefix_append b _) with hprefix | ⟨y, hy⟩
  · exact hprefix
  -- the sign would have to stand in the mark twice
  obtain rfl | ⟨init, z, rfl⟩ := List.eq_nil_or_concat y
  · rw [List.append_nil] at hy
    exact ⟨[], by rw [hy, List.append_nil]⟩
  rw [List.concat_eq_append, ← List.append_assoc] at hy
  obtain ⟨rfl, hz⟩ := List.append_inj' hy rfl
  cases hz
  rw [List.append_assoc, List.prefix_append_right_inj] at h
  have hlength : (init ++ ['>']).length ≤ (b ++ init).length := by
    have := List.length_pos_iff.2 hb
    simp only [List.length_append, List.length_cons, List.length_nil]
    omega
  have hq' : b ++ init <+: b ++ (init ++ ['>']) ++ rest := ⟨['>'] ++ rest, by simp⟩
  have hinit := List.prefix_of_prefix_length_le h hq' hlength
  exact absurd (hinit.subset (by simp)) hq

/-- The first end mark of a text is where it is. -/
theorem eq_of_append_mark {q as bs cs ds : List Char} (hq : '>' ∉ q)
    (has : ¬ q ++ ['>'] <:+: as) (hbs : ¬ q ++ ['>'] <:+: bs)
    (h : as ++ (q ++ ['>'] ++ cs) = bs ++ (q ++ ['>'] ++ ds)) : as = bs ∧ cs = ds := by
  have hshort : ∀ {as more cs ds : List Char}, ¬ q ++ ['>'] <:+: as ++ more →
      q ++ ['>'] ++ cs = more ++ (q ++ ['>'] ++ ds) → more = [] := by
    intro as more cs ds hmark hsplit
    refine Decidable.byContradiction fun hne ↦ hmark ?_
    have hstart : startsWith (q ++ ['>']) (more ++ (q ++ ['>'] ++ ds)) = true :=
      startsWith_iff.2 ⟨cs, hsplit⟩
    exact ((startsWith_append_iff hq hne).1 hstart).isInfix.trans (List.suffix_append as more).isInfix
  rcases List.append_eq_append_iff.1 h with ⟨more, rfl, hsplit⟩ | ⟨more, rfl, hsplit⟩
  · obtain rfl := hshort hbs hsplit
    exact ⟨(List.append_nil as).symm, List.append_cancel_left hsplit⟩
  · obtain rfl := hshort has hsplit
    exact ⟨List.append_nil bs, (List.append_cancel_left hsplit).symm⟩

/-- A run up to a mark is a text without the mark inside. -/
theorem until_mark_eq_ok_iff {q : List Char} (hq : '>' ∉ q)
    (hchars : ∀ c ∈ q, isDocumentChar c = true) {cs text rest : List Char} :
    (∃ r, charsUntil (startsWith (q ++ ['>'])) cs = .ok (text, r) ∧ mark (q ++ ['>']) r = .ok rest) ↔
      cs = text ++ (q ++ ['>'] ++ rest) ∧ (∀ c ∈ text, isDocumentChar c = true) ∧
        ¬ q ++ ['>'] <:+: text := by
  constructor
  · rintro ⟨r, huntil, hmark⟩
    rw [mark_eq_ok_iff] at hmark
    subst hmark
    obtain ⟨rfl, htext, hfirst, -⟩ := charsUntil_eq_ok_iff.1 huntil
    refine ⟨rfl, htext, ?_⟩
    rintro ⟨a, b, rfl⟩
    have hne : q ++ ['>'] ++ b ≠ [] := by simp
    have := hfirst a (q ++ ['>'] ++ b) (List.append_assoc a _ b) hne
    rw [Bool.eq_false_iff, ne_eq, startsWith_append_iff hq hne] at this
    exact this (List.prefix_append _ b)
  · rintro ⟨rfl, htext, hinside⟩
    refine ⟨q ++ ['>'] ++ rest, ?_, mark_eq_ok_iff.2 rfl⟩
    refine charsUntil_eq_ok_iff.2 ⟨rfl, htext, fun a b hab hb ↦ ?_, fun c more heq ↦ ?_⟩
    · rw [Bool.eq_false_iff, ne_eq, startsWith_append_iff hq hb]
      rintro ⟨more, rfl⟩
      exact hinside ⟨a, more, by rw [hab, List.append_assoc]⟩
    · refine ⟨startsWith_iff.2 (List.prefix_append _ rest), ?_⟩
      have hc : c ∈ q ++ ['>'] := by
        cases q with
        | nil => cases heq; simp
        | cons d q => cases heq; simp
      rcases List.mem_append.1 hc with hc | hc
      · exact hchars c hc
      · rw [List.mem_singleton.1 hc]
        decide

/-! ## Comments, sections and instructions -/

/-- Whether a text may stand in a comment that is strictly well-formed. -/
def IsStrictComment (s : List Char) : Prop :=
  (∀ c ∈ s, isDocumentChar c = true) ∧ ¬ ['-', '-'] <:+: s ∧ s.getLast? ≠ some '-'

/-- A text with two hyphens in a row cannot stand in a comment at all. -/
theorem IsStrictComment.not_closeComment_infix {s : List Char} (h : IsStrictComment s) :
    ¬ Mark.closeComment <:+: s :=
  fun hmark ↦ h.2.1 ((List.prefix_append ['-', '-'] ['>']).isInfix.trans hmark)

theorem comment_eq_ok_iff {cs rest : List Char} :
    comment cs = .ok rest ↔
      ∃ s, IsStrictComment s ∧ cs = Mark.openComment ++ (s ++ (Mark.closeComment ++ rest)) := by
  have huntil := @until_mark_eq_ok_iff ['-', '-'] (by decide) (List.all_eq_true.1 rfl)
  have hlast : ∀ s after, (if (occursIn ['-', '-'] s || s.getLast? == some '-') = true then
      fail .hyphensInComment cs else (pure after : Except Fault _)) = .ok rest ↔
      after = rest ∧ ¬ ['-', '-'] <:+: s ∧ s.getLast? ≠ some '-' := by
    intro s after
    rw [← occursIn_iff]
    split
    · next h =>
      rw [Bool.or_eq_true, beq_iff_eq] at h
      exact ⟨fun hfail ↦ absurd hfail fail_ne_ok, fun hs ↦ absurd h (not_or.2 hs.2)⟩
    · next h =>
      rw [Bool.or_eq_true, beq_iff_eq, not_or] at h
      rw [pure_eq_ok_iff]
      exact ⟨fun heq ↦ ⟨heq, h⟩, And.left⟩
  simp only [comment, bind_eq_ok_iff, Prod.exists, hlast, mark_eq_ok_iff]
  constructor
  · rintro ⟨_, rfl, s, r, hs, _, hr, rfl, hhyphens, hend⟩
    obtain ⟨rfl, hchars, -⟩ := huntil.1 ⟨r, hs, mark_eq_ok_iff.2 hr⟩
    exact ⟨s, ⟨hchars, hhyphens, hend⟩, rfl⟩
  · rintro ⟨s, ⟨hchars, hhyphens, hend⟩, rfl⟩
    have hinside := IsStrictComment.not_closeComment_infix ⟨hchars, hhyphens, hend⟩
    obtain ⟨r, hs, hr⟩ := huntil.2 ⟨rfl, hchars, hinside⟩
    exact ⟨_, rfl, s, r, hs, rest, mark_eq_ok_iff.1 hr, rfl, hhyphens, hend⟩

theorem cdata_eq_ok_iff {cs rest : List Char} :
    cdata cs = .ok rest ↔ ∃ s, (∀ c ∈ s, isDocumentChar c = true) ∧
      ¬ Mark.closeSection <:+: s ∧ cs = Mark.openSection ++ (s ++ (Mark.closeSection ++ rest)) := by
  have huntil := @until_mark_eq_ok_iff [']', ']'] (by decide) (List.all_eq_true.1 rfl)
  simp only [cdata, bind_eq_ok_iff, Prod.exists]
  constructor
  · rintro ⟨after, hopen, s, r, hs, hr⟩
    obtain ⟨rfl, hchars, hinside⟩ := huntil.1 ⟨r, hs, hr⟩
    exact ⟨s, hchars, hinside, mark_eq_ok_iff.1 hopen⟩
  · rintro ⟨s, hchars, hinside, rfl⟩
    obtain ⟨r, hs, hr⟩ := huntil.2 ⟨rfl, hchars, hinside⟩
    exact ⟨_, mark_eq_ok_iff.2 rfl, s, r, hs, hr⟩

/-- Whether a text may stand in an instruction that is strictly well-formed: it starts with a name
and is not that of an XML declaration. -/
structure IsStrictInstruction (s : List Char) : Prop where
  /-- It starts with a name. -/
  starts : ∃ c more, s = c :: more ∧ isNameStart c = true
  /-- Its characters may stand in a document. -/
  chars : ∀ c ∈ s, isDocumentChar c = true
  /-- The end mark is not in it. -/
  inside : ¬ Mark.closeInstruction <:+: s
  /-- It does not start like a declaration. -/
  notDeclaration : ¬ ['x', 'm', 'l', ' '] <+: s

/-- Whether a text starts like a declaration does not depend on what follows the end mark. -/
theorem startsWith_declaration_iff {s rest : List Char} :
    startsWith Mark.declaration (Mark.openInstruction ++ (s ++ (Mark.closeInstruction ++ rest)))
      = true ↔ ['x', 'm', 'l', ' '] <+: s := by
  rw [startsWith_iff]
  show ['<', '?'] ++ ['x', 'm', 'l', ' '] <+: ['<', '?'] ++ _ ↔ _
  rw [List.prefix_append_right_inj]
  refine ⟨fun h ↦ ?_, fun h ↦ h.trans (List.prefix_append s _)⟩
  rcases List.prefix_or_prefix_of_prefix h (List.prefix_append s _) with hprefix | ⟨y, hy⟩
  · exact hprefix
  · rw [← hy, List.prefix_append_right_inj] at h
    cases y with
    | nil => exact ⟨[], by simpa using hy.symm⟩
    | cons x y =>
      obtain ⟨z, hz⟩ := h
      obtain rfl := (List.cons.inj hz).1
      have hmem : '?' ∈ ['x', 'm', 'l', ' '] := hy ▸ List.mem_append_right s List.mem_cons_self
      exact absurd hmem (by decide)

/-- Characters of names may stand in a document. -/
theorem isDocumentChar_of_isNameChar {c : Char} (h : isNameChar c = true) :
    isDocumentChar c = true := by
  have hsmall : ∀ n < 0x20, isNameChar (Char.ofNat n) = false := by decide
  have hc := Char.ofNat_toNat c
  rw [isDocumentChar]
  split
  · next hlt =>
    rw [← hc, hsmall _ hlt] at h
    cases h
  · have hne : ∀ n, isNameChar (Char.ofNat n) = false → c.toNat ≠ n := by
      rintro n hn rfl
      rw [hc, h] at hn
      cases hn
    simp [hne 0xFFFE (by decide), hne 0xFFFF (by decide)]

theorem isDocumentChar_of_isSpace {c : Char} (h : isSpace c = true) : isDocumentChar c = true := by
  rcases isSpace_cases h with rfl | rfl | rfl | rfl <;> rfl

theorem name_eq_ok_iff {cs n rest : List Char} :
    name cs = .ok (n, rest) ↔ ∃ c more, cs = c :: more ∧ isNameStart c = true ∧
      n = c :: more.takeWhile isNameChar ∧ rest = more.dropWhile isNameChar := by
  cases cs with
  | nil => exact ⟨fun h ↦ absurd h fail_ne_ok, nofun⟩
  | cons c more =>
    rw [name, optionalName]
    split
    · next hc =>
      constructor
      · rintro ⟨⟩
        exact ⟨c, more, rfl, hc, rfl, rfl⟩
      · rintro ⟨_, _, ⟨⟩, -, rfl, rfl⟩
        rfl
    · next hc =>
      refine ⟨fun h ↦ absurd h fail_ne_ok, ?_⟩
      rintro ⟨_, _, ⟨⟩, hc', -⟩
      exact absurd hc' hc

/-- A name, spaces and a text may stand in an instruction if the text may stand in a document and does
not hold the end mark: neither the name nor the spaces have a question mark. -/
private theorem isStrictInstruction_append {c : Char} {letters spaces text : List Char}
    (hc : isNameStart c = true) (hletters : ∀ x ∈ letters, isNameChar x = true)
    (hspaces : ∀ x ∈ spaces, isSpace x = true) (hchars : ∀ x ∈ text, isDocumentChar x = true)
    (hinside : ¬ Mark.closeInstruction <:+: text)
    (hdeclaration : ¬ ['x', 'm', 'l', ' '] <+: c :: letters ++ spaces ++ text) :
    IsStrictInstruction (c :: letters ++ spaces ++ text) := by
  have hfront : ∀ x ∈ c :: letters ++ spaces, isNameChar x = true ∨ isSpace x = true := by
    intro x hx
    rw [List.cons_append, List.mem_cons, List.mem_append] at hx
    rcases hx with rfl | hx | hx
    · exact .inl (isNameChar_of_isNameStart hc)
    · exact .inl (hletters x hx)
    · exact .inr (hspaces x hx)
  refine ⟨⟨c, letters ++ spaces ++ text, by simp, hc⟩, fun x hx ↦ ?_, fun hmark ↦ ?_, hdeclaration⟩
  · rcases List.mem_append.1 hx with hx | hx
    · exact (hfront x hx).elim isDocumentChar_of_isNameChar isDocumentChar_of_isSpace
    · exact hchars x hx
  · refine hinside (infix_of_append_of_notMem hmark fun hmem ↦ ?_)
    rcases hfront '?' hmem with h | h <;> cases h

theorem instruction_eq_ok_iff {cs rest : List Char} :
    instruction cs = .ok rest ↔ ∃ s, IsStrictInstruction s ∧
      cs = Mark.openInstruction ++ (s ++ (Mark.closeInstruction ++ rest)) := by
  have huntil := @until_mark_eq_ok_iff ['?'] (by decide) (List.all_eq_true.1 rfl)
  constructor
  · intro h
    rw [instruction] at h
    split at h
    · exact absurd h fail_ne_ok
    next hdeclaration =>
    simp only [bind_eq_ok_iff, Prod.exists] at h
    obtain ⟨_, hopen, _, _, hname, text, r, htext, hclose⟩ := h
    obtain ⟨c, after, rfl, hc, -, rfl⟩ := name_eq_ok_iff.1 hname
    obtain rfl := mark_eq_ok_iff.1 hopen
    obtain ⟨hskip, hchars, hinside⟩ := huntil.1 ⟨r, htext, hclose⟩
    obtain ⟨letters, hafter, hletters⟩ := exists_append_dropWhile isNameChar after
    obtain ⟨spaces, hsplit, hspaces⟩ := exists_append_dropWhile isSpace
      (after.dropWhile isNameChar)
    rw [← skipSpaces, hskip] at hsplit
    have hcs : Mark.openInstruction ++ c :: after = Mark.openInstruction ++
        (c :: letters ++ spaces ++ text ++ (Mark.closeInstruction ++ rest)) := by
      rw [hafter, hsplit]
      simp [Mark.closeInstruction]
    rw [hcs, startsWith_declaration_iff] at hdeclaration
    exact ⟨_, isStrictInstruction_append hc hletters hspaces hchars hinside hdeclaration, hcs⟩
  · rintro ⟨s, ⟨⟨c, more, rfl, hc⟩, hchars, hinside, hdeclaration⟩, rfl⟩
    rw [instruction, if_neg (by rwa [startsWith_declaration_iff])]
    simp only [bind_eq_ok_iff, Prod.exists]
    refine ⟨_, mark_eq_ok_iff.2 rfl, c :: more.takeWhile isNameChar,
      more.dropWhile isNameChar ++ (Mark.closeInstruction ++ rest),
      name_eq_ok_iff.2 ⟨c, more ++ (Mark.closeInstruction ++ rest), rfl, hc, ?_, ?_⟩, ?_⟩
    · exact congrArg (c :: ·)
        (takeWhile_append_cons (p := isNameChar) (x := '?') rfl more ('>' :: rest)).symm
    · exact (dropWhile_append_cons (p := isNameChar) (x := '?') rfl more ('>' :: rest)).symm
    · have hsuffix : skipSpaces (more.dropWhile isNameChar) <:+ c :: more :=
        ((List.dropWhile_suffix _).trans (List.dropWhile_suffix _)).trans (List.suffix_cons c more)
      obtain ⟨r, hr, hclose⟩ := huntil.2 ⟨rfl,
        fun x hx ↦ hchars x (hsuffix.subset hx), fun h ↦ hinside (h.trans hsuffix.isInfix)⟩
      refine ⟨skipSpaces (more.dropWhile isNameChar), r, ?_, hclose⟩
      rw [← hr]
      show charsUntil _ (skipSpaces (_ ++ '?' :: ('>' :: rest))) = _
      rw [skipSpaces, dropWhile_append_cons (by rfl)]
      rfl

end SvgWorkbench.Gate
