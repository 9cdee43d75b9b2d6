import SvgWorkbench.Proofs.Gate.Declaration

/-!
# The document type

A document type that declares nothing by itself is a name, and perhaps the place where the rest is
found. It is read in steps that look no further than the greater-than sign at its end, unless such a
sign stands in a quoted place already. So where it has no mark inside, it is read the same way
wherever it stands.
-/

namespace SvgWorkbench.Gate

open Text Xml

variable {f g : List Char → Except Fault (List Char)}

/-! ## Steps before a sign -/

/-- Whether a reading step leaves an end of the text, and comes to the same before a greater-than
sign whatever follows that. -/
structure IsLocal (step : List Char → Except Fault (List Char)) : Prop where
  /-- An end of the text is left. -/
  suffix : ∀ {cs rest}, step cs = .ok rest → rest <:+ cs
  /-- What follows the sign does not matter. -/
  closed : ∀ {v v' rest}, '>' ∉ v → step (v ++ '>' :: rest) = .ok (v' ++ '>' :: rest) →
    ∀ rest', step (v ++ '>' :: rest') = .ok (v' ++ '>' :: rest')

theorem IsLocal.bind (hf : IsLocal f) (hg : IsLocal g) : IsLocal fun cs ↦ f cs >>= g := by
  constructor
  · intro cs rest h
    obtain ⟨between, hbetween, hrest⟩ := bind_eq_ok_iff.1 h
    exact (hg.suffix hrest).trans (hf.suffix hbetween)
  · intro v v' rest hv h rest'
    obtain ⟨between, hbetween, hr⟩ := bind_eq_ok_iff.1 h
    -- the sign that is left at the end is left in between
    obtain ⟨x, rfl⟩ := hg.suffix hr
    obtain ⟨y, hy⟩ := hf.suffix hbetween
    rw [← List.append_assoc, ← List.append_assoc] at hy
    obtain rfl := List.append_cancel_right hy
    rw [← List.append_assoc] at hbetween hr
    have hx : '>' ∉ x ++ v' := fun hmem ↦ hv (List.append_assoc y x v' ▸ List.mem_append_right y hmem)
    exact bind_eq_ok_iff.2 ⟨_, hf.closed hv hbetween rest', hg.closed hx hr rest'⟩

theorem isLocal_skipSpaces : IsLocal fun cs ↦ .ok (skipSpaces cs) := by
  have hsign : ∀ v rest, skipSpaces (v ++ '>' :: rest) = skipSpaces v ++ '>' :: rest :=
    fun v rest ↦ dropWhile_append_cons rfl v rest
  constructor
  · rintro cs _ ⟨⟩
    exact List.dropWhile_suffix isSpace
  · intro v v' rest _ h rest'
    rw [hsign] at h ⊢
    rw [List.append_cancel_right (Except.ok.inj h)]

theorem isLocal_spaces : IsLocal spaces := by
  constructor
  · intro cs rest h
    unfold spaces at h
    split at h
    · exact absurd h fail_ne_ok
    · split at h
      · exact (isLocal_skipSpaces.suffix h).trans (List.suffix_cons _ _)
      · exact absurd h fail_ne_ok
  · intro v v' rest hv h rest'
    cases v with
    | nil => exact absurd h fail_ne_ok
    | cons c v =>
      rw [List.cons_append, spaces] at h ⊢
      split at h
      · next hc =>
        rw [if_pos hc]
        exact isLocal_skipSpaces.closed (List.not_mem_of_not_mem_cons hv) h rest'
      · exact absurd h fail_ne_ok

theorem isLocal_optionalName : IsLocal fun cs ↦ (optionalName cs).map Prod.snd := by
  constructor
  · intro cs rest h
    obtain ⟨p, hp, rfl⟩ := map_eq_ok_iff.1 h
    unfold optionalName at hp
    split at hp
    · cases hp
      exact List.suffix_refl []
    · split at hp
      · cases hp
        exact (List.dropWhile_suffix isNameChar).trans (List.suffix_cons _ _)
      · exact absurd hp fail_ne_ok
  · intro v v' rest hv h rest'
    obtain ⟨p, hp, hr⟩ := map_eq_ok_iff.1 h
    cases v with
    | nil => exact absurd hp fail_ne_ok
    | cons c v =>
      have hsign : ∀ rest, (v ++ '>' :: rest).dropWhile isNameChar
          = v.dropWhile isNameChar ++ '>' :: rest := fun rest ↦ dropWhile_append_cons rfl v rest
      rw [List.cons_append, optionalName] at hp
      split at hp
      · next hc =>
        cases hp
        rw [hsign] at hr
        refine map_eq_ok_iff.2 ⟨_, by rw [List.cons_append, optionalName, if_pos hc], ?_⟩
        rw [hsign, List.append_cancel_right hr]
      · exact absurd hp fail_ne_ok

/-! ## External identifiers -/

/-- Reads a quoted literal. -/
def literal (cs : List Char) : Except Fault (List Char) := do
  let (q, rest) ← quote cs
  let (_, rest) ← quotedRest q rest
  return rest

theorem literal_eq_ok_iff {cs rest : List Char} : literal cs = .ok rest ↔
    ∃ q value, (q = '"' ∨ q = '\x27') ∧ q ∉ value ∧ cs = q :: (value ++ q :: rest) := by
  simp only [literal, bind_eq_ok_iff, Prod.exists, pure, Except.pure, Except.ok.injEq]
  constructor
  · rintro ⟨q, inside, hquote, value, after, hrest, rfl⟩
    simp only [quotedRest, bind_eq_ok_iff, pure, Except.pure, Except.ok.injEq, Prod.mk.injEq] at hrest
    obtain ⟨_, hchar, hvalue, rfl⟩ := hrest
    obtain ⟨rfl, hq⟩ := quote_eq_ok_iff.1 hquote
    refine ⟨q, value, hq, ?_, ?_⟩
    · rw [← hvalue]
      intro hmem
      have := List.all_eq_true.1 (List.all_takeWhile (p := (· ≠ q)) (l := inside)) q hmem
      simp at this
    · rw [← hvalue, ← char_eq_ok_iff.1 hchar, List.takeWhile_append_dropWhile]
  · rintro ⟨q, value, hq, hvalue, rfl⟩
    have hmem : ∀ c ∈ value, (c ≠ q) := fun c hc heq ↦ hvalue (heq ▸ hc)
    refine ⟨q, value ++ q :: rest, quote_eq_ok_iff.2 ⟨rfl, hq⟩, value, rest, ?_, rfl⟩
    have hdrop : (value ++ q :: rest).dropWhile (· ≠ q) = q :: rest :=
      dropWhile_until (by simpa using hmem) (by simp) rest
    have htake : (value ++ q :: rest).takeWhile (· ≠ q) = value := by
      rw [List.takeWhile_append_of_pos (by simpa using hmem), List.takeWhile_cons_of_neg (by simp),
        List.append_nil]
    rw [quotedRest, hdrop, htake]
    exact bind_eq_ok_iff.2 ⟨rest, char_eq_ok_iff.2 rfl, rfl⟩

theorem isLocal_literal : IsLocal literal := by
  constructor
  · intro cs rest h
    obtain ⟨q, value, -, -, rfl⟩ := literal_eq_ok_iff.1 h
    exact ⟨q :: (value ++ [q]), by simp⟩
  · intro v v' rest _ h rest'
    obtain ⟨q, value, hq, hvalue, heq⟩ := literal_eq_ok_iff.1 h
    refine literal_eq_ok_iff.2 ⟨q, value, hq, hvalue, ?_⟩
    have hv : v ++ '>' :: rest = q :: (value ++ q :: v') ++ '>' :: rest := by simpa using heq
    rw [List.append_cancel_right hv]
    simp

theorem isLocal_spacedLiteral : IsLocal spacedLiteral := isLocal_spaces.bind isLocal_literal

/-- A word without a greater-than sign stands before such a sign or not, whatever follows that. -/
theorem afterPrefix?_sign {word : List Char} (hword : '>' ∉ word) (v rest : List Char) :
    afterPrefix? word (v ++ '>' :: rest) = (afterPrefix? word v).map (· ++ '>' :: rest) := by
  induction word generalizing v with
  | nil => rfl
  | cons p word ih =>
    rw [List.mem_cons, not_or] at hword
    cases v with
    | nil => exact if_neg (Ne.symm hword.1)
    | cons c v =>
      rw [List.cons_append, afterPrefix?, afterPrefix?]
      split
      · exact ih hword.2 v
      · rfl

/-- An external name reads one literal after the first word, and two after the second. -/
theorem map_snd_externalId (cs : List Char) : (externalId cs).map Prod.snd
    = match afterPrefix? Mark.system cs, afterPrefix? Mark.publicWord cs with
      | some rest, _ => spacedLiteral rest
      | none, some rest => spacedLiteral rest >>= spacedLiteral
      | none, none => .ok cs := by
  rw [externalId]
  cases afterPrefix? Mark.system cs with
  | some rest =>
    show (spacedLiteral rest >>= fun rest ↦ pure (true, rest)).map Prod.snd = spacedLiteral rest
    cases spacedLiteral rest <;> rfl
  | none =>
    cases afterPrefix? Mark.publicWord cs with
    | none => rfl
    | some rest =>
      show (spacedLiteral rest >>= fun rest ↦ spacedLiteral rest >>= fun rest ↦
        pure (true, rest)).map Prod.snd = spacedLiteral rest >>= spacedLiteral
      cases spacedLiteral rest with
      | error fault => rfl
      | ok rest =>
        show (spacedLiteral rest >>= fun rest ↦ pure (true, rest)).map Prod.snd
          = spacedLiteral rest
        cases spacedLiteral rest <;> rfl

theorem isLocal_externalId : IsLocal fun cs ↦ (externalId cs).map Prod.snd := by
  have hpublic := isLocal_spacedLiteral.bind isLocal_spacedLiteral
  constructor
  · intro cs rest h
    rw [map_snd_externalId] at h
    split at h
    · next after _ hafter =>
      rw [afterPrefix?_eq_some_iff.1 hafter]
      exact (isLocal_spacedLiteral.suffix h).trans (List.suffix_append _ _)
    · next after _ hafter =>
      rw [afterPrefix?_eq_some_iff.1 hafter]
      exact (hpublic.suffix h).trans (List.suffix_append _ _)
    · cases h
      exact List.suffix_refl _
  · intro v v' rest hv h rest'
    have hafter : ∀ {word after}, afterPrefix? word v = some after → '>' ∉ after := by
      intro word after hafter hmem
      exact hv (afterPrefix?_eq_some_iff.1 hafter ▸ List.mem_append_right word hmem)
    rw [map_snd_externalId, afterPrefix?_sign (by decide), afterPrefix?_sign (by decide)] at h ⊢
    cases hsystem : afterPrefix? Mark.system v with
    | some after =>
      rw [hsystem] at h
      exact isLocal_spacedLiteral.closed (hafter hsystem) h rest'
    | none =>
      rw [hsystem] at h
      cases hword : afterPrefix? Mark.publicWord v with
      | some after =>
        rw [hword] at h
        exact hpublic.closed (hafter hword) h rest'
      | none =>
        rw [hword] at h
        rw [List.append_cancel_right (Except.ok.inj h)]
        rfl

/-! ## The whole document type -/

/-- Reads all of a document type but its own declarations and its end. -/
def doctypeHead (cs : List Char) : Except Fault (List Char) :=
  spaces cs >>= fun rest ↦ (optionalName rest).map Prod.snd >>= fun rest ↦
    .ok (skipSpaces rest) >>= fun rest ↦ (externalId rest).map Prod.snd >>= fun rest ↦
      .ok (skipSpaces rest)

/-- Reads the declarations of a document type, if it has some, and its end. -/
def doctypeEnd (start : List Char) : List Char → Except Fault (List Entity × List Char)
  | [] => fail .endOfText []
  | '[' :: rest => subset start rest.length rest
  | '>' :: rest => .ok ([], rest)
  | c :: rest => fail (.unexpected .subsetOrEnd (leadingOctet c)) (c :: rest)

theorem doctype_eq (start cs : List Char) :
    doctype start cs = doctypeHead cs >>= doctypeEnd start := by
  rw [doctype, doctypeHead, bind_assoc]
  refine congrArg _ (funext fun rest ↦ ?_)
  cases optionalName rest with
  | error fault => rfl
  | ok p =>
    show externalId (skipSpaces p.2) >>= _ = (externalId (skipSpaces p.2)).map Prod.snd >>= _ >>= _
    cases externalId (skipSpaces p.2) with
    | error fault => rfl
    | ok p => rfl

theorem isLocal_doctypeHead : IsLocal doctypeHead :=
  isLocal_spaces.bind (isLocal_optionalName.bind (isLocal_skipSpaces.bind
    (isLocal_externalId.bind isLocal_skipSpaces)))

theorem skipSpaces_append {spaces : List Char} (hspaces : ∀ c ∈ spaces, isSpace c = true)
    (cs : List Char) : skipSpaces (spaces ++ cs) = skipSpaces cs :=
  List.dropWhile_append_of_pos hspaces

theorem trimStart_append {spaces : List Char} (hspaces : ∀ c ∈ spaces, isSpace c = true)
    (cs : List Char) : trimStart (spaces ++ cs) = trimStart cs := by
  refine List.dropWhile_append_of_pos fun c hc ↦ ?_
  rcases isSpace_cases (hspaces c hc) with rfl | rfl | rfl | rfl <;> rfl

/-- Whether a text is all of a document type but its marks, with no mark inside and no declarations
of its own. -/
structure IsStrictDoctype (v : List Char) : Prop where
  /-- There is no angle bracket and no start of declarations in it. -/
  marks : ∀ c ∈ v, c ≠ '<' ∧ c ≠ '>' ∧ c ≠ '['
  /-- It is read up to its end. -/
  complete : doctype [] (v ++ ['>']) = .ok ([], [])
  /-- Nothing but spaces of XML is trimmed from its start: a name may start with an Ogham space. -/
  trimmed : trimStart v = skipSpaces v

namespace IsStrictDoctype

variable {v : List Char}

private theorem doctypeHead_eq (h : IsStrictDoctype v) (rest : List Char) :
    doctypeHead (v ++ '>' :: rest) = .ok ('>' :: rest) := by
  have hcomplete := h.complete
  rw [doctype_eq] at hcomplete
  obtain ⟨r, hhead, hend⟩ := bind_eq_ok_iff.1 hcomplete
  have hmem : ∀ c ∈ r, c ∈ v ++ ['>'] := (isLocal_doctypeHead.suffix hhead).subset
  unfold doctypeEnd at hend
  split at hend
  · exact absurd hend fail_ne_ok
  · rcases List.mem_append.1 (hmem '[' List.mem_cons_self) with hmem | hmem
    · exact absurd rfl (h.marks '[' hmem).2.2
    · exact absurd (List.mem_singleton.1 hmem) (by decide)
  · cases hend
    have hclosed : ∀ rest, doctypeHead (v ++ '>' :: rest) = .ok ([] ++ '>' :: rest) :=
      isLocal_doctypeHead.closed (fun hmem ↦ (h.marks '>' hmem).2.1 rfl) hhead
    exact hclosed rest
  · exact absurd hend fail_ne_ok

/-- **Such a document type is the same wherever it stands.** -/
theorem doctype_closed (h : IsStrictDoctype v) (start rest : List Char) :
    doctype start (v ++ '>' :: rest) = .ok ([], rest) := by
  rw [doctype_eq, h.doctypeHead_eq]
  rfl

/-- It starts with a space, and what comes after the spaces does not start blank. -/
theorem starts (h : IsStrictDoctype v) : ∃ spaces c more, v = spaces ++ c :: more ∧
    spaces ≠ [] ∧ (∀ c ∈ spaces, isSpace c = true) ∧ isBlank c = false := by
  obtain ⟨r, hspaces, hr⟩ := bind_eq_ok_iff.1 (h.doctypeHead_eq [])
  obtain ⟨_, hname, -⟩ := bind_eq_ok_iff.1 hr
  obtain ⟨p, hp, -⟩ := map_eq_ok_iff.1 hname
  cases v with
  | nil => exact absurd hspaces fail_ne_ok
  | cons s v =>
    rw [List.cons_append, spaces] at hspaces
    split at hspaces
    case isFalse => exact absurd hspaces fail_ne_ok
    next hs =>
    obtain rfl := Except.ok.inj hspaces
    obtain ⟨blank, hsplit, hblank⟩ := exists_append_dropWhile isSpace v
    rw [skipSpaces, dropWhile_append_cons rfl v []] at hp
    cases hdrop : v.dropWhile isSpace with
    | nil =>
      -- a greater-than sign is no name
      rw [hdrop] at hp
      exact absurd hp fail_ne_ok
    | cons c more =>
      refine ⟨s :: blank, c, more, ?_, List.cons_ne_nil _ _, List.forall_mem_cons.2 ⟨hs, hblank⟩, ?_⟩
      · rw [List.cons_append, ← hdrop, ← hsplit]
      · have htrimmed := h.trimmed
        rw [skipSpaces, List.dropWhile_cons_of_pos hs, hdrop] at htrimmed
        have hhead := List.head?_dropWhile_not isBlank (s :: v)
        rw [← trimStart, htrimmed] at hhead
        simpa using hhead

/-- One space is as good as more. -/
theorem spaced {spaces v : List Char} (h : IsStrictDoctype (spaces ++ v)) (hne : spaces ≠ [])
    (hspaces : ∀ c ∈ spaces, isSpace c = true) : IsStrictDoctype (' ' :: v) := by
  refine ⟨List.forall_mem_cons.2 ⟨by decide, fun c hc ↦ h.marks c (List.mem_append_right _ hc)⟩, ?_, ?_⟩
  · rw [← h.complete]
    cases spaces with
    | nil => exact absurd rfl hne
    | cons s spaces =>
      obtain ⟨hs, hspaces⟩ := List.forall_mem_cons.1 hspaces
      have heq : Gate.spaces ((s :: spaces ++ v) ++ ['>']) = Gate.spaces ((' ' :: v) ++ ['>']) := by
        rw [List.append_assoc, List.cons_append, List.cons_append, Gate.spaces, Gate.spaces, if_pos hs,
          skipSpaces_append hspaces]
        rfl
      rw [doctype_eq, doctype_eq, doctypeHead, doctypeHead, heq]
  · have htrimmed := h.trimmed
    rw [trimStart_append hspaces, skipSpaces_append hspaces] at htrimmed
    exact htrimmed

end IsStrictDoctype

end SvgWorkbench.Gate
