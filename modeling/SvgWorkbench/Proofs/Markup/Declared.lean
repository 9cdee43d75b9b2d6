import SvgWorkbench.Proofs.Markup.Cut
import SvgWorkbench.Proofs.Markup.Expand

/-!
# Declared entities are found

The reader looks for declarations in all of a document type declaration, and knows them by their
shape. Where the internal subset consists of declarations and no other place looks like one, it
finds these and no others, and a name has the value of its first declaration.

Blanks end a name for the reader, and one of them is a character of names, the Ogham space mark. A
declaration of a name with this mark inside is not found. Where the mark is at the start or the end
of a name, the reader would find another name declared, so these names are left out.
-/

namespace SvgWorkbench.Markup

open Text Xml

/-! ## Declarations -/

/-- Whether the inside of an internal subset is made of declarations of entities, with spaces
between and around their parts. -/
inductive Declares : Entities → List Char → Prop where
  /-- Nothing but spaces. -/
  | nil {spaces : List Char} (hspaces : ∀ c ∈ spaces, isSpace c = true) : Declares [] spaces
  /-- A declaration, and what follows it. -/
  | cons {ds : Entities} {spaces before name between value after more : List Char} {quote : Char}
    (hspaces : ∀ c ∈ spaces, isSpace c = true)
    (hbefore : ∀ c ∈ before, isSpace c = true) (hne : before ≠ [])
    (hbetween : ∀ c ∈ between, isSpace c = true) (hne' : between ≠ [])
    (hafter : ∀ c ∈ after, isSpace c = true) (hquote : quote = '"' ∨ quote = '\x27')
    (hinert : IsInert (name, value)) (hmore : Declares ds more) :
    Declares ((name, value) :: ds) (spaces ++ (Mark.entity ++ (before ++ (name ++ (between ++
      quote :: (value ++ quote :: (after ++ '>' :: more)))))))

/-- A declaration as it is usually written: with one space before the name and one after it. -/
theorem Declares.cons_plain {ds : Entities} {name value more : List Char} {quote : Char}
    (hquote : quote = '"' ∨ quote = '\x27') (hinert : IsInert (name, value))
    (h : Declares ds more) : Declares ((name, value) :: ds)
      (Mark.entity ++ ' ' :: (name ++ ' ' :: quote :: (value ++ quote :: '>' :: more))) := by
  have hspace : ∀ c ∈ [' '], isSpace c = true := List.forall_mem_singleton.2 rfl
  have hnone : ∀ c ∈ ([] : List Char), isSpace c = true := List.forall_mem_nil _
  exact .cons hnone hspace (List.cons_ne_nil _ _) hspace (List.cons_ne_nil _ _) hnone hquote
    hinert h

theorem Declares.isInert {ds : Entities} {cs : List Char} (h : Declares ds cs) :
    ∀ d ∈ ds, IsInert d := by
  induction h with
  | nil => exact List.forall_mem_nil _
  | cons _ _ _ _ _ _ _ hinert _ ih => exact List.forall_mem_cons.2 ⟨hinert, ih⟩

/-- Between its own signs a declaration holds none. -/
private theorem notMem_declaration {before name between value after : List Char} {quote : Char}
    (hbefore : ∀ c ∈ before, isSpace c = true) (hbetween : ∀ c ∈ between, isSpace c = true)
    (hafter : ∀ c ∈ after, isSpace c = true) (hquote : quote = '"' ∨ quote = '\x27')
    (hinert : IsInert (name, value)) {x : Char} (hx : x = '<' ∨ x = '>') :
    x ∉ Mark.entity.drop 1 ++ (before ++ (name ++ (between ++ quote :: (value ++ quote ::
      after)))) := by
  have hspace : isSpace x = false := by rcases hx with rfl | rfl <;> rfl
  have hmark : x ∉ Mark.entity.drop 1 := by rcases hx with rfl | rfl <;> decide
  have hname : isNameChar x = false := by rcases hx with rfl | rfl <;> rfl
  have hvalue : x ∉ value := hinert.ne (by rcases hx with rfl | rfl <;> simp)
  have hquote' : x ≠ quote := by
    rcases hx with rfl | rfl <;> rcases hquote with rfl | rfl <;> decide
  simp only [List.mem_append, List.mem_cons, not_or]
  exact ⟨hmark, notMem_spaces hbefore hspace, hinert.name.notMem hname,
    notMem_spaces hbetween hspace, hquote', hvalue, hquote', notMem_spaces hafter hspace⟩

/-- The brackets of declarations are paired. -/
theorem Declares.isPaired {ds : Entities} {cs : List Char} (h : Declares ds cs) : IsPaired cs := by
  induction h with
  | nil hspaces => exact .of_notMem (notMem_spaces hspaces rfl) (notMem_spaces hspaces rfl)
  | @cons ds spaces before name between value after more quote hspaces hbefore _ hbetween _ hafter
      hquote hinert _ ih =>
    have hspaced : IsPaired spaces :=
      .of_notMem (notMem_spaces hspaces rfl) (notMem_spaces hspaces rfl)
    have hbrackets := IsPaired.bracketed
      (notMem_declaration hbefore hbetween hafter hquote hinert (.inl rfl))
      (notMem_declaration hbefore hbetween hafter hquote hinert (.inr rfl))
    simpa [Mark.entity] using hspaced.append (hbrackets.append ih)

/-! ## Finding a declaration -/

/-- The only blank character of names is the Ogham space mark. -/
private theorem isBlank_eq_false {c : Char} (h : isNameChar c = true) (hogham : c ≠ '\u1680') :
    isBlank c = false := by
  rw [Bool.eq_false_iff]
  intro hb
  have hc : ∀ n, isNameChar (Char.ofNat n) = false → c.toNat ≠ n := by
    rintro n hn rfl
    rw [Char.ofNat_toNat, h] at hn
    cases hn
  have hcontrol : ∀ n < 0x0E, isNameChar (Char.ofNat n) = false := by decide
  have hquad : ∀ n < 0x0B, isNameChar (Char.ofNat (0x2000 + n)) = false := by decide
  simp only [isBlank, Bool.or_eq_true, Bool.and_eq_true, decide_eq_true_eq, beq_iff_eq] at hb
  rcases hb with (((((((((hb | hb) | hb) | hb) | hb) | hb) | hb) | hb) | hb) | hb) | hb
  · exact hc _ (hcontrol c.toNat (by omega)) rfl
  · exact hc _ (by decide) hb
  · exact hc _ (by decide) hb
  · exact hc _ (by decide) hb
  · exact hogham (Char.toNat_inj.1 hb)
  · exact hc _ (hquad (c.toNat - 0x2000) (by omega)) (by omega)
  · exact hc _ (by decide) hb
  · exact hc _ (by decide) hb
  · exact hc _ (by decide) hb
  · exact hc _ (by decide) hb
  · exact hc _ (by decide) hb

private theorem isEntityNameChar_of_isNameChar {c : Char} (h : isNameChar c = true)
    (hogham : c ≠ '\u1680') : isEntityNameChar c = true := by
  have hne : ∀ x, isNameChar x = false → c ≠ x := by
    rintro x hx rfl
    rw [h] at hx
    cases hx
  simp [isEntityNameChar, isBlank_eq_false h hogham, hne '%' rfl, hne '"' rfl, hne '\x27' rfl,
    hne '>' rfl]

/-- Spaces of markup are blank. -/
private theorem forall_isBlank {spaces : List Char} (h : ∀ c ∈ spaces, isSpace c = true) :
    ∀ c ∈ spaces, isBlank c = true := by
  intro c hc
  rcases isSpace_cases (h c hc) with rfl | rfl | rfl | rfl <;> rfl

private theorem afterPrefix?_entity (cs : List Char) :
    afterPrefix? Mark.entity (Mark.entity ++ cs) = some cs := afterPrefix?_eq_some_iff.2 rfl

/-- **A declaration is found**, whatever follows it. -/
theorem entityDeclaration?_eq_some {before name between value after : List Char} {quote : Char}
    (hbefore : ∀ c ∈ before, isSpace c = true) (hne : before ≠ [])
    (hbetween : ∀ c ∈ between, isSpace c = true) (hne' : between ≠ [])
    (hafter : ∀ c ∈ after, isSpace c = true) (hquote : quote = '"' ∨ quote = '\x27')
    (hinert : IsInert (name, value)) (hname : '\u1680' ∉ name) (rest : List Char) :
    entityDeclaration? (Mark.entity ++ (before ++ (name ++ (between ++
      quote :: (value ++ quote :: (after ++ '>' :: rest)))))) = some ((name, value), rest) := by
  have hchars : ∀ c ∈ name, isEntityNameChar c = true := fun c hc ↦
    isEntityNameChar_of_isNameChar (hinert.name.forall_isNameChar c hc) fun heq ↦ hname (heq ▸ hc)
  obtain ⟨n, letters, rfl, -, -⟩ := hinert.name
  obtain ⟨b, more, rfl⟩ := List.exists_cons_of_ne_nil hne'
  have hstart : isBlank n = false :=
    isBlank_eq_false (hinert.name.forall_isNameChar n List.mem_cons_self) fun heq ↦
      hname (heq ▸ List.mem_cons_self)
  have hspace : isEntityNameChar b = false := by
    simp [isEntityNameChar, forall_isBlank hbetween b List.mem_cons_self]
  have hquoted : isBlank quote = false := by rcases hquote with rfl | rfl <;> rfl
  have hvalue : ∀ c ∈ value, decide (c ≠ quote) = true := fun c hc ↦ by
    refine decide_eq_true fun heq ↦ hinert.value c hc ?_
    rcases hquote with rfl | rfl <;> simp [heq]
  -- each part ends at the first character of the next one
  have hnamed := dropWhile_until (forall_isBlank hbefore) hstart (letters ++ (b :: more ++
    quote :: (value ++ quote :: (after ++ '>' :: rest))))
  have hspaced := dropWhile_until hchars hspace (more ++
    quote :: (value ++ quote :: (after ++ '>' :: rest)))
  have htake := takeWhile_until hchars hspace (more ++
    quote :: (value ++ quote :: (after ++ '>' :: rest)))
  have hquoted' := dropWhile_until (forall_isBlank hbetween) hquoted (value ++
    quote :: (after ++ '>' :: rest))
  have hclosing := dropWhile_until (forall_isBlank hafter) (show isBlank '>' = false by decide) rest
  have hend : decide (quote ≠ quote) = false := by simp
  have hall : (value ++ quote :: (after ++ '>' :: rest)).all (· ≠ quote) = false := by simp
  simp only [List.cons_append] at hnamed hspaced htake hquoted'
  simp only [entityDeclaration?, afterPrefix?_entity, bind, Option.bind_some, trimStart,
    List.cons_append, hnamed, hspaced, htake, hquoted', dropWhile_until hvalue hend,
    takeWhile_until hvalue hend, List.drop_succ_cons, List.drop_zero, hclosing]
  have hlength := List.length_pos_iff.2 hne
  refine if_neg ?_
  simp only [hall, List.length_append, List.length_cons]
  rintro (h | h | h | h | h)
  · omega
  · omega
  · omega
  · exact hquote.elim h.1 h.2
  · cases h

/-- A declaration of a name with an Ogham space mark inside is not found. -/
theorem entityDeclaration?_eq_none_of_mem {before name after : List Char}
    (hbefore : ∀ c ∈ before, isSpace c = true) (hname : IsName name) (hmem : '\u1680' ∈ name)
    (hhead : name.head? ≠ some '\u1680') (hlast : name.getLast? ≠ some '\u1680') :
    entityDeclaration? (Mark.entity ++ (before ++ (name ++ after))) = none := by
  obtain ⟨front, back, rfl, hfront⟩ := List.eq_append_cons_of_mem hmem
  have hchar := hname.forall_isNameChar
  cases front with
  | nil => exact absurd rfl hhead
  | cons n letters =>
    have hentity : ∀ c ∈ n :: letters, isEntityNameChar c = true := fun c hc ↦
      isEntityNameChar_of_isNameChar (hchar c (List.mem_append_left _ hc)) fun heq ↦
        hfront (heq ▸ hc)
    have hstart : isBlank n = false :=
      isBlank_eq_false (hchar n List.mem_cons_self) fun heq ↦ hfront (heq ▸ List.mem_cons_self)
    -- after the blanks inside the name comes another part of it, which is no quote
    obtain ⟨x, more, hrest, hx⟩ : ∃ x more,
        ('\u1680' :: (back ++ after)).dropWhile isBlank = x :: more ∧ x ∈ back := by
      rw [List.dropWhile_cons_of_pos (by decide), List.dropWhile_append]
      cases hdrop : back.dropWhile isBlank with
      | cons x more =>
        have hx : x ∈ back := (List.dropWhile_suffix isBlank).subset (hdrop ▸ List.mem_cons_self)
        exact ⟨x, more ++ after, rfl, hx⟩
      | nil =>
        -- if only blanks came, the name would end in one
        obtain ⟨blanks, hback, hblanks⟩ := exists_append_dropWhile isBlank back
        rw [hdrop, List.append_nil] at hback
        rw [← hback] at hblanks
        have hall : ∀ c ∈ '\u1680' :: back, c = '\u1680' := fun c hc ↦ by
          refine Decidable.by_contra fun hne ↦ ?_
          have hblank := hblanks c ((List.mem_cons.1 hc).resolve_left hne)
          rw [isBlank_eq_false (hchar c (List.mem_append_right _ hc)) hne] at hblank
          cases hblank
        rw [List.getLast?_append, List.getLast?_cons, Option.some_or] at hlast
        exact absurd (congrArg some (hall _ (List.mem_of_getLast? List.getLast?_cons))) hlast
    have hnamed := dropWhile_until (forall_isBlank hbefore) hstart
      (letters ++ '\u1680' :: (back ++ after))
    have hspaced := dropWhile_until hentity (show isEntityNameChar '\u1680' = false by decide)
      (back ++ after)
    have hquote : ∀ q, isNameChar q = false → x ≠ q := by
      rintro q hq rfl
      rw [hchar x (by simp [hx])] at hq
      cases hq
    simp only [List.cons_append] at hnamed hspaced
    simp only [entityDeclaration?, afterPrefix?_entity, bind, Option.bind_some, trimStart,
      List.append_assoc, List.cons_append, hnamed, hspaced, hrest]
    exact if_pos (.inr (.inr (.inr (.inl ⟨hquote '"' rfl, hquote '\x27' rfl⟩))))

/-! ## Collecting declarations -/

theorem collect_of_entityDeclaration? {entities : Entities} {cs after : List Char}
    {d : List Char × List Char} (h : entityDeclaration? cs = some (d, after)) :
    entities.collect cs = (entities.declare d.1 d.2).collect after := by
  cases cs with
  | nil => cases h
  | cons c cs =>
    rw [Entities.collect]
    split
    · next hsome =>
      rw [h] at hsome
      cases hsome
      rfl
    · next hnone =>
      rw [h] at hnone
      cases hnone

theorem collect_of_entityDeclaration?_eq_none {entities : Entities} {c : Char} {cs : List Char}
    (h : entityDeclaration? (c :: cs) = none) : entities.collect (c :: cs) = entities.collect cs := by
  rw [Entities.collect]
  split
  · next hsome =>
    rw [h] at hsome
    cases hsome
  · rfl

/-- Where no declaration starts, no entity is declared. -/
theorem collect_append (entities : Entities) {front rest : List Char}
    (h : ∀ a b, front = a ++ b → b ≠ [] → entityDeclaration? (b ++ rest) = none) :
    entities.collect (front ++ rest) = entities.collect rest := by
  induction front with
  | nil => rfl
  | cons c front ih =>
    have hnone := h [] (c :: front) rfl (List.cons_ne_nil _ _)
    rw [List.cons_append] at hnone ⊢
    rw [collect_of_entityDeclaration?_eq_none hnone]
    exact ih fun a b hab ↦ h (c :: a) b (by rw [hab, List.cons_append])

private theorem entityDeclaration?_eq_none {cs : List Char} (h : ¬ Mark.entity <+: cs) :
    entityDeclaration? cs = none := by
  have hmark : afterPrefix? Mark.entity cs = none :=
    Option.eq_none_iff_forall_ne_some.2 fun rest hrest ↦
      h ⟨rest, (afterPrefix?_eq_some_iff.1 hrest).symm⟩
  rw [entityDeclaration?, hmark]
  rfl

theorem collect_append_of_notMem (entities : Entities) {front : List Char} (h : '<' ∉ front)
    (rest : List Char) : entities.collect (front ++ rest) = entities.collect rest := by
  refine collect_append entities fun a b hab hne ↦ entityDeclaration?_eq_none ?_
  obtain ⟨c, b, rfl⟩ := List.exists_cons_of_ne_nil hne
  intro hprefix
  obtain rfl : '<' = c := (List.cons_prefix_cons.1 hprefix).1
  exact h (hab ▸ List.mem_append_right a List.mem_cons_self)

theorem collect_of_notMem (entities : Entities) {cs : List Char} (h : '<' ∉ cs) :
    entities.collect cs = entities := by
  have := collect_append_of_notMem entities h []
  rwa [List.append_nil, Entities.collect] at this

/-- What comes before the internal subset declares nothing, if no declaration starts in it. -/
theorem collect_append_subset (entities : Entities) {front : List Char}
    (h : ¬ Mark.entity <:+: front) (rest : List Char) :
    entities.collect (front ++ '[' :: rest) = entities.collect rest := by
  have hbracket := collect_append_of_notMem entities (show '<' ∉ ['['] by decide) rest
  refine Eq.trans (collect_append entities fun a b hab _ ↦ entityDeclaration?_eq_none fun hprefix ↦ ?_)
    hbracket
  rcases List.prefix_or_prefix_of_prefix hprefix (List.prefix_append b _) with hb | ⟨y, hy⟩
  · exact h (hab ▸ hb.isInfix.trans (List.suffix_append a b).isInfix)
  · rw [← hy, List.prefix_append_right_inj] at hprefix
    cases y with
    | nil =>
      rw [List.append_nil] at hy
      exact h (hab ▸ hy ▸ (List.suffix_append a b).isInfix)
    | cons c y =>
      obtain rfl : c = '[' := (List.cons_prefix_cons.1 hprefix).1
      exact absurd (hy ▸ List.mem_append_right b List.mem_cons_self) (by decide)

/-- An entity is added with its value as it is, since there is no reference in it. -/
theorem declare_eq (entities : Entities) {name value : List Char} (h : '&' ∉ value) :
    entities.declare name value
      = if entities.any (·.1 == name) then entities else entities ++ [(name, value)] := by
  have hvalue : unescape entities 0 value = .ok value := by
    have hunescapes := Unescapes.append_of_notMem h (show Unescapes entities [] [] from .nil)
    rw [List.append_nil] at hunescapes
    exact unescape_eq_ok_iff.2 hunescapes
  rw [Entities.declare, hvalue]

/-- A name that is declared again keeps its first value. -/
theorem find?_declare (entities ds : Entities) {name value : List Char} (h : '&' ∉ value)
    (key : List Char) : (entities.declare name value ++ ds).find? (·.1 == key)
      = (entities ++ (name, value) :: ds).find? (·.1 == key) := by
  rw [declare_eq entities h]
  split
  · next hany =>
    rw [List.find?_append, List.find?_append, List.find?_cons]
    split
    · next hkey =>
      -- the name has been found before
      obtain ⟨d, hd, hname⟩ := List.any_eq_true.1 hany
      rw [beq_iff_eq] at hkey hname
      have hsome : (entities.find? (·.1 == key)).isSome :=
        List.find?_isSome.2 ⟨d, hd, beq_iff_eq.2 (hname.trans hkey)⟩
      obtain ⟨d', hd'⟩ := Option.isSome_iff_exists.1 hsome
      rw [hd']
      rfl
    · rfl
  · rw [List.append_assoc]
    rfl

/-- **The declarations of an internal subset are collected**, and the first one of a name counts. -/
theorem find?_collect {ds : Entities} {cs : List Char} (h : Declares ds cs)
    (hnames : ∀ d ∈ ds, d.1.head? ≠ some '\u1680' ∧ d.1.getLast? ≠ some '\u1680') {rest : List Char}
    (hrest : '<' ∉ rest) (entities : Entities) (key : List Char) :
    (entities.collect (cs ++ rest)).find? (·.1 == key)
      = (entities ++ ds.filter (!·.1.contains '\u1680')).find? (·.1 == key) := by
  induction h generalizing entities with
  | nil hspaces =>
    rw [collect_append_of_notMem entities (notMem_spaces hspaces rfl),
      collect_of_notMem entities hrest, List.filter_nil, List.append_nil]
  | @cons ds spaces before name between value after more quote hspaces hbefore hne hbetween hne'
      hafter hquote hinert _ ih =>
    obtain ⟨⟨hhead, hlast⟩, hnames⟩ := List.forall_mem_cons.1 hnames
    rw [List.append_assoc, collect_append_of_notMem entities (notMem_spaces hspaces rfl)]
    simp only [List.append_assoc, List.cons_append]
    by_cases hmem : '\u1680' ∈ name
    · -- nothing is found up to the end of the declaration
      have hstart : ∀ tail, entityDeclaration? (Mark.entity ++ (before ++ (name ++ tail))) = none :=
        fun tail ↦ entityDeclaration?_eq_none_of_mem hbefore hinert.name hmem hhead hlast
      have hinside := notMem_declaration hbefore hbetween hafter hquote hinert (.inl rfl)
      have hskip := collect_append_of_notMem entities hinside ('>' :: (more ++ rest))
      have hclose := collect_append_of_notMem entities (show '<' ∉ ['>'] by decide) (more ++ rest)
      simp only [List.append_assoc, List.cons_append, List.nil_append] at hskip hclose
      refine Eq.trans (congrArg _ (collect_of_entityDeclaration?_eq_none (hstart _))) ?_
      refine Eq.trans (congrArg _ (hskip.trans hclose)) ?_
      rw [ih hnames, List.filter_cons_of_neg (by simpa using hmem)]
    · have hdeclaration := entityDeclaration?_eq_some hbefore hne hbetween hne' hafter hquote hinert
        hmem (more ++ rest)
      rw [collect_of_entityDeclaration? hdeclaration, ih hnames,
        find?_declare entities _ (hinert.ne (by simp)), List.filter_cons_of_pos (by simpa using hmem)]

/-! ## Document types -/

/-- What stands between the word of a document type declaration and the sign at its end, where there
is an internal subset. -/
structure Typed where
  /-- What comes before the bracket that opens the internal subset. -/
  head : List Char
  /-- The internal subset. -/
  subset : List Char
  /-- What comes after the bracket that closes it. -/
  gap : List Char

/-- The parts put together. -/
def Typed.text (t : Typed) : List Char := t.head ++ '[' :: (t.subset ++ ']' :: t.gap)

/-- Whether the entities of a document type are those of its internal subset, which declares
entities only. -/
structure Typed.IsDeclaring (t : Typed) (ds : Entities) : Prop where
  /-- The angle brackets before the internal subset are paired. -/
  paired : IsPaired t.head
  /-- No declaration starts there. -/
  entity : ¬ Mark.entity <:+: t.head
  /-- The internal subset is made of declarations. -/
  subset : Declares ds t.subset
  /-- Only spaces follow it. -/
  gap : ∀ c ∈ t.gap, isSpace c = true
  /-- No declared name starts or ends in a blank. -/
  names : ∀ d ∈ ds, d.1.head? ≠ some '\u1680' ∧ d.1.getLast? ≠ some '\u1680'

namespace Typed.IsDeclaring

variable {t : Typed} {ds : Entities}

private theorem skipSpaces_text (t : Typed) :
    skipSpaces t.text = skipSpaces t.head ++ '[' :: (t.subset ++ ']' :: t.gap) :=
  dropWhile_append_cons rfl t.head _

/-- **The document type is cut off at its end**, whatever follows. -/
theorem cuts (h : t.IsDeclaring ds) (innermost : Option String) (rest : List Char) :
    Cuts innermost (Mark.doctype ++ (t.text ++ '>' :: rest)) (.doctype (skipSpaces t.text)) rest := by
  refine cuts_doctype_of_isPaired ?_ ?_ innermost rest
  · have hopen : IsPaired ['['] := .of_notMem (by decide) (by decide)
    have hclose : IsPaired (']' :: t.gap) :=
      .of_notMem (by simpa using notMem_spaces h.gap rfl) (by simpa using notMem_spaces h.gap rfl)
    exact h.paired.append (hopen.append (h.subset.isPaired.append hclose))
  · rw [skipSpaces_text]
    simp

private theorem find?_filter (p : List Char → Bool) (ds : Entities) (name : List Char) :
    (ds.filter (p ·.1)).find? (·.1 == name) = if p name then ds.find? (·.1 == name) else none := by
  induction ds with
  | nil => simp
  | cons d ds ih =>
    by_cases hd : d.1 = name
    · subst hd
      by_cases hp : p d.1 = true
      · simp [hp]
      · simp [hp, ih]
    · by_cases hp : p d.1 = true
      · simp [hp, hd, ih]
      · simp [hp, hd, ih]

/-- **A name has the value that is declared**, if it has one. -/
theorem resolve?_of_collect (h : t.IsDeclaring ds) {name value : List Char}
    (hvalue : resolve? (Entities.collect [] (skipSpaces t.text)) name = some value) :
    resolve? ds name = some value := by
  have hentity : ¬ Mark.entity <:+: skipSpaces t.head := fun hwithin ↦
    h.entity (hwithin.trans (List.dropWhile_suffix isSpace).isInfix)
  have hgap : '<' ∉ ']' :: t.gap := by
    rw [List.mem_cons, not_or]
    exact ⟨by decide, notMem_spaces h.gap rfl⟩
  rw [resolve?_eq_or, skipSpaces_text, collect_append_subset [] hentity,
    find?_collect h.subset h.names hgap, List.nil_append,
    find?_filter (!·.contains '\u1680')] at hvalue
  rw [resolve?_eq_or]
  cases hpredefined : resolve? [] name with
  | some text =>
    rw [hpredefined] at hvalue
    exact hvalue
  | none =>
    rw [hpredefined, Option.none_or] at hvalue
    split at hvalue
    · exact hvalue
    · cases hvalue

end Typed.IsDeclaring

end SvgWorkbench.Markup
