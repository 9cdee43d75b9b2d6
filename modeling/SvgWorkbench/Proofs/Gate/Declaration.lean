import SvgWorkbench.Gate.Prolog
import SvgWorkbench.Proofs.Gate.Tag

/-!
# The XML declaration

A declaration has no less-than sign in it, but the mark that ends it may stand in one of its values
as well. So whether a text starts with a declaration can depend on what follows the first such mark.
It does not where no quote comes before the next less-than sign, as in text that is written: its
quotes are escaped.
-/

namespace SvgWorkbench.Gate

open Text Xml

/-! ## Steps over a declaration -/

/-- Whether a reading step leaves what follows a part of the text that has no less-than sign. -/
def StaysBefore (step : List Char → Except Fault (List Char)) : Prop :=
  ∀ cs rest, step cs = .ok rest → ∃ used, cs = used ++ rest ∧ '<' ∉ used

/-- Whether no value that starts before a text ends in it: a less-than sign comes before any
quote. -/
def IsQuoteFree (cs : List Char) : Prop :=
  ∀ front quote back, cs = front ++ quote :: back → quote = '"' ∨ quote = '\x27' → '<' ∈ front

/-- A text up to the first greater-than sign, which ends a declaration, and what follows. -/
def closed (v rest : List Char) : List Char := v ++ (Mark.closeInstruction ++ rest)

/-- Whether a reading step before the end mark of a declaration stays there, whatever follows. -/
def StaysInside (step : List Char → Except Fault (List Char)) : Prop :=
  ∀ v rest r, '>' ∉ v → IsQuoteFree rest → step (closed v rest) = .ok r →
    ∃ v', '>' ∉ v' ∧ r = closed v' rest ∧
      ∀ rest', step (closed v rest') = .ok (closed v' rest')

theorem StaysBefore.bind {f g : List Char → Except Fault (List Char)} (hf : StaysBefore f)
    (hg : StaysBefore g) : StaysBefore fun cs ↦ f cs >>= g := by
  intro cs rest h
  obtain ⟨between, hbetween, hrest⟩ := bind_eq_ok_iff.1 h
  obtain ⟨used, rfl, hused⟩ := hf cs between hbetween
  obtain ⟨used', rfl, hused'⟩ := hg between rest hrest
  refine ⟨used ++ used', (List.append_assoc used used' rest).symm, ?_⟩
  rw [List.mem_append]
  exact not_or.2 ⟨hused, hused'⟩

theorem StaysInside.bind {f g : List Char → Except Fault (List Char)} (hf : StaysInside f)
    (hg : StaysInside g) : StaysInside fun cs ↦ f cs >>= g := by
  intro v rest r hv hrest h
  obtain ⟨between, hbetween, hr⟩ := bind_eq_ok_iff.1 h
  obtain ⟨v₁, hv₁, rfl, hf'⟩ := hf v rest between hv hrest hbetween
  obtain ⟨v₂, hv₂, rfl, hg'⟩ := hg v₁ rest r hv₁ hrest hr
  exact ⟨v₂, hv₂, rfl, fun rest' ↦ bind_eq_ok_iff.2 ⟨_, hf' rest', hg' rest'⟩⟩

/-! ## Spaces and words -/

theorem closed_cons (c : Char) (v rest : List Char) : closed (c :: v) rest = c :: closed v rest :=
  rfl

theorem skipSpaces_closed (v rest : List Char) :
    skipSpaces (closed v rest) = closed (skipSpaces v) rest :=
  dropWhile_append_cons rfl v ('>' :: rest)

private theorem notMem_of_suffix {c : Char} {v v' : List Char} (h : v' <:+ v) (hv : c ∉ v) :
    c ∉ v' := fun hmem ↦ hv (h.subset hmem)

/-- Whether a word without a question mark stands before the end mark does not depend on what
follows. -/
theorem startsWith_closed {word v : List Char} (hword : '?' ∉ word) (rest : List Char) :
    startsWith word (closed v rest) = startsWith word v := by
  rw [Bool.eq_iff_iff, startsWith_iff, startsWith_iff]
  refine ⟨fun h ↦ ?_, fun h ↦ h.trans (List.prefix_append v _)⟩
  rcases List.prefix_or_prefix_of_prefix h (List.prefix_append v _) with hprefix | ⟨y, hy⟩
  · exact hprefix
  · rw [closed, ← hy, List.prefix_append_right_inj] at h
    cases y with
    | nil => exact ⟨[], by rw [List.append_nil, ← hy, List.append_nil]⟩
    | cons x y =>
      obtain rfl : x = '?' := (List.cons_prefix_cons.1 h).1
      exact absurd (hy ▸ List.mem_append_right v List.mem_cons_self) hword

/-- The end mark stands first only where nothing is before it. -/
theorem startsWith_closeInstruction_closed {v : List Char} (hv : '>' ∉ v) (rest : List Char) :
    startsWith Mark.closeInstruction (closed v rest) = v.isEmpty := by
  rw [Bool.eq_iff_iff, startsWith_iff, List.isEmpty_iff]
  constructor
  · intro h
    cases v with
    | nil => rfl
    | cons c v =>
      have h' := (List.cons_prefix_cons.1 h).2
      cases v with
      | nil => exact absurd (List.cons_prefix_cons.1 h').1 (by decide)
      | cons d v => exact absurd ((List.cons_prefix_cons.1 h').1 ▸ by simp) hv
  · rintro rfl
    exact List.prefix_append _ rest

theorem staysBefore_skipSpaces : StaysBefore fun cs ↦ .ok (skipSpaces cs) := by
  intro cs rest h
  cases h
  obtain ⟨spaces, hsplit, hspaces⟩ := exists_append_dropWhile isSpace cs
  exact ⟨spaces, hsplit, notMem_spaces hspaces rfl⟩

theorem staysBefore_declarationSpaces : StaysBefore declarationSpaces := by
  intro cs rest h
  unfold declarationSpaces at h
  split at h
  · cases h
    exact ⟨[], rfl, List.not_mem_nil⟩
  · next c cs =>
    split at h
    · next hc =>
      obtain ⟨used, rfl, hused⟩ := staysBefore_skipSpaces cs rest h
      refine ⟨c :: used, rfl, ?_⟩
      rw [List.mem_cons, not_or]
      exact ⟨fun heq ↦ (by rw [← heq] at hc; cases hc), hused⟩
    · split at h
      · cases h
        exact ⟨[], rfl, List.not_mem_nil⟩
      · exact absurd h fail_ne_ok

theorem staysInside_declarationSpaces : StaysInside declarationSpaces := by
  intro v rest r hv _ h
  cases v with
  | nil =>
    cases h
    exact ⟨[], List.not_mem_nil, rfl, fun _ ↦ rfl⟩
  | cons c v =>
    have hstart : ∀ rest, startsWith Mark.closeInstruction (c :: closed v rest) = false :=
      startsWith_closeInstruction_closed hv
    rw [closed_cons, declarationSpaces, hstart] at h
    split at h
    · next hc =>
      cases h
      refine ⟨skipSpaces v, ?_, skipSpaces_closed v rest, fun rest' ↦ ?_⟩
      · exact notMem_of_suffix (List.dropWhile_suffix isSpace) (List.not_mem_of_not_mem_cons hv)
      · rw [closed_cons, declarationSpaces, if_pos hc, skipSpaces_closed]
    · exact absurd h fail_ne_ok

/-! ## Attributes -/

theorem staysBefore_writtenAttribute : StaysBefore fun cs ↦ (writtenAttribute cs).map Prod.snd := by
  intro cs rest h
  obtain ⟨⟨a, rest⟩, hattribute, rfl⟩ := map_eq_ok_iff.1 h
  obtain ⟨key, before, after, quote, rfl, hkey, -, hbefore, hafter, hquote, hvalue, -⟩ :=
    writtenAttribute_eq_ok_iff.1 hattribute
  refine ⟨key ++ (before ++ '=' :: (after ++ quote :: (a.value ++ [quote]))), by simp, ?_⟩
  simp only [List.mem_append, List.mem_cons, List.not_mem_nil, or_false, not_or]
  have hquote' : '<' ≠ quote := by rcases hquote with rfl | rfl <;> decide
  refine ⟨fun hmem ↦ ?_, notMem_spaces hbefore rfl, by decide, notMem_spaces hafter rfl, hquote',
    fun hmem ↦ (hvalue '<' hmem).2.2 rfl, hquote'⟩
  cases hkey '<' hmem

/-- A text without a question mark that is followed by something stands in front of the end mark if
what follows does. -/
private theorem exists_of_append_eq_closed {front back v rest : List Char} {x : Char}
    (h : front ++ x :: back = closed v rest) (hfront : '?' ∉ front) (hx : x ≠ '?') :
    ∃ v', v = front ++ x :: v' ∧ back = closed v' rest := by
  rcases List.append_eq_append_iff.1 h with ⟨v', rfl, hback⟩ | ⟨y, hy, hback⟩
  · cases v' with
    | nil => exact absurd (List.cons.inj hback).1 hx
    | cons c v' =>
      obtain ⟨rfl, rfl⟩ := List.cons.inj hback
      exact ⟨v', rfl, rfl⟩
  · cases y with
    | nil => exact absurd (List.cons.inj hback).1.symm hx
    | cons c y =>
      obtain rfl : '?' = c := (List.cons.inj hback).1
      exact absurd (hy ▸ List.mem_append_right v List.mem_cons_self) hfront

/-- A value that starts before the end mark ends there: it has no less-than sign, and what follows
the mark has one before any quote. -/
private theorem exists_of_value_eq_closed {value back v rest : List Char} {quote : Char}
    (h : value ++ quote :: back = closed v rest) (hquote : quote = '"' ∨ quote = '\x27')
    (hvalue : '<' ∉ value) (hrest : IsQuoteFree rest) :
    ∃ v', v = value ++ quote :: v' ∧ back = closed v' rest := by
  rcases List.append_eq_append_iff.1 h with ⟨v', rfl, hback⟩ | ⟨y, hy, hback⟩
  · cases v' with
    | nil =>
      rcases hquote with rfl | rfl <;> cases hback
    | cons c v' =>
      obtain ⟨rfl, rfl⟩ := List.cons.inj hback
      exact ⟨v', rfl, rfl⟩
  · -- the value reaches beyond the mark
    exfalso
    match y with
    | [] => rcases hquote with rfl | rfl <;> cases hback
    | [_] => rcases hquote with rfl | rfl <;> cases hback
    | _ :: _ :: front =>
      obtain rfl : rest = front ++ quote :: back := (List.cons.inj (List.cons.inj hback).2).2
      refine hvalue (hy ▸ List.mem_append_right v ?_)
      exact List.mem_cons_of_mem _ (List.mem_cons_of_mem _ (hrest front quote back rfl hquote))

theorem staysInside_writtenAttribute : StaysInside fun cs ↦ (writtenAttribute cs).map Prod.snd := by
  intro v rest r hv hrest h
  obtain ⟨⟨a, r⟩, hattribute, rfl⟩ := map_eq_ok_iff.1 h
  obtain ⟨key, before, after, quote, hsplit, hkey, hq, hbefore, hafter, hquote, hvalue, -⟩ :=
    writtenAttribute_eq_ok_iff.1 hattribute
  rw [← List.append_assoc] at hsplit
  obtain ⟨v₁, rfl, hback⟩ := exists_of_append_eq_closed hsplit.symm
    (by
      rw [List.mem_append]
      exact not_or.2 ⟨fun hmem ↦ (by cases hkey '?' hmem), notMem_spaces hbefore rfl⟩) (by decide)
  obtain ⟨v₂, rfl, hvalue'⟩ := exists_of_append_eq_closed hback (notMem_spaces hafter rfl)
    (by rcases hquote with rfl | rfl <;> decide)
  obtain ⟨v₃, rfl, rfl⟩ := exists_of_value_eq_closed hvalue' hquote
    (fun hmem ↦ (hvalue '<' hmem).2.2 rfl) hrest
  refine ⟨v₃, fun hmem ↦ hv (by simp [hmem]), rfl, fun rest' ↦ ?_⟩
  refine map_eq_ok_iff.2 ⟨(⟨a.qname, a.value, _, (closed v₃ rest').length + 1⟩, closed v₃ rest'),
    writtenAttribute_eq_ok_iff.2 ⟨key, before, after, quote, ?_, hkey, hq, hbefore, hafter, hquote,
      hvalue, rfl, rfl⟩, rfl⟩
  simp [closed]

/-! ## The whole declaration -/

/-- Reads the version, whose name has to stand there. -/
def versionStep (cs : List Char) : Except Fault (List Char) :=
  (mark Mark.version cs).bind fun _ ↦ (writtenAttribute cs).map Prod.snd

/-- Reads the encoding and the spaces after it, if there is one. -/
def encodingStep (cs : List Char) : Except Fault (List Char) :=
  if startsWith Mark.encoding cs then
    (optionalAttribute Mark.encoding cs).bind declarationSpaces
  else .ok cs

/-- Reads all of a declaration but its end. -/
def declarationHead (cs : List Char) : Except Fault (List Char) :=
  declarationSpaces cs >>= fun rest ↦ versionStep rest >>= fun rest ↦ declarationSpaces rest >>=
    fun rest ↦ encodingStep rest >>= optionalAttribute Mark.standalone

theorem declaration_eq (cs : List Char) :
    declaration cs
      = declarationHead cs >>= fun rest ↦ mark Mark.closeInstruction (skipSpaces rest) := by
  rw [declaration, declarationHead, bind_assoc]
  refine congrArg _ (funext fun rest ↦ ?_)
  rw [bind_assoc, versionStep]
  cases mark Mark.version rest with
  | error fault => rfl
  | ok _ =>
    cases writtenAttribute rest with
    | error fault => rfl
    | ok p =>
      show declarationSpaces p.2 >>= _ = declarationSpaces p.2 >>= _ >>= _
      rw [bind_assoc]
      refine congrArg _ (funext fun rest ↦ ?_)
      rw [encodingStep]
      split
      · rw [bind_assoc]
      · rfl

theorem staysBefore_optionalAttribute (word : List Char) :
    StaysBefore (optionalAttribute word) := by
  intro cs rest h
  rw [optionalAttribute] at h
  split at h
  · exact staysBefore_writtenAttribute cs rest h
  · cases h
    exact ⟨[], rfl, List.not_mem_nil⟩

theorem staysInside_optionalAttribute {word : List Char} (hword : '?' ∉ word) :
    StaysInside (optionalAttribute word) := by
  intro v rest r hv hrest h
  simp only [optionalAttribute, startsWith_closed hword] at h ⊢
  split
  · next hstart =>
    rw [if_pos hstart] at h
    exact staysInside_writtenAttribute v rest r hv hrest h
  · next hstart =>
    rw [if_neg hstart] at h
    cases h
    exact ⟨v, hv, rfl, fun _ ↦ rfl⟩

theorem staysBefore_declarationHead : StaysBefore declarationHead := by
  refine staysBefore_declarationSpaces.bind (StaysBefore.bind (fun cs rest h ↦ ?_)
    (staysBefore_declarationSpaces.bind (StaysBefore.bind (fun cs rest h ↦ ?_)
      (staysBefore_optionalAttribute _))))
  · obtain ⟨_, -, h⟩ := bind_eq_ok_iff.1 h
    exact staysBefore_writtenAttribute cs rest h
  · rw [encodingStep] at h
    split at h
    · exact (staysBefore_optionalAttribute _).bind staysBefore_declarationSpaces cs rest h
    · cases h
      exact ⟨[], rfl, List.not_mem_nil⟩

theorem staysInside_declarationHead : StaysInside declarationHead := by
  refine staysInside_declarationSpaces.bind (StaysInside.bind (fun v rest r hv hrest h ↦ ?_)
    (staysInside_declarationSpaces.bind (StaysInside.bind (fun v rest r hv hrest h ↦ ?_)
      (staysInside_optionalAttribute (by decide)))))
  · obtain ⟨_, hmark, h⟩ := bind_eq_ok_iff.1 h
    obtain ⟨v', hv', rfl, hv''⟩ := staysInside_writtenAttribute v rest r hv hrest h
    refine ⟨v', hv', rfl, fun rest' ↦ bind_eq_ok_iff.2 ?_⟩
    have hword : startsWith Mark.version (closed v rest) = true :=
      startsWith_iff.2 ⟨_, (mark_eq_ok_iff.1 hmark).symm⟩
    rw [startsWith_closed (by decide), ← startsWith_closed (by decide) rest'] at hword
    obtain ⟨more, hmore⟩ := startsWith_iff.1 hword
    exact ⟨more, mark_eq_ok_iff.2 hmore.symm, hv'' rest'⟩
  · simp only [encodingStep, startsWith_closed (show '?' ∉ Mark.encoding by decide)] at h ⊢
    split
    · next hstart =>
      rw [if_pos hstart] at h
      exact (staysInside_optionalAttribute (by decide)).bind staysInside_declarationSpaces v rest r
        hv hrest h
    · next hstart =>
      rw [if_neg hstart] at h
      cases h
      exact ⟨v, hv, rfl, fun _ ↦ rfl⟩

/-- A declaration has no less-than sign in it, and ends in a greater-than sign. -/
theorem exists_of_declaration {cs rest : List Char} (h : declaration cs = .ok rest) :
    ∃ used, cs = used ++ rest ∧ '<' ∉ used ∧ '>' ∈ used := by
  rw [declaration_eq] at h
  obtain ⟨r, hhead, hmark⟩ := bind_eq_ok_iff.1 h
  obtain ⟨used, rfl, hused⟩ := staysBefore_declarationHead cs r hhead
  obtain ⟨spaces, hsplit, hspaces⟩ := exists_append_dropWhile isSpace r
  rw [← skipSpaces, mark_eq_ok_iff.1 hmark] at hsplit
  refine ⟨used ++ (spaces ++ Mark.closeInstruction), by rw [hsplit]; simp, ?_, ?_⟩
  · rw [List.mem_append, List.mem_append]
    exact not_or.2 ⟨hused, not_or.2 ⟨notMem_spaces hspaces rfl, by decide⟩⟩
  · exact List.mem_append_right _ (List.mem_append_right _ (by decide))

/-- Whether a text without a greater-than sign is all of a declaration but its marks. -/
def IsStrictDeclaration (v : List Char) : Prop :=
  declaration (v ++ Mark.closeInstruction) = .ok []

/-- What is left of a declaration before its end mark has to be spaces. -/
private theorem mark_closed_eq_ok_iff {v rest r : List Char} (hv : '>' ∉ v) :
    mark Mark.closeInstruction (skipSpaces (closed v rest)) = .ok r ↔
      skipSpaces v = [] ∧ r = rest := by
  have hv' : '>' ∉ skipSpaces v := notMem_of_suffix (List.dropWhile_suffix isSpace) hv
  rw [mark_eq_ok_iff, skipSpaces_closed]
  constructor
  · intro h
    have hstart : startsWith Mark.closeInstruction (closed (skipSpaces v) rest) = true :=
      startsWith_iff.2 ⟨r, h.symm⟩
    rw [startsWith_closeInstruction_closed hv', List.isEmpty_iff] at hstart
    rw [hstart] at h
    have h' : Mark.closeInstruction ++ rest = Mark.closeInstruction ++ r := h
    exact ⟨hstart, (List.append_cancel_left h').symm⟩
  · rintro ⟨hskip, rfl⟩
    rw [hskip]
    rfl

/-- A declaration that ends at the first end mark does so whatever follows. -/
private theorem declaration_closed {v rest r : List Char} (hv : '>' ∉ v) (hrest : IsQuoteFree rest)
    (h : declaration (closed v rest) = .ok r) :
    r = rest ∧ ∀ rest', declaration (closed v rest') = .ok rest' := by
  rw [declaration_eq] at h
  obtain ⟨_, hhead, hmark⟩ := bind_eq_ok_iff.1 h
  obtain ⟨v', hv', rfl, hhead'⟩ := staysInside_declarationHead v rest _ hv hrest hhead
  obtain ⟨hskip, rfl⟩ := (mark_closed_eq_ok_iff hv').1 hmark
  refine ⟨rfl, fun rest' ↦ ?_⟩
  rw [declaration_eq]
  exact bind_eq_ok_iff.2 ⟨_, hhead' rest', (mark_closed_eq_ok_iff hv').2 ⟨hskip, rfl⟩⟩

/-- A declaration that is complete at its first end mark is read up to there. -/
theorem IsStrictDeclaration.declaration_closed {v : List Char} (h : IsStrictDeclaration v)
    (hv : '>' ∉ v) (rest : List Char) : declaration (closed v rest) = .ok rest := by
  have hnil : IsQuoteFree [] := by
    intro front quote back heq
    simp at heq
  exact (Gate.declaration_closed hv hnil h).2 rest

/-- A declaration ends at the first end mark, if no quote follows before the next less-than
sign. -/
theorem declaration_closed_eq_ok_iff {v rest r : List Char} (hv : '>' ∉ v)
    (hrest : IsQuoteFree rest) :
    declaration (closed v rest) = .ok r ↔ IsStrictDeclaration v ∧ r = rest := by
  constructor
  · intro h
    obtain ⟨rfl, hall⟩ := declaration_closed hv hrest h
    exact ⟨hall [], rfl⟩
  · rintro ⟨hstrict, rfl⟩
    exact hstrict.declaration_closed hv r

end SvgWorkbench.Gate
