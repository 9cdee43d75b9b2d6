import SvgWorkbench.Proofs.Gate.FollowDocument

/-!
# A document is a front and pieces of content

What the strict check has gone over up to a document type stays the same for it, whatever follows
the word of the document type: it never looks further. And what it lets through behind the document
type is made of pieces of content, whatever entities there are.
-/

namespace SvgWorkbench.Gate

open Text Xml Markup

/-! ## Pieces -/

/-- Whether a text is made of pieces of content. -/
inductive ArePieces : List Char → Prop where
  /-- Nothing is left. -/
  | nil : ArePieces []
  /-- A piece, and the pieces after it. -/
  | cons {cs rest : List Char} {p : Piece} (h : IsPiece cs p rest) (hmore : ArePieces rest) :
    ArePieces cs

variable {cs rest : List Char}

theorem arePieces_of_content {entities : List Entity} {expand : ContentExpansion}
    {depth after level : Nat} {st st' : State}
    (h : content entities expand depth false after level st cs = .ok (st', rest))
    (hrest : ArePieces rest) : ArePieces cs := by
  fun_induction content entities expand depth false after level st cs with
  | case1 =>
    cases h
    exact hrest
  | case2 level st c cs fault hpiece => cases h
  | case3 level st c cs rest₁ hpiece ih =>
    exact .cons (isPiece_of_piece (List.cons_ne_nil c cs) hpiece fun _ h ↦ by cases h) (ih h)
  | case4 level st c cs s rest₁ hpiece ih =>
    obtain ⟨st₁, -, h⟩ := bind_eq_ok_iff.1 h
    exact .cons (isPiece_of_piece (List.cons_ne_nil c cs) hpiece fun _ h ↦ by cases h) (ih st₁ h)
  | case5 level st c cs tag rest₁ hpiece ih =>
    obtain ⟨st₁, hst₁, h⟩ := bind_eq_ok_iff.1 h
    refine .cons (isPiece_of_piece (List.cons_ne_nil c cs) hpiece fun tag' htag ↦ ?_) (ih st₁ h)
    cases htag
    exact State.exists_ending_of_readStartTag hst₁
  | case6 level st c cs q rest₁ hpiece ih =>
    obtain ⟨st₁, -, h⟩ := bind_eq_ok_iff.1 h
    refine .cons (isPiece_of_piece (List.cons_ne_nil c cs) hpiece fun _ h ↦ by cases h) ?_
    split at h
    · cases h
      exact hrest
    · exact ih st₁ h

theorem arePieces_of_root {entities : List Entity} {st : State}
    (h : root entities cs = .ok (st, rest)) (hrest : ArePieces rest) : ArePieces ('<' :: cs) := by
  obtain ⟨tag, after, st', htag, hst', hend⟩ := root_eq_ok_iff.1 h
  obtain ⟨ending, hending⟩ := State.exists_ending_of_readStartTag hst'
  obtain ⟨key, body, parts, hwritten, rfl, hcut⟩ := exists_of_startTag htag hending
  refine .cons (.startTag hwritten hending hcut) ?_
  rcases hend with ⟨-, hcontent⟩ | ⟨-, -, rfl⟩
  · exact arePieces_of_content hcontent hrest
  · exact hrest

private theorem arePieces_spaces_append {spaces : List Char}
    (hspaces : ∀ c ∈ spaces, isSpace c = true) (hhead : rest = [] ∨ rest.head? = some '<')
    (hrest : ArePieces rest) : ArePieces (spaces ++ rest) := by
  by_cases hne : spaces = []
  · rw [hne]
    exact hrest
  · exact .cons (.run hne (notMem_spaces hspaces rfl)
      (fun c hc ↦ isDocumentChar_of_isSpace (hspaces c hc)) hhead) hrest

theorem arePieces_of_misc (h : misc cs = .ok rest) (hhead : rest = [] ∨ rest.head? = some '<')
    (hrest : ArePieces rest) : ArePieces cs := by
  have hskip : ∀ cs : List Char, (skipSpaces cs = [] ∨ (skipSpaces cs).head? = some '<') →
      ArePieces (skipSpaces cs) → ArePieces cs := by
    intro cs hhead hpieces
    obtain ⟨spaces, hsplit, hspaces⟩ := exists_append_dropWhile isSpace cs
    rw [hsplit]
    exact arePieces_spaces_append hspaces hhead hpieces
  fun_induction misc cs with
  | case1 cs hstart fault hcomment => cases h
  | case2 cs hstart rest₁ hcomment ih =>
    obtain ⟨s, hs, heq⟩ := comment_eq_ok_iff.1 hcomment
    refine hskip cs (.inr (by rw [heq]; rfl)) ?_
    rw [heq]
    exact .cons (.comment hs) (ih h)
  | case3 cs _ hstart fault hinstruction => cases h
  | case4 cs _ hstart rest₁ hinstruction ih =>
    obtain ⟨s, hs, heq⟩ := instruction_eq_ok_iff.1 hinstruction
    refine hskip cs (.inr (by rw [heq]; rfl)) ?_
    rw [heq]
    exact .cons (.instruction hs) (ih h)
  | case5 cs =>
    cases h
    exact hskip cs hhead hrest

/-- **Behind its document type a document is made of pieces of content.** -/
theorem arePieces_of_document {text after around inner body : List Char} {entities : List Entity}
    (h : document text = .ok ()) (hafter : optionalDeclaration text = .ok after)
    (haround : misc after = .ok around) (hinner : afterPrefix? Mark.doctype around = some inner)
    (hend : doctype around inner = .ok (entities, body)) : ArePieces body := by
  obtain ⟨_, inside, st, last, hprolog, hroot, hlast, -, -⟩ := document_eq_ok_iff.1 h
  obtain ⟨_, _, hafter', haround', hcases⟩ := prolog_eq_ok_iff.1 hprolog
  cases hafter'.symm.trans hafter
  cases haround'.symm.trans haround
  rcases hcases with ⟨hnone, -⟩ | ⟨_, _, hinner', hend', hmisc⟩
  · rw [hinner] at hnone
    cases hnone
  · cases hinner'.symm.trans hinner
    cases hend'.symm.trans hend
    exact arePieces_of_misc hmisc (.inr rfl)
      (arePieces_of_root hroot (arePieces_of_misc hlast (.inl rfl) .nil))

/-! ## Steps before a less-than sign -/

/-- Whether a reading step before a less-than sign stays there, whatever follows the sign. -/
def StaysAhead (step : List Char → Except Fault (List Char)) : Prop :=
  ∀ v rest r, '<' ∉ v → step (v ++ '<' :: rest) = .ok r → ∃ v', '<' ∉ v' ∧ r = v' ++ '<' :: rest ∧
    ∀ rest', step (v ++ '<' :: rest') = .ok (v' ++ '<' :: rest')

theorem StaysAhead.bind {f g : List Char → Except Fault (List Char)} (hf : StaysAhead f)
    (hg : StaysAhead g) : StaysAhead fun cs ↦ f cs >>= g := by
  intro v rest r hv h
  obtain ⟨between, hbetween, hr⟩ := bind_eq_ok_iff.1 h
  obtain ⟨v₁, hv₁, rfl, hf'⟩ := hf v rest between hv hbetween
  obtain ⟨v₂, hv₂, rfl, hg'⟩ := hg v₁ rest r hv₁ hr
  exact ⟨v₂, hv₂, rfl, fun rest' ↦ bind_eq_ok_iff.2 ⟨_, hf' rest', hg' rest'⟩⟩

/-- A text without a less-than sign that is taken off the front stands before the sign. -/
private theorem exists_of_append_eq_ahead {front r v rest : List Char} (hfront : '<' ∉ front)
    (h : front ++ r = v ++ '<' :: rest) : ∃ v', v = front ++ v' ∧ r = v' ++ '<' :: rest := by
  rcases List.append_eq_append_iff.1 h with ⟨v', rfl, hr⟩ | ⟨y, rfl, hr⟩
  · exact ⟨v', rfl, hr⟩
  · cases y with
    | nil => exact ⟨[], by simp, hr.symm⟩
    | cons c y =>
      obtain rfl := (List.cons.inj hr).1
      exact absurd (List.mem_append_right v List.mem_cons_self) hfront

/-- Whether a word stands before the sign does not depend on what follows the sign. -/
private theorem startsWith_ahead {word v : List Char} (hword : '<' ∉ word) (rest : List Char) :
    startsWith word (v ++ '<' :: rest) = startsWith word v := by
  rw [Bool.eq_iff_iff, startsWith_iff, startsWith_iff]
  refine ⟨fun ⟨r, hr⟩ ↦ ?_, fun h ↦ h.trans (List.prefix_append v _)⟩
  obtain ⟨v', rfl, -⟩ := exists_of_append_eq_ahead hword hr
  exact List.prefix_append word v'

private theorem skipSpaces_ahead (v rest : List Char) :
    skipSpaces (v ++ '<' :: rest) = skipSpaces v ++ '<' :: rest := dropWhile_append_cons rfl v rest

private theorem notMem_skipSpaces {c : Char} {v : List Char} (h : c ∉ v) : c ∉ skipSpaces v :=
  fun hmem ↦ h ((List.dropWhile_suffix isSpace).subset hmem)

theorem staysAhead_skipSpaces : StaysAhead fun cs ↦ .ok (skipSpaces cs) := by
  rintro v rest _ hv ⟨⟩
  exact ⟨skipSpaces v, notMem_skipSpaces hv, skipSpaces_ahead v rest,
    fun rest' ↦ congrArg Except.ok (skipSpaces_ahead v rest')⟩

theorem staysAhead_mark {word : List Char} (hword : '<' ∉ word) : StaysAhead (mark word) := by
  intro v rest r hv h
  obtain ⟨v', rfl, rfl⟩ := exists_of_append_eq_ahead hword (mark_eq_ok_iff.1 h).symm
  refine ⟨v', fun hmem ↦ hv (List.mem_append_right word hmem), rfl, fun rest' ↦ ?_⟩
  exact mark_eq_ok_iff.2 (List.append_assoc word v' _)

theorem staysAhead_declarationSpaces : StaysAhead declarationSpaces := by
  intro v rest r hv h
  cases v with
  | nil => exact absurd h fail_ne_ok
  | cons c v =>
    have hstart : ∀ rest, startsWith Mark.closeInstruction (c :: (v ++ '<' :: rest))
        = startsWith Mark.closeInstruction (c :: v) := startsWith_ahead (v := c :: v) (by decide)
    simp only [List.cons_append, declarationSpaces, hstart] at h ⊢
    by_cases hc : isSpace c = true
    · rw [if_pos hc] at h
      simp only [if_pos hc]
      exact staysAhead_skipSpaces v rest r (List.not_mem_of_not_mem_cons hv) h
    · rw [if_neg hc] at h
      simp only [if_neg hc]
      split at h
      · next hclose =>
        cases h
        exact ⟨c :: v, hv, rfl, fun rest' ↦ if_pos hclose⟩
      · exact absurd h fail_ne_ok

theorem staysAhead_writtenAttribute : StaysAhead fun cs ↦ (writtenAttribute cs).map Prod.snd := by
  intro v rest r hv h
  obtain ⟨⟨a, r⟩, hattribute, rfl⟩ := map_eq_ok_iff.1 h
  obtain ⟨key, before, after, quote, hsplit, hkey, hq, hbefore, hafter, hquote, hvalue, -⟩ :=
    writtenAttribute_eq_ok_iff.1 hattribute
  have hquote' : '<' ≠ quote := by rcases hquote with rfl | rfl <;> decide
  have hfront : '<' ∉ key ++ (before ++ '=' :: (after ++ quote :: (a.value ++ [quote]))) := by
    simp only [List.mem_append, List.mem_cons, List.not_mem_nil, or_false, not_or]
    exact ⟨fun hmem ↦ (by cases hkey '<' hmem), notMem_spaces hbefore rfl, by decide,
      notMem_spaces hafter rfl, hquote', fun hmem ↦ (hvalue '<' hmem).2.2 rfl, hquote'⟩
  obtain ⟨v', rfl, rfl⟩ := exists_of_append_eq_ahead (r := r) hfront (by rw [hsplit]; simp)
  refine ⟨v', fun hmem ↦ hv (List.mem_append_right _ hmem), rfl, fun rest' ↦ ?_⟩
  refine map_eq_ok_iff.2 ⟨(⟨a.qname, a.value, _, (v' ++ '<' :: rest').length + 1⟩,
    v' ++ '<' :: rest'), writtenAttribute_eq_ok_iff.2 ⟨key, before, after, quote, ?_, hkey, hq,
      hbefore, hafter, hquote, hvalue, rfl, rfl⟩, rfl⟩
  simp

theorem staysAhead_optionalAttribute {word : List Char} (hword : '<' ∉ word) :
    StaysAhead (optionalAttribute word) := by
  intro v rest r hv h
  simp only [optionalAttribute, startsWith_ahead hword] at h ⊢
  split
  · next hstart =>
    rw [if_pos hstart] at h
    exact staysAhead_writtenAttribute v rest r hv h
  · next hstart =>
    rw [if_neg hstart] at h
    cases h
    exact ⟨v, hv, rfl, fun _ ↦ rfl⟩

theorem staysAhead_declaration : StaysAhead declaration := by
  have hversion : StaysAhead versionStep := by
    intro v rest r hv h
    obtain ⟨_, hmark, h⟩ := bind_eq_ok_iff.1 h
    obtain ⟨_, -, -, hmark'⟩ := staysAhead_mark (by decide) v rest _ hv hmark
    obtain ⟨v', hv', rfl, h'⟩ := staysAhead_writtenAttribute v rest r hv h
    exact ⟨v', hv', rfl, fun rest' ↦ bind_eq_ok_iff.2 ⟨_, hmark' rest', h' rest'⟩⟩
  have hencoding : StaysAhead encodingStep := by
    intro v rest r hv h
    simp only [encodingStep, startsWith_ahead (show '<' ∉ Mark.encoding by decide)] at h ⊢
    split
    · next hstart =>
      rw [if_pos hstart] at h
      exact (staysAhead_optionalAttribute (by decide)).bind staysAhead_declarationSpaces v rest r hv h
    · next hstart =>
      rw [if_neg hstart] at h
      cases h
      exact ⟨v, hv, rfl, fun _ ↦ rfl⟩
  have hhead : StaysAhead declarationHead :=
    staysAhead_declarationSpaces.bind (hversion.bind (staysAhead_declarationSpaces.bind
      (hencoding.bind (staysAhead_optionalAttribute (by decide)))))
  have hclose : StaysAhead (mark Mark.closeInstruction) := staysAhead_mark (by decide)
  intro v rest r hv h
  simp only [declaration_eq] at h ⊢
  exact hhead.bind (staysAhead_skipSpaces.bind hclose) v rest r hv h

/-! ## The part before a document type -/

/-- A declaration that is left at some place is left there, whatever follows a later less-than
sign. -/
private theorem exists_of_declaration_ahead {front : List Char}
    (h : declaration cs = .ok (front ++ '<' :: rest)) : ∃ used, cs = used ++ (front ++ '<' :: rest) ∧
      ∀ rest', declaration (used ++ (front ++ '<' :: rest')) = .ok (front ++ '<' :: rest') := by
  obtain ⟨used, rfl, hused, -⟩ := exists_of_declaration h
  refine ⟨used, rfl, fun rest' ↦ ?_⟩
  -- the step is over at the first less-than sign that is left
  obtain ⟨v, more, hv, hsplit⟩ : ∃ v, ∃ more : List Char → List Char, '<' ∉ v ∧
      ∀ rest, front ++ '<' :: rest = v ++ '<' :: more rest := by
    by_cases hsign : '<' ∈ front
    · obtain ⟨v, w, rfl, hv⟩ := List.eq_append_cons_of_mem hsign
      exact ⟨v, fun rest ↦ w ++ '<' :: rest, hv, fun rest ↦ by simp⟩
    · exact ⟨front, id, hsign, fun rest ↦ rfl⟩
  have hnone : '<' ∉ used ++ v := by
    rw [List.mem_append]
    exact not_or.2 ⟨hused, hv⟩
  rw [hsplit, ← List.append_assoc] at h ⊢
  obtain ⟨v', -, heq, hall⟩ := staysAhead_declaration _ _ _ hnone h
  obtain rfl := List.append_cancel_right heq
  exact hall (more rest')

/-- What is passed over up to a document type is passed over, whatever the document type. -/
private theorem exists_of_misc_doctype {inner : List Char}
    (h : misc cs = .ok (Mark.doctype ++ inner)) : ∃ front, cs = front ++ (Mark.doctype ++ inner) ∧
      ∀ inner', misc (front ++ (Mark.doctype ++ inner')) = .ok (Mark.doctype ++ inner') := by
  have hspaces : ∀ cs : List Char, ∃ spaces, cs = spaces ++ skipSpaces cs ∧
      ∀ more, misc (spaces ++ more) = misc more := by
    intro cs
    obtain ⟨spaces, hsplit, hspaces⟩ := exists_append_dropWhile isSpace cs
    exact ⟨spaces, hsplit, fun more ↦ misc_congr (skipSpaces_append hspaces more)⟩
  fun_induction misc cs with
  | case1 cs hstart fault hcomment => cases h
  | case2 cs hstart rest₁ hcomment ih =>
    obtain ⟨s, hs, heq⟩ := comment_eq_ok_iff.1 hcomment
    obtain ⟨spaces, hsplit, hmisc⟩ := hspaces cs
    obtain ⟨front, rfl, hfront⟩ := ih h
    refine ⟨spaces ++ (Mark.openComment ++ (s ++ (Mark.closeComment ++ front))), ?_, fun inner' ↦ ?_⟩
    · rw [hsplit, heq]
      simp
    · simp only [List.append_assoc]
      rw [hmisc, misc_openComment]
      exact bind_eq_ok_iff.2 ⟨_, comment_eq_ok_iff.2 ⟨s, hs, rfl⟩, hfront inner'⟩
  | case3 cs _ hstart fault hinstruction => cases h
  | case4 cs _ hstart rest₁ hinstruction ih =>
    obtain ⟨s, hs, heq⟩ := instruction_eq_ok_iff.1 hinstruction
    obtain ⟨spaces, hsplit, hmisc⟩ := hspaces cs
    obtain ⟨front, rfl, hfront⟩ := ih h
    refine ⟨spaces ++ (Mark.openInstruction ++ (s ++ (Mark.closeInstruction ++ front))), ?_,
      fun inner' ↦ ?_⟩
    · rw [hsplit, heq]
      simp
    · simp only [List.append_assoc]
      rw [hmisc, misc_openInstruction]
      exact bind_eq_ok_iff.2 ⟨_, instruction_eq_ok_iff.2 ⟨s, hs, rfl⟩, hfront inner'⟩
  | case5 cs =>
    obtain ⟨spaces, hsplit, hmisc⟩ := hspaces cs
    refine ⟨spaces, hsplit.trans (congrArg (spaces ++ ·) (Except.ok.inj h)), fun inner' ↦ ?_⟩
    rw [hmisc]
    exact misc_doctype inner'

/-- A byte order mark, if there is one, stands before all that is looked at. -/
private theorem exists_append_unmarked (text : List Char) : ∃ front, text = front ++ unmarked text ∧
    ∀ more : List Char, more.head? = (unmarked text).head? → unmarked (front ++ more) = more := by
  have hmarked : ∀ cs, unmarked ('\uFEFF' :: cs) = cs := fun cs ↦ rfl
  have hplain : ∀ {cs : List Char}, cs.head? ≠ some '\uFEFF' → unmarked cs = cs := by
    intro cs hcs
    have hnone : afterPrefix? ['\uFEFF'] cs = none :=
      Option.eq_none_iff_forall_ne_some.2 fun rest hrest ↦ by
        rw [afterPrefix?_eq_some_iff.1 hrest] at hcs
        exact hcs rfl
    rw [unmarked, hnone, Option.getD_none]
  by_cases htext : text.head? = some '\uFEFF'
  · obtain ⟨cs, rfl⟩ := List.head?_eq_some_iff.1 htext
    exact ⟨['\uFEFF'], rfl, fun more _ ↦ hmarked more⟩
  · refine ⟨[], (hplain htext).symm, fun more hmore ↦ hplain ?_⟩
    rw [List.nil_append, hmore, hplain htext]
    exact htext

private theorem optionalDeclaration_eq (text : List Char) : optionalDeclaration text
    = if startsWith Mark.declaration (unmarked text) then declaration ((unmarked text).drop 5)
      else .ok (unmarked text) := rfl

/-- Whether a declaration starts does not depend on the inside of a document type: its mark is
shorter than that of a document type. -/
private theorem startsWith_declaration_doctype (front inner inner' : List Char) :
    startsWith Mark.declaration (front ++ (Mark.doctype ++ inner))
      = startsWith Mark.declaration (front ++ (Mark.doctype ++ inner')) := by
  have hstart : ∀ {x : List Char} (y : List Char),
      Mark.declaration <+: (front ++ Mark.doctype) ++ x →
      Mark.declaration <+: (front ++ Mark.doctype) ++ y := by
    intro x y h
    refine (List.prefix_of_prefix_length_le h (List.prefix_append _ x) ?_).trans
      (List.prefix_append _ y)
    simp only [List.length_append, Mark.declaration, Mark.doctype, List.length_cons,
      List.length_nil]
    omega
  rw [Bool.eq_iff_iff, startsWith_iff, startsWith_iff, ← List.append_assoc, ← List.append_assoc]
  exact ⟨hstart inner', hstart inner⟩

/-- **Where the document type starts does not depend on it.** -/
theorem exists_front_of_doctype {text after inner : List Char}
    (hafter : optionalDeclaration text = .ok after)
    (haround : misc after = .ok (Mark.doctype ++ inner)) :
    ∃ front, text = front ++ (Mark.doctype ++ inner) ∧ ∀ inner', ∃ after',
      optionalDeclaration (front ++ (Mark.doctype ++ inner')) = .ok after' ∧
        misc after' = .ok (Mark.doctype ++ inner') := by
  obtain ⟨bom, htext, hunmarked⟩ := exists_append_unmarked text
  obtain ⟨front, rfl, hfront⟩ := exists_of_misc_doctype haround
  -- with the same start a text has the same mark
  have hunmarked' : ∀ {start : List Char}, unmarked text = start ++ (Mark.doctype ++ inner) →
      ∀ inner', unmarked (bom ++ (start ++ (Mark.doctype ++ inner')))
        = start ++ (Mark.doctype ++ inner') := by
    intro start hstart inner'
    refine hunmarked _ ?_
    rw [hstart]
    cases start <;> rfl
  rw [optionalDeclaration_eq] at hafter
  split at hafter
  · next hdeclaration =>
    obtain ⟨used, hused, hall⟩ := exists_of_declaration_ahead (show _ = Except.ok
      (front ++ '<' :: (Mark.doctype.drop 1 ++ inner)) from hafter)
    have hmark : unmarked text = Mark.declaration.dropLast ++ (unmarked text).drop 5 := by
      obtain ⟨more, hmore⟩ := startsWith_iff.1 hdeclaration
      rw [← hmore]
      rfl
    have hstart : unmarked text
        = (Mark.declaration.dropLast ++ (used ++ front)) ++ (Mark.doctype ++ inner) := by
      rw [hmark, hused]
      simp [Mark.doctype]
    refine ⟨bom ++ (Mark.declaration.dropLast ++ (used ++ front)), ?_, fun inner' ↦
      ⟨_, ?_, hfront inner'⟩⟩
    · rw [List.append_assoc, ← hstart]
      exact htext
    · rw [hstart, startsWith_declaration_doctype _ inner inner'] at hdeclaration
      rw [List.append_assoc, optionalDeclaration_eq, hunmarked' hstart, if_pos hdeclaration]
      simp only [List.append_assoc]
      exact hall (Mark.doctype.drop 1 ++ inner')
  · next hdeclaration =>
    have hstart := Except.ok.inj hafter
    refine ⟨bom ++ front, ?_, fun inner' ↦ ⟨_, ?_, hfront inner'⟩⟩
    · rw [List.append_assoc, ← hstart]
      exact htext
    · rw [hstart, startsWith_declaration_doctype _ inner inner'] at hdeclaration
      rw [List.append_assoc, optionalDeclaration_eq, hunmarked' hstart, if_neg hdeclaration]

end SvgWorkbench.Gate
