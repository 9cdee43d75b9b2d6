import SvgWorkbench.Proofs.Gate.Written

/-!
# Which written documents the check lets through

A written document is let through exactly if it has one element at its top level that may stand
where no prefix is declared, with nothing around it but spaces, comments and instructions, of which
the first one may be a declaration.
-/

namespace SvgWorkbench.Gate

open Text Xml Markup SvgWorkbench.Tree

/-! ## What may stand at the top level -/

/-- Whether a node may stand before or after the root element. -/
def IsAround : Tree Content → Prop
  | .node (.text s) _ => ∀ c ∈ s.toList, isSpace c = true
  | .node (.comment s) _ => IsStrictComment s.toList
  | .node (.instruction s) _ => IsStrictInstruction s.toList
  | .node _ _ => False

/-- Whether the nodes after a declaration may make up a document. -/
def AcceptsBody : List (Tree Content) → Prop
  | [] => False
  | t :: ts =>
    if t.label.isElement then Accepts [] t ∧ ∀ u ∈ ts, IsAround u
    else IsAround t ∧ AcceptsBody ts

/-- Whether a node is a declaration that is strictly well-formed. -/
def IsDeclaration (t : Tree Content) : Prop :=
  ∃ s, t.label = .instruction s ∧ ['x', 'm', 'l', ' '] <+: s.toList ∧
    IsStrictDeclaration (s.toList.drop 3)

/-- Whether the nodes of the top level may make up a document. -/
def AcceptsDocument : Markup → Prop
  | [] => False
  | t :: ts => IsDeclaration t ∧ AcceptsBody ts ∨ AcceptsBody (t :: ts)

/-! ## Around the root -/

theorem misc_congr {cs ds : List Char} (h : skipSpaces cs = skipSpaces ds) :
    misc cs = misc ds := by
  rw [misc.eq_def cs, misc.eq_def ds, h]

theorem misc_openComment (more : List Char) :
    misc (Mark.openComment ++ more) = comment (Mark.openComment ++ more) >>= misc := by
  have hskip : skipSpaces (Mark.openComment ++ more) = Mark.openComment ++ more := rfl
  have hstart : startsWith ['<', '!', '-', '-'] (Mark.openComment ++ more) = true :=
    startsWith_iff.2 (List.prefix_append _ _)
  rw [misc.eq_def]
  simp only [hskip]
  rw [if_pos hstart]
  split
  · next heq =>
    rw [hskip] at heq
    rw [heq]
    rfl
  · next heq =>
    rw [hskip] at heq
    rw [heq]
    rfl

theorem misc_openInstruction (more : List Char) :
    misc (Mark.openInstruction ++ more) = instruction (Mark.openInstruction ++ more) >>= misc := by
  have hskip : skipSpaces (Mark.openInstruction ++ more) = Mark.openInstruction ++ more := rfl
  have hstart : startsWith ['<', '?'] (Mark.openInstruction ++ more) = true :=
    startsWith_iff.2 (List.prefix_append _ _)
  have hother : ¬ startsWith ['<', '!', '-', '-'] (Mark.openInstruction ++ more) = true := by
    rw [startsWith_iff]
    simp [Mark.openInstruction]
  rw [misc.eq_def]
  simp only [hskip]
  rw [if_neg hother, if_pos hstart]
  split
  · next heq =>
    rw [hskip] at heq
    rw [heq]
    rfl
  · next heq =>
    rw [hskip] at heq
    rw [heq]
    rfl

/-- Nothing around the root starts like this, so it is not passed over. -/
theorem misc_of_ne {cs : List Char} (hskip : skipSpaces cs = cs)
    (hcomment : ¬ ['<', '!', '-', '-'] <+: cs) (hinstruction : ¬ ['<', '?'] <+: cs) :
    misc cs = .ok cs := by
  rw [misc.eq_def]
  simp only [hskip, startsWith_iff, if_neg hcomment, if_neg hinstruction]

/-- A text that is not blank has a first character that is no space, escaped or not. -/
private theorem exists_skipSpaces_escape {cs : List Char} (h : ¬ ∀ c ∈ cs, isSpace c = true) :
    ∃ c more, (∀ rest, skipSpaces (escape cs ++ rest) = c :: (more ++ rest)) ∧
      isSpace c = false ∧ c ≠ '<' := by
  obtain ⟨front, hsplit, hfront⟩ := exists_append_dropWhile isSpace (escape cs)
  cases hdrop : (escape cs).dropWhile isSpace with
  | nil =>
    refine absurd (fun c hc ↦ ?_) h
    rw [hdrop, List.append_nil] at hsplit
    have hmem : ∀ x ∈ escapeChar c, isSpace x = true :=
      fun x hx ↦ hfront x (hsplit ▸ List.mem_flatMap.2 ⟨c, hc, hx⟩)
    by_cases hescaped : isEscaped c = true
    · rcases isEscaped_cases hescaped with rfl | rfl | rfl | rfl | rfl <;>
        exact absurd (hmem '&' (by decide)) (by decide)
    · rw [escapeChar_of_not_isEscaped (by simpa using hescaped)] at hmem
      exact hmem c List.mem_cons_self
  | cons c more =>
    rw [hdrop] at hsplit
    have hc : isSpace c = false := by
      have hhead := List.head?_dropWhile_not isSpace (escape cs)
      rw [hdrop] at hhead
      simpa using hhead
    refine ⟨c, more, fun rest ↦ ?_, hc, ?_⟩
    · rw [hsplit, List.append_assoc]
      exact dropWhile_until hfront hc _
    · rintro rfl
      exact lt_notMem_escape cs (hsplit ▸ List.mem_append_right front List.mem_cons_self)

/-- A written text around the root is passed over if it is made of spaces. -/
private theorem misc_escape {s : List Char} (rest : List Char) {r : List Char}
    (hr : r = [] ∨ r.head? = some '<') :
    misc (escape s ++ rest) = .ok r ↔ (∀ c ∈ s, isSpace c = true) ∧ misc rest = .ok r := by
  by_cases hs : ∀ c ∈ s, isSpace c = true
  · have hescape : ∀ c ∈ escape s, isSpace c = true := by
      intro c hc
      obtain ⟨d, hd, hcd⟩ := List.mem_flatMap.1 hc
      have hd' : escapeChar d = [d] := by
        rcases isSpace_cases (hs d hd) with rfl | rfl | rfl | rfl <;> rfl
      rw [hd', List.mem_singleton] at hcd
      exact hcd ▸ hs d hd
    rw [misc_congr (List.dropWhile_append_of_pos hescape), iff_and_self]
    exact fun _ ↦ hs
  · -- the first character that is no space stands in the way
    refine ⟨fun hmisc ↦ ?_, fun h ↦ absurd h.1 hs⟩
    obtain ⟨c, more, hskip, hc, hsign⟩ := exists_skipSpaces_escape hs
    have hstart : misc (escape s ++ rest) = .ok (c :: (more ++ rest)) := by
      have hspace : skipSpaces (c :: (more ++ rest)) = c :: (more ++ rest) :=
        List.dropWhile_cons_of_neg (by simp [hc])
      rw [misc_congr ((hskip rest).trans hspace.symm)]
      refine misc_of_ne hspace ?_ ?_ <;>
        exact fun hprefix ↦ hsign (List.cons_prefix_cons.1 hprefix).1.symm
    rw [hstart] at hmisc
    cases hmisc
    rcases hr with hr | hr
    · cases hr
    · exact absurd (Option.some.inj hr) hsign

/-- **A written node around the root** is passed over if it may stand there. -/
theorem misc_writeNode {t : Tree Content} (h : IsWritable false t)
    (helement : t.label.isElement = false) (rest : List Char) {r : List Char}
    (hr : r = [] ∨ r.head? = some '<') :
    misc (writeNode t ++ rest) = .ok r ↔ IsAround t ∧ misc rest = .ok r := by
  match t, h with
  | .node (.element e) ts, _ => cases helement
  | .node (.text s) ts, _ =>
    rw [writeNode, IsAround]
    exact misc_escape rest hr
  | .node (.comment s) ts, h =>
    have hwrite : writeNode (.node (.comment s) ts) ++ rest
        = Mark.openComment ++ (s.toList ++ (Mark.closeComment ++ rest)) := by
      simp [writeNode]
    rw [hwrite, misc_openComment, bind_eq_ok_iff]
    simp only [comment_written_eq_ok_iff h, IsAround]
    constructor
    · rintro ⟨_, ⟨hs, rfl⟩, hrest⟩
      exact ⟨hs, hrest⟩
    · rintro ⟨hs, hrest⟩
      exact ⟨rest, ⟨hs, rfl⟩, hrest⟩
  | .node (.instruction s) ts, h =>
    have hwrite : writeNode (.node (.instruction s) ts) ++ rest
        = Mark.openInstruction ++ (s.toList ++ (Mark.closeInstruction ++ rest)) := by
      simp [writeNode]
    rw [hwrite, misc_openInstruction, bind_eq_ok_iff]
    simp only [instruction_written_eq_ok_iff h, IsAround]
    constructor
    · rintro ⟨_, ⟨hs, rfl⟩, hrest⟩
      exact ⟨hs, hrest⟩
    · rintro ⟨hs, hrest⟩
      exact ⟨rest, ⟨hs, rfl⟩, hrest⟩
  | .node (.doctype s) ts, h => cases h.1

/-- What is written for an element starts with a less-than sign and a name. -/
theorem exists_of_writeNode_element {e : Element} (he : IsName e.name.toList)
    (ts : List (Tree Content)) (rest : List Char) :
    ∃ c more, writeNode (.node (.element e) ts) ++ rest = '<' :: c :: more ∧
      isNameStart c = true := by
  cases ts with
  | nil =>
    obtain ⟨c, more, hwrite, hc⟩ := exists_isNameStart_writeTag he ('/' :: '>' :: rest)
    refine ⟨c, more, ?_, hc⟩
    rw [← hwrite]
    simp [writeNode]
  | cons t ts =>
    obtain ⟨c, more, hwrite, hc⟩ := exists_isNameStart_writeTag he
      ('>' :: (writeNode t ++ (writeNodes ts ++ (Mark.closeTag ++ (e.name.toList ++ '>' :: rest)))))
    refine ⟨c, more, ?_, hc⟩
    rw [← hwrite]
    simp [writeNode]

/-- The start of a name is no other mark. -/
theorem not_prefix_of_isNameStart {c x : Char} (hc : isNameStart c = true)
    (hx : isNameStart x = false) (more rest : List Char) :
    ¬ '<' :: x :: rest <+: '<' :: c :: more := by
  intro h
  obtain rfl := (List.cons_prefix_cons.1 (List.cons_prefix_cons.1 h).2).1
  cases hc.symm.trans hx

/-- Nothing is passed over before a tag. -/
theorem misc_tag {c : Char} (hc : isNameStart c = true) (more : List Char) :
    misc ('<' :: c :: more) = .ok ('<' :: c :: more) :=
  misc_of_ne rfl (not_prefix_of_isNameStart hc rfl more _)
    (not_prefix_of_isNameStart hc rfl more _)

/-- Nothing is passed over before an element. -/
theorem misc_writeNode_element {e : Element} {ts : List (Tree Content)} (he : e.HasXmlNames)
    (rest : List Char) :
    misc (writeNode (.node (.element e) ts) ++ rest)
      = .ok (writeNode (.node (.element e) ts) ++ rest) := by
  obtain ⟨c, more, hwrite, hc⟩ := exists_of_writeNode_element he.1 ts rest
  rw [hwrite, misc_tag hc]

theorem misc_writeNodes {ts : List (Tree Content)} (h : AreWritable false ts) :
    misc (writeNodes ts) = .ok [] ↔ ∀ t ∈ ts, IsAround t := by
  induction ts with
  | nil =>
    rw [writeNodes, misc_of_ne rfl (by simp) (by simp)]
    simp
  | cons t ts ih =>
    rw [writeNodes, List.forall_mem_cons]
    cases helement : t.label.isElement with
    | true =>
      obtain ⟨c, us⟩ := t
      obtain ⟨e, rfl⟩ := c.eq_element_or.resolve_right (ne_false_of_eq_true helement)
      obtain ⟨c, more, hwrite, -⟩ := exists_of_writeNode_element h.1.1.names.1 us (writeNodes ts)
      rw [misc_writeNode_element h.1.1.names, hwrite]
      exact ⟨by rintro ⟨⟩, fun h ↦ h.1.elim⟩
    | false => rw [misc_writeNode h.1 helement _ (.inl rfl), ih h.2]

/-! ## The root element -/

private theorem root_eq_ok_iff_readsTag {inside after : List Char} {st : State} :
    root [] inside = .ok (st, after) ↔ ∃ ending st' rest, ReadsTag {} inside ending st' rest ∧
      (ending = .opened ∧
          content [] (expandContent [] maxDepth) maxDepth false 0 1 st' rest = .ok (st, after) ∨
        ending ≠ .opened ∧ st' = st ∧ rest = after) := by
  rw [root_eq_ok_iff]
  constructor
  · rintro ⟨tag, rest, st', htag, hst', h⟩
    obtain ⟨ending, hending⟩ := State.exists_ending_of_readStartTag hst'
    refine ⟨ending, st', rest, ⟨tag, htag, hending, hst'⟩, ?_⟩
    rwa [← Bool.not_eq_true, StartTag.opens_of_ending hending] at h
  · rintro ⟨ending, st', rest, ⟨tag, htag, hending, hst'⟩, h⟩
    refine ⟨tag, rest, st', htag, hst', ?_⟩
    rwa [← Bool.not_eq_true, StartTag.opens_of_ending hending]

/-- **The root element** is read if it may stand where no prefix is declared. -/
theorem root_writeNode {e : Element} {ts : List (Tree Content)}
    (h : IsWritable false (.node (.element e) ts)) (rest : List Char) :
    ∃ inside, writeNode (.node (.element e) ts) ++ rest = '<' :: inside ∧
      ∀ st after, root [] inside = .ok (st, after) ↔
        Accepts [] (.node (.element e) ts) ∧ st = .inside [] ∧ after = rest := by
  cases ts with
  | nil =>
    refine ⟨writeTag e ++ (TagEnd.empty.text ++ rest), by simp [writeNode, TagEnd.text],
      fun st after ↦ ?_⟩
    simp only [root_eq_ok_iff_readsTag, readsTag_written_iff (show ({} : State).pending = {} from rfl)
      rfl h.1.names (show TagEnd.empty ≠ .cut by decide)]
    constructor
    · rintro ⟨_, _, _, ⟨rfl, rfl, hvalues, q, inner, hopens, rfl⟩, ⟨hopened, -⟩ | ⟨-, rfl, rfl⟩⟩
      · cases hopened
      · exact ⟨⟨hvalues, q, inner, hopens, trivial⟩, rfl, rfl⟩
    · rintro ⟨⟨hvalues, q, inner, hopens, -⟩, rfl, rfl⟩
      exact ⟨.empty, _, after, ⟨rfl, rfl, hvalues, q, inner, hopens, rfl⟩,
        .inr ⟨by decide, rfl, rfl⟩⟩
  | cons t ts =>
    refine ⟨writeTag e ++ (TagEnd.opened.text ++ (escape "".toList ++ (writeNodes (t :: ts) ++
      (Mark.closeTag ++ (e.name.toList ++ '>' :: rest))))),
      by simp [writeNode, writeNodes, TagEnd.text], fun st after ↦ ?_⟩
    simp only [root_eq_ok_iff_readsTag, readsTag_written_iff (show ({} : State).pending = {} from rfl)
      rfl h.1.names (show TagEnd.opened ≠ .cut by decide)]
    -- inside the root its children are passed over, then its close tag ends the content
    have hinside : ∀ q inner, Opens [] e q inner →
        (plainContent 1 [⟨q, inner⟩] (escape "".toList ++ (writeNodes (t :: ts) ++
          (Mark.closeTag ++ (e.name.toList ++ '>' :: rest)))) = .ok (st, after) ↔
          AcceptsAll inner (t :: ts) ∧ st = .inside [] ∧ after = rest) := by
      intro q inner hopens
      rw [plainContent_writeNodes h.2 "" (Nat.le_refl 1) _ (.inr rfl),
        plainContent_closeTag h.1.names.1 hopens.1]
      constructor
      · rintro ⟨-, hchildren, ⟨-, heq⟩ | ⟨hlt, -⟩⟩
        · cases heq
          exact ⟨hchildren, rfl, rfl⟩
        · omega
      · rintro ⟨hchildren, rfl, rfl⟩
        exact ⟨List.forall_mem_nil _, hchildren, .inl ⟨Nat.le_refl 1, rfl⟩⟩
    constructor
    · rintro ⟨_, _, _, ⟨rfl, rfl, hvalues, q, inner, hopens, rfl⟩, ⟨-, hcontent⟩ | ⟨hne, -⟩⟩
      · obtain ⟨hchildren, rfl, rfl⟩ := (hinside q inner hopens).1 hcontent
        exact ⟨⟨hvalues, q, inner, hopens, hchildren⟩, rfl, rfl⟩
      · exact absurd rfl hne
    · rintro ⟨⟨hvalues, q, inner, hopens, hchildren⟩, rfl, rfl⟩
      exact ⟨.opened, _, _, ⟨rfl, rfl, hvalues, q, inner, hopens, rfl⟩,
        .inl ⟨rfl, (hinside q inner hopens).2 ⟨hchildren, rfl, rfl⟩⟩⟩

/-! ## Whole documents -/

/-- Whether a text that follows a declaration is let through: parts around the root, the root and
parts again. -/
def ReadsBody (cs : List Char) : Prop :=
  ∃ inside st after, misc cs = .ok ('<' :: inside) ∧ root [] inside = .ok (st, after) ∧
    misc after = .ok [] ∧ st.rooted = true ∧ st.opened = []

theorem readsBody_writeNodes {ts : List (Tree Content)} (h : AreWritable false ts) :
    ReadsBody (writeNodes ts) ↔ AcceptsBody ts := by
  induction ts with
  | nil =>
    refine ⟨?_, False.elim⟩
    rintro ⟨_, _, _, hmisc, -⟩
    rw [writeNodes, misc_of_ne rfl (by simp) (by simp)] at hmisc
    cases hmisc
  | cons t ts ih =>
    rw [writeNodes, AcceptsBody]
    cases helement : t.label.isElement with
    | true =>
      obtain ⟨c, us⟩ := t
      obtain ⟨e, rfl⟩ := c.eq_element_or.resolve_right (ne_false_of_eq_true helement)
      rw [if_pos rfl, ReadsBody, misc_writeNode_element h.1.1.names]
      obtain ⟨inside, hwrite, hroot⟩ := root_writeNode h.1 (writeNodes ts)
      rw [hwrite]
      constructor
      · rintro ⟨_, st, after, ⟨⟩, hread, hmisc, -⟩
        obtain ⟨haccepts, rfl, rfl⟩ := (hroot st after).1 hread
        exact ⟨haccepts, (misc_writeNodes h.2).1 hmisc⟩
      · rintro ⟨haccepts, haround⟩
        exact ⟨inside, _, _, rfl, (hroot _ _).2 ⟨haccepts, rfl, rfl⟩,
          (misc_writeNodes h.2).2 haround, rfl, rfl⟩
    | false =>
      have hmisc : ∀ inside, misc (writeNode t ++ writeNodes ts) = .ok ('<' :: inside) ↔
          IsAround t ∧ misc (writeNodes ts) = .ok ('<' :: inside) :=
        fun _ ↦ misc_writeNode h.1 helement _ (.inr rfl)
      rw [if_neg (by decide), ← ih h.2, ReadsBody, ReadsBody]
      simp only [hmisc]
      constructor
      · rintro ⟨inside, st, after, ⟨ht, hmisc⟩, hrest⟩
        exact ⟨ht, inside, st, after, hmisc, hrest⟩
      · rintro ⟨ht, inside, st, after, hmisc, hrest⟩
        exact ⟨inside, st, after, ⟨ht, hmisc⟩, hrest⟩

/-- In written markup a less-than sign comes before any quote. -/
theorem isQuoteFree_writeNodes {ts : List (Tree Content)} : IsQuoteFree (writeNodes ts) := by
  induction ts with
  | nil =>
    intro front quote back h
    simp [writeNodes] at h
  | cons t ts ih =>
    intro front quote back hsplit hquote
    obtain ⟨c, us⟩ := t
    rw [writeNodes] at hsplit
    cases htext : c.text? with
    | some s =>
      obtain rfl := Content.eq_text_of_text? htext
      rw [writeNode] at hsplit
      -- the quote is not in the escaped text, so it comes after it
      rcases List.append_eq_append_iff.1 hsplit with ⟨more, hfront, hback⟩ | ⟨more, hmore, hback⟩
      · exact hfront ▸ List.mem_append_right _ (ih more quote back hback hquote)
      · cases more with
        | nil => exact absurd (ih [] quote back hback.symm hquote) List.not_mem_nil
        | cons d more =>
          obtain rfl := (List.cons.inj hback).1
          have hmem : quote ∈ escape s.toList := hmore ▸ List.mem_append_right _ List.mem_cons_self
          rcases hquote with rfl | rfl
          · exact absurd rfl (ne_of_mem_escape hmem (y := '"') rfl (by decide))
          · exact absurd rfl (ne_of_mem_escape hmem (y := '\x27') rfl (by decide))
    | none =>
      have hhead := head?_writeNode (t := .node c us) htext (writeNodes ts)
      rw [hsplit] at hhead
      cases front with
      | nil =>
        obtain rfl := Option.some.inj hhead
        rcases hquote with hquote | hquote <;> cases hquote
      | cons d front =>
        obtain rfl := Option.some.inj hhead
        exact List.mem_cons_self

/-- What comes after the parts before the root is no document type. -/
private theorem afterPrefix?_doctype_of_misc {ts : List (Tree Content)} (h : AreWritable false ts)
    {around : List Char} (hmisc : misc (writeNodes ts) = .ok around) :
    afterPrefix? Mark.doctype around = none := by
  rw [Option.eq_none_iff_forall_ne_some]
  intro rest hrest
  obtain rfl := afterPrefix?_eq_some_iff.1 hrest
  clear hrest
  induction ts with
  | nil =>
    rw [writeNodes, misc_of_ne rfl (by simp) (by simp)] at hmisc
    cases hmisc
  | cons t ts ih =>
    rw [writeNodes] at hmisc
    cases helement : t.label.isElement with
    | true =>
      obtain ⟨c, us⟩ := t
      obtain ⟨e, rfl⟩ := c.eq_element_or.resolve_right (ne_false_of_eq_true helement)
      obtain ⟨c, more, hwrite, hc⟩ :=
        exists_of_writeNode_element h.1.1.names.1 us (writeNodes ts)
      rw [misc_writeNode_element h.1.1.names, hwrite] at hmisc
      obtain rfl := (List.cons.inj (List.cons.inj (Except.ok.inj hmisc)).2).1
      cases hc
    | false => exact ih h.2 ((misc_writeNode h.1 helement _ (.inr rfl)).1 hmisc).2

private theorem document_eq_ok_iff_readsBody {cs : List Char} {ts : List (Tree Content)}
    (h : AreWritable false ts) (hstart : optionalDeclaration cs = .ok (writeNodes ts)) :
    document cs = .ok () ↔ ReadsBody (writeNodes ts) := by
  rw [document_eq_ok_iff]
  simp only [prolog_eq_ok_iff]
  constructor
  · rintro ⟨entities, inside, st, after, ⟨start, around, hstart', hmisc, hrest⟩, hroot, hend⟩
    rw [hstart] at hstart'
    cases hstart'
    have hdoctype := afterPrefix?_doctype_of_misc h hmisc
    rcases hrest with ⟨-, rfl, rfl⟩ | ⟨inner, -, hinner, -⟩
    · exact ⟨inside, st, after, hmisc, hroot, hend⟩
    · rw [hdoctype] at hinner
      cases hinner
  · rintro ⟨inside, st, after, hmisc, hroot, hend⟩
    exact ⟨[], inside, st, after, ⟨_, _, hstart, hmisc,
      .inl ⟨afterPrefix?_doctype_of_misc h hmisc, rfl, rfl⟩⟩, hroot, hend⟩

/-- Only an instruction is written like a declaration. -/
private theorem startsWith_declaration_writeNode {t : Tree Content} (h : IsWritable false t)
    (hstart : StartsSpaced t) {rest : List Char}
    (hdeclaration : startsWith Mark.declaration (writeNode t ++ rest) = true) :
    ∃ s us, t = .node (.instruction s) us ∧ ['x', 'm', 'l', ' '] <+: s.toList := by
  match t, h with
  | .node (.element e) us, h =>
    obtain ⟨c, more, hwrite, hc⟩ := exists_of_writeNode_element h.1.names.1 us rest
    rw [hwrite, startsWith_iff] at hdeclaration
    obtain rfl := (List.cons_prefix_cons.1 (List.cons_prefix_cons.1 hdeclaration).2).1
    cases hc
  | .node (.text s) us, _ =>
    obtain ⟨c, cs, hs, hc⟩ := hstart s rfl
    rw [writeNode, hs, escape_cons, startsWith_iff] at hdeclaration
    rcases isSpace_cases hc with rfl | rfl | rfl | rfl <;>
      exact absurd (List.cons_prefix_cons.1 hdeclaration).1 (by decide)
  | .node (.comment s) us, _ =>
    rw [writeNode, startsWith_iff] at hdeclaration
    exact absurd (List.cons_prefix_cons.1 (List.cons_prefix_cons.1 hdeclaration).2).1 (by decide)
  | .node (.instruction s) us, _ =>
    have hwrite : writeNode (.node (.instruction s) us) ++ rest
        = Mark.openInstruction ++ (s.toList ++ (Mark.closeInstruction ++ rest)) := by
      simp [writeNode]
    rw [hwrite] at hdeclaration
    exact ⟨s, us, rfl, startsWith_declaration_iff.1 hdeclaration⟩
  | .node (.doctype s) us, h => cases h.1

/-- No byte order mark is written in front of a document. -/
private theorem afterPrefix?_mark {t : Tree Content} (hstart : StartsSpaced t) (rest : List Char) :
    afterPrefix? ['\uFEFF'] (writeNode t ++ rest) = none := by
  rw [Option.eq_none_iff_forall_ne_some]
  intro after hafter
  have hhead := hstart.head?_ne rest
  rw [afterPrefix?_eq_some_iff.1 hafter] at hhead
  exact hhead rfl

/-- A written declaration is read as one. -/
theorem optionalDeclaration_writeNode {s : String} {more : List Char}
    (hs : ['x', 'm', 'l', ' '] ++ more = s.toList) (us : List (Tree Content)) (rest : List Char) :
    optionalDeclaration (writeNode (.node (.instruction s) us) ++ rest)
      = declaration (closed (' ' :: more) rest) := by
  have hwrite : writeNode (.node (.instruction s) us) ++ rest
      = Mark.declaration ++ (more ++ (Mark.closeInstruction ++ rest)) := by
    rw [writeNode, ← hs]
    simp [Mark.declaration, Mark.openInstruction]
  have hstart : StartsSpaced (.node (.instruction s) us) := nofun
  rw [optionalDeclaration, afterPrefix?_mark hstart, Option.getD_none, hwrite,
    if_pos (startsWith_iff.2 (List.prefix_append _ _))]
  rfl

/-- Anything else that is written is not read as one. -/
theorem optionalDeclaration_writeNode_of_not {t : Tree Content} (h : IsWritable false t)
    (hstart : StartsSpaced t)
    (hdeclaration : ∀ s, t.label = .instruction s → ¬ ['x', 'm', 'l', ' '] <+: s.toList)
    (rest : List Char) :
    optionalDeclaration (writeNode t ++ rest) = .ok (writeNode t ++ rest) := by
  rw [optionalDeclaration, afterPrefix?_mark hstart]
  refine if_neg fun hstart' ↦ ?_
  obtain ⟨s, us, rfl, hs⟩ := startsWith_declaration_writeNode h hstart hstart'
  exact hdeclaration s rfl hs

/-- **A written document is let through** exactly if its nodes make up a document. The first of them
has to be something else than a text, or a text that starts with a space. -/
theorem check_write_iff {t : Tree Content} {ts : List (Tree Content)}
    (h : AreWritable false (t :: ts)) (hstart : StartsSpaced t) :
    check (write (t :: ts)) = .ok () ↔ AcceptsDocument (t :: ts) := by
  rw [check_eq_ok_iff, write_eq, String.toList_ofList, AcceptsDocument]
  by_cases hdeclaration : ∃ s us, t = .node (.instruction s) us ∧ ['x', 'm', 'l', ' '] <+: s.toList
  · obtain ⟨s, us, rfl, more, hs⟩ := hdeclaration
    -- a written instruction holds no greater-than sign, so its end is that of the declaration
    have hsign : '>' ∉ ' ' :: more := fun hmem ↦ h.1.2 (hs ▸ List.mem_append_right ['x', 'm', 'l'] hmem)
    have hdrop : s.toList.drop 3 = ' ' :: more := by rw [← hs]; rfl
    have hoptional : ∀ start,
        optionalDeclaration (writeNodes (.node (.instruction s) us :: ts)) = .ok start ↔
          IsStrictDeclaration (' ' :: more) ∧ start = writeNodes ts := by
      intro start
      rw [writeNodes, optionalDeclaration_writeNode hs,
        declaration_closed_eq_ok_iff hsign isQuoteFree_writeNodes]
    constructor
    · intro hdocument
      obtain ⟨entities, inside, st, after, hprolog, -⟩ := document_eq_ok_iff.1 hdocument
      obtain ⟨start, around, hstart', -⟩ := prolog_eq_ok_iff.1 hprolog
      obtain ⟨hstrict, rfl⟩ := (hoptional start).1 hstart'
      refine .inl ⟨⟨s, rfl, ⟨more, hs⟩, hdrop ▸ hstrict⟩, ?_⟩
      rwa [document_eq_ok_iff_readsBody h.2 hstart', readsBody_writeNodes h.2] at hdocument
    · rintro (⟨⟨s', heq, -, hstrict⟩, hbody⟩ | hbody)
      · obtain rfl := Content.instruction.inj heq
        rw [hdrop] at hstrict
        rwa [document_eq_ok_iff_readsBody h.2 ((hoptional _).2 ⟨hstrict, rfl⟩),
          readsBody_writeNodes h.2]
      · exact absurd ⟨more, hs⟩ hbody.1.notDeclaration
  · have hoptional : optionalDeclaration (writeNodes (t :: ts)) = .ok (writeNodes (t :: ts)) := by
      rw [writeNodes]
      refine optionalDeclaration_writeNode_of_not h.1 hstart (fun s hs hprefix ↦ ?_) _
      obtain ⟨c, us⟩ := t
      obtain rfl : c = .instruction s := hs
      exact hdeclaration ⟨s, us, rfl, hprefix⟩
    rw [document_eq_ok_iff_readsBody h hoptional, readsBody_writeNodes h, iff_or_self]
    rintro ⟨⟨s, hs, hprefix, -⟩, -⟩
    obtain ⟨c, us⟩ := t
    obtain rfl : c = .instruction s := hs
    exact absurd ⟨s, us, rfl, hprefix⟩ hdeclaration

end SvgWorkbench.Gate
