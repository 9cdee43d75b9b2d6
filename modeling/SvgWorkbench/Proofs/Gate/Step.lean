import SvgWorkbench.Gate.Check
import SvgWorkbench.Proofs.Gate.Lexeme

/-!
# The steps of the strict check

What it takes for a start tag, a close tag, the prolog, the root element and a whole document to be
let through, said once for each of them.
-/

namespace SvgWorkbench.Gate

open Text Xml

/-! ## Tags -/

/-- A start tag is let through if its attributes and the scope they make are in order; a tag that is
cut by the end of the text leaves its attributes behind. -/
theorem State.readStartTag_eq_ok_iff {st st' : State} {entities : List Entity} {depth : Nat}
    {nested : Bool} {after : Nat} {tag : StartTag} :
    st.readStartTag entities depth nested after tag = .ok st' ↔
      tag.qname.space ≠ Mark.xmlns ∧ ∃ sorted references,
        sortAttributes entities depth nested after st.pending st.references tag.attributes
          = .ok (sorted, references) ∧
        (tag.ending = .ok .cut ∧ { st with tagSeen := true, references, pending := sorted } = st' ∨
          ∃ scope, closeScope st.scope sorted tag.qname (tag.start + after) = .ok scope ∧
            (tag.ending = .ok .empty ∧
                { st with tagSeen := true, references, rooted := true, pending := {} } = st' ∨
              tag.ending = .ok .opened ∧
                { st with tagSeen := true, references, rooted := true, pending := {},
                          opened := ⟨tag.qname, scope⟩ :: st.opened } = st')) := by
  by_cases hq : tag.qname.space = Mark.xmlns
  · simp [State.readStartTag, hq, throw, throwThe, MonadExceptOf.throw, bind, Except.bind]
  simp only [State.readStartTag, hq, if_false, bind_eq_ok_iff, Prod.exists, ne_eq,
    not_false_eq_true, true_and]
  refine exists_congr fun sorted ↦ exists_congr fun references ↦ and_congr_right fun _ ↦ ?_
  cases tag.ending with
  | error fault => simp
  | ok ending =>
    cases ending with
    | cut => simp [pure_eq_ok_iff]
    | empty => simp only [bind_eq_ok_iff, pure_eq_ok_iff, Except.ok.injEq, reduceCtorEq, false_and,
        false_or, or_false, true_and, State.scope]
    | opened => simp only [bind_eq_ok_iff, pure_eq_ok_iff, Except.ok.injEq, reduceCtorEq, false_and,
        false_or, true_and, State.scope]

/-- A start tag that is let through has a good end. -/
theorem State.exists_ending_of_readStartTag {st st' : State} {entities : List Entity} {depth : Nat}
    {nested : Bool} {after : Nat} {tag : StartTag}
    (h : st.readStartTag entities depth nested after tag = .ok st') :
    ∃ ending, tag.ending = .ok ending := by
  obtain ⟨-, _, _, -, ⟨hcut, -⟩ | ⟨_, -, ⟨hempty, -⟩ | ⟨hopened, -⟩⟩⟩ := readStartTag_eq_ok_iff.1 h
  · exact ⟨.cut, hcut⟩
  · exact ⟨.empty, hempty⟩
  · exact ⟨.opened, hopened⟩

/-- A close tag is let through if it names the innermost open element and the attributes a cut tag
has left are in order. -/
theorem State.readCloseTag_eq_ok_iff {st st' : State} {q : QName} {place : Nat} :
    st.readCloseTag q place = .ok st' ↔ st.tagSeen = true ∧
      (∃ scope, st.pending.resolve st.scope = .ok scope) ∧
      ∃ e rest, st.opened = e :: rest ∧ e.qname = q ∧
        { st with pending := {}, opened := rest } = st' := by
  cases hseen : st.tagSeen with
  | false => simp [State.readCloseTag, hseen, throw, throwThe, MonadExceptOf.throw, bind, Except.bind]
  | true =>
    simp only [State.readCloseTag, hseen, Bool.not_true, Bool.false_eq_true, if_false,
      bind_eq_ok_iff, true_and, exists_and_right]
    refine and_congr_right fun _ ↦ ?_
    cases st.opened with
    | nil => simp
    | cons e rest =>
      dsimp only
      by_cases hq : e.qname = q
      · rw [if_pos hq, pure_eq_ok_iff]
        constructor
        · exact fun heq ↦ ⟨e, rest, rfl, hq, heq⟩
        · rintro ⟨_, _, heq, -, rfl⟩
          cases heq
          rfl
      · rw [if_neg hq]
        constructor
        · exact nofun
        · rintro ⟨_, _, heq, hq', -⟩
          cases heq
          exact absurd hq' hq

theorem StartTag.opens_iff {tag : StartTag} : tag.opens = true ↔ tag.ending = .ok .opened := by
  unfold StartTag.opens
  split
  · next h => simp [h]
  · next h => simpa using h

/-- What a good end says about opening an element. -/
theorem StartTag.opens_of_ending {tag : StartTag} {ending : TagEnd} (h : tag.ending = .ok ending) :
    tag.opens = true ↔ ending = .opened := by
  rw [opens_iff, h, Except.ok.injEq]

/-! ## Pieces by their beginnings -/

theorem piece_openComment (more : List Char) :
    piece (Mark.openComment ++ more)
      = (comment (Mark.openComment ++ more)).map fun rest ↦ (.silent, rest) := by
  unfold piece
  rw [if_pos (startsWith_iff.2 (List.prefix_append _ _))]

/-- The second character tells a construct from those that start with an exclamation mark. -/
private theorem startsWith_bang {c : Char} (hc : c ≠ '!') (word more : List Char) :
    startsWith ('<' :: '!' :: word) ('<' :: c :: more) = false := by
  rw [Bool.eq_false_iff, ne_eq, startsWith_iff]
  intro hprefix
  exact hc (List.cons_prefix_cons.1 (List.cons_prefix_cons.1 hprefix).2).1.symm

private theorem piece_of_ne_bang {c : Char} (hc : c ≠ '!') (more : List Char) :
    piece ('<' :: c :: more)
      = if startsWith Mark.openInstruction ('<' :: c :: more) then
          (instruction ('<' :: c :: more)).map fun rest ↦ (.silent, rest)
        else if startsWith Mark.closeTag ('<' :: c :: more) then
          (closeTag ('<' :: c :: more)).map fun (q, rest) ↦ (.closeTag q, rest)
        else (startTag (c :: more)).map fun (tag, rest) ↦ (.startTag tag, rest) := by
  unfold piece
  rw [Mark.openComment, if_neg (by simp [startsWith_bang hc]), Mark.openSection,
    if_neg (by simp [startsWith_bang hc]), Mark.bang, if_neg (by simp [startsWith_bang hc])]
  rfl

theorem piece_openInstruction (more : List Char) :
    piece (Mark.openInstruction ++ more)
      = (instruction (Mark.openInstruction ++ more)).map fun rest ↦ (.silent, rest) := by
  have hstart : startsWith Mark.openInstruction (Mark.openInstruction ++ more) = true :=
    startsWith_iff.2 (List.prefix_append _ _)
  exact (piece_of_ne_bang (by decide) more).trans (if_pos hstart)

theorem piece_closeTag (more : List Char) :
    piece (Mark.closeTag ++ more)
      = (closeTag (Mark.closeTag ++ more)).map fun (q, rest) ↦ (.closeTag q, rest) := by
  have hstart : startsWith Mark.closeTag (Mark.closeTag ++ more) = true :=
    startsWith_iff.2 (List.prefix_append _ _)
  have hother : ¬ startsWith Mark.openInstruction (Mark.closeTag ++ more) = true := by
    rw [startsWith_iff]
    simp [Mark.openInstruction, Mark.closeTag]
  exact (piece_of_ne_bang (by decide) more).trans ((if_neg hother).trans (if_pos hstart))

/-- A less-than sign and a name start a tag. -/
theorem piece_startTag {c : Char} (hc : isNameStart c = true) (more : List Char) :
    piece ('<' :: c :: more)
      = (startTag (c :: more)).map fun (tag, rest) ↦ (.startTag tag, rest) := by
  have hne : ∀ x, isNameStart x = false → c ≠ x := by
    rintro x hx rfl
    rw [hc] at hx
    cases hx
  rw [piece_of_ne_bang (hne '!' rfl), if_neg, if_neg]
  · rw [startsWith_iff]
    exact fun h ↦ hne '/' rfl (List.cons_prefix_cons.1 (List.cons_prefix_cons.1 h).2).1.symm
  · rw [startsWith_iff]
    exact fun h ↦ hne '?' rfl (List.cons_prefix_cons.1 (List.cons_prefix_cons.1 h).2).1.symm

theorem piece_run {c : Char} (hc : c ≠ '<') (more : List Char) :
    piece (c :: more) = (textRun (c :: more)).map fun (text, rest) ↦ (.run text, rest) := by
  have hstart : ∀ word, startsWith ('<' :: word) (c :: more) = false := by
    intro word
    rw [Bool.eq_false_iff, ne_eq, startsWith_iff]
    exact fun h ↦ hc (List.cons_prefix_cons.1 h).1.symm
  unfold piece
  rw [Mark.openComment, if_neg (by simp [hstart]), Mark.openSection, if_neg (by simp [hstart]),
    Mark.bang, if_neg (by simp [hstart]), Mark.openInstruction, if_neg (by simp [hstart]),
    Mark.closeTag, if_neg (by simp [hstart])]
  split
  · next heq => exact absurd (List.cons.inj heq).1 hc
  · next heq => exact absurd (List.cons.inj heq).1 hc
  · rfl

/-! ## Content -/

/-- Content goes on after its first piece. -/
theorem content_eq_ok_iff {entities : List Entity} {expand : ContentExpansion} {depth : Nat}
    {nested : Bool} {after level : Nat} {st : State} {cs : List Char} (hne : cs ≠ [])
    {r : State × List Char} :
    content entities expand depth nested after level st cs = .ok r ↔
      ∃ p rest, piece cs = .ok (p, rest) ∧
        match p with
        | .silent => content entities expand depth nested after level st rest = .ok r
        | .run text => ∃ st', st.readText entities expand nested (rest.length + after) text = .ok st' ∧
            content entities expand depth nested after level st' rest = .ok r
        | .startTag tag => ∃ st', st.readStartTag entities depth nested after tag = .ok st' ∧
            content entities expand depth nested after (if tag.opens then level + 1 else level) st'
              rest = .ok r
        | .closeTag q => ∃ st', st.readCloseTag q (cs.length + after) = .ok st' ∧
            (level ≤ 1 ∧ (st', rest) = r ∨ 1 < level ∧
              content entities expand depth nested after (level - 1) st' rest = .ok r) := by
  obtain ⟨c, cs, rfl⟩ := List.exists_cons_of_ne_nil hne
  have hpiece : ∀ {p rest} (q : Piece → List Char → Prop), piece (c :: cs) = .ok (p, rest) →
      (q p rest ↔ ∃ p' rest', piece (c :: cs) = .ok (p', rest') ∧ q p' rest') := by
    intro p rest q heq
    constructor
    · exact fun h ↦ ⟨p, rest, heq, h⟩
    · rintro ⟨p', rest', heq', h⟩
      rw [heq] at heq'
      cases heq'
      exact h
  rw [content.eq_def]
  simp only
  split
  · next fault heq => simp [heq]
  · next rest heq =>
    refine Iff.trans ?_ (hpiece _ heq)
    exact Iff.rfl
  · next text rest heq =>
    refine Iff.trans ?_ (hpiece _ heq)
    exact bind_eq_ok_iff
  · next tag rest heq =>
    refine Iff.trans ?_ (hpiece _ heq)
    exact bind_eq_ok_iff
  · next q rest heq =>
    refine Iff.trans ?_ (hpiece _ heq)
    refine bind_eq_ok_iff.trans (exists_congr fun st' ↦ and_congr_right fun _ ↦ ?_)
    split
    · next hlevel => simp [pure_eq_ok_iff, hlevel, Nat.not_lt.2 hlevel]
    · next hlevel => simp [hlevel, Nat.not_le.1 hlevel]

/-! ## The parts of a document -/

theorem prolog_eq_ok_iff {cs rest : List Char} {entities : List Entity} :
    prolog cs = .ok (entities, rest) ↔ ∃ after around, optionalDeclaration cs = .ok after ∧
      misc after = .ok around ∧
      (afterPrefix? Mark.doctype around = none ∧ entities = [] ∧ rest = around ∨
        ∃ inner after', afterPrefix? Mark.doctype around = some inner ∧
          doctype around inner = .ok (entities, after') ∧ misc after' = .ok rest) := by
  simp only [prolog, bind_eq_ok_iff]
  constructor
  · rintro ⟨after, hafter, around, haround, h⟩
    refine ⟨after, around, hafter, haround, ?_⟩
    split at h
    · next hnone =>
      cases h
      exact .inl ⟨hnone, rfl, rfl⟩
    · next inner hsome =>
      simp only [bind_eq_ok_iff, Prod.exists, pure_eq_ok_iff, Prod.mk.injEq] at h
      obtain ⟨entities', after', hdoctype, _, hmisc, rfl, rfl⟩ := h
      exact .inr ⟨inner, after', hsome, hdoctype, hmisc⟩
  · rintro ⟨after, around, hafter, haround,
      ⟨hnone, rfl, rfl⟩ | ⟨inner, after', hsome, hdoctype, hmisc⟩⟩
    · refine ⟨after, hafter, _, haround, ?_⟩
      rw [hnone]
      rfl
    · refine ⟨after, hafter, _, haround, ?_⟩
      rw [hsome]
      simp only [bind_eq_ok_iff, Prod.exists, pure_eq_ok_iff, Prod.mk.injEq]
      exact ⟨entities, after', hdoctype, rest, hmisc, rfl, rfl⟩

theorem root_eq_ok_iff {entities : List Entity} {cs rest : List Char} {st : State} :
    root entities cs = .ok (st, rest) ↔ ∃ tag after st', startTag cs = .ok (tag, after) ∧
      State.readStartTag {} entities maxDepth false 0 tag = .ok st' ∧
      (tag.opens = true ∧
          content entities (expandContent entities maxDepth) maxDepth false 0 1 st' after
            = .ok (st, rest) ∨
        tag.opens = false ∧ st' = st ∧ after = rest) := by
  simp only [root, bind_eq_ok_iff, Prod.exists]
  refine exists_congr fun tag ↦ exists_congr fun after ↦ ?_
  constructor
  · rintro ⟨htag, st', hst', h⟩
    refine ⟨st', htag, hst', ?_⟩
    split at h
    · next hopens => exact .inl ⟨hopens, h⟩
    · next hopens =>
      cases h
      exact .inr ⟨by simpa using hopens, rfl, rfl⟩
  · rintro ⟨st', htag, hst', ⟨hopens, h⟩ | ⟨hopens, rfl, rfl⟩⟩
    · exact ⟨htag, st', hst', by rw [if_pos hopens]; exact h⟩
    · exact ⟨htag, st', hst', by rw [if_neg (by simp [hopens])]; rfl⟩

/-- A document is what stands around the root, and the root. -/
theorem document_eq_ok_iff {cs : List Char} :
    document cs = .ok () ↔ ∃ entities inside st after, prolog cs = .ok (entities, '<' :: inside) ∧
      root entities inside = .ok (st, after) ∧ misc after = .ok [] ∧ st.rooted = true ∧
      st.opened = [] := by
  have hend : ∀ (st : State) (rest : List Char),
      (if (!rest.isEmpty) = true then fail .unknownToken rest
        else if (!st.rooted) = true then fail .noRoot []
        else if (!st.opened.isEmpty) = true then fail .unclosedRoot []
        else (pure () : Except Fault Unit)) = .ok () ↔
      rest = [] ∧ st.rooted = true ∧ st.opened = [] := by
    intro st rest
    cases rest with
    | cons c rest => simp [fail]
    | nil =>
      cases st.rooted with
      | false => simp [fail]
      | true =>
        cases hopened : st.opened with
        | nil => simp [pure_eq_ok_iff]
        | cons e es => simp [fail]
  cases cs with
  | nil =>
    constructor
    · intro h
      cases h
    · rintro ⟨entities, inside, st, after, hprolog, -⟩
      rw [show prolog [] = .ok ([], []) by cbv] at hprolog
      cases hprolog
  | cons c cs =>
    simp only [document, bind_eq_ok_iff, Prod.exists]
    constructor
    · rintro ⟨entities, rest, hprolog, h⟩
      split at h
      · simp only [bind_eq_ok_iff, Prod.exists, hend] at h
        obtain ⟨st, after, hroot, _, hmisc, rfl, hrooted, hopened⟩ := h
        exact ⟨entities, _, st, after, hprolog, hroot, hmisc, hrooted, hopened⟩
      · simp only [bind_eq_ok_iff, pure_eq_ok_iff, hend] at h
        -- without a less-than sign there is no root
        obtain ⟨_, rfl, _, -, -, hrooted, -⟩ := h
        cases hrooted
    · rintro ⟨entities, inside, st, after, hprolog, hroot, hmisc, hrooted, hopened⟩
      refine ⟨entities, _, hprolog, ?_⟩
      simp only [bind_eq_ok_iff, Prod.exists, hend]
      exact ⟨st, after, hroot, [], hmisc, rfl, hrooted, hopened⟩

/-- A text is let through if it is a document. -/
theorem check_eq_ok_iff {s : String} : check s = .ok () ↔ document s.toList = .ok () := by
  rw [check]
  cases document s.toList with
  | error fault => exact ⟨nofun, nofun⟩
  | ok _ => exact ⟨fun _ ↦ rfl, fun _ ↦ rfl⟩

end SvgWorkbench.Gate
