import SvgWorkbench.Proofs.Drawing.Start
import SvgWorkbench.Proofs.Gate.Declaration
import SvgWorkbench.Proofs.Gate.WrittenTag

/-!
# How the check takes written markup

Written markup is let through exactly if every node of it may stand where it stands. For what is
inside the root this is said by `Accepts`, which goes down the tree with the prefixes that are
declared; around the root stand spaces, comments and instructions, and a declaration in front.
-/

namespace SvgWorkbench.Gate

open Text Xml Markup SvgWorkbench.Tree

/-! ## What may stand in content -/

mutual

/-- Whether a node may stand in content where some prefixes are declared. -/
def Accepts (scope : List Binding) : Tree Content → Prop
  | .node (.element e) ts => e.HasDocumentValues ∧
      ∃ q inner, Opens scope e q inner ∧ AcceptsAll inner ts
  | .node (.text s) _ => IsDocumentText s.toList
  | .node (.comment s) _ => IsStrictComment s.toList
  | .node (.instruction s) _ => IsStrictInstruction s.toList
  | .node (.doctype _) _ => False

/-- Whether the nodes of a forest may stand in content. -/
def AcceptsAll (scope : List Binding) : List (Tree Content) → Prop
  | [] => True
  | t :: ts => Accepts scope t ∧ AcceptsAll scope ts

end

/-! ## Content in steps -/

/-- Reads content of a document without entities, in which so many elements are to be closed. -/
def plainContent (level : Nat) (opened : List OpenElement) (cs : List Char) :
    Except Fault (State × List Char) :=
  content [] (expandContent [] maxDepth) maxDepth false 0 level (.inside opened) cs

variable {level : Nat} {opened : List OpenElement} {r : State × List Char}

/-- The namespaces declared inside the innermost of some open elements. -/
def scopeOf (opened : List OpenElement) : List Binding := (State.inside opened).scope

private theorem plainContent_silent {cs rest : List Char} {x : Except Fault (List Char)} {p : Prop}
    (hne : cs ≠ []) (hpiece : piece cs = x.map fun rest ↦ (.silent, rest))
    (hx : ∀ after, x = .ok after ↔ p ∧ after = rest) :
    plainContent level opened cs = .ok r ↔ p ∧ plainContent level opened rest = .ok r := by
  rw [plainContent, content_eq_ok_iff hne, hpiece]
  simp only [map_eq_ok_iff, hx]
  constructor
  · rintro ⟨_, _, ⟨_, ⟨hp, rfl⟩, heq⟩, h⟩
    cases heq
    exact ⟨hp, h⟩
  · rintro ⟨hp, h⟩
    exact ⟨.silent, rest, ⟨rest, ⟨hp, rfl⟩, rfl⟩, h⟩

/-- A comment that can be written ends where it was ended. -/
theorem comment_written_eq_ok_iff {s : List Char} (hs : IsComment s) {rest after : List Char} :
    comment (Mark.openComment ++ (s ++ (Mark.closeComment ++ rest))) = .ok after ↔
      IsStrictComment s ∧ after = rest := by
  rw [comment_eq_ok_iff]
  constructor
  · rintro ⟨s', hs', hsplit⟩
    obtain ⟨rfl, rfl⟩ := eq_of_append_mark (q := ['-', '-']) (by decide) hs
      hs'.not_closeComment_infix (List.append_cancel_left hsplit)
    exact ⟨hs', rfl⟩
  · rintro ⟨hs', rfl⟩
    exact ⟨s, hs', rfl⟩

theorem IsInstruction.not_closeInstruction_infix {s : List Char} (h : IsInstruction s) :
    ¬ Mark.closeInstruction <:+: s := fun hmark ↦ h.2 (hmark.subset (by decide))

/-- An instruction that can be written ends where it was ended. -/
theorem instruction_written_eq_ok_iff {s : List Char} (hs : IsInstruction s)
    {rest after : List Char} :
    instruction (Mark.openInstruction ++ (s ++ (Mark.closeInstruction ++ rest))) = .ok after ↔
      IsStrictInstruction s ∧ after = rest := by
  rw [instruction_eq_ok_iff]
  constructor
  · rintro ⟨s', hs', hsplit⟩
    obtain ⟨rfl, rfl⟩ := eq_of_append_mark (q := ['?']) (by decide)
      (IsInstruction.not_closeInstruction_infix hs) hs'.inside (List.append_cancel_left hsplit)
    exact ⟨hs', rfl⟩
  · rintro ⟨hs', rfl⟩
    exact ⟨s, hs', rfl⟩

/-- A written text is a run of text if its characters may stand in a document. -/
private theorem textRun_escape_eq_ok_iff {s rest : List Char}
    (hrest : rest = [] ∨ rest.head? = some '<') (p : List Char × List Char) :
    textRun (escape s ++ rest) = .ok p ↔ IsDocumentText s ∧ p = (escape s, rest) := by
  have huntil := @charsUntil_append_eq_ok_iff (fun r ↦ r.head? == some '<') (escape s) rest
    (fun d hd more ↦ by
      have hd' : d ≠ '<' := fun heq ↦ lt_notMem_escape s (heq ▸ hd)
      simpa using hd')
    (fun d more heq ↦ by
      obtain rfl : d = '<' := by
        rcases hrest with rfl | hrest
        · cases heq
        · rw [heq] at hrest
          exact Option.some.inj hrest
      rw [heq]
      exact ⟨rfl, rfl⟩)
  -- the mark that may not stand in a text ends with a sign that is always escaped
  have hsection : occursIn Mark.closeSection (escape s) = false := by
    rw [Bool.eq_false_iff, ne_eq, occursIn_iff]
    exact fun hmark ↦ ne_of_mem_escape (hmark.subset (by decide)) (y := '>') rfl (by decide) rfl
  rw [textRun, bind_eq_ok_iff]
  constructor
  · rintro ⟨_, htext, h⟩
    obtain ⟨hchars, rfl⟩ := huntil.1 htext
    simp only [hsection, Bool.false_eq_true, if_false, pure_eq_ok_iff] at h
    exact ⟨isDocumentText_escape.1 hchars, h.symm⟩
  · rintro ⟨hchars, rfl⟩
    refine ⟨_, huntil.2 ⟨isDocumentText_escape.2 hchars, rfl⟩, ?_⟩
    simp only [hsection, Bool.false_eq_true, if_false, pure_eq_ok_iff]

/-- A written text is passed over if its characters may stand in a document. -/
theorem plainContent_escape {s rest : List Char} (hrest : rest = [] ∨ rest.head? = some '<') :
    plainContent level opened (escape s ++ rest) = .ok r ↔
      IsDocumentText s ∧ plainContent level opened rest = .ok r := by
  by_cases hs : escape s = []
  · obtain rfl := escape_eq_nil_iff.1 hs
    exact ⟨fun h ↦ ⟨nofun, h⟩, And.right⟩
  obtain ⟨c, more, hcons⟩ := List.exists_cons_of_ne_nil hs
  have hc : c ≠ '<' := fun heq ↦ lt_notMem_escape s (by rw [hcons, heq]; exact List.mem_cons_self)
  rw [plainContent, content_eq_ok_iff (by simp [hs]), hcons, List.cons_append, piece_run hc,
    ← List.cons_append, ← hcons]
  simp only [map_eq_ok_iff, textRun_escape_eq_ok_iff hrest]
  constructor
  · rintro ⟨_, _, ⟨_, ⟨hchars, rfl⟩, heq⟩, h⟩
    cases heq
    obtain ⟨st', hst', h⟩ := h
    rw [readText_escape] at hst'
    cases hst'
    exact ⟨hchars, h⟩
  · rintro ⟨hchars, h⟩
    exact ⟨.run (escape s), rest, ⟨_, ⟨hchars, rfl⟩, rfl⟩, _, readText_escape _ _ _ _ _ _, h⟩

/-- A start tag is passed over if it is let through. -/
theorem plainContent_startTag {cs : List Char}
    (hcs : ∃ c more, cs = c :: more ∧ isNameStart c = true) :
    plainContent level opened ('<' :: cs) = .ok r ↔ ∃ ending st rest,
      ReadsTag (.inside opened) cs ending st rest ∧
        content [] (expandContent [] maxDepth) maxDepth false 0
          (if ending = .opened then level + 1 else level) st rest = .ok r := by
  obtain ⟨c, more, rfl, hc⟩ := hcs
  rw [plainContent, content_eq_ok_iff (List.cons_ne_nil _ _), piece_startTag hc]
  simp only [map_eq_ok_iff]
  constructor
  · rintro ⟨_, _, ⟨⟨tag, rest⟩, htag, heq⟩, h⟩
    cases heq
    obtain ⟨st, hst, h⟩ := h
    obtain ⟨ending, hending⟩ := State.exists_ending_of_readStartTag hst
    refine ⟨ending, st, rest, ⟨tag, htag, hending, hst⟩, ?_⟩
    simpa only [StartTag.opens_of_ending hending] using h
  · rintro ⟨ending, st, rest, ⟨tag, htag, hending, hst⟩, h⟩
    refine ⟨.startTag tag, rest, ⟨_, htag, rfl⟩, st, hst, ?_⟩
    simpa only [StartTag.opens_of_ending hending] using h

/-- A close tag without spaces is taken for the name in it. -/
private theorem closeTag_eq_ok_iff {key : List Char} {q : QName} (hkey : IsName key)
    (hq : QName.ofChars? key = some q) (rest : List Char) (p : QName × List Char) :
    closeTag (Mark.closeTag ++ (key ++ '>' :: rest)) = .ok p ↔ p = (q, rest) := by
  obtain ⟨q', rest'⟩ := p
  simp only [closeTag, bind_eq_ok_iff, Prod.exists, pure_eq_ok_iff, mark_eq_ok_iff,
    qname_eq_ok_iff, char_eq_ok_iff]
  have htake := takeWhile_until hkey.forall_isNameChar (x := '>') rfl rest
  have hdrop := dropWhile_until hkey.forall_isNameChar (x := '>') rfl rest
  constructor
  · rintro ⟨after, hmark, q', _, ⟨hq', rfl⟩, rest', hskip, heq⟩
    obtain rfl := List.append_cancel_left hmark
    rw [htake, hq] at hq'
    rw [hdrop] at hskip
    cases hq'
    cases hskip
    exact heq.symm
  · intro heq
    cases heq
    refine ⟨_, rfl, q, _, ⟨by rw [htake, hq], rfl⟩, rest, ?_, rfl⟩
    rw [hdrop]
    rfl

/-- A close tag is passed over if it names the innermost open element. -/
theorem plainContent_closeTag {key : List Char} {q : QName} {inner : List Binding} (hkey : IsName key)
    (hq : QName.ofChars? key = some q) (rest : List Char) :
    plainContent level (⟨q, inner⟩ :: opened) (Mark.closeTag ++ (key ++ '>' :: rest)) = .ok r ↔
      level ≤ 1 ∧ (.inside opened, rest) = r ∨
        1 < level ∧ plainContent (level - 1) opened rest = .ok r := by
  rw [plainContent, content_eq_ok_iff (by simp [Mark.closeTag]), piece_closeTag]
  simp only [map_eq_ok_iff, closeTag_eq_ok_iff hkey hq]
  constructor
  · rintro ⟨_, _, ⟨_, rfl, heq⟩, h⟩
    cases heq
    obtain ⟨st, hst, h⟩ := h
    obtain ⟨-, -, e, more, hopened, -, rfl⟩ := State.readCloseTag_eq_ok_iff.1 hst
    cases hopened
    exact h
  · intro h
    refine ⟨.closeTag q, rest, ⟨_, rfl, rfl⟩, .inside opened, ?_, h⟩
    exact State.readCloseTag_eq_ok_iff.2 ⟨rfl, ⟨_, rfl⟩, _, opened, rfl, rfl, rfl⟩

/-! ## Written content -/

theorem exists_isNameStart_writeTag {e : Element} (he : IsName e.name.toList) (more : List Char) :
    ∃ c rest, writeTag e ++ more = c :: rest ∧ isNameStart c = true := by
  obtain ⟨c, letters, hname, hc, -⟩ := he
  exact ⟨c, _, by rw [writeTag, hname]; rfl, hc⟩

mutual

/-- **Step law.** A written node other than a text is passed over if it may stand there. -/
theorem plainContent_writeNode {t : Tree Content} (h : IsWritable false t)
    (htext : t.label.text? = none) {level : Nat} (hlevel : 1 ≤ level) (opened : List OpenElement)
    (rest : List Char) (r : State × List Char) :
    plainContent level opened (writeNode t ++ rest) = .ok r ↔
      Accepts (scopeOf opened) t ∧ plainContent level opened rest = .ok r := by
  match t, h with
  | .node (.element e) [], h =>
    have hwrite : writeNode (.node (.element e) []) ++ rest
        = '<' :: (writeTag e ++ (TagEnd.empty.text ++ rest)) := by
      simp [writeNode, TagEnd.text]
    rw [hwrite, plainContent_startTag (exists_isNameStart_writeTag h.1.names.1 _)]
    simp only [readsTag_written_iff (show (State.inside opened).pending = {} from rfl) rfl h.1.names
      (show TagEnd.empty ≠ .cut by decide)]
    constructor
    · rintro ⟨_, _, _, ⟨rfl, rfl, hvalues, q, inner, hopens, rfl⟩, hrest⟩
      exact ⟨⟨hvalues, q, inner, hopens, trivial⟩, hrest⟩
    · rintro ⟨⟨hvalues, q, inner, hopens, -⟩, hrest⟩
      exact ⟨.empty, _, rest, ⟨rfl, rfl, hvalues, q, inner, hopens, rfl⟩, hrest⟩
  | .node (.element e) (u :: us), h =>
    have hwrite : writeNode (.node (.element e) (u :: us)) ++ rest
        = '<' :: (writeTag e ++ (TagEnd.opened.text ++ (escape "".toList ++ (writeNodes (u :: us) ++
          (Mark.closeTag ++ (e.name.toList ++ '>' :: rest)))))) := by
      simp [writeNode, writeNodes, TagEnd.text]
    rw [hwrite, plainContent_startTag (exists_isNameStart_writeTag h.1.names.1 _)]
    simp only [readsTag_written_iff (show (State.inside opened).pending = {} from rfl) rfl h.1.names
      (show TagEnd.opened ≠ .cut by decide)]
    -- inside the element its children are passed over, then its close tag
    have hinside : ∀ q inner, Opens (scopeOf opened) e q inner →
        (plainContent (level + 1) (⟨q, inner⟩ :: opened) (escape "".toList ++ (writeNodes (u :: us) ++
          (Mark.closeTag ++ (e.name.toList ++ '>' :: rest)))) = .ok r ↔
          AcceptsAll inner (u :: us) ∧ plainContent level opened rest = .ok r) := by
      intro q inner hopens
      rw [plainContent_writeNodes h.2 "" (by omega) _ (.inr rfl),
        plainContent_closeTag h.1.names.1 hopens.1]
      constructor
      · rintro ⟨-, hchildren, ⟨hle, -⟩ | ⟨-, hrest⟩⟩
        · omega
        · exact ⟨hchildren, hrest⟩
      · rintro ⟨hchildren, hrest⟩
        exact ⟨nofun, hchildren, .inr ⟨by omega, hrest⟩⟩
    constructor
    · rintro ⟨_, _, _, ⟨rfl, rfl, hvalues, q, inner, hopens, rfl⟩, hrest⟩
      obtain ⟨hchildren, hrest⟩ := (hinside q inner hopens).1 hrest
      exact ⟨⟨hvalues, q, inner, hopens, hchildren⟩, hrest⟩
    · rintro ⟨⟨hvalues, q, inner, hopens, hchildren⟩, hrest⟩
      exact ⟨.opened, _, _, ⟨rfl, rfl, hvalues, q, inner, hopens, rfl⟩,
        (hinside q inner hopens).2 ⟨hchildren, hrest⟩⟩
  | .node (.comment s) ts, h =>
    have hwrite : writeNode (.node (.comment s) ts) ++ rest
        = Mark.openComment ++ (s.toList ++ (Mark.closeComment ++ rest)) := by
      simp [writeNode]
    rw [hwrite, plainContent_silent (by simp [Mark.openComment]) (piece_openComment _)
      fun _ ↦ comment_written_eq_ok_iff h]
    rfl
  | .node (.instruction s) ts, h =>
    have hwrite : writeNode (.node (.instruction s) ts) ++ rest
        = Mark.openInstruction ++ (s.toList ++ (Mark.closeInstruction ++ rest)) := by
      simp [writeNode]
    rw [hwrite, plainContent_silent (by simp [Mark.openInstruction]) (piece_openInstruction _)
      fun _ ↦ instruction_written_eq_ok_iff h]
    rfl
  | .node (.doctype s) ts, h => cases h.1

/-- **Step law for forests.** A written forest, with a text before it, is passed over if the text
and each of its nodes may stand there. -/
theorem plainContent_writeNodes {ts : List (Tree Content)} (h : AreWritable false ts)
    (before : String) {level : Nat} (hlevel : 1 ≤ level) (opened : List OpenElement)
    {rest : List Char} (hrest : rest = [] ∨ rest.head? = some '<') {r : State × List Char} :
    plainContent level opened (escape before.toList ++ (writeNodes ts ++ rest)) = .ok r ↔
      IsDocumentText before.toList ∧ AcceptsAll (scopeOf opened) ts ∧
        plainContent level opened rest = .ok r := by
  match ts, h with
  | [], _ =>
    rw [writeNodes, List.nil_append, plainContent_escape hrest, AcceptsAll, true_and]
  | .node c us :: ts, h =>
    cases htext : c.text? with
    | some s =>
      obtain rfl := Content.eq_text_of_text? htext
      have hread := plainContent_writeNodes h.2 (before ++ s) hlevel opened hrest (r := r)
      rw [String.toList_append, escape_append, List.append_assoc, isDocumentText_append] at hread
      rw [writeNodes, writeNode, List.append_assoc, hread, AcceptsAll, Accepts, and_assoc, and_assoc]
    | none =>
      have hnode := plainContent_writeNode h.1 htext hlevel opened (writeNodes ts ++ rest) r
      have hforest : plainContent level opened (writeNodes ts ++ rest) = .ok r ↔
          AcceptsAll (scopeOf opened) ts ∧ plainContent level opened rest = .ok r :=
        (plainContent_writeNodes h.2 "" hlevel opened hrest).trans (and_iff_right nofun)
      rw [writeNodes, List.append_assoc,
        plainContent_escape (.inr (head?_writeNode (t := .node c us) htext _)), hnode, hforest,
        AcceptsAll, and_assoc]

end

end SvgWorkbench.Gate
