import SvgWorkbench.Proofs.Gate.Namespace
import SvgWorkbench.Proofs.Gate.Step

/-!
# How the check takes written tags

An escaped text holds no reference but those the writer makes, so the check finds nothing wrong in
it as long as its characters may stand in a document. A written tag is therefore let through exactly
if its names are in order and its values are made of such characters.
-/

namespace SvgWorkbench.Gate

open Text Xml Markup

/-! ## Escaped text -/

/-- Whether all characters of a text may stand in a document. -/
def IsDocumentText (cs : List Char) : Prop := ∀ c ∈ cs, isDocumentChar c = true

instance (cs : List Char) : Decidable (IsDocumentText cs) :=
  List.decidableBAll _ cs

private theorem isDocumentText_escapeChar {c : Char} :
    IsDocumentText (escapeChar c) ↔ isDocumentChar c = true := by
  by_cases hc : isEscaped c = true
  · rcases isEscaped_cases hc with rfl | rfl | rfl | rfl | rfl <;> decide
  · rw [escapeChar_of_not_isEscaped (by simpa using hc)]
    simp [IsDocumentText]

theorem isDocumentText_append {cs ds : List Char} :
    IsDocumentText (cs ++ ds) ↔ IsDocumentText cs ∧ IsDocumentText ds := List.forall_mem_append

theorem isDocumentText_escape {cs : List Char} :
    IsDocumentText (escape cs) ↔ IsDocumentText cs := by
  induction cs with
  | nil => rfl
  | cons c cs ih =>
    rw [escape_cons, isDocumentText_append, isDocumentText_escapeChar, ih]
    exact (List.forall_mem_cons (p := (isDocumentChar · = true))).symm

/-- Turning breaks into spaces leaves a text one of a document. -/
theorem IsDocumentText.spaced {cs : List Char} (h : IsDocumentText cs) :
    IsDocumentText (Markup.spaced cs) := by
  fun_induction Markup.spaced cs with
  | case1 => exact h
  | case2 cs ih => exact List.forall_mem_cons.2 ⟨rfl, ih fun c hc ↦ h c (by simp [hc])⟩
  | case3 c cs _ ih =>
    obtain ⟨hc, hcs⟩ := List.forall_mem_cons.1 h
    refine List.forall_mem_cons.2 ⟨?_, ih hcs⟩
    split
    · rfl
    · exact hc

/-! ## References in escaped text -/

/-- The reference the writer makes for a character is read as that character. -/
private theorem reference?_escapeChar {c : Char} (hc : isEscaped c = true) (rest : List Char) :
    ∃ more, escapeChar c ++ rest = '&' :: more ∧ reference? more = some (.char c, rest) := by
  rcases isEscaped_cases hc with rfl | rfl | rfl | rfl | rfl <;> exact ⟨_, rfl, rfl⟩

/-- The references of escaped text are in order. -/
theorem readText_escape (entities : List Entity) (expand : ContentExpansion) (nested : Bool)
    (after : Nat) (st : State) (cs : List Char) :
    st.readText entities expand nested after (escape cs) = .ok st := by
  induction cs with
  | nil => rw [escape_nil, State.readText]
  | cons c cs ih =>
    rw [escape_cons]
    by_cases hc : isEscaped c = true
    · obtain ⟨more, hmore, href⟩ := reference?_escapeChar hc (escape cs)
      rw [hmore, State.readText]
      split
      · next heq => rw [href] at heq; cases heq
      · next heq =>
        rw [href] at heq
        cases heq
        exact ih
      · next heq => rw [href] at heq; cases heq
    · rw [escapeChar_of_not_isEscaped (by simpa using hc), List.cons_append, List.nil_append,
        State.readText]
      · exact ih
      · rintro rfl
        exact hc rfl

/-- The value of an escaped text is the text with its breaks turned into spaces. -/
theorem valueText_escape (entities : List Entity) (expand : ValueExpansion) (after references : Nat)
    (cs : List Char) :
    valueText entities expand false after references (escape cs) = .ok (spaced cs, references) := by
  fun_induction spaced cs with
  | case1 => rw [escape_nil, valueText]
  | case2 cs ih =>
    have hcrlf : escape ('\r' :: '\n' :: cs) = '\r' :: '\n' :: escape cs := by
      rw [escape_cons, escape_cons]
      rfl
    rw [hcrlf, valueText, valueText, ih]
    · rfl
    all_goals exact nofun
  | case3 c cs hcrlf ih =>
    rw [escape_cons]
    by_cases hc : isEscaped c = true
    · obtain ⟨more, hmore, href⟩ := reference?_escapeChar hc (escape cs)
      rw [hmore, valueText]
      split
      · next heq => rw [href] at heq; cases heq
      · next heq =>
        rw [href] at heq
        cases heq
        rw [ih]
        rcases isEscaped_cases hc with rfl | rfl | rfl | rfl | rfl <;> rfl
      · next heq => rw [href] at heq; cases heq
    · have hc' : isEscaped c = false := by simpa using hc
      rw [escapeChar_of_not_isEscaped hc', List.cons_append, List.nil_append, valueText]
      · have hblank : blankToSpace c = if c = '\t' ∨ c = '\n' ∨ c = '\r' then ' ' else c := by
          rw [blankToSpace]
          by_cases hs : isSpace c = true
          · rcases isSpace_cases hs with rfl | rfl | rfl | rfl <;> rfl
          · rw [if_neg hs, if_neg]
            rintro (rfl | rfl | rfl) <;> exact hs rfl
        rw [ih, ← hblank]
        rfl
      · rintro rest rfl hrest
        obtain ⟨more, rfl⟩ := exists_of_escape_eq_cons rfl hrest
        exact hcrlf more rfl rfl
      · rintro rfl
        exact hc rfl

/-! ## Written attributes -/

theorem writtenAttribute_written_eq_ok_iff {key value rest : List Char}
    (hkey : ∀ c ∈ key, isNameChar c = true) {r : Attribute × List Char} :
    writtenAttribute (key ++ '=' :: '"' :: (escape value ++ '"' :: rest)) = .ok r ↔
      ∃ q, QName.ofChars? key = some q ∧ IsDocumentText value ∧
        r = (⟨q, escape value, (key ++ '=' :: '"' :: (escape value ++ '"' :: rest)).length,
          rest.length + 1⟩, rest) := by
  have hvalue : ∀ c ∈ escape value, ∀ more,
      ((c :: more).head? == some '"' || (c :: more).head? == some '<') = false := by
    intro c hc more
    simp [ne_of_mem_escape hc (y := '"') rfl (by decide), ne_of_mem_escape hc (y := '<') rfl (by decide)]
  have huntil := @charsUntil_append_eq_ok_iff (fun r ↦ r.head? == some '"' || r.head? == some '<')
    (escape value) ('"' :: rest) hvalue (fun c more heq ↦ by cases heq; exact ⟨rfl, rfl⟩)
  simp only [writtenAttribute, equals, bind_eq_ok_iff, Prod.exists, pure_eq_ok_iff,
    qname_eq_ok_iff, char_eq_ok_iff, quote_eq_ok_iff]
  rw [takeWhile_until hkey rfl, dropWhile_until hkey rfl]
  constructor
  · rintro ⟨q, _, ⟨hq, rfl⟩, _, ⟨afterEquals, hequals, rfl⟩, quote, _, ⟨hopen, -⟩, text, after, htext,
      rest', hclose, rfl⟩
    cases hequals
    cases hopen
    obtain ⟨hchars, heq⟩ := huntil.1 htext
    cases heq
    cases hclose
    exact ⟨q, hq, isDocumentText_escape.1 hchars, rfl⟩
  · rintro ⟨q, hq, hchars, rfl⟩
    exact ⟨q, _, ⟨hq, rfl⟩, _, ⟨_, rfl, rfl⟩, '"', _, ⟨rfl, .inl rfl⟩, escape value, '"' :: rest,
      huntil.2 ⟨isDocumentText_escape.2 hchars, rfl⟩, rest, rfl, rfl⟩

/-- After a space and a name comes an attribute. -/
private theorem tagBody_attribute {key : List Char} (hkey : IsName key) (more : List Char) :
    tagBody (' ' :: (key ++ more)) = match writtenAttribute (key ++ more) with
      | .error fault => ([], .error fault, [])
      | .ok (a, rest) => (a :: (tagBody rest).1, (tagBody rest).2.1, (tagBody rest).2.2) := by
  have hstart : ∀ x, isNameChar x = false → ∀ rest, key ++ more ≠ x :: rest := by
    intro x hx rest heq
    obtain ⟨c, letters, rfl, -⟩ := id hkey
    exact hkey.ne hx c List.mem_cons_self (List.cons.inj heq).1
  have hskip : skipSpaces (' ' :: (key ++ more)) = key ++ more := by
    obtain ⟨c, letters, rfl, -⟩ := id hkey
    have hspace : ∀ x ∈ [' '], isSpace x = true := List.all_eq_true.1 rfl
    exact dropWhile_until hspace (hkey.not_isSpace c List.mem_cons_self) _
  rw [tagBody.eq_def]
  simp only [hskip]
  split
  · next heq => exact absurd (List.append_eq_nil_iff.1 heq).1 hkey.ne_nil
  · next heq => exact absurd heq (hstart '/' rfl _)
  · next heq => exact absurd heq (hstart '>' rfl _)
  · rw [if_neg (by decide)]
    rw [hskip]
    split
    · next heq => rw [heq]
    · next heq => rw [heq]

private theorem writeAttributes_cons (a : String × String) (as : List (String × String))
    (tail : List Char) :
    (a :: as).flatMap writeAttribute ++ tail
      = ' ' :: (a.1.toList ++ '=' :: '"' :: (escape a.2.toList ++
        '"' :: (as.flatMap writeAttribute ++ tail))) := by
  simp [writeAttribute]

/-- Whether the check can scan the attributes: their names are qualified names and their values are
made of characters of documents. -/
def AreScanned (as : List (String × String)) : Prop :=
  ∀ a ∈ as, (QName.ofChars? a.1.toList).isSome = true ∧ IsDocumentText a.2.toList

/-- Attributes that can be scanned are scanned as they are written. -/
theorem tagBody_of_areScanned {as : List (String × String)}
    (hnames : ∀ a ∈ as, IsName a.1.toList) (has : AreScanned as) {tail rest : List Char}
    {ending : TagEnd} (htail : tagBody tail = ([], .ok ending, rest)) :
    ∃ xs, tagBody (as.flatMap writeAttribute ++ tail) = (xs, .ok ending, rest) ∧
      as.map (fun a ↦ (QName.ofChars? a.1.toList, escape a.2.toList))
        = xs.map fun x ↦ (some x.qname, x.value) := by
  induction as with
  | nil => exact ⟨[], htail, rfl⟩
  | cons a as ih =>
    obtain ⟨hname, hnames⟩ := List.forall_mem_cons.1 hnames
    obtain ⟨⟨hq, hchars⟩, has⟩ := List.forall_mem_cons.1 has
    obtain ⟨q, hq⟩ := Option.isSome_iff_exists.1 hq
    obtain ⟨xs, hxs, hmap⟩ := ih hnames has
    obtain ⟨x, hattribute, rfl, hvalue⟩ : ∃ x : Attribute, writtenAttribute (a.1.toList ++
        '=' :: '"' :: (escape a.2.toList ++ '"' :: (as.flatMap writeAttribute ++ tail)))
        = .ok (x, as.flatMap writeAttribute ++ tail) ∧ x.qname = q ∧ x.value = escape a.2.toList :=
      ⟨_, (writtenAttribute_written_eq_ok_iff hname.forall_isNameChar).2 ⟨q, hq, hchars, rfl⟩, rfl,
        rfl⟩
    refine ⟨x :: xs, ?_, ?_⟩
    · rw [writeAttributes_cons, tagBody_attribute hname, hattribute]
      simp only [hxs]
    · rw [List.map_cons, List.map_cons, hmap, hq, hvalue]

/-- If some attribute cannot be scanned, the tag has no good end. -/
theorem tagBody_of_not_areScanned {as : List (String × String)}
    (hnames : ∀ a ∈ as, IsName a.1.toList) (has : ¬ AreScanned as) (tail : List Char) :
    ∃ fault, (tagBody (as.flatMap writeAttribute ++ tail)).2.1 = .error fault := by
  induction as with
  | nil => exact absurd (List.forall_mem_nil _) has
  | cons a as ih =>
    obtain ⟨hname, hnames⟩ := List.forall_mem_cons.1 hnames
    rw [writeAttributes_cons, tagBody_attribute hname]
    split
    · next fault _ => exact ⟨fault, rfl⟩
    · next x rest hattribute =>
      obtain ⟨q, hq, hchars, heq⟩ :=
        (writtenAttribute_written_eq_ok_iff hname.forall_isNameChar).1 hattribute
      cases heq
      refine ih hnames fun has' ↦ has (List.forall_mem_cons.2 ⟨⟨?_, hchars⟩, has'⟩)
      rw [hq]
      rfl

/-! ## The meaning of written attributes -/

/-- Attributes as they are written are in order exactly if they are without a look at places. -/
theorem sortAttributes_eq_ok_iff {entities : List Entity} {depth after references : Nat}
    {as : List (String × String)} {xs : List Attribute} {parts : List (QName × List Char)}
    (hxs : as.map (fun a ↦ (QName.ofChars? a.1.toList, escape a.2.toList))
      = xs.map fun x ↦ (some x.qname, x.value))
    (hparts : as.map attributeParts = parts.map fun p ↦ (some p.1, p.2)) {s t : Sorted}
    (hagrees : s.Agrees t) :
    (∀ s', sortAttributes entities depth false after s references xs = .ok s' →
      s'.2 = references ∧ ∃ t', t.addAll parts = .ok t' ∧ s'.1.Agrees t') ∧
    (∀ t', t.addAll parts = .ok t' →
      ∃ s', sortAttributes entities depth false after s references xs = .ok (s', references) ∧
        s'.Agrees t') := by
  -- both walks are over the attributes, and the sorted ones agree but for places in the text
  induction as generalizing xs parts s t with
  | nil =>
    obtain rfl : xs = [] := by simpa using hxs.symm
    obtain rfl : parts = [] := by simpa using hparts.symm
    constructor
    · intro s' hs'
      cases hs'
      exact ⟨rfl, t, rfl, hagrees⟩
    · intro t' ht'
      cases ht'
      exact ⟨s, rfl, hagrees⟩
  | cons a as ih =>
    obtain ⟨x, xs, rfl⟩ : ∃ x xs', xs = x :: xs' := by
      cases xs with
      | nil => cases hxs
      | cons x xs => exact ⟨x, xs, rfl⟩
    obtain ⟨p, parts, rfl⟩ : ∃ p parts', parts = p :: parts' := by
      cases parts with
      | nil => cases hparts
      | cons p parts => exact ⟨p, parts, rfl⟩
    rw [List.map_cons, List.map_cons, List.cons.injEq, Prod.mk.injEq] at hxs hparts
    obtain ⟨⟨hname, hvalue⟩, hxs⟩ := hxs
    obtain ⟨⟨hname', hvalue'⟩, hparts⟩ := hparts
    have hq : x.qname = p.1 := Option.some.inj (hname.symm.trans hname')
    have htext : valueText entities (expandValue entities depth) false (x.valueEnd + after)
        references x.value = .ok (p.2, references) := by
      rw [← hvalue, ← hvalue', valueText_escape]
      rfl
    constructor
    · intro s' hs'
      rw [sortAttributes, htext] at hs'
      obtain ⟨_, ⟨⟩, hs'⟩ := bind_eq_ok_iff.1 hs'
      obtain ⟨s₁, hadd, hrest⟩ := bind_eq_ok_iff.1 hs'
      obtain ⟨t₁, hadd', hagrees'⟩ := hagrees.add (hq ▸ hadd) 0
      obtain ⟨hcount, t', ht', hs't'⟩ := (ih hxs hparts hagrees').1 s' hrest
      exact ⟨hcount, t', bind_eq_ok_iff.2 ⟨t₁, hadd', ht'⟩, hs't'⟩
    · intro t' ht'
      obtain ⟨t₁, hadd, hrest⟩ := bind_eq_ok_iff.1 ht'
      obtain ⟨s₁, hadd', hagrees'⟩ := hagrees.symm.add hadd (x.start + after)
      obtain ⟨s', hs', hs't'⟩ := (ih hxs hparts hagrees'.symm).2 t' hrest
      refine ⟨s', ?_, hs't'⟩
      rw [sortAttributes, htext, hq]
      exact bind_eq_ok_iff.2 ⟨_, rfl, bind_eq_ok_iff.2 ⟨s₁, hadd', hs'⟩⟩

/-! ## Whole tags -/

/-- The state inside some open elements, once the root has been met. -/
def State.inside (opened : List OpenElement) : State := { opened, rooted := true, tagSeen := true }

/-- Whether a start tag in a document without entities is scanned and let through. -/
def ReadsTag (st : State) (cs : List Char) (ending : TagEnd) (st' : State) (rest : List Char) :
    Prop :=
  ∃ tag, startTag cs = .ok (tag, rest) ∧ tag.ending = .ok ending ∧
    st.readStartTag [] maxDepth false 0 tag = .ok st'

end SvgWorkbench.Gate

namespace SvgWorkbench

/-- Whether the attribute values of an element are made of characters of documents. -/
def Element.HasDocumentValues (e : Element) : Prop :=
  ∀ a ∈ e.attributes, Gate.IsDocumentText a.2.toList

instance (e : Element) : Decidable e.HasDocumentValues :=
  inferInstanceAs (Decidable (∀ a ∈ e.attributes, Gate.IsDocumentText a.2.toList))

namespace Gate

open Text Xml Markup

private theorem tagBody_end {ending : TagEnd} (h : ending ≠ .cut) (rest : List Char) :
    tagBody (ending.text ++ rest) = ([], .ok ending, rest) := by
  cases ending with
  | empty => rw [TagEnd.text, tagBody.eq_def]; rfl
  | opened => rw [TagEnd.text, tagBody.eq_def]; rfl
  | cut => exact absurd rfl h

/-- An element that may stand in some scope has attributes that can be scanned. -/
private theorem areScanned_of_opens {outer inner : List Binding} {e : Element} {q : QName}
    (h : Opens outer e q inner) (hvalues : e.HasDocumentValues) : AreScanned e.attributes := by
  obtain ⟨-, -, parts, -, hparts, -⟩ := h
  refine fun a ha ↦ ⟨?_, hvalues a ha⟩
  have hmem : attributeParts a ∈ parts.map fun p ↦ (some p.1, p.2) :=
    hparts ▸ List.mem_map_of_mem ha
  obtain ⟨p, -, hp⟩ := List.mem_map.1 hmem
  rw [show QName.ofChars? a.1.toList = some p.1 from (congrArg Prod.fst hp).symm]
  rfl

private theorem exists_parts_of_areScanned {as : List (String × String)} (h : AreScanned as) :
    ∃ parts : List (QName × List Char),
      as.map attributeParts = parts.map fun p ↦ (some p.1, p.2) := by
  refine ⟨as.map fun a ↦ ((QName.ofChars? a.1.toList).getD idName, spaced a.2.toList), ?_⟩
  rw [List.map_map]
  refine List.map_congr_left fun a ha ↦ ?_
  obtain ⟨q, hq⟩ := Option.isSome_iff_exists.1 (h a ha).1
  simp [attributeParts, hq]

private theorem startTag_writeTag {e : Element} (he : IsName e.name.toList) {ending : TagEnd}
    (hne : ending ≠ .cut) {rest : List Char} {r : StartTag × List Char} :
    startTag (writeTag e ++ (ending.text ++ rest)) = .ok r ↔
      ∃ q, QName.ofChars? e.name.toList = some q ∧ ∀ body,
        tagBody (e.attributes.flatMap writeAttribute ++ (ending.text ++ rest)) = body →
        r = (⟨q, (writeTag e ++ (ending.text ++ rest)).length, body.1, body.2.1⟩, body.2.2) := by
  obtain ⟨x, xs, hx, hx'⟩ : ∃ x xs, e.attributes.flatMap writeAttribute ++ (ending.text ++ rest)
      = x :: xs ∧ isNameChar x = false := by
    cases e.attributes with
    | nil =>
      cases ending with
      | empty => exact ⟨'/', _, rfl, rfl⟩
      | opened => exact ⟨'>', _, rfl, rfl⟩
      | cut => exact absurd rfl hne
    | cons a as => exact ⟨' ', _, writeAttributes_cons a as _, rfl⟩
  have hqname : ∀ p, qname (writeTag e ++ (ending.text ++ rest)) = .ok p ↔
      QName.ofChars? e.name.toList = some p.1 ∧
        p.2 = e.attributes.flatMap writeAttribute ++ (ending.text ++ rest) := by
    rintro ⟨q, after⟩
    rw [qname_eq_ok_iff, writeTag, List.append_assoc, hx,
      takeWhile_until he.forall_isNameChar hx', dropWhile_until he.forall_isNameChar hx']
  simp only [startTag, bind_eq_ok_iff, hqname, pure_eq_ok_iff, Prod.exists]
  constructor
  · rintro ⟨q, _, ⟨hq, rfl⟩, rfl⟩
    exact ⟨q, hq, fun body hbody ↦ by rw [hbody]⟩
  · rintro ⟨q, hq, hr⟩
    exact ⟨q, _, ⟨hq, rfl⟩, (hr _ rfl).symm⟩

/-- **A written tag is let through** exactly if the element may stand in the scope and its values are
made of characters of documents. -/
theorem readsTag_written_iff {st st' : State} (hpending : st.pending = {})
    (hreferences : st.references = 0) {e : Element} (he : e.HasXmlNames)
    {ending ending' : TagEnd} (hne : ending ≠ .cut) {rest rest' : List Char} :
    ReadsTag st (writeTag e ++ (ending.text ++ rest)) ending' st' rest' ↔
      ending' = ending ∧ rest' = rest ∧ e.HasDocumentValues ∧ ∃ q inner,
        Opens st.scope e q inner ∧
        st' = .inside (if ending = .opened then ⟨q, inner⟩ :: st.opened else st.opened) := by
  have hnames : ∀ a ∈ e.attributes, IsName a.1.toList :=
    fun a ha ↦ he.2 a.1 (List.mem_map_of_mem ha)
  constructor
  · rintro ⟨tag, htag, hending, hread⟩
    obtain ⟨q, hq, htag⟩ := (startTag_writeTag he.1 hne).1 htag
    -- a tag whose attributes cannot be scanned ends in a fault
    by_cases hscanned : AreScanned e.attributes
    case neg =>
      obtain ⟨fault, hfault⟩ := tagBody_of_not_areScanned hnames hscanned (ending.text ++ rest)
      rw [(Prod.mk.inj (htag _ rfl)).1, hfault] at hending
      cases hending
    obtain ⟨xs, hxs, hmap⟩ := tagBody_of_areScanned hnames hscanned (tagBody_end hne rest)
    cases htag _ hxs
    obtain rfl : ending = ending' := Except.ok.inj hending
    obtain ⟨parts, hparts⟩ := exists_parts_of_areScanned hscanned
    obtain ⟨hspace, sorted, references, hsorted, hend⟩ := State.readStartTag_eq_ok_iff.1 hread
    rw [hpending, hreferences] at hsorted
    obtain ⟨hzero, t, ht, hagrees⟩ := (sortAttributes_eq_ok_iff hmap hparts (.refl {})).1 _ hsorted
    obtain rfl : references = 0 := hzero
    refine ⟨rfl, rfl, fun a ha ↦ (hscanned a ha).2, q, ?_⟩
    rcases hend with ⟨hcut, -⟩ | ⟨inner, hclose, ⟨hempty, rfl⟩ | ⟨hopened, rfl⟩⟩
    · exact absurd (Except.ok.inj hcut) hne
    · obtain rfl := Except.ok.inj hempty
      exact ⟨inner, ⟨hq, hspace, parts, t, hparts, ht, hagrees.closeScope hclose 0⟩, rfl⟩
    · obtain rfl := Except.ok.inj hopened
      exact ⟨inner, ⟨hq, hspace, parts, t, hparts, ht, hagrees.closeScope hclose 0⟩, rfl⟩
  · rintro ⟨rfl, rfl, hvalues, q, inner, hopens, rfl⟩
    have hscanned := areScanned_of_opens hopens hvalues
    obtain ⟨hq, hspace, parts, t, hparts, ht, hclose⟩ := hopens
    obtain ⟨xs, hxs, hmap⟩ := tagBody_of_areScanned hnames hscanned (tagBody_end hne rest')
    obtain ⟨sorted, hsorted, hagrees⟩ :=
      (sortAttributes_eq_ok_iff hmap hparts (.refl {})).2 t ht
    refine ⟨⟨q, _, xs, .ok ending'⟩,
      (startTag_writeTag he.1 hne).2 ⟨q, hq, fun body hbody ↦ by rw [← hbody, hxs]⟩, rfl, ?_⟩
    refine State.readStartTag_eq_ok_iff.2 ⟨hspace, sorted, 0, ?_, .inr ⟨inner,
      hagrees.symm.closeScope hclose _, ?_⟩⟩
    · rw [hpending, hreferences]
      exact hsorted
    · cases ending' with
      | empty => exact .inl ⟨rfl, rfl⟩
      | opened => exact .inr ⟨rfl, rfl⟩
      | cut => exact absurd rfl hne

end Gate

end SvgWorkbench
