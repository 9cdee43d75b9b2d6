import SvgWorkbench.Proofs.Gate.Follow
import SvgWorkbench.Proofs.Gate.WrittenDoctype
import SvgWorkbench.Proofs.Markup.Declared

/-!
# The reader follows the check over a document

Around the root element the reader goes over comments, instructions and spaces as the check does, and
over a document type that declares nothing and has no mark inside. The check is ahead of it in one
place. The value of an attribute in an XML declaration may hold the mark that ends the declaration
for the reader, which then takes what is left of it for text. In any other such document, what has
been read would be let through by the check again.
-/

namespace SvgWorkbench.Gate

open Text Xml Markup SvgWorkbench.Tree

variable {text : List Char} {decl : Prop} {top : List (Tree Content)} {cs rest : List Char}

/-! ## Around the root -/

/-- What is left of a declaration is read as a text, together with the spaces after it. -/
private theorem leads_lead {lead : List Char} (hsign : '<' ∉ lead)
    (hrest : rest = [] ∨ rest.head? = some '<') (hplain : IsPlain text → decl)
    (hlead : decl → ∀ c ∈ lead, isSpace c = true) {P : Reading → Prop}
    (hentities : ∀ r, P r → r.entities = [])
    (hadd : ∀ r, P r → ∀ s, (decl → ∀ c ∈ s, isSpace c = true) →
      P (r.addLeaf (.text (String.ofList s)))) :
    Leads text P (lead ++ rest) P rest := by
  by_cases hnil : lead = []
  · subst hnil
    exact .of_imp fun r hr ↦ hr
  refine leads_of_step (List.append_ne_nil_of_left_ne_nil hnil _) (List.suffix_append _ _)
    fun _ r hr ↦ ⟨_, cuts_text hnil hsign hrest _, ?_⟩
  have hspaces : decl → unescape [] 0 lead = .ok lead := by
    intro hd
    have hamp : '&' ∉ lead := fun hmem ↦ by cases hlead hd '&' hmem
    have hresolves : Resolves True lead lead := .of_notMem hamp
    exact (hresolves.unescape [] 0).2 trivial
  rw [Reading.step, hentities r hr]
  cases htext : unescape [] 0 lead with
  | ok t =>
    refine .inl ⟨_, rfl, hadd r hr t fun hd ↦ ?_⟩
    rw [hspaces hd] at htext
    cases htext
    exact hlead hd
  | error fault =>
    refine .inr ⟨fun hp ↦ ?_, _, rfl⟩
    rw [hspaces (hplain hp)] at htext
    cases htext

/-- **The reader follows over what stands around the root**, and over what is left of a declaration
before it. -/
theorem leads_misc (lead : List Char) (h : misc cs = .ok rest)
    (hrest : rest = [] ∨ rest.head? = some '<') (hsign : '<' ∉ lead)
    (hplain : IsPlain text → decl) (hlead : decl → ∀ c ∈ lead, isSpace c = true)
    {P : Reading → Prop} (hentities : ∀ r, P r → r.entities = [])
    (hadd : ∀ r, P r → ∀ c : Content, c.IsStrict → c.isElement = false →
      (decl → IsAround (.node c [])) → P (r.addLeaf c)) :
    Leads text P (lead ++ cs) P rest := by
  -- spaces go with the text before them, up to the next construct
  have hskip : ∀ {lead : List Char} (cs : List Char), '<' ∉ lead →
      (decl → ∀ c ∈ lead, isSpace c = true) → (skipSpaces cs = [] ∨ (skipSpaces cs).head? = some '<') →
      Leads text P (lead ++ cs) P (skipSpaces cs) := by
    intro lead cs hsign hlead hrest
    obtain ⟨spaces, hsplit, hspaces⟩ := exists_append_dropWhile isSpace cs
    have happend : lead ++ cs = (lead ++ spaces) ++ skipSpaces cs := by
      rw [List.append_assoc]
      exact congrArg (lead ++ ·) hsplit
    rw [happend]
    refine leads_lead ?_ hrest hplain (fun hd ↦ List.forall_mem_append.2 ⟨hlead hd, hspaces⟩) hentities
      fun r hr s hs ↦ hadd r hr _ trivial rfl fun hd ↦ ?_
    · rw [List.mem_append]
      exact not_or.2 ⟨hsign, notMem_spaces hspaces rfl⟩
    · rw [IsAround, String.toList_ofList]
      exact hs hd
  fun_induction misc cs generalizing lead with
  | case1 cs hstart fault hcomment => cases h
  | case2 cs hstart rest₁ hcomment ih =>
    obtain ⟨s, hs, heq⟩ := comment_eq_ok_iff.1 hcomment
    refine (hskip cs hsign hlead (.inr (by rw [heq]; rfl))).trans (Leads.trans ?_
      (ih [] h List.not_mem_nil fun _ ↦ List.forall_mem_nil _))
    rw [heq]
    refine leads_comment hs fun r hr ↦ hadd r hr _ trivial rfl fun _ ↦ ?_
    rwa [IsAround, String.toList_ofList]
  | case3 cs _ hstart fault hinstruction => cases h
  | case4 cs _ hstart rest₁ hinstruction ih =>
    obtain ⟨s, hs, heq⟩ := instruction_eq_ok_iff.1 hinstruction
    refine (hskip cs hsign hlead (.inr (by rw [heq]; rfl))).trans (Leads.trans ?_
      (ih [] h List.not_mem_nil fun _ ↦ List.forall_mem_nil _))
    rw [heq]
    refine leads_instruction hs fun r hr ↦ hadd r hr _ trivial rfl fun _ ↦ ?_
    rwa [IsAround, String.toList_ofList]
  | case5 cs =>
    cases h
    exact hskip cs hsign hlead hrest

/-! ## The declaration -/

/-- What is known of the nodes before the root element, last one first: which of them there may be
depends on how far the text has been read. -/
structure Heads (decl : Prop) (P : List (Tree Content) → Prop) (ts : List (Tree Content)) :
    Prop where
  /-- They are as the check makes sure of. -/
  strict : ∀ c ∈ preorderAll ts, c.IsStrict
  /-- None of them is an element. -/
  leaves : ∀ t ∈ ts, t.label.isElement = false
  /-- In the order of the text they may stand there. -/
  front : decl → P ts.reverse

theorem Heads.cons {P : List (Tree Content) → Prop}
    (hP : ∀ ts us, P ts → (∀ u ∈ us, IsAround u) → P (ts ++ us)) {ts : List (Tree Content)}
    (h : Heads decl P ts) {c : Content} (hc : c.IsStrict) (hleaf : c.isElement = false)
    (haround : decl → IsAround (.node c [])) : Heads decl P (.node c [] :: ts) := by
  refine ⟨List.forall_mem_cons.2 ⟨hc, h.strict⟩, List.forall_mem_cons.2 ⟨hleaf, h.leaves⟩,
    fun hd ↦ ?_⟩
  rw [List.reverse_cons]
  exact hP _ _ (h.front hd) (List.forall_mem_singleton.2 (haround hd))

/-- A document type may follow what stands before it. -/
theorem Heads.typed {ts : List (Tree Content)} (h : Heads decl AcceptsFront ts) {s : String}
    (hs : IsStrictDoctype (' ' :: s.toList)) :
    Heads decl AcceptsProlog (.node (.doctype s) [] :: ts) := by
  refine ⟨List.forall_mem_cons.2 ⟨?_, h.strict⟩, List.forall_mem_cons.2 ⟨rfl, h.leaves⟩,
    fun hd ↦ .inr ⟨ts.reverse, s, [], ?_, h.front hd, hs, List.forall_mem_nil _⟩⟩
  · rintro rfl
    obtain ⟨spaces, c, more, heq, hne, -⟩ := hs.starts
    cases spaces with
    | nil => exact hne rfl
    | cons x spaces => simp at heq
  · rw [List.reverse_cons]

/-- The text without a byte order mark. -/
def unmarked (cs : List Char) : List Char := (afterPrefix? ['\uFEFF'] cs).getD cs

theorem unmarked_suffix (cs : List Char) : unmarked cs <:+ cs := by
  rw [unmarked]
  cases h : afterPrefix? ['\uFEFF'] cs with
  | none => exact List.suffix_refl cs
  | some rest => exact afterPrefix?_eq_some_iff.1 h ▸ List.suffix_append _ _

/-- What stands in a document after a declaration starts with a space. -/
private theorem space_prefix_of_declaration {v after : List Char}
    (hstart : Mark.declaration <+: ['<', '?', 'x', 'm', 'l'] ++ closed v after) : [' '] <+: v := by
  obtain ⟨more, hmore⟩ := hstart
  cases v with
  | nil => cases hmore
  | cons c v =>
    have hmore' : ' ' :: more = c :: (v ++ (Mark.closeInstruction ++ after)) :=
      @List.append_cancel_left _ ['<', '?', 'x', 'm', 'l'] _ _ hmore
    obtain rfl := (List.cons.inj hmore').1
    exact List.prefix_append [' '] v

/-- The reader follows over a declaration that is complete at its first greater-than sign. -/
private theorem leads_plainDeclaration {v after : List Char}
    (hstart : Mark.declaration <+: ['<', '?', 'x', 'm', 'l'] ++ closed v after) (hsign : '>' ∉ v)
    (hstrict : IsStrictDeclaration v) :
    Leads text (Meets (IsPlain text) [] []) (['<', '?', 'x', 'm', 'l'] ++ closed v after)
      (fun r ↦ ∃ ds, Heads decl AcceptsFront ds ∧ Meets (IsPlain text) ds [] r) after := by
  have hspace := space_prefix_of_declaration hstart
  have hcuts := fun innermost ↦ cuts_instruction (s := ['x', 'm', 'l'] ++ v)
    ⟨List.cons_ne_nil _ _, by simpa using hsign⟩ innermost after
  refine leads_of_step (List.cons_ne_nil _ _)
    ⟨['<', '?', 'x', 'm', 'l'] ++ (v ++ Mark.closeInstruction), by simp [closed]⟩ fun _ r hr ↦
      ⟨_, hcuts _, .inl ⟨_, rfl, [.node (.instruction (String.ofList (['x', 'm', 'l'] ++ v))) []],
        ⟨?_, List.forall_mem_singleton.2 rfl, fun _ ↦ ⟨.inl ?_, List.forall_mem_nil _⟩⟩,
        hr.add_top _⟩⟩
  · simp [preorderAll, preorder, Content.IsStrict]
  · refine ⟨_, rfl, ?_, ?_⟩
    · rw [String.toList_ofList]
      exact (List.prefix_append_right_inj ['x', 'm', 'l']).2 hspace
    · rw [String.toList_ofList]
      exact hstrict

/-- The reader ends any declaration at its first greater-than sign, if it does not stop there; what is
left of it holds no less-than sign. -/
private theorem leads_brokenDeclaration {more : List Char}
    (h : declaration (' ' :: more) = .ok rest) (hdecl : ¬ decl) (hplain : ¬ IsPlain text) :
    ∃ lead, '<' ∉ lead ∧ Leads text (Meets (IsPlain text) [] []) (Mark.declaration ++ more)
      (fun r ↦ ∃ ds, Heads decl AcceptsFront ds ∧ Meets (IsPlain text) ds [] r) (lead ++ rest) := by
  obtain ⟨used, hsplit, hused, hsign⟩ := exists_of_declaration h
  obtain ⟨front, lead, rfl, hfront⟩ := List.eq_append_cons_of_mem hsign
  have hcs : Mark.declaration ++ more
      = Mark.openInstruction ++ (['x', 'm', 'l'] ++ front ++ '>' :: (lead ++ rest)) := by
    show ['<', '?', 'x', 'm', 'l'] ++ (' ' :: more) = _
    rw [hsplit]
    simp [Mark.openInstruction]
  have hfront' : '>' ∉ ['x', 'm', 'l'] ++ front := by
    rw [List.mem_append]
    exact not_or.2 ⟨by decide, hfront⟩
  refine ⟨lead, fun hmem ↦ hused (by simp [hmem]), fun htext ↦
    ⟨List.IsSuffix.trans ⟨Mark.openInstruction ++ (['x', 'm', 'l'] ++ front ++ ['>']), ?_⟩ htext,
      fun r hr ↦ ?_⟩⟩
  · rw [hcs]
    simp
  · rw [hcs]
    rcases cuts_or_fault_of_instruction hfront' (lead ++ rest) with ⟨s, hcuts⟩ | hfault
    · refine .inl ⟨_, ⟨[.node (.instruction (String.ofList s)) []],
        ⟨?_, List.forall_mem_singleton.2 rfl, fun hd ↦ absurd hd hdecl⟩, hr.add_top _⟩,
        reads_of_cuts _ (List.cons_ne_nil _ _) (hcuts _) rfl⟩
      simp [preorderAll, preorder, Content.IsStrict]
    · exact .inr ⟨hplain, stops_of_cut (List.cons_ne_nil _ _) (by simp [Mark.openInstruction])
        fun offset ↦ hfault _ offset⟩

/-- The reader follows over an XML declaration, which may end later for the check. -/
theorem leads_optionalDeclaration (h : optionalDeclaration text = .ok rest) :
    ∃ lead, '<' ∉ lead ∧ (HasPlainDeclaration (unmarked text) → lead = []) ∧
      Leads text (Meets (IsPlain text) [] []) (unmarked text)
        (fun r ↦ ∃ ds, Heads (HasPlainDeclaration (unmarked text)) AcceptsFront ds ∧
          Meets (IsPlain text) ds [] r) (lead ++ rest) := by
  have hplain : IsPlain text → HasPlainDeclaration (unmarked text) := IsPlain.declaration
  have h' : (if startsWith Mark.declaration (unmarked text) then declaration ((unmarked text).drop 5)
      else .ok (unmarked text)) = .ok rest := h
  generalize unmarked text = cs at h' hplain ⊢
  split at h'
  case isFalse =>
    cases h'
    exact ⟨[], List.not_mem_nil, fun _ ↦ rfl,
      .of_imp fun r hr ↦ ⟨[], ⟨List.forall_mem_nil _, List.forall_mem_nil _, fun _ ↦ trivial⟩, hr⟩⟩
  next hstart =>
  rw [startsWith_iff] at hstart
  by_cases hd : HasPlainDeclaration cs
  · obtain ⟨v, after, rfl, hsign, hstrict⟩ := hd hstart
    obtain rfl : after = rest :=
      Except.ok.inj ((hstrict.declaration_closed hsign after).symm.trans h')
    exact ⟨[], List.not_mem_nil, fun _ ↦ rfl, leads_plainDeclaration hstart hsign hstrict⟩
  · obtain ⟨more, rfl⟩ := hstart
    obtain ⟨lead, hlead, hleads⟩ := leads_brokenDeclaration h' hd (mt hplain hd)
    exact ⟨lead, hlead, fun hd' ↦ absurd hd' hd, hleads⟩

/-- **The reader follows over what comes before the root**, or before a document type. -/
theorem leads_prolog {after around : List Char} (hafter : optionalDeclaration text = .ok after)
    (haround : misc after = .ok around) (hsign : around.head? = some '<') :
    Leads text (Meets (IsPlain text) [] []) (unmarked text)
      (fun r ↦ ∃ ts, Heads (HasPlainDeclaration (unmarked text)) AcceptsFront ts ∧
        Meets (IsPlain text) ts [] r) around := by
  obtain ⟨lead, hlead, hnil, hleads⟩ := leads_optionalDeclaration hafter
  refine hleads.trans (leads_misc lead haround (.inr hsign) hlead IsPlain.declaration
    (fun hd ↦ by rw [hnil hd]; exact nofun) ?_ ?_)
  · rintro r ⟨ts, -, hr⟩
    exact hr.entities
  · rintro r ⟨ts, hts, hr⟩ c hc hleaf haround
    exact ⟨_, hts.cons (fun _ _ ↦ AcceptsFront.append) hc hleaf haround, hr.add_top _⟩

/-! ## The document type -/

/-- A text without angle brackets that does not start blank may follow the word of a document
type. -/
private theorem isDoctype_of_notMem {c : Char} {cs : List Char} (hc : isBlank c = false)
    (hmarks : ∀ x ∈ c :: cs, x ≠ '<' ∧ x ≠ '>') : IsDoctype (c :: cs) := by
  refine ⟨⟨c, cs, rfl, hc⟩, ?_, fun a b hab ↦ ?_⟩
  · have hcount : ∀ x, (∀ y ∈ c :: cs, y ≠ x) → (c :: cs).reverse.count x = 0 := fun x hx ↦
      List.count_eq_zero.2 fun hmem ↦ hx x (List.mem_reverse.1 hmem) rfl
    rw [endsDoctype, hcount _ fun y hy ↦ (hmarks y hy).1, hcount _ fun y hy ↦ (hmarks y hy).2]
    rfl
  · exact absurd rfl (hmarks '>' (hab ▸ List.mem_append_right a List.mem_cons_self)).2

/-- **The reader follows over a document type** that declares nothing and has no mark inside. -/
theorem leads_doctype (text : List Char) (top : List (Tree Content)) {v : List Char}
    (hv : IsStrictDoctype v) (rest : List Char) :
    Leads text (Meets (IsPlain text) top []) (Mark.doctype ++ (v ++ '>' :: rest))
      (fun r ↦ ∃ s, IsStrictDoctype (' ' :: s.toList) ∧
        Meets (IsPlain text) (.node (.doctype s) [] :: top) [] r) rest := by
  obtain ⟨spaces, c, more, rfl, hne, hspaces, hc⟩ := hv.starts
  have hmarks : ∀ x ∈ c :: more, x ≠ '<' ∧ x ≠ '>' := fun x hx ↦
    ⟨(hv.marks x (List.mem_append_right _ hx)).1, (hv.marks x (List.mem_append_right _ hx)).2.1⟩
  have htrim : trimStart (c :: more) = c :: more :=
    List.dropWhile_cons_of_neg (by simp [hc])
  rw [List.append_assoc]
  refine leads_of_step (List.cons_ne_nil _ _) ⟨Mark.doctype ++ (spaces ++ (c :: more ++ ['>'])), by simp⟩
    fun _ r hr ↦ ⟨_, cuts_doctype hspaces (isDoctype_of_notMem hc hmarks) _ rest, .inl ⟨_, rfl,
      String.ofList (c :: more), ?_, ?_⟩⟩
  · rw [String.toList_ofList]
    exact hv.spaced hne hspaces
  · have hopened := hr.opened_eq_nil
    have hentities : r.entities.collect (c :: more) = [] := by
      rw [hr.entities, collect_of_notMem [] fun hmem ↦ (hmarks '<' hmem).1 rfl]
    rw [Reading.addDoctype, htrim, hentities]
    simp only [hopened, List.isEmpty_nil, if_true]
    exact ⟨rfl, hr.waiting, by rw [← hr.finished], .nil⟩

/-! ## The root element -/

/-- **The reader follows over the root element.** -/
theorem leads_root (top : List (Tree Content)) {st : State} (h : root [] cs = .ok (st, rest))
    (hrooted : st.rooted = true) (hopened : st.opened = []) :
    Leads text (Meets (IsPlain text) top []) ('<' :: cs) (Closes text top) rest := by
  obtain ⟨tag, after, st', htag, hst', hend⟩ := root_eq_ok_iff.1 h
  obtain ⟨ending, hending⟩ := State.exists_ending_of_readStartTag hst'
  obtain ⟨key, body, parts, hwritten, rfl, -⟩ := exists_of_startTag htag hending
  by_cases hcut : ending = .cut
  · -- a tag that is cut leaves the document without a root
    exfalso
    subst hcut
    have hst : st = st' := by
      rcases hend with ⟨hopens, -⟩ | ⟨-, rfl, -⟩
      · rw [StartTag.opens_of_ending hending] at hopens
        cases hopens
      · rfl
    subst hst
    obtain ⟨-, _, _, -, ⟨-, rfl⟩ | ⟨_, -, ⟨heq, -⟩ | ⟨heq, -⟩⟩⟩ := State.readStartTag_eq_ok_iff.1 hst'
    · cases hrooted
    · rw [hending] at heq
      cases heq
    · rw [hending] at heq
      cases heq
  obtain ⟨inner, rfl, hleads⟩ := leads_startTag text after hwritten hending hcut rfl
    hst' (P := Meets (IsPlain text) top []) fun r hr ↦ hr.entities
  rcases hend with ⟨hopens, hcontent⟩ | ⟨hopens, -, rfl⟩
  · obtain rfl := (StartTag.opens_of_ending hending).1 hopens
    refine (hleads.imp (fun r hr ↦ hr) ?_).trans (leads_content hcontent rfl rfl hopened)
    rintro _ ⟨e, r, hr, rfl, hframe⟩
    exact hr.openFrame hframe
  · refine hleads.imp (fun r hr ↦ hr) ?_
    rintro _ ⟨e, r, hr, rfl, hframe⟩
    have hempty : ending ≠ .opened := by
      rw [ne_eq, ← StartTag.opens_of_ending hending, hopens]
      decide
    obtain rfl : ending = .empty := by
      cases ending with
      | empty => rfl
      | opened => exact absurd rfl hempty
      | cut => exact absurd rfl hcut
    exact ⟨_, rfl, .node hframe.shows (List.forall_mem_nil _), hr.add_top _⟩

/-! ## Whole documents -/

/-- What is known of the nodes of the top level, last one first, once the root is among them. -/
structure Spans (decl : Prop) (ts : List (Tree Content)) : Prop where
  /-- They are as the check makes sure of. -/
  strict : ∀ c ∈ preorderAll ts, c.IsStrict
  /-- There is a root with nothing but comments, instructions and spaces behind it. -/
  around : ∃ us t hs, ts = us ++ t :: hs ∧ (decl → ∀ u ∈ us, IsAround u) ∧
    t.label.isElement = true ∧ Admits [] t ∧ Heads decl AcceptsProlog hs

theorem Spans.cons {ts : List (Tree Content)} (h : Spans decl ts) {c : Content} (hc : c.IsStrict)
    (haround : decl → IsAround (.node c [])) : Spans decl (.node c [] :: ts) := by
  refine ⟨List.forall_mem_cons.2 ⟨hc, h.strict⟩, ?_⟩
  obtain ⟨us, t, hs, rfl, hus, hrest⟩ := h.around
  exact ⟨.node c [] :: us, t, hs, rfl,
    fun hd ↦ List.forall_mem_cons.2 ⟨haround hd, hus hd⟩, hrest⟩

/-- **What is known makes up a document**, if no line break is in the name of a namespace. -/
theorem Spans.acceptsMarkup {ts : List (Tree Content)} (h : Spans decl ts) (hd : decl)
    (hunbroken : ∀ e, .element e ∈ preorderAll ts → e.HasUnbrokenNamespaces) :
    AcceptsMarkup ts.reverse := by
  obtain ⟨us, t, hs, rfl, hus, helement, ht, hheads⟩ := h.around
  have hbody : AcceptsBody (t :: us.reverse) := by
    rw [AcceptsBody, helement]
    refine ⟨ht.accepts fun e he ↦ hunbroken e ?_, fun u hu ↦ hus hd u (List.mem_reverse.1 hu)⟩
    exact mem_preorderAll_append.2 (.inr (List.mem_append_left _ he))
  have hreverse : (us ++ t :: hs).reverse = hs.reverse ++ t :: us.reverse := by simp
  rw [hreverse]
  exact (hheads.front hd).acceptsMarkup hbody

/-- Whether the document type, if one stands before the root, declares nothing and has no mark
inside. -/
def HasPlainDoctype (text : List Char) : Prop :=
  ∀ after around inner, optionalDeclaration text = .ok after → misc after = .ok around →
    afterPrefix? Mark.doctype around = some inner →
      ∃ v rest, inner = v ++ '>' :: rest ∧ IsStrictDoctype v

/-- **The reader follows over the part before the root.** -/
theorem leads_heads {entities : List Entity} {inside : List Char}
    (h : prolog text = .ok (entities, '<' :: inside)) (hdoctype : HasPlainDoctype text) :
    entities = [] ∧ Leads text (Meets (IsPlain text) [] []) (unmarked text)
      (fun r ↦ ∃ ts, Heads (HasPlainDeclaration (unmarked text)) AcceptsProlog ts ∧
        Meets (IsPlain text) ts [] r) ('<' :: inside) := by
  obtain ⟨start, around, hstart, haround, ⟨-, rfl, rfl⟩ | ⟨inner, after, hinner, hend, hmisc⟩⟩ :=
    prolog_eq_ok_iff.1 h
  · refine ⟨rfl, (leads_prolog hstart haround rfl).imp (fun r hr ↦ hr) ?_⟩
    rintro r ⟨ts, hts, hr⟩
    exact ⟨ts, ⟨hts.strict, hts.leaves, fun hd ↦ .inl (hts.front hd)⟩, hr⟩
  · obtain ⟨v, rest, rfl, hv⟩ := hdoctype start around inner hstart haround hinner
    obtain rfl := afterPrefix?_eq_some_iff.1 hinner
    rw [hv.doctype_closed] at hend
    cases hend
    have htyped : Leads text
        (fun r ↦ ∃ ts, Heads (HasPlainDeclaration (unmarked text)) AcceptsFront ts ∧
          Meets (IsPlain text) ts [] r) (Mark.doctype ++ (v ++ '>' :: after))
        (fun r ↦ ∃ ts, Heads (HasPlainDeclaration (unmarked text)) AcceptsProlog ts ∧
          Meets (IsPlain text) ts [] r) after := by
      refine (Leads.exists fun ts ↦ leads_doctype text ts hv after).imp (fun r hr ↦ hr) ?_
      rintro r ⟨ts, hts, s, hs, hr⟩
      exact ⟨_, hts.typed hs, hr⟩
    refine ⟨rfl, ((leads_prolog hstart haround rfl).trans htyped).trans
      (leads_misc [] hmisc (.inr rfl) List.not_mem_nil IsPlain.declaration nofun ?_ ?_)⟩
    · rintro r ⟨ts, -, hr⟩
      exact hr.entities
    · rintro r ⟨ts, hts, hr⟩ c hc hleaf haround
      exact ⟨_, hts.cons (fun _ _ ↦ AcceptsProlog.append) hc hleaf haround, hr.add_top _⟩

/-! ## Whole documents -/

/-- **The reader follows over a document.** -/
theorem leads_document (h : document text = .ok ()) (hdoctype : HasPlainDoctype text) :
    Leads text (Meets (IsPlain text) [] []) (unmarked text)
      (fun r ↦ ∃ ts, Spans (HasPlainDeclaration (unmarked text)) ts ∧
        Meets (IsPlain text) ts [] r) [] := by
  obtain ⟨entities, inside, st, after, hprolog, hroot, hmisc, hrooted, hopened⟩ :=
    document_eq_ok_iff.1 h
  obtain ⟨rfl, hheads⟩ := leads_heads hprolog hdoctype
  refine (hheads.trans
    (Leads.exists fun top ↦ leads_root top hroot hrooted hopened)).trans
    (Leads.trans (.of_imp ?_) (leads_misc [] hmisc (.inl rfl) List.not_mem_nil
      IsPlain.declaration nofun ?_ ?_))
  · rintro r ⟨hs, hhs, t, helement, ht, hr⟩
    refine ⟨t :: hs, ⟨fun c hc ↦ ?_, [], t, hs, rfl, fun _ ↦ List.forall_mem_nil _, helement, ht,
      hhs⟩, hr⟩
    exact (List.mem_append.1 hc).elim (ht.strict c) (hhs.strict c)
  · rintro r ⟨ts, -, hr⟩
    exact hr.entities
  · rintro r ⟨ts, hts, hr⟩ c hc _ haround
    exact ⟨_, hts.cons hc haround, hr.add_top _⟩

private theorem meets_start {plain : Prop} : Meets plain [] [] {} := ⟨rfl, rfl, rfl, .nil⟩

/-- What is known of the markup that is read in a document. -/
structure IsShown (text : List Char) (m : Markup) : Prop where
  /-- All in it is as the check makes sure of. -/
  strict : ∀ c ∈ preorderAll m, c.IsStrict
  /-- It may make up a document again, if the declaration is plain and no line break is in the name
  of a namespace. -/
  accepts : HasPlainDeclaration (unmarked text) →
    (∀ e, .element e ∈ preorderAll m → e.HasUnbrokenNamespaces) → AcceptsMarkup m

/-- **What the check shows of a document.** In a text that is let through, and whose document type is
plain if it has one, markup is read of which the check has shown much; or it is not read, and then
the text is not plain. -/
theorem read_of_check {s : String} (h : check s = .ok ()) (hdoctype : HasPlainDoctype s.toList) :
    (∃ m, Markup.read s = .ok m ∧ IsShown s.toList m) ∨
      ¬ IsPlain s.toList ∧ ∃ fault, Markup.read s = .error fault := by
  have hread : Markup.read s = (readFrom {} 0 (unmarked s.toList)).map Reading.markup := rfl
  obtain ⟨-, hleads⟩ := leads_document (check_eq_ok_iff.1 h) hdoctype (unmarked_suffix _)
  obtain ⟨r, ⟨ts, hts, hr⟩, hreads⟩ | ⟨hplain, hstops⟩ := hleads {} meets_start
  · obtain ⟨offset, heq⟩ := hreads 0
    refine .inl ⟨ts.reverse, ?_, fun c hc ↦ hts.strict c (mem_preorderAll_reverse.1 hc),
      fun hd hunbroken ↦ hts.acceptsMarkup hd fun e he ↦
        hunbroken e (mem_preorderAll_reverse.2 he)⟩
    rw [hread, heq, readFrom, Except.map, Reading.markup, hr.opened_eq_nil, ← hr.finished]
    rfl
  · obtain ⟨fault, hfault⟩ := hstops 0
    exact .inr ⟨hplain, fault, by rw [hread, hfault]; rfl⟩

/-! ## Document types -/

/-- A document type that is read is found. -/
private theorem exists_doctype_of_readFrom {r r' : Reading} {offset : Nat} {cs : List Char}
    (h : readFrom r offset (Mark.doctype ++ cs) = .ok r') : ∃ s, .doctype s ∈ r'.contents := by
  rw [show Mark.doctype ++ cs = '<' :: (Mark.doctype.drop 1 ++ cs) from rfl, readFrom,
    if_neg fun hc ↦ absurd hc.2 (by simp [Mark.doctype])] at h
  split at h
  · cases h
  next x hcut =>
  split at h
  · cases h
  next r₁ hstep =>
  have hconstruct : cutConstruct .doctype endsDoctype offset (Mark.doctype.drop 1 ++ cs) = .ok x := by
    rw [← hcut]
    rfl
  obtain ⟨text, htext⟩ : ∃ text, x.token = .doctype text := by
    simp only [cutConstruct, Construct.token] at hconstruct
    split at hconstruct
    · cases hconstruct
    next hend =>
    split at hconstruct
    · next token htoken =>
      cases hconstruct
      split at htoken
      · split at htoken
        · cases htoken
        · cases htoken
          exact ⟨_, rfl⟩
      · cases htoken
    · cases hconstruct
  rw [htext] at hstep
  cases hstep
  exact ⟨_, Reading.mem_contents_of_readFrom h (Reading.mem_contents_addDoctype.2 (.inr rfl))⟩

/-- Where the check meets a document type, the reader does as well. -/
theorem hasPlainDoctype_of_read {s : String} {m : Markup} (hread : Markup.read s = .ok m)
    (hdoctype : ∀ text, .doctype text ∉ preorderAll m) : HasPlainDoctype s.toList := by
  intro after around inner hafter haround hinner
  obtain rfl := afterPrefix?_eq_some_iff.1 hinner
  obtain ⟨r, hreading, hcontents⟩ := exists_of_read hread
  obtain ⟨-, hleads⟩ := leads_prolog hafter haround rfl (unmarked_suffix _)
  obtain ⟨r₁, -, hreads⟩ | ⟨-, hstops⟩ := hleads {} meets_start
  · obtain ⟨offset, heq⟩ := hreads 0
    obtain ⟨text, htext⟩ := exists_doctype_of_readFrom (heq.symm.trans hreading)
    exact absurd ((hcontents _).2 htext) (hdoctype text)
  · obtain ⟨fault, hfault⟩ := hstops 0
    exact absurd (hfault.symm.trans hreading) nofun

/-- A plain document type is written as one, whatever comes after it. -/
theorem hasPlainDoctype_append {front : List (Tree Content)} {top : Bool} {s : String}
    (h : AreWritable top front) (hstart : ∀ t ∈ front.head?, StartsSpaced t)
    (hfront : AcceptsFront front) (hs : IsStrictDoctype (' ' :: s.toList)) (rest : List Char) :
    HasPlainDoctype (writeNodes front ++ (Mark.doctype ++ (' ' :: s.toList ++ '>' :: rest))) := by
  intro after around inner hafter haround hinner
  obtain ⟨after', hafter', hmisc⟩ := exists_optionalDeclaration_written h hstart hfront
    (' ' :: s.toList ++ '>' :: rest)
  cases hafter'.symm.trans hafter
  cases hmisc.symm.trans haround
  exact ⟨' ' :: s.toList, rest, (List.append_cancel_left (afterPrefix?_eq_some_iff.1 hinner)).symm,
    hs⟩

theorem hasPlainDoctype_write {front body : List (Tree Content)} {s : String}
    (h : AreWritable true (front ++ .node (.doctype s) [] :: body))
    (hstart : ∀ t ∈ (front ++ .node (.doctype s) [] :: body).head?, StartsSpaced t)
    (hfront : AcceptsFront front) (hs : IsStrictDoctype (' ' :: s.toList)) :
    HasPlainDoctype (write (front ++ .node (.doctype s) [] :: body)).toList := by
  rw [write_eq, String.toList_ofList, writeNodes_typed]
  exact hasPlainDoctype_append (areWritable_append.1 h).1
    (fun t ht ↦ hstart t (by cases front <;> simp_all)) hfront hs _

/-- **What the strict check makes sure of.** In a text that it lets through, every element has names
of XML and no element has its id under two names, if its document type is plain. -/
theorem isStrict_of_check {s : String} {m : Markup} (hcheck : check s = .ok ())
    (hread : Markup.read s = .ok m) (hdoctype : HasPlainDoctype s.toList) :
    ∀ c ∈ preorderAll m, c.IsStrict := by
  obtain ⟨m', hread', hshown⟩ | ⟨-, fault, hfault⟩ := read_of_check hcheck hdoctype
  · rw [hread] at hread'
    cases hread'
    exact hshown.strict
  · rw [hread] at hfault
    cases hfault

end SvgWorkbench.Gate
