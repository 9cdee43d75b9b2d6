import SvgWorkbench.Proofs.Drawing.Outline
import SvgWorkbench.Proofs.Drawing.Reparse
import SvgWorkbench.Proofs.Drawing.Shape
import SvgWorkbench.Proofs.Gate.Pieces

/-!
# Declared entities mean their values

A text whose document type declares entities is drawn like the text in which the references of its
body to declared names have been replaced by the first value declared for each. The two texts are
read piece by piece: up to the body they are the same, and over each piece of the body both readings
stay alike. All that may differ is a text with nothing in it, which stands in the first reading
where nothing stands in the second.

A text is left out if the value of an attribute in it holds a carriage return and a line feed with
nothing between them but references to empty values. Breaks become spaces before references are
replaced, so these are two spaces as they are written and one space after the replacement.
-/

namespace SvgWorkbench

open Text Xml

namespace Markup

/-! ## Readings that look alike -/

/-- Whether the same elements are open in two readings, with children that look alike. -/
inductive AlikeFrames : List Frame → List Frame → Prop where
  /-- No element is open. -/
  | nil : AlikeFrames [] []
  /-- The innermost elements are the same, and so are those around them. -/
  | cons {e : Element} {ts us : List (Tree Content)} {fs gs : List Frame}
    (h : LookAlike ts.reverse us.reverse) (hmore : AlikeFrames fs gs) :
    AlikeFrames (⟨e, ts⟩ :: fs) (⟨e, us⟩ :: gs)

/-- Whether two readings look alike, with some entities declared. -/
structure Alike (ds : Entities) (r r' : Reading) : Prop where
  /-- Names are resolved as they are declared, if they are resolved. -/
  declared : ∀ name value, resolve? r.entities name = some value → resolve? ds name = some value
  /-- The entities are the same. -/
  entities : r'.entities = r.entities
  /-- No document type waits. -/
  waiting : r.waiting = [] ∧ r'.waiting = []
  /-- The finished nodes have the same shape. -/
  finished : shapeAll r.finished.reverse = shapeAll r'.finished.reverse
  /-- The same elements are open. -/
  opened : AlikeFrames r.opened r'.opened

namespace Alike

variable {ds : Entities} {r r' : Reading}

/-- Nodes that look alike may be added. -/
theorem addAll (h : Alike ds r r') {ts us : List (Tree Content)} (hts : LookAlike ts us) :
    Alike ds (r.addAll ts) (r'.addAll us) := by
  obtain ⟨finished, opened, waiting, entities⟩ := r
  obtain ⟨finished', opened', waiting', entities'⟩ := r'
  obtain ⟨hdeclared, hentities, hwaiting, hfinished, hopened⟩ := h
  cases hopened with
  | nil =>
    rw [Reading.addAll_of_opened_eq_nil rfl, Reading.addAll_of_opened_eq_nil rfl]
    refine ⟨hdeclared, hentities, hwaiting, ?_, .nil⟩
    simp only [List.reverse_append, List.reverse_reverse, shapeAll_append, hts.shape]
    exact congrArg (· ++ shapeAll us) hfinished
  | cons hframe hmore =>
    rw [Reading.addAll_of_opened_eq_cons rfl, Reading.addAll_of_opened_eq_cons rfl]
    refine ⟨hdeclared, hentities, hwaiting, hfinished, .cons ?_ hmore⟩
    rw [List.reverse_append, List.reverse_append, List.reverse_reverse, List.reverse_reverse]
    exact hframe.append hts

/-- The same element may be opened. -/
theorem openFrame (h : Alike ds r r') (e : Element) :
    Alike ds { r with opened := ⟨e, []⟩ :: r.opened } { r' with opened := ⟨e, []⟩ :: r'.opened } :=
  ⟨h.declared, h.entities, h.waiting, h.finished, .cons (.refl _) h.opened⟩

/-- The innermost element may be closed. -/
theorem close (h : Alike ds r r') : Alike ds r.close r'.close := by
  obtain ⟨finished, opened, waiting, entities⟩ := r
  obtain ⟨finished', opened', waiting', entities'⟩ := r'
  obtain ⟨hdeclared, hentities, ⟨rfl, rfl⟩, hfinished, hopened⟩ := h
  cases hopened with
  | nil => exact ⟨hdeclared, hentities, ⟨rfl, rfl⟩, hfinished, .nil⟩
  | @cons e ts us fs gs hframe hmore =>
    have hclosed : LookAlike [Frame.close ⟨e, ts⟩] [Frame.close ⟨e, us⟩] := hframe.element e
    cases hmore with
    | nil =>
      refine ⟨hdeclared, hentities, ⟨rfl, rfl⟩, ?_, .nil⟩
      show shapeAll (Frame.close ⟨e, ts⟩ :: finished).reverse
        = shapeAll (Frame.close ⟨e, us⟩ :: finished').reverse
      rw [List.reverse_cons, List.reverse_cons, shapeAll_append, shapeAll_append, hclosed.shape]
      exact congrArg (· ++ _) hfinished
    | cons hframe' hmore' =>
      refine ⟨hdeclared, hentities, ⟨rfl, rfl⟩, hfinished, .cons ?_ hmore'⟩
      rw [List.reverse_cons, List.reverse_cons]
      exact hframe'.append hclosed

theorem innermost? (h : Alike ds r r') : r'.innermost? = r.innermost? := by
  obtain ⟨finished, opened, waiting, entities⟩ := r
  obtain ⟨finished', opened', waiting', entities'⟩ := r'
  cases h.opened <;> rfl

theorem closeAll (h : Alike ds r r') (n : Nat) : Alike ds (r.closeAll n) (r'.closeAll n) := by
  induction n generalizing r r' with
  | zero => exact h
  | succ n ih => exact ih h.close

/-- **Readings that look alike end in markup of one shape.** -/
theorem shapeAll_markup (h : Alike ds r r') : shapeAll r.markup = shapeAll r'.markup := by
  have hlength : r'.opened.length = r.opened.length := by
    have hframes : ∀ {fs gs}, AlikeFrames fs gs → gs.length = fs.length := by
      intro fs gs hframes
      induction hframes with
      | nil => rfl
      | cons _ _ ih => simp only [List.length_cons, ih]
    exact hframes h.opened
  rw [Reading.markup, Reading.markup, hlength]
  exact (h.closeAll _).finished

end Alike

end Markup

namespace Gate

open Markup

/-! ## Content with its references replaced -/

/-- Whether references to declared entities are replaced in a text without a change of its meaning:
nothing in it is left as it is written, and no breaks come together in its tags. -/
structure IsExpandable (ds : Entities) (cs : List Char) : Prop where
  /-- There are no comments and no sections. -/
  bang : ¬ Mark.bang <:+: cs
  /-- There are no instructions. -/
  instruction : ¬ Mark.openInstruction <:+: cs
  /-- The breaks of every attribute value are kept. -/
  breaks : ∀ key inside parts, IsName key → TagParts inside parts → '<' :: (key ++ inside) <:+: cs →
    ∀ part ∈ parts, KeepsBreaks ds part.2

theorem IsExpandable.of_suffix {ds : Entities} {cs rest : List Char} (h : IsExpandable ds cs)
    (hsuffix : rest <:+ cs) : IsExpandable ds rest :=
  ⟨fun hbang ↦ h.bang (hbang.trans hsuffix.isInfix),
    fun hinstruction ↦ h.instruction (hinstruction.trans hsuffix.isInfix),
    fun key inside parts hkey hparts hwithin ↦
      h.breaks key inside parts hkey hparts (hwithin.trans hsuffix.isInfix)⟩

/-- Without a carriage return no breaks can come together. -/
theorem isExpandable_of_notMem (ds : Entities) {cs : List Char} (hbang : ¬ Mark.bang <:+: cs)
    (hinstruction : ¬ Mark.openInstruction <:+: cs) (hreturn : '\r' ∉ cs) : IsExpandable ds cs := by
  refine ⟨hbang, hinstruction, fun key inside parts _ hparts hwithin part hpart between hbetween ↦ ?_⟩
  have hvalue := (hbetween.trans (hparts.isInfix_value part hpart)).subset List.mem_cons_self
  have hmem := hwithin.subset (List.mem_cons_of_mem '<' (List.mem_append_right key hvalue))
  exact absurd hmem hreturn

section

variable {ds : Entities} {cs rest : List Char} {r r' q : Reading} {offset : Nat}

/-- Whether both readings go from a text to what is left of it, the second one with its references
replaced, and are alike there. -/
def GoAlike (ds : Entities) (r r' : Reading) (cs rest : List Char) : Prop :=
  ∃ r₁ r₁', Alike ds r₁ r₁' ∧ Reads r cs r₁ rest ∧ Reads r' (expand ds cs) r₁' (expand ds rest)

/-- A token that is cut off of a text that is read is taken. -/
private theorem exists_step_of_readFrom {token : Token} (hne : cs ≠ [])
    (hcut : Cuts r.innermost? cs token rest) (h : readFrom r offset cs = .ok q) :
    ∃ r₁, r.step token = .ok r₁ ∧ Reads r cs r₁ rest := by
  cases hstep : r.step token with
  | ok r₁ => exact ⟨r₁, rfl, reads_of_cuts token hne hcut hstep⟩
  | error cause =>
    obtain ⟨fault, hfault⟩ := stops_of_step hne hcut hstep offset
    rw [h] at hfault
    cases hfault

/-- **Over a tag both readings go the same way.** -/
private theorem goAlike_startTag (hds : ∀ d ∈ ds, IsInert d) {key body : List Char}
    {parts : List (List Char × List Char)} {ending : TagEnd} (hkey : IsName key)
    (hinside : TagParts body parts) (hcut : ending ≠ .cut)
    (hbreaks : ∀ part ∈ parts, KeepsBreaks ds part.2) (hr : Alike ds r r')
    (hread : readFrom r offset ('<' :: (key ++ (body ++ (ending.text ++ rest)))) = .ok q) :
    GoAlike ds r r' ('<' :: (key ++ (body ++ (ending.text ++ rest)))) rest := by
  obtain ⟨token, hcuts, htoken⟩ := exists_cuts_startTag hkey hinside hcut rest
  obtain ⟨r₁, hstep, hreads⟩ := exists_step_of_readFrom (List.cons_ne_nil _ _) (hcuts _) hread
  rw [htoken] at hstep
  obtain ⟨e, he, rfl⟩ := map_eq_ok_iff.1 hstep
  obtain ⟨body', parts', hinside', hexpand, he'⟩ :=
    hinside.exists_readElement_expand hds hr.declared hkey hbreaks he
  obtain ⟨token', hcuts', htoken'⟩ := exists_cuts_startTag hkey hinside' hcut (expand ds rest)
  have hending : '&' ∉ ending.text := by cases ending <;> decide
  have hexpand' : expand ds ('<' :: (key ++ (body ++ (ending.text ++ rest))))
      = '<' :: (key ++ (body' ++ (ending.text ++ expand ds rest))) := by
    rw [expand_cons (by decide), expand_append_of_notMem (hkey.notMem rfl),
      hexpand, expand_append_of_notMem hending]
  refine ⟨taken ending e r, taken ending e r', ?_, hreads, ?_⟩
  · cases ending with
    | opened => exact hr.openFrame e
    | empty => exact hr.addAll (.refl [.node (.element e) []])
    | cut => exact absurd rfl hcut
  · rw [hexpand']
    refine reads_of_cuts token' (List.cons_ne_nil _ _) (hcuts' _) ?_
    rw [htoken', hr.entities, he']
    rfl

/-- **Over a run of text both readings go the same way.** The second one may have nothing to read. -/
private theorem goAlike_run (hds : ∀ d ∈ ds, IsInert d) {s : List Char} (hne : s ≠ [])
    (hsign : '<' ∉ s) (hrest : rest = [] ∨ rest.head? = some '<') (hr : Alike ds r r')
    (hread : readFrom r offset (s ++ rest) = .ok q) : GoAlike ds r r' (s ++ rest) rest := by
  obtain ⟨r₁, hstep, hreads⟩ := exists_step_of_readFrom (List.append_ne_nil_of_left_ne_nil hne _)
    (cuts_text hne hsign hrest _) hread
  rw [Reading.step] at hstep
  split at hstep
  case h_2 => cases hstep
  next text htext =>
  cases hstep
  have hunescapes := unescape_eq_ok_iff.1 htext
  have hexpanded := hunescapes.expand hds hr.declared
  rw [GoAlike, hunescapes.isClosed.expand_append]
  by_cases hnil : expand ds s = []
  · -- all that stood there has vanished
    rw [hnil] at hexpanded ⊢
    cases hexpanded
    exact ⟨_, r', hr.addAll lookAlike_empty, hreads, Reads.refl r' _⟩
  · have hrest' : expand ds rest = [] ∨ (expand ds rest).head? = some '<' := by
      rcases hrest with rfl | hhead
      · exact .inl expand_nil
      · obtain ⟨more, rfl⟩ := List.head?_eq_some_iff.1 hhead
        rw [expand_cons (by decide)]
        exact .inr rfl
    refine ⟨_, r'.addLeaf (.text (String.ofList text)),
      hr.addAll (.refl [.node (.text (String.ofList text)) []]), hreads,
      reads_of_cuts _ (List.append_ne_nil_of_left_ne_nil hnil _)
        (cuts_text hnil (notMem_expand hds (by simp) hsign) hrest' _) ?_⟩
    rw [Reading.step, hr.entities, unescape_eq_ok_iff.2 hexpanded]

/-- **Over a close tag both readings go the same way.** -/
private theorem goAlike_closeTag {key spaces : List Char} (hkey : IsName key)
    (hspaces : ∀ c ∈ spaces, isSpace c = true) (hr : Alike ds r r')
    (hread : readFrom r offset (Mark.closeTag ++ (key ++ (spaces ++ '>' :: rest))) = .ok q) :
    GoAlike ds r r' (Mark.closeTag ++ (key ++ (spaces ++ '>' :: rest))) rest := by
  have hne : ∀ rest, Mark.closeTag ++ (key ++ (spaces ++ '>' :: rest)) ≠ [] :=
    fun rest ↦ by simp [Mark.closeTag]
  have hname : r.innermost? = some (String.ofList key) := by
    refine Decidable.by_contra fun hname ↦ ?_
    obtain ⟨fault, hfault⟩ := stops_of_cut (hne rest) (by simp [Mark.closeTag])
      (fun offset ↦ exists_fault_of_closeTag hkey hspaces hname offset rest) offset
    rw [hread] at hfault
    cases hfault
  have hcuts : ∀ rest, Cuts (some (String.ofList key))
      (Mark.closeTag ++ (key ++ (spaces ++ '>' :: rest))) .closeTag rest :=
    fun rest ↦ cuts_closeTag String.toList_ofList hkey hspaces rest
  have hexpand : expand ds (Mark.closeTag ++ (key ++ (spaces ++ '>' :: rest)))
      = Mark.closeTag ++ (key ++ (spaces ++ '>' :: expand ds rest)) := by
    rw [expand_append_of_notMem (by decide),
      expand_append_of_notMem (hkey.notMem rfl),
      expand_append_of_notMem (notMem_spaces hspaces rfl),
      expand_cons (by decide)]
  refine ⟨r.close, r'.close, hr.close, reads_of_cuts .closeTag (hne rest) ?_ rfl, ?_⟩
  · rw [hname]
    exact hcuts rest
  · rw [hexpand]
    refine reads_of_cuts .closeTag (hne _) ?_ rfl
    rw [hr.innermost?, hname]
    exact hcuts _

/-- Over a piece of content both readings go the same way. -/
theorem goAlike_of_isPiece (hds : ∀ d ∈ ds, IsInert d) {p : Piece} (h : IsPiece cs p rest)
    (hcs : IsExpandable ds cs) (hr : Alike ds r r') (hread : readFrom r offset cs = .ok q) :
    GoAlike ds r r' cs rest := by
  cases h with
  | comment => exact absurd ⟨[], _, rfl⟩ hcs.bang
  | cdata => exact absurd ⟨[], _, rfl⟩ hcs.bang
  | instruction => exact absurd ⟨[], _, rfl⟩ hcs.instruction
  | @startTag tag key body _ parts ending htag hending hcut =>
    have hwithin : '<' :: (key ++ body) <:+: '<' :: (key ++ (body ++ (ending.text ++ rest))) :=
      ⟨[], ending.text ++ rest, by simp⟩
    have hbreaks := hcs.breaks key body parts htag.isName htag.inside hwithin
    by_cases hend : ending = .cut
    · -- the text is not read, since the tag does not end
      subst hend
      obtain rfl := hcut rfl
      rw [show TagEnd.text .cut = [] from rfl, List.append_nil, List.append_nil] at hread
      obtain ⟨fault, hfault⟩ := stops_of_cut (List.cons_ne_nil _ _)
        (by simp [htag.isName.ne_nil]) (exists_fault_of_tag htag.isName htag.inside _) offset
      rw [hread] at hfault
      cases hfault
    · exact goAlike_startTag hds htag.isName htag.inside hend hbreaks hr hread
  | closeTag hkey hq hspaces => exact goAlike_closeTag hkey hspaces hr hread
  | run hne hsign _ hrest => exact goAlike_run hds hne hsign hrest hr hread

/-- **Over content both readings go the same way.** -/
theorem exists_alike_of_arePieces (hds : ∀ d ∈ ds, IsInert d) (h : ArePieces cs)
    (hcs : IsExpandable ds cs) (hr : Alike ds r r') (hread : readFrom r offset cs = .ok q) :
    ∃ q', Alike ds q q' ∧ Reads r' (expand ds cs) q' [] := by
  induction h generalizing r r' offset with
  | nil =>
    rw [readFrom] at hread
    cases hread
    rw [expand_nil]
    exact ⟨r', hr, Reads.refl r' []⟩
  | @cons cs rest p hpiece _ ih =>
    obtain ⟨r₁, r₁', hr₁, hreads, hreads'⟩ := goAlike_of_isPiece hds hpiece hcs hr hread
    obtain ⟨offset', heq⟩ := hreads offset
    obtain ⟨q', hq', hreads''⟩ := ih (hcs.of_suffix hpiece.suffix) hr₁ (heq.symm.trans hread)
    exact ⟨q', hq', hreads'.trans hreads''⟩

end

/-! ## Documents with declared entities -/

/-- The text of a document with a document type and an internal subset. -/
def typedText (front : List Char) (t : Typed) (body : List Char) : List Char :=
  front ++ (Mark.doctype ++ (t.text ++ '>' :: body))

/-- Whether the strict check finds the document type where it stands, and its end where the body
starts. -/
def IsTyped (front : List Char) (t : Typed) (body : List Char) : Prop :=
  ∃ after entities, optionalDeclaration (typedText front t body) = .ok after ∧
    misc after = .ok (Mark.doctype ++ (t.text ++ '>' :: body)) ∧
    doctype (Mark.doctype ++ (t.text ++ '>' :: body)) (t.text ++ '>' :: body) = .ok (entities, body)

section

variable {front body : List Char} {t : Typed} {ds : Entities} {m : Markup}

/-- What is found before a body is found before any other. -/
private theorem IsTyped.exists_misc (h : IsTyped front t body) (body' : List Char) : ∃ after,
    optionalDeclaration (typedText front t body') = .ok after ∧
      misc after = .ok (Mark.doctype ++ (t.text ++ '>' :: body')) := by
  obtain ⟨after, -, hafter, haround, -⟩ := h
  obtain ⟨front', heq, hfront⟩ := exists_front_of_doctype hafter haround
  obtain rfl := List.append_cancel_right heq
  exact hfront (t.text ++ '>' :: body')

/-- **Up to its body a document is read as its entities declare**, and no element is found. -/
private theorem IsTyped.exists_reading (h : IsTyped front t body) (hdeclares : t.IsDeclaring ds)
    {body' : List Char} (hread : Markup.read (String.ofList (typedText front t body')) = .ok m) :
    ∃ r q offset, readFrom r offset body' = .ok q ∧ m = q.markup ∧ r.waiting = [] ∧
      r.opened = [] ∧ r.entities = Entities.collect [] (skipSpaces t.text) ∧
      shapeAll r.finished.reverse = [] := by
  obtain ⟨after, hafter, haround⟩ := h.exists_misc body'
  obtain ⟨-, hleads⟩ := leads_prolog hafter haround rfl (unmarked_suffix _)
  have hread' : (readFrom {} 0 (unmarked (typedText front t body'))).map Reading.markup = .ok m := by
    rw [← hread, Markup.read, String.toList_ofList]
    rfl
  obtain ⟨q, hq, rfl⟩ := map_eq_ok_iff.1 hread'
  obtain ⟨r, ⟨ts, hts, hr⟩, hreads⟩ | ⟨-, hstops⟩ := hleads {} ⟨rfl, rfl, rfl, .nil⟩
  · -- the document type comes next
    have hopened := hr.opened_eq_nil
    have htyped : Reads r (Mark.doctype ++ (t.text ++ '>' :: body'))
        (r.addDoctype (skipSpaces t.text)) body' :=
      reads_of_cuts _ (List.cons_ne_nil _ _) (hdeclares.cuts _ body') rfl
    obtain ⟨offset, heq⟩ := (hreads.trans htyped) 0
    refine ⟨_, q, offset, heq.symm.trans hq, rfl, ?_⟩
    rw [Reading.addDoctype]
    simp only [hopened, List.isEmpty_nil, if_true, hr.entities, hr.waiting, hr.finished, true_and]
    refine shapeAll_eq_nil fun u hu ↦ ?_
    rcases List.mem_cons.1 (List.mem_reverse.1 hu) with rfl | hu
    · rfl
    · exact hts.leaves u hu
  · obtain ⟨fault, hfault⟩ := hstops 0
    rw [hq] at hfault
    cases hfault

/-- **Documents are read alike** before and after their references have been replaced. -/
theorem shapeAll_eq_of_read (h : IsTyped front t body) (hdeclares : t.IsDeclaring ds)
    (hbody : IsExpandable ds body) (hcheck : check (String.ofList (typedText front t body)) = .ok ())
    (hread : Markup.read (String.ofList (typedText front t body)) = .ok m) {m' : Markup}
    (hread' : Markup.read (String.ofList (typedText front t (expand ds body))) = .ok m') :
    shapeAll m = shapeAll m' := by
  obtain ⟨r, q, offset, hq, rfl, hwaiting, hopened, hentities, hfinished⟩ :=
    h.exists_reading hdeclares hread
  obtain ⟨r', q', offset', hq', rfl, hwaiting', hopened', hentities', hfinished'⟩ :=
    h.exists_reading hdeclares hread'
  have hpieces : ArePieces body := by
    obtain ⟨after, entities, hafter, haround, hend⟩ := h
    rw [check_eq_ok_iff, String.toList_ofList] at hcheck
    exact arePieces_of_document hcheck hafter haround (afterPrefix?_eq_some_iff.2 rfl) hend
  have halike : Alike ds r r' := by
    refine ⟨fun name value hvalue ↦ ?_, hentities'.trans hentities.symm, ⟨hwaiting, hwaiting'⟩,
      hfinished.trans hfinished'.symm, ?_⟩
    · rw [hentities] at hvalue
      exact hdeclares.resolve?_of_collect hvalue
    · rw [hopened, hopened']
      exact .nil
  obtain ⟨q'', hq'', hreads⟩ :=
    exists_alike_of_arePieces hdeclares.subset.isInert hpieces hbody halike hq
  obtain ⟨last, heq⟩ := hreads offset'
  rw [hq', readFrom] at heq
  cases heq
  exact hq''.shapeAll_markup

end

end Gate

/-! ## The components -/

namespace Drawing

open Markup Gate

/-- **Declared entities mean their values.** If the document type of a text declares entities and
nothing else, the text with the references in its body replaced has the same components, if both
have components at all. -/
theorem componentsOf_expand {front body : List Char} {t : Typed} {ds : Entities}
    (h : IsTyped front t body) (hdeclares : t.IsDeclaring ds) (hbody : IsExpandable ds body)
    {forest forest' : List Component}
    (hforest : componentsOf (String.ofList (typedText front t body)) = .ok forest)
    (hforest' : componentsOf (String.ofList (typedText front t (expand ds body))) = .ok forest') :
    forest = forest' := by
  obtain ⟨p, hp, rfl⟩ := exists_parse_of_componentsOf hforest
  obtain ⟨p', hp', rfl⟩ := exists_parse_of_componentsOf hforest'
  obtain ⟨hcheck, m, hread, rfl⟩ := exists_markup_of_parse hp
  obtain ⟨-, m', hread', rfl⟩ := exists_markup_of_parse hp'
  exact components_ofMarkup_congr (shapeAll_eq_of_read h hdeclares hbody hcheck hread hread')

/-- A name that is declared twice, and used in an attribute and in a text. -/
theorem componentsOf_expand_width : ∃ t ds body forest,
    typedText [] t body
      = "<!DOCTYPE svg [<!ENTITY w \"42\"><!ENTITY w '7'>]><svg width=\"&w;\">&w; &lt;</svg>".toList ∧
    expand ds body = "<svg width=\"42\">42 &lt;</svg>".toList ∧
    IsTyped [] t body ∧ t.IsDeclaring ds ∧ IsExpandable ds body ∧
    componentsOf (String.ofList (typedText [] t body)) = .ok forest ∧
    componentsOf (String.ofList (typedText [] t (expand ds body))) = .ok forest := by
  have hname : IsName ['w'] := ⟨'w', [], rfl, rfl, by simp⟩
  have hsubset : Declares [(['w'], ['4', '2']), (['w'], ['7'])]
      "<!ENTITY w \"42\"><!ENTITY w '7'>".toList :=
    .cons_plain (.inl rfl) ⟨hname, by simp⟩
      (.cons_plain (.inr rfl) ⟨hname, by simp⟩ (.nil (by simp)))
  have hdeclares : Typed.IsDeclaring ⟨" svg ".toList, "<!ENTITY w \"42\"><!ENTITY w '7'>".toList, []⟩
      [(['w'], ['4', '2']), (['w'], ['7'])] :=
    ⟨.of_notMem (by decide) (by decide), by rw [← occursIn_iff]; decide, hsubset, by simp, by simp⟩
  have hbody : IsExpandable [(['w'], ['4', '2']), (['w'], ['7'])]
      "<svg width=\"&w;\">&w; &lt;</svg>".toList :=
    isExpandable_of_notMem _ (by rw [← occursIn_iff]; decide +kernel)
      (by rw [← occursIn_iff]; decide +kernel) (by decide +kernel)
  have htyped : IsTyped [] ⟨" svg ".toList, "<!ENTITY w \"42\"><!ENTITY w '7'>".toList, []⟩
      "<svg width=\"&w;\">&w; &lt;</svg>".toList := ⟨_, _, by cbv, by cbv, by cbv⟩
  obtain ⟨forest, hforest⟩ : ∃ forest, componentsOf (String.ofList (typedText []
      ⟨" svg ".toList, "<!ENTITY w \"42\"><!ENTITY w '7'>".toList, []⟩
      "<svg width=\"&w;\">&w; &lt;</svg>".toList)) = .ok forest :=
    ⟨[.node ⟨"svg-0", "svg", none,
      .ofList [("_text", "42 <"), ("id", "svg-0"), ("width", "42")]⟩ []], by cbv⟩
  obtain ⟨forest', hforest'⟩ : ∃ forest, componentsOf (String.ofList (typedText []
      ⟨" svg ".toList, "<!ENTITY w \"42\"><!ENTITY w '7'>".toList, []⟩
      (expand [(['w'], ['4', '2']), (['w'], ['7'])]
        "<svg width=\"&w;\">&w; &lt;</svg>".toList))) = .ok forest :=
    ⟨[.node ⟨"svg-0", "svg", none,
      .ofList [("_text", "42 <"), ("id", "svg-0"), ("width", "42")]⟩ []], by cbv⟩
  obtain rfl := componentsOf_expand htyped hdeclares hbody hforest hforest'
  exact ⟨_, _, _, forest, by cbv, by cbv, htyped, hdeclares, hbody, hforest, hforest'⟩

/-- With a carriage return before a reference and a line feed after it, the value of an attribute
holds two breaks. If the reference stands for nothing, there is one break without it. -/
theorem exists_componentsOf_expand_ne : ∃ t ds body forest forest',
    typedText [] t body = "<!DOCTYPE svg [<!ENTITY e \"\">]><svg a=\"\r&e;\n\"/>".toList ∧
    expand ds body = "<svg a=\"\r\n\"/>".toList ∧
    IsTyped [] t body ∧ t.IsDeclaring ds ∧ ¬ Mark.bang <:+: body ∧
    ¬ Mark.openInstruction <:+: body ∧
    componentsOf (String.ofList (typedText [] t body)) = .ok forest ∧
    componentsOf (String.ofList (typedText [] t (expand ds body))) = .ok forest' ∧
    forest ≠ forest' := by
  have hinert : IsInert (['e'], []) :=
    ⟨⟨'e', [], rfl, rfl, by simp⟩, by simp⟩
  have hsubset : Declares [(['e'], [])] "<!ENTITY e \"\">".toList :=
    .cons_plain (.inl rfl) hinert (.nil (by simp))
  have hdeclares : Typed.IsDeclaring ⟨" svg ".toList, "<!ENTITY e \"\">".toList, []⟩ [(['e'], [])] :=
    ⟨.of_notMem (by decide) (by decide), by rw [← occursIn_iff]; decide, hsubset, by simp, by simp⟩
  refine ⟨⟨" svg ".toList, "<!ENTITY e \"\">".toList, []⟩, [(['e'], [])],
    "<svg a=\"\r&e;\n\"/>".toList,
    [.node ⟨"svg-0", "svg", none, .ofList [("a", "  "), ("id", "svg-0")]⟩ []],
    [.node ⟨"svg-0", "svg", none, .ofList [("a", " "), ("id", "svg-0")]⟩ []],
    by cbv, by cbv, ⟨_, _, by cbv, by cbv, by cbv⟩, hdeclares, ?_, ?_, by cbv, by cbv, by decide⟩
  · rw [← occursIn_iff]
    decide +kernel
  · rw [← occursIn_iff]
    decide +kernel

end Drawing

end SvgWorkbench
